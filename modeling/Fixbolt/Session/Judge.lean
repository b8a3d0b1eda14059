import Fixbolt.Session.Send

/-!
# Judging one message

`judge` is the function of the source, cut where its text is: reading the frame, what is decided
before the sequence number (`judgeFrame`, `judgeHeader`), the sequence number (`judgeSequence`),
and what each message type does once it is accepted (`judgeAccepted`).
-/

namespace Fixbolt

/-- The message types that the session answers itself. -/
def sessionOwned : List Bytes :=
  [ascii "0", ascii "1", ascii "2", ascii "3", ascii "4", ascii "5", ascii "A"]

/-- Routing tags, and what each becomes on the way back. -/
def routing : List (ℕ × ℕ) :=
  [(115, 128), (116, 129), (144, 145), (128, 115), (129, 116), (145, 144)]

/-- The `35=` of bytes that could not be parsed. -/
def msgTypeOf (bytes : Bytes) : Option Bytes :=
  let start :=
    if (ascii "35=").isPrefixOf bytes then some 3
    else (findSub (SOH :: ascii "35=") bytes).map (· + 4)
  start.bind fun n =>
    ((bytes.drop n).findIdx? (· == SOH)).map fun len => (bytes.drop n).take len

/-- Digits behind an optional `-`. -/
def isSignedInteger (v : Bytes) : Bool := unsignedInt (stripMinus v)

/-- The routing tags of a message, reversed. An empty one is not echoed. -/
def routeOf (view : MessageView) : List (ℕ × Bytes) :=
  routing.filterMap fun (from_, back) =>
    (copy 32 ((view.get from_).filter fun v => !v.isEmpty)).map fun v => (back, v)

/-- What a session reads out of a message before it decides anything. -/
structure Inbound where
  msgType : Bytes
  seq : ℕ
  possDup : Bool
  gapFill : Bool
  resetSeq : Bool
  newSeqNo : Option ℕ
  beginSeqNo : Option ℕ
  endSeqNo : Option ℕ
  nextExpected : Option ℕ
  origSendingTime : Option ℕ
  sendingTime : Option ℕ
  testReqId : Option Bytes
  encrypt : Option Bytes
  heartBt : Option Bytes
  hasApplVerId : Bool
  theirApplVerId : Option Bytes
  refMsgType : Option Bytes
  route : List (ℕ × Bytes)
deriving DecidableEq, Repr

namespace Inbound

/-- The number a field holds, when it holds one. -/
def number (view : MessageView) (tag : ℕ) : Option ℕ := (view.get tag).bind asU32?

/-- The fields of a message that was numbered `seq`. -/
def read (view : MessageView) (seq : ℕ) : Inbound where
  msgType := (view.get 35).getD []
  seq := seq
  possDup := view.get 43 == some (ascii "Y")
  gapFill := view.get 123 == some (ascii "Y")
  resetSeq := view.get 141 == some (ascii "Y")
  newSeqNo := number view 36
  beginSeqNo := number view 7
  endSeqNo := number view 16
  nextExpected := number view 789
  origSendingTime := (view.get 122).bind parseUtc
  sendingTime := (view.get 52).bind parseUtc
  testReqId := copy 64 (view.get 112)
  encrypt := copy 8 (view.get 98)
  heartBt := copy 8 (view.get 108)
  hasApplVerId := (view.get 1137).isSome
  theirApplVerId := copy maxApplVerIdLen (view.get 1137)
  refMsgType := copy 8 (view.get 35)
  route := routeOf view

variable (m : Inbound)

/-- A Logon. -/
def isLogon : Bool := m.msgType == ascii "A"

/-- A Logout. -/
def isLogout : Bool := m.msgType == ascii "5"

/-- A TestRequest. -/
def isTestRequest : Bool := m.msgType == ascii "1"

/-- A ResendRequest. -/
def isResendRequest : Bool := m.msgType == ascii "2"

/-- A SequenceReset. -/
def isSequenceReset : Bool := m.msgType == ascii "4"

/-- A message of the application. -/
def isApplication : Bool := !sessionOwned.contains m.msgType

/-- The types whose number is not checked at all. -/
def skipsSequencing : Bool :=
  m.isLogout || m.isResendRequest || m.isSequenceReset && !m.gapFill

/-- Is the number checked against those already used? -/
def checkTooLow : Bool := !m.skipsSequencing

/-- Is the number checked against running ahead? -/
def checkTooHigh : Bool := !m.skipsSequencing && !m.isLogon

/-- A Reject of this message. -/
def reject (text : SessionText) (refTag : Option Bytes) : Reject :=
  ⟨text, refTag, m.refMsgType, some m.seq, m.route⟩

end Inbound

/-! ### Before the sequence number -/

/-- What the parser makes of received bytes. -/
def frameOf (P : Params) (bytes : Bytes) : ParseResult :=
  parseInto P.dict.toDictionary P.capacity bytes .all

/-- Received bytes, through the index that the parser filled. -/
def viewOf (P : Params) (bytes : Bytes) : MessageView := ⟨bytes, (frameOf P bytes).index⟩

namespace Session

/-- The engine's clock less a message's, in the width the source keeps it in. -/
def skewOf (now t : ℕ) : ℤ :=
  if t ≤ now then min ((now : ℤ) - t) (2 ^ 63 - 1) else max ((now : ℤ) - t) (-(2 ^ 63))

/-- Is the sender the counterparty? -/
def senderOk (s : Session) (view : MessageView) : Bool :=
  (view.get 49).any s.cfg.inboundSenderMatches

/-- Is the message meant for this end? -/
def targetOk (s : Session) (view : MessageView) : Bool :=
  (view.get 56).any s.cfg.inboundTargetMatches

/-- Is `52=` readable and near the last tick? -/
def timeOk (s : Session) (view : MessageView) : Bool :=
  ((view.get 52).bind parseUtc).any fun t =>
    decide ((if t ≤ s.nowMs then s.nowMs - t else t - s.nowMs) ≤ s.cfg.maxSkewMs)

/-- Note how far off a readable `52=` is. -/
def noteSkew (s : Session) (view : MessageView) : Session :=
  match (view.get 52).bind parseUtc with
  | some t => { s with lastSkewMs := some (skewOf s.nowMs t) }
  | none => s

/-- What is wrong with a message of an agreed session. -/
def faultOf (P : Params) (s : Session) (view : MessageView) (msgType : Bytes) : Option Fault :=
  if s.state ≠ .loggedOn then none
  else if !P.dict.isMsgType msgType then some (.invalidMsgType, none)
  else
    let (fault, seen) := scanFields P.dict view msgType s.cfg.validation
    fault <|>
      (if s.cfg.isFixt then outOfFamilyApplVerId P.dict view msgType else none) <|>
      missingRequired P.dict view msgType <|> badGroupCount P.dict view msgType <|>
      scanGroupMembers P.dict view msgType s.cfg.validation seen <|>
      (if s.senderOk view && s.targetOk view then none else some (.compIdProblem, none)) <|>
      (if s.timeOk view then none else some (.sendingTimeAccuracyProblem, none))

/-- What refuses a message outright, in the order the source asks. -/
def refusalOf (s : Session) (view : MessageView) : Option Refusal :=
  if s.nowMs = 0 then some .neverTicked
  else if !s.cfg.schedule.contains s.nowMs then some .outsideSchedule
  else if s.state = .awaitingLogon ∧ view.get 35 ≠ some (ascii "A") then some .notALogon
  else none

/-- What refuses a first message whose sender, target or clock is not right. -/
def identityRefusal (s : Session) (view : MessageView) : Option Refusal :=
  if s.state ≠ .awaitingLogon then none
  else if !s.senderOk view then some .wrongSenderCompId
  else if !s.targetOk view then some .wrongTargetCompId
  else if !s.timeOk view then some .badSendingTime
  else none

/-- Both counts at 1 again. -/
def restartCounts (s : Session) : Session := { s with nextIn := 1, nextOut := 1 }

/-- The session once it has accepted a message: its clock and the number it processed last. -/
def accept (s : Session) (seq : ℕ) : Session :=
  { s with lastRecvMs := s.nowMs, testRequests := 0, lastIn := seq }

/-- The session once it has consumed the number of a message and accepted it. A SequenceReset
and a Logon move the count elsewhere. -/
def consume (s : Session) (m : Inbound) : Session :=
  (if m.isSequenceReset || m.isLogon then s else s.advancePast m.seq).accept m.seq

/-- What the counterparty expects is owed when it is less than was sent before the answer. -/
def owe (s : Session) (before : ℕ) (want : Option ℕ) : Session :=
  match want with
  | some want =>
    if want < before then { s with owed := some ⟨want, wrapU32 (s.nextOut + u32Max)⟩ } else s
  | none => s

/-- The session once an application message of its own went out. -/
def spent (s : Session) (kept : Bool) : Session :=
  { s with
    putsRefused := if kept then s.putsRefused else wrapU32 (s.putsRefused + 1)
    nextOut := wrapU32 (s.nextOut + 1)
    lastSentMs := s.nowMs }

end Session

namespace Scene

variable (P : Params)

/-- Bytes that cannot be read: a Logon ends the session, anything else is ignored. -/
def garbled (w : Scene) (bytes : Bytes) : Scene × Link :=
  if msgTypeOf bytes = some (ascii "A") then (w.endSession .logonIncomplete, .dropped) else (w, .up)

/-- A Logon with `141=Y` restarts both counts before its own number is judged. -/
def restartOn (w : Scene) (m : Inbound) : Scene :=
  if m.isLogon && m.resetSeq then (w.upd (·.restartCounts)).logRestart else w

/-! ### What each type does once it is accepted -/

/-- The slots of the answer to a Logon. -/
def logonAnswer (s : Session) (m : Inbound) (encrypt heartBt : Bytes) : List (ℕ × Bytes) :=
  [(98, encrypt), (108, heartBt)] ++ (if m.resetSeq then [(141, ascii "Y")] else []) ++
    (if s.cfg.nextExpected then [(789, renderU32 (min (s.nextIn + 1) u32Max))] else []) ++
    (s.cfg.applVerIdHeld.map fun v => (1137, v)).toList

/-- The number of a Logon that was answered: ahead of the count, or the next one. -/
def placeLogon (w : Scene) (m : Inbound) (bytes : Bytes) : Scene × Except Refusal Link :=
  if w.ses.nextIn < m.seq then (w.tooHigh P m.seq bytes).map id .ok
  else (w.upd (·.advancePast m.seq), .ok .up)

/-- A Logon that is accepted, from the answer on. -/
def logonAccepted (w : Scene) (m : Inbound) (bytes encrypt heartBt : Bytes) :
    Scene × Except Refusal Link :=
  let before := w.ses.nextOut
  let w := (w.upd fun s =>
    { s with beatMs := ((asU32? heartBt).map (· * 1000)).getD 0, state := .loggedOn }).log .loggedOn
  match if P.speaksFirst then some w
      else w.send P .logon (logonAnswer w.ses m encrypt heartBt) with
  | none => (w, .error .cannotSend)
  | some w => (w.upd (·.owe before m.nextExpected)).placeLogon P m bytes

/-- A Logon. -/
def judgeLogon (w : Scene) (m : Inbound) (bytes : Bytes) : Scene × Except Refusal Link :=
  if w.ses.cfg.isFixt && !m.hasApplVerId then (w, .error .logonWithoutDefaultApplVerId)
  else match m.encrypt, m.heartBt with
    | some encrypt, some heartBt =>
      let w := w.upd fun s => { s with peerApplVerId := m.theirApplVerId }
      if m.nextExpected.any (w.ses.nextOut < ·) then
        ((w.upd (·.noteDropReason .nextExpectedTooHigh)).logoutNow P
          (ascii "NextExpectedMsgSeqNum too high")).map id .ok
      else w.logonAccepted P m bytes encrypt heartBt
    | _, _ => (w, .error .logonIncomplete)

/-- A Logout: answered unless this end began the exchange. -/
def judgeLogout (w : Scene) : Scene × Except Refusal Link :=
  if w.ses.state = .loggingOut then (w.endSession .peerLogout, .ok .dropped)
  else match w.send P .logout [] with
    | none => (w, .error .cannotSend)
    | some w => (w.endSession .peerLogout, .ok .dropped)

/-- A TestRequest: answered with its own `112=`. -/
def judgeTestRequest (w : Scene) (m : Inbound) : Scene × Except Refusal Link :=
  match w.send P .heartbeat [(112, m.testReqId.getD [])] with
  | none => (w, .error .cannotSend)
  | some w => (w, .ok .up)

/-- The last number a ResendRequest is answered up to. -/
def resendEnd (nextOut : ℕ) (endSeqNo : Option ℕ) : ℕ :=
  match endSeqNo with
  | some n => if n ≠ 0 ∧ n ≤ nextOut - 1 then n else nextOut - 1
  | none => nextOut - 1

/-- A ResendRequest: what is owed is recorded, and sent later. -/
def judgeResendRequest (w : Scene) (m : Inbound) : Scene × Except Refusal Link :=
  match m.beginSeqNo with
  | some begin_ =>
    let stop := resendEnd w.ses.nextOut m.endSeqNo
    if begin_ ≤ stop then (w.upd fun s => { s with owed := some ⟨begin_, stop⟩ }, .ok .up)
    else (w, .ok .up)
  | none => (w, .ok .up)

/-- A SequenceReset: the inbound count moves forwards only. -/
def judgeSequenceReset (w : Scene) (m : Inbound) : Scene × Except Refusal Link :=
  match m.newSeqNo with
  | none => (w, .ok .up)
  | some n =>
    if w.ses.nextIn < n then (w.upd fun s => { s with nextIn := n }, .ok .up)
    else if n < w.ses.nextIn then
      (w.sendReject P (m.reject .valueIsIncorrect none)).map id .ok
    else (w, .ok .up)

/-- A message behind the count: an admitted repeat is dropped in silence, or challenged about its
`122=`; any other ends the session. -/
def judgeTooLow (w : Scene) (m : Inbound) : Scene × Link :=
  if !m.possDup then
    w.logoutWith P (.msgSeqNumTooLow w.ses.nextIn m.seq)
  else if m.isSequenceReset then (w, .up)
  else match m.origSendingTime with
    | none => w.sendReject P (m.reject .requiredTagMissing (tagText 122))
    | some orig =>
      if m.sendingTime.any (· < orig) then
        w.sendReject P (m.reject .sendingTimeAccuracyProblem none)
      else (w, .up)

/-- The inbound count past the number of a message with an unreadable tag. -/
def skipBadTag (w : Scene) (seq : Option ℕ) : Scene :=
  match seq with
  | some seq =>
    if w.ses.nextIn ≤ seq then w.upd fun s => { s with nextIn := wrapU32 (seq + 1) } else w
  | none => w

/-- A message with an unreadable tag, on a session that is logged on: a number that is no tag is
refused, anything else is garbled. -/
def judgeBadTag (w : Scene) (view : MessageView) (pos : ℕ) (bytes : Bytes) :
    Scene × Link :=
  let text := tagTextAt bytes pos
  if !text.any isSignedInteger then w.garbled bytes
  else
    let seq := Inbound.number view 34
    (w.skipBadTag seq).sendReject P
      ⟨.invalidTagNumber, copy 12 text, copy 8 (view.get 35), seq, []⟩

end Scene

namespace World

variable (P : Params) {A J : Type} [Application A] [Journal J]

/-- The world once an answer of the application went out. -/
def replied (w : World A J) (seq : ℕ) (bytes : Bytes) : World A J :=
  let (journal, kept) := Journal.put w.journal seq bytes
  { w with
    ses := w.ses.spent kept
    journal := journal
    hist := .emitted (.reply seq bytes) :: .stored seq bytes kept :: w.hist }

/-- An application message: handed over, and answered if the application answers. -/
def judgeApplication (w : World A J) (bytes : Bytes) : World A J × Except Refusal Link :=
  if w.ses.out.isNone then (w, .error .cannotSend)
  else
    let header : Header :=
      { seq := w.ses.nextOut, stamp := w.ses.stampNow
        lastProcessed := if w.ses.cfg.lastProcessed then some w.ses.lastIn else none }
    let (app, answer) := Application.onMessage w.app bytes header
    let handed : World A J := { w with app := app, hist := .delivered w.ses bytes :: w.hist }
    match answer with
    | none => (handed, .ok .up)
    | some reply => (handed.replied header.seq reply, .ok .up)

/-- What is done with a message that is in order and without fault. -/
def judgeAccepted (w : World A J) (m : Inbound) (bytes : Bytes) :
    World A J × Except Refusal Link :=
  if m.isLogon then w.lift (·.judgeLogon P m bytes)
  else if m.isLogout then w.lift (·.judgeLogout P)
  else if m.isTestRequest then w.lift (·.judgeTestRequest P m)
  else if m.isResendRequest then w.lift (·.judgeResendRequest m)
  else if m.isSequenceReset then w.lift (·.judgeSequenceReset P m)
  else if m.isApplication then w.judgeApplication bytes
  else (w, .ok .up)

/-- A message that is in order: its number is consumed, and then it is looked at. -/
def judgeInOrder (w : World A J) (m : Inbound) (fault : Option Fault) (bytes : Bytes) :
    World A J × Except Refusal Link :=
  let w : World A J := { w with ses := w.ses.consume m }
  match fault with
  | some f => w.lift fun c => (c.sendReject P (m.reject f.1 f.2)).map id .ok
  | none => w.judgeAccepted P m bytes

/-- The sequence number of a message. -/
def judgeSequence (w : World A J) (m : Inbound) (fault : Option Fault) (bytes : Bytes) :
    World A J × Except Refusal Link :=
  let w : World A J := { w with toScene := w.toScene.restartOn m }
  if m.checkTooLow ∧ m.seq < w.ses.nextIn then
    w.lift fun c => (c.judgeTooLow P m).map id .ok
  else if m.checkTooHigh ∧ w.ses.nextIn < m.seq then
    w.lift fun c => (c.tooHigh P m.seq bytes).map id .ok
  else w.judgeInOrder P m fault bytes

/-- A message whose frame and `BeginString` are right. -/
def judgeHeader (w : World A J) (view : MessageView) (bytes : Bytes) :
    World A J × Except Refusal Link :=
  match w.ses.refusalOf view with
  | some why => (w, .error why)
  | none =>
    let w : World A J := { w with ses := w.ses.noteSkew view }
    match w.ses.identityRefusal view with
    | some why => (w, .error why)
    | none =>
      match Inbound.number view 34 with
      | none => (w, .error .badSeqNum)
      | some seq =>
        let fault := w.ses.faultOf P view ((view.get 35).getD [])
        w.judgeSequence P (Inbound.read view seq) fault bytes

/-- A message that was read whole. -/
def judgeFrame (w : World A J) (view : MessageView) (bytes : Bytes) :
    World A J × Except Refusal Link :=
  if (view.fieldAt 2).map (·.1) ≠ some 35 then
    w.lift fun c => (c.garbled bytes).map id .ok
  else if !(view.get 8).any w.ses.cfg.beginString.isMatch then
    if w.ses.state = .loggedOn then
      w.lift fun c => (c.logoutWith P .incorrectBeginString).map id .ok
    else (w, .error .wrongBeginString)
  else w.judgeHeader P view bytes

/-- Judge what was received. -/
def judge (w : World A J) (bytes : Bytes) : World A J × Except Refusal Link :=
  let w : World A J := { w with hist := .judged w.ses bytes :: w.hist }
  let view := viewOf P bytes
  match (frameOf P bytes).outcome with
  | .ok .incomplete => (w, .ok .up)
  | .ok (.complete _) => w.judgeFrame P view bytes
  | .error (.badTag pos) =>
    if w.ses.state = .loggedOn then w.lift fun c => (c.judgeBadTag P view pos bytes).map id .ok
    else w.lift fun c => (c.garbled bytes).map id .ok
  | .error _ => w.lift fun c => (c.garbled bytes).map id .ok

end World

end Fixbolt
