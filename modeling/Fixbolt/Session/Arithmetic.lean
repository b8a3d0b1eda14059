import Fixbolt.Session.Machine

/-!
# The arithmetic of a session

What the source adds, subtracts and multiplies in fixed widths, call by call: each `…Ops` lists the
operations of the function it is named after, in the source's order and along the same branches.
Saturating and checked operations cannot overflow and are left out.

* `receivedWithOps`, `tickWithOps`, `tickAtWithOps`, `sendApplicationOps`: those of the entry points;
* `continueReplayOps`: those of a resend.
-/

namespace Fixbolt

/-- An addition, a subtraction or a multiplication of numbers of `width` bits. -/
inductive Op where
  | add (width a b : ℕ)
  | sub (a b : ℕ)
  | mul (width a b : ℕ)
deriving DecidableEq, Repr

namespace Op

/-- Does the result fit? -/
def Fits : Op → Prop
  | add width a b => a + b < 2 ^ width
  | sub a b => b ≤ a
  | mul width a b => a * b < 2 ^ width

instance : ∀ o : Op, Decidable o.Fits
  | add _ _ _ => inferInstanceAs (Decidable (_ < _))
  | sub _ _ => inferInstanceAs (Decidable (_ ≤ _))
  | mul _ _ _ => inferInstanceAs (Decidable (_ < _))

end Op

/-- Nothing overflows. -/
def AllFit (ops : List Op) : Prop := ∀ o ∈ ops, o.Fits

instance (ops : List Op) : Decidable (AllFit ops) := inferInstanceAs (Decidable (∀ o ∈ ops, _))

namespace Schedule

/-- Where the interval around a local instant began. -/
def startLocalOps (w : Window) (local_ : ℕ) : List Op :=
  let into := local_ % w.periodMs
  let base := local_ - into
  .sub local_ into ::
    (if w.open_ < w.close then
      if w.open_ ≤ into ∧ into < w.close then [.add 64 base w.open_] else []
    else if w.open_ ≤ into then [.add 64 base w.open_]
    else if into < w.close then [.add 64 base w.open_]
    else [])

/-- When the session an instant belongs to began. -/
def sessionStartOps (s : Schedule) (t : ℕ) : List Op :=
  match s.window with
  | none => []
  | some w =>
    match checkedAddSigned t s.offsetMs with
    | none => []
    | some local_ =>
      startLocalOps w local_ ++
        match startLocal w local_ with
        | none => []
        | some start => if w.periodMs = dayMs then [.add 64 (start / dayMs) 5] else []

end Schedule

namespace Scene

variable (P : Params)

/-- A message under the next number. -/
def sendOps (w : Scene) (which : Which) (extra : List (ℕ × Bytes)) : List Op :=
  if (w.send P which extra).isSome then [.add 32 w.ses.nextOut 1] else []

/-- The inbound count past a number. -/
def advancePastOps (seq : ℕ) : List Op := [.add 32 seq 1]

/-- A gap. -/
def tooHighOps (w : Scene) (seq : ℕ) (bytes : Bytes) : List Op :=
  let w := w.enqueue seq bytes
  if w.ses.resendFrom ≠ 0 ∧ w.ses.resendFrom ≤ seq then []
  else
    let asked := w.upd fun s => { s with resendFrom := s.nextIn, resendTo := seq - 1 }
    .sub seq 1 :: asked.sendOps P .resendRequest [(7, renderU32 w.ses.nextIn), (16, ascii "0")]

/-- A Logout that says why. -/
def logoutWithOps (w : Scene) (why : SessionText) : List Op :=
  w.sendOps P .logout [(58, why.render)]

/-- A Reject, and for two of its reasons a Logout. -/
def sendRejectOps (w : Scene) (r : Reject) : List Op :=
  w.sendOps P .reject r.slots ++
    match w.send P .reject r.slots with
    | none => []
    | some w => if r.endsSession then w.sendOps P .logout [] else []

/-- A Logout. -/
def logoutNowOps (w : Scene) (text : Bytes) : List Op :=
  if w.ses.state = .disconnected ∨ w.ses.state = .awaitingLogout then []
  else w.sendOps P .logout [(58, text)]

section Replay

variable {J : Type} [Journal J]

/-- The search for the next number that the journal holds. -/
def skipMissingOps (j : J) (stop : ℕ) : ℕ → ℕ → List Op
  | _, 0 => []
  | n, left + 1 =>
    if n ≤ stop ∧ (Journal.get j n).isNone then
      .add 32 n 1 :: skipMissingOps j stop (wrapU32 (n + 1)) left
    else []

/-- The end of a gap fill. -/
def fillEndOps (j : J) (from_ stop : ℕ) : List Op :=
  let floor := (Journal.oldest j).getD u32Max
  let n := if from_ < floor then min floor (min (stop + 1) u32Max) else min (from_ + 1) u32Max
  skipMissingOps j stop n (stop + 1 - n)

/-- The loop of a resend, which has sent `spent` messages. -/
def replayLoopOps (j : J) : ℕ → ℕ → Scene → Replay → List Op
  | 0, _, _, _ => []
  | budget + 1, spent, w, r =>
    if r.stop < r.next then []
    else match w.replay P j r.next with
      | none => []
      | some (some w) =>
        [.add 32 r.next 1, .add 32 spent 1] ++
          replayLoopOps j budget (spent + 1) w { r with next := wrapU32 (r.next + 1) }
      | some none =>
        let upto := fillEnd j r.next r.stop
        let lost := lostBelowFloor j r.next upto
        let counted := w.upd fun s =>
          { s with resendBeyondJournal := wrapU32 (s.resendBeyondJournal + lost) }
        fillEndOps j r.next r.stop ++
          (if (Journal.oldest j).isSome then [.add 32 w.ses.resendBeyondJournal lost] else []) ++
          match counted.fill P r.next upto with
          | none => []
          | some w =>
            .add 32 spent 1 :: replayLoopOps j budget (spent + 1) w { r with next := upto }

/-- The next batch of what is owed. -/
def continueReplayOps (w : Scene) (j : J) : List Op :=
  match w.ses.owed with
  | none => []
  | some r => replayLoopOps P j (max w.ses.cfg.resendBatch 1) 0 w r

/-- A resend that is moved forward while the link is up. -/
def advanceReplayOps (w : Scene) (j : J) (link : Link) : List Op :=
  if link = .up ∧ w.ses.owed.isSome then w.continueReplayOps P j else []

end Replay

/-! ### Judging -/

/-- What the counterparty expects is owed. -/
def oweOps (w : Scene) (before : ℕ) (want : Option ℕ) : List Op :=
  if want.any (· < before) then [.sub w.ses.nextOut 1] else []

/-- The number of a Logon that was answered. -/
def placeLogonOps (w : Scene) (m : Inbound) (bytes : Bytes) : List Op :=
  if w.ses.nextIn < m.seq then w.tooHighOps P m.seq bytes else advancePastOps m.seq

/-- A Logon that is accepted. -/
def logonAcceptedOps (w : Scene) (m : Inbound) (bytes encrypt heartBt : Bytes) : List Op :=
  let before := w.ses.nextOut
  let w := (w.upd fun s =>
    { s with beatMs := ((asU32? heartBt).map (· * 1000)).getD 0, state := .loggedOn }).log .loggedOn
  ((asU32? heartBt).map fun n => .mul 64 n 1000).toList ++
    (if P.speaksFirst then [] else w.sendOps P .logon (logonAnswer w.ses m encrypt heartBt)) ++
    match if P.speaksFirst then some w
        else w.send P .logon (logonAnswer w.ses m encrypt heartBt) with
    | none => []
    | some w =>
      w.oweOps before m.nextExpected ++
        (w.upd (·.owe before m.nextExpected)).placeLogonOps P m bytes

/-- A Logon. -/
def judgeLogonOps (w : Scene) (m : Inbound) (bytes : Bytes) : List Op :=
  if w.ses.cfg.isFixt && !m.hasApplVerId then []
  else match m.encrypt, m.heartBt with
    | some encrypt, some heartBt =>
      let w := w.upd fun s => { s with peerApplVerId := m.theirApplVerId }
      if m.nextExpected.any (w.ses.nextOut < ·) then
        (w.upd (·.noteDropReason .nextExpectedTooHigh)).logoutNowOps P
          (ascii "NextExpectedMsgSeqNum too high")
      else w.logonAcceptedOps P m bytes encrypt heartBt
    | _, _ => []

/-- A Logout. -/
def judgeLogoutOps (w : Scene) : List Op :=
  if w.ses.state = .loggingOut then [] else w.sendOps P .logout []

/-- A TestRequest. -/
def judgeTestRequestOps (w : Scene) (m : Inbound) : List Op :=
  w.sendOps P .heartbeat [(112, m.testReqId.getD [])]

/-- A SequenceReset. -/
def judgeSequenceResetOps (w : Scene) (m : Inbound) : List Op :=
  match m.newSeqNo with
  | none => []
  | some n =>
    if w.ses.nextIn < n then []
    else if n < w.ses.nextIn then w.sendRejectOps P (m.reject .valueIsIncorrect none)
    else []

/-- A message behind the count. -/
def judgeTooLowOps (w : Scene) (m : Inbound) : List Op :=
  if !m.possDup then w.logoutWithOps P (.msgSeqNumTooLow w.ses.nextIn m.seq)
  else if m.isSequenceReset then []
  else match m.origSendingTime with
    | none => w.sendRejectOps P (m.reject .requiredTagMissing (tagText 122))
    | some orig =>
      if m.sendingTime.any (· < orig) then
        w.sendRejectOps P (m.reject .sendingTimeAccuracyProblem none)
      else []

/-- The number of a message with an unreadable tag. -/
def skipBadTagOps (w : Scene) (seq : Option ℕ) : List Op :=
  match seq with
  | some seq => if w.ses.nextIn ≤ seq then [.add 32 seq 1] else []
  | none => []

/-- A message with an unreadable tag. -/
def judgeBadTagOps (w : Scene) (view : MessageView) (pos : ℕ) (bytes : Bytes) : List Op :=
  let text := tagTextAt bytes pos
  if !text.any isSignedInteger then []
  else
    let seq := Inbound.number view 34
    w.skipBadTagOps seq ++ (w.skipBadTag seq).sendRejectOps P
      ⟨.invalidTagNumber, copy 12 text, copy 8 (view.get 35), seq, []⟩

/-! ### The clock -/

/-- A boundary that passed. -/
def rollOps (w : Scene) (nowMs : ℕ) : List Op :=
  match w.ses.sessionMark with
  | none => []
  | some mark =>
    w.ses.cfg.schedule.sessionStartOps mark ++ w.ses.cfg.schedule.sessionStartOps nowMs

/-- This end owes the Logon. -/
def tickMustLogonOps (w : Scene) (nowMs : ℕ) : List Op :=
  .mul 64 w.ses.cfg.heartBtInt 1000 :: (w.upd fun s =>
    { s with
      state := .awaitingLogon, beatMs := s.cfg.heartBtInt * 1000
      lastRecvMs := nowMs }).sendOps P .logon w.ses.openingSlots

/-- The heartbeat rules. -/
def tickHeartbeatOps (w : Scene) (nowMs : ℕ) : List Op :=
  if w.ses.beatMs = 0 then []
  else
    let beat := w.ses.beatMs
    let quiet := nowMs - w.ses.lastRecvMs
    let silent := nowMs - w.ses.lastSentMs
    .mul 64 beat 24 ::
      if beat * 24 / 10 ≤ quiet then []
      else
        let counted := w.upd fun s => { s with testRequests := wrapU32 (s.testRequests + 1) }
        [.add 32 w.ses.testRequests 1, .mul 64 beat 12,
            .mul 64 (beat * 12) (wrapU32 (w.ses.testRequests + 1))] ++
          if beat * 12 * wrapU32 (w.ses.testRequests + 1) / 10 ≤ quiet then
            .add 32 w.ses.testRequests 1 ::
                counted.sendOps P .testRequest [(112, ascii "TEST")] ++
              let w := counted.trySend P .testRequest [(112, ascii "TEST")]
              if w.ses.testRequests = 0 ∧ beat ≤ silent then w.sendOps P .heartbeat [] else []
          else if w.ses.testRequests = 0 ∧ beat ≤ silent then w.sendOps P .heartbeat [] else []

/-- A live session. -/
def tickLiveOps (w : Scene) (nowMs : ℕ) : List Op :=
  if w.ses.state = .loggingOut then
    let since := w.ses.loggingOutSinceMs.getD nowMs
    let w := w.upd fun s => { s with loggingOutSinceMs := some since }
    if w.ses.cfg.logoutTimeoutMs ≠ 0 ∧ w.ses.cfg.logoutTimeoutMs ≤ nowMs - since then []
    else w.tickHeartbeatOps P nowMs
  else w.tickHeartbeatOps P nowMs

/-- One tick, after the boundary check. -/
def tickRolledOps (w : Scene) (nowMs : ℕ) : List Op :=
  (if w.ses.state = .loggedOn then w.ses.cfg.schedule.sessionStartOps nowMs else []) ++
    if w.ses.state = .loggedOn ∧ !w.ses.cfg.schedule.contains nowMs then w.sendOps P .logout []
    else match w.ses.state with
      | .disconnected | .awaitingLogout | .awaitingLogon => []
      | .mustLogon => w.tickMustLogonOps P nowMs
      | .loggedOn | .loggingOut => w.tickLiveOps P nowMs

/-- One tick, from the boundary check on. -/
def tickInnerOps (w : Scene) (nowMs : ℕ) : List Op :=
  let w := w.upd fun s => { s with nowMs := nowMs }
  w.rollOps nowMs ++ (w.roll nowMs).tickRolledOps P nowMs

end Scene

namespace World

variable (P : Params) {A J : Type}

/-- The numbers spent, told to the journal. -/
def tellJournalOps (w : World A J) : List Op :=
  if 1 < w.ses.nextOut then [.sub w.ses.nextOut 1] else []

/-- The numbers consumed, told to the journal. -/
def markInOps (w : World A J) : List Op :=
  if 1 < w.ses.nextIn then [.sub w.ses.nextIn 1] else []

/-- An application message of this end that went out under the next number. -/
def spentOps (w : World A J) (kept : Bool) : List Op :=
  (if kept then [] else [.add 32 w.ses.putsRefused 1]) ++ [.add 32 w.ses.nextOut 1]

section Judge

variable [Application A] [Journal J]

/-- An application message. -/
def judgeApplicationOps (w : World A J) (bytes : Bytes) : List Op :=
  if w.ses.out.isNone then []
  else
    let header : Header :=
      { seq := w.ses.nextOut, stamp := w.ses.stampNow
        lastProcessed := if w.ses.cfg.lastProcessed then some w.ses.lastIn else none }
    match (Application.onMessage w.app bytes header).2 with
    | none => []
    | some reply => w.spentOps (Journal.put w.journal header.seq reply).2

/-- A message that is in order and without fault. -/
def judgeAcceptedOps (w : World A J) (m : Inbound) (bytes : Bytes) : List Op :=
  if m.isLogon then w.judgeLogonOps P m bytes
  else if m.isLogout then w.judgeLogoutOps P
  else if m.isTestRequest then w.judgeTestRequestOps P m
  else if m.isResendRequest then []
  else if m.isSequenceReset then w.judgeSequenceResetOps P m
  else if m.isApplication then w.judgeApplicationOps bytes
  else []

/-- A message that is in order. -/
def judgeInOrderOps (w : World A J) (m : Inbound) (fault : Option Fault) (bytes : Bytes) :
    List Op :=
  (if m.isSequenceReset || m.isLogon then [] else Scene.advancePastOps m.seq) ++
    let w : World A J := { w with ses := w.ses.consume m }
    match fault with
    | some f => w.sendRejectOps P (m.reject f.1 f.2)
    | none => w.judgeAcceptedOps P m bytes

/-- The sequence number of a message. -/
def judgeSequenceOps (w : World A J) (m : Inbound) (fault : Option Fault) (bytes : Bytes) :
    List Op :=
  let w : World A J := { w with toScene := w.toScene.restartOn m }
  if m.checkTooLow ∧ m.seq < w.ses.nextIn then w.judgeTooLowOps P m
  else if m.checkTooHigh ∧ w.ses.nextIn < m.seq then w.tooHighOps P m.seq bytes
  else w.judgeInOrderOps P m fault bytes

/-- How far off a readable `52=` is. -/
def noteSkewOps (w : World A J) (view : MessageView) : List Op :=
  match (view.get 52).bind parseUtc with
  | some t => if t ≤ w.ses.nowMs then [.sub w.ses.nowMs t] else [.sub t w.ses.nowMs]
  | none => []

/-- A message whose frame and `BeginString` are right. -/
def judgeHeaderOps (w : World A J) (view : MessageView) (bytes : Bytes) : List Op :=
  (if w.ses.nowMs = 0 then [] else w.ses.cfg.schedule.sessionStartOps w.ses.nowMs) ++
    match w.ses.refusalOf view with
    | some _ => []
    | none =>
      w.noteSkewOps view ++
        let w : World A J := { w with ses := w.ses.noteSkew view }
        match w.ses.identityRefusal view with
        | some _ => []
        | none =>
          match Inbound.number view 34 with
          | none => []
          | some seq =>
            let fault := w.ses.faultOf P view ((view.get 35).getD [])
            w.judgeSequenceOps P (Inbound.read view seq) fault bytes

/-- A message that was read whole. -/
def judgeFrameOps (w : World A J) (view : MessageView) (bytes : Bytes) : List Op :=
  if (view.fieldAt 2).map (·.1) ≠ some 35 then []
  else if !(view.get 8).any w.ses.cfg.beginString.isMatch then
    if w.ses.state = .loggedOn then w.logoutWithOps P .incorrectBeginString else []
  else w.judgeHeaderOps P view bytes

/-- What was received. -/
def judgeOps (w : World A J) (bytes : Bytes) : List Op :=
  let w : World A J := { w with hist := .judged w.ses bytes :: w.hist }
  let view := viewOf P bytes
  match (frameOf P bytes).outcome with
  | .ok .incomplete => []
  | .ok (.complete _) => w.judgeFrameOps P view bytes
  | .error (.badTag pos) =>
    if w.ses.state = .loggedOn then w.judgeBadTagOps P view pos bytes else []
  | .error _ => []

/-- The held messages whose turn has come. -/
def drainOps : ℕ → World A J → List Op
  | 0, _ => []
  | rounds + 1, w =>
    match w.ses.queue.findIdx? fun q => q.seq == w.ses.nextIn with
    | none => []
    | some i =>
      let bytes := (w.ses.queue[i]?.map (·.bytes)).getD []
      (w.release i).judgeOps P bytes ++
        match (w.release i).judgeOrEnd P bytes with
        | (_, .dropped) => []
        | (w, .up) => drainOps rounds w

/-- Received bytes, up to what the journal is told. -/
def receivedInnerOps (w : World A J) (bytes : Bytes) : List Op :=
  if w.ses.state = .disconnected ∨ w.ses.state = .awaitingLogout then []
  else
    w.judgeOps P bytes ++
      match w.judgeOrEnd P bytes with
      | (_, .dropped) => []
      | (w, .up) =>
        let drained := w.drain P queued
        w.drainOps P queued ++ drained.1.advanceReplayOps P drained.1.journal drained.2

/-- Received bytes. -/
def receivedWithOps (w : World A J) (bytes : Bytes) : List Op :=
  let r := (w.receivedInner P bytes).1
  w.receivedInnerOps P bytes ++ r.markInOps ++ r.markIn.tellJournalOps

end Judge

section Journal

variable [Journal J]

/-- One tick, and the next batch of a resend. -/
def tickAfterInnerOps (w : World A J) (nowMs : ℕ) : List Op :=
  let r := w.tickInner P nowMs
  w.tickInnerOps P nowMs ++ r.1.advanceReplayOps P w.journal r.2 ++
    (w.tickAfterInner P nowMs).1.tellJournalOps

/-- A tick in milliseconds. -/
def tickWithOps (w : World A J) (nowMs : ℕ) : List Op :=
  ({ w with toScene := w.setResolution 0 .millis } : World A J).tickAfterInnerOps P nowMs

/-- A finer tick. -/
def tickAtWithOps (w : World A J) (nowMs subMsNanos : ℕ) : List Op :=
  ({ w with toScene := w.setResolution subMsNanos .nanos } : World A J).tickAfterInnerOps P nowMs

/-- A message of the application. -/
def sendApplicationOps (w : World A J) (msg : Bytes) : List Op :=
  if w.ses.state ≠ .loggedOn then []
  else if w.ses.out.isNone then []
  else
    let seq := w.ses.nextOut
    let lastProcessed := if w.ses.cfg.lastProcessed then some w.ses.lastIn else none
    match rebuild P.dict.toDictionary P.appScratch msg (some (renderU32 seq)) w.ses.stampNow
        lastProcessed false with
    | none => []
    | some bytes =>
      w.spentOps (Journal.put w.journal seq bytes).2 ++
        (w.sendApplication P msg).1.tellJournalOps

end Journal

end World

end Fixbolt
