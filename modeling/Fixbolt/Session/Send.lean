import Fixbolt.Session.State

/-!
# What a session sends, and how it ends

The functions of the source that write: `sendAs` lays out one of the session's own messages,
`endSession` (the source's `end`) closes the session with its reason, `enqueue`, `advancePast`
and `tooHigh` keep the inbound count, and `continueReplay` answers a `ResendRequest` batch by
batch. A function that can fail with `CannotSend` answers `none` and then has changed nothing.
-/

namespace Fixbolt

namespace Scene

/-- Change the session and nothing else. -/
def upd (w : Scene) (f : Session → Session) : Scene := { w with ses := f w.ses }

/-- Note one event. -/
def log (w : Scene) (e : Event) : Scene := { w with hist := e :: w.hist }

/-- Note that the counts restarted, with the session as it now is. -/
def logRestart (w : Scene) : Scene := w.log (.restarted w.ses)

end Scene

/-- The slots of one of the session's own messages: `34=`, `52=`, `369=` when configured, and
those of the message. -/
def Session.slotsFor (s : Session) (number : Option ℕ) (extra : List (ℕ × Bytes)) :
    List (ℕ × Bytes) :=
  [(34, renderU32 (number.getD s.nextOut)), (52, s.stampNow)] ++
    (if s.cfg.lastProcessed then [(369, renderU32 s.lastIn)] else []) ++ extra

/-- Room for the slots of a message. -/
def maxSlots : ℕ := 18

/-- The session after one of its messages went out: under its own number, or over an old one. -/
def Session.sent (s : Session) (number : Option ℕ) : Session :=
  { s with
    nextOut := if number.isNone then wrapU32 (s.nextOut + 1) else s.nextOut
    lastSentMs := s.nowMs }

/-- Do the counts restart when the session ends so? -/
def Session.endResets (s : Session) (why : DropReason) : Bool :=
  if why = .peerLogout then s.cfg.reset.onLogout else s.cfg.reset.onDisconnect

/-- The session once it has ended: the reset policy is applied after the goodbye went out. -/
def Session.endWith (s : Session) (why : DropReason) : Session :=
  { s with
    nextOut := if s.endResets why then 1 else s.nextOut
    nextIn := if s.endResets why then 1 else s.nextIn
    lastDropReason := some why
    state := .disconnected
    owed := none }

/-- The inbound count past a number; a gap that this closes is forgotten. -/
def Session.advancePast (s : Session) (seq : ℕ) : Session :=
  let closes := s.resendFrom ≠ 0 ∧ s.resendTo ≤ seq
  { s with
    nextIn := wrapU32 (seq + 1)
    resendFrom := if closes then 0 else s.resendFrom
    resendTo := if closes then 0 else s.resendTo }

/-- Keep the first reason a session was ended for. -/
def Session.noteDropReason (s : Session) (why : DropReason) : Session :=
  if s.lastDropReason = none then { s with lastDropReason := some why } else s

/-- A Reject before it is laid out. -/
structure Reject where
  text : SessionText
  refTag : Option Bytes
  refMsgType : Option Bytes
  refSeq : Option ℕ
  route : List (ℕ × Bytes)
deriving DecidableEq, Repr

/-- The slots of a Reject. -/
def Reject.slots (r : Reject) : List (ℕ × Bytes) :=
  r.route ++ (r.refSeq.map fun v => (45, renderU32 v)).toList ++ [(58, r.text.render)] ++
    (r.refTag.map fun t => (371, t)).toList ++ (r.refMsgType.map fun m => (372, m)).toList ++
    (r.text.sessionRejectReason.map fun v => (373, renderU32 v)).toList

/-- Two of the reasons end the session as well. -/
def Reject.endsSession (r : Reject) : Bool :=
  r.text == .compIdProblem || r.text == .sendingTimeAccuracyProblem

namespace Scene

variable (P : Params)

/-- Lay out one of the session's own messages, under `number` or the next one, and send it. -/
def sendAs (w : Scene) (which : Which) (number : Option ℕ) (extra : List (ℕ × Bytes)) :
    Option (Scene) :=
  match w.ses.out with
  | none => none
  | some o =>
    let slots := w.ses.slotsFor number extra
    if maxSlots < slots.length then none
    else match (o.template which).encodeWith P.dict.toDictionary outRoom slots [] with
      | .error _ => none
      | .ok out => some ((w.upd (·.sent number)).log (.emitted (.templated which slots out.2)))

/-- Send one of the session's own messages under the next number. -/
def send (w : Scene) (which : Which) (extra : List (ℕ × Bytes)) : Option (Scene) :=
  w.sendAs P which none extra

/-- Send, and go on if it cannot be sent. -/
def trySend (w : Scene) (which : Which) (extra : List (ℕ × Bytes)) : Scene :=
  (w.send P which extra).getD w

/-- End the session, recording why. -/
def endSession (w : Scene) (why : DropReason) : Scene :=
  let ended := (w.upd (·.endWith why)).log (.ended why)
  if w.ses.endResets why then ended.logRestart else ended

/-- Cut the link after a Logout of this end. -/
def cut (w : Scene) : Scene := w.upd fun s => { s with state := .awaitingLogout }

/-- Hold a message that ran ahead, in the slot of its number or in a free one. -/
def enqueue (w : Scene) (seq : ℕ) (bytes : Bytes) : Scene :=
  if queuedLen < bytes.length then w
  else match w.ses.queue.findIdx? fun q => q.seq == seq || q.seq == 0 with
    | none => w
    | some i =>
      (w.upd fun s => { s with queue := s.queue.set i ⟨seq, bytes⟩ }).log (.held seq bytes)

/-- A gap: hold the message, and ask for what is missing once. -/
def tooHigh (w : Scene) (seq : ℕ) (bytes : Bytes) : Scene × Link :=
  let w := w.enqueue seq bytes
  if w.ses.resendFrom ≠ 0 ∧ w.ses.resendFrom ≤ seq then (w, .up)
  else
    let asked := w.upd fun s => { s with resendFrom := s.nextIn, resendTo := seq - 1 }
    match asked.send P .resendRequest [(7, renderU32 w.ses.nextIn), (16, ascii "0")] with
    | some w => (w, .up)
    | none => (asked.endSession .cannotSend, .dropped)

/-- Say why in a Logout, and cut the link. -/
def logoutWith (w : Scene) (why : SessionText) : Scene × Link :=
  ((w.trySend P .logout [(58, why.render)]).cut, .dropped)

/-- Answer with a Reject; two of the reasons are followed by a Logout. -/
def sendReject (w : Scene) (r : Reject) : Scene × Link :=
  match w.send P .reject r.slots with
  | none => (w.endSession .cannotSend, .dropped)
  | some w => if r.endsSession then ((w.trySend P .logout []).cut, .dropped) else (w, .up)

/-- Send a Logout and cut the link. -/
def logoutNow (w : Scene) (text : Bytes) : Scene × Link :=
  if w.ses.state = .disconnected ∨ w.ses.state = .awaitingLogout then (w, .dropped)
  else ((w.trySend P .logout [(58, text)]).cut, .dropped)

/-- Send a Logout and wait for the answer. -/
def beginLogout (w : Scene) (text : Bytes) : Scene × Link :=
  if w.ses.state ≠ .loggedOn then
    if w.ses.state ≠ .disconnected then (w.endSession .engineShutdown, .dropped)
    else (w, .dropped)
  else
    match w.send P .logout (if text.isEmpty then [] else [(58, text)]) with
    | none => (w.endSession .cannotSend, .dropped)
    | some w => (w.upd fun s => { s with state := .loggingOut }, .up)

section Replay

variable {J : Type} [Journal J]

/-- Send a kept message again: `some none` when the journal does not hold it. -/
def replay (w : Scene) (j : J) (seq : ℕ) : Option (Option Scene) :=
  match Journal.get j seq with
  | none => some none
  | some kept =>
    if w.ses.out.isNone then none
    else match asResend P.dict.toDictionary P.appScratch kept w.ses.stampNow with
      | none => none
      | some bytes =>
        some (some ((w.upd fun s => { s with lastSentMs := s.nowMs }).log
          (.emitted (.replayed seq bytes))))

/-- Cover `[from_, upto)` with one gap fill. -/
def fill (w : Scene) (from_ upto : ℕ) : Option Scene :=
  w.sendAs P .gapFill (some from_)
    [(43, ascii "Y"), (122, w.ses.stampNow), (36, renderU32 upto), (123, ascii "Y")]

/-- The first number from `n` on, at most `stop + 1`, that the journal holds. The last argument
is what is left of the range. -/
def skipMissing (j : J) (stop : ℕ) : ℕ → ℕ → ℕ
  | n, 0 => n
  | n, left + 1 =>
    if n ≤ stop ∧ (Journal.get j n).isNone then skipMissing j stop (wrapU32 (n + 1)) left else n

/-- Where a gap fill that begins at `from_` ends. Below the journal's floor nothing is searched. -/
def fillEnd (j : J) (from_ stop : ℕ) : ℕ :=
  let floor := (Journal.oldest j).getD u32Max
  let n := if from_ < floor then min floor (min (stop + 1) u32Max) else min (from_ + 1) u32Max
  skipMissing j stop n (stop + 1 - n)

/-- Numbers of a gap fill that the journal has lost. -/
def lostBelowFloor (j : J) (from_ upto : ℕ) : ℕ :=
  match Journal.oldest j with
  | none => 0
  | some floor => min upto floor - from_

/-- The loop of `continueReplay`: the messages this call may still send, and the range left. -/
def replayLoop (j : J) : ℕ → Scene → Replay → Scene × Option Replay
  | 0, w, r => (w, some r)
  | budget + 1, w, r =>
    if r.stop < r.next then (w, some r)
    else match w.replay P j r.next with
      | none => (w, none)
      | some (some w) => replayLoop j budget w { r with next := wrapU32 (r.next + 1) }
      | some none =>
        let upto := fillEnd j r.next r.stop
        let counted := w.upd fun s =>
          { s with
            resendBeyondJournal :=
              wrapU32 (s.resendBeyondJournal + lostBelowFloor j r.next upto) }
        match counted.fill P r.next upto with
        | none => (counted, none)
        | some w => replayLoop j budget w { r with next := upto }

/-- Send the next batch of what is owed; `false` when a message could not be sent. -/
def continueReplay (w : Scene) (j : J) : Scene × Bool :=
  match w.ses.owed with
  | none => (w, true)
  | some r =>
    match replayLoop P j (max w.ses.cfg.resendBatch 1) w r with
    | (w, none) => (w, false)
    | (w, some r) =>
      (w.upd fun s => { s with owed := if r.next ≤ r.stop then some r else none }, true)

/-- Move a replay forward while the link is up. -/
def advanceReplay (w : Scene) (j : J) (link : Link) : Scene × Link :=
  if link = .up ∧ w.ses.owed.isSome then
    match w.continueReplay P j with
    | (w, true) => (w, link)
    | (w, false) => (w.endSession .cannotSend, .dropped)
  else (w, link)

end Replay

end Scene

namespace World

variable {A J : Type}

/-- Do something that needs neither the application nor the journal. -/
def lift {α : Type} (w : World A J) (f : Scene → Scene × α) : World A J × α :=
  ({ w with toScene := (f w.toScene).1 }, (f w.toScene).2)

/-- Tell the journal the highest number spent. -/
def tellJournal [Journal J] (w : World A J) : World A J :=
  if 1 < w.ses.nextOut then { w with journal := Journal.markOut w.journal (w.ses.nextOut - 1) }
  else w

end World

end Fixbolt
