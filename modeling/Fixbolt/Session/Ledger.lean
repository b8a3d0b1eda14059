import Fixbolt.Lib.History
import Fixbolt.Session.Machine

/-!
# The books of a session

The properties of a session are about its state, its counts, its gap, its queue and its replay,
and about what happened before.

* `Ledger`: these fields of a session, and what may be done to them;
* `Books`: a ledger and a history, what is seen of a `Scene`;
* `Session.arrives`, `Session.faultOn`, `badTagNumber`: what received bytes say, read before the
  session does anything with them;
* `judging`, `callOf`, `lastSeen`, `sinceConnect`, `sinceCall`, `sinceRestart`: readings of a history.
-/

namespace Fixbolt

open History

/-- Of all its fields, those that the properties of a session are about. -/
structure Ledger where
  state : State
  nowMs : ℕ
  nextOut : ℕ
  nextIn : ℕ
  resendFrom : ℕ
  resendTo : ℕ
  queue : List Queued
  owed : Option Replay
deriving DecidableEq, Repr

/-- What is seen of a session and its history. -/
structure Books where
  led : Ledger
  hist : List Event

/-- The ledger of a session. -/
def Session.ledger (s : Session) : Ledger where
  state := s.state
  nowMs := s.nowMs
  nextOut := s.nextOut
  nextIn := s.nextIn
  resendFrom := s.resendFrom
  resendTo := s.resendTo
  queue := s.queue
  owed := s.owed

/-- The books of a scene. -/
def Scene.books (w : Scene) : Books := ⟨w.ses.ledger, w.hist⟩

namespace Ledger

/-- The link is up as far as this end knows. -/
def Alive (l : Ledger) : Prop := l.state ≠ .disconnected ∧ l.state ≠ .awaitingLogout

instance (l : Ledger) : Decidable l.Alive := inferInstanceAs (Decidable (_ ∧ _))

/-- One outbound number is spent. -/
def spend (l : Ledger) : Ledger := { l with nextOut := wrapU32 (l.nextOut + 1) }

/-- The inbound count past a number; a gap that this closes is forgotten. -/
def advance (l : Ledger) (seq : ℕ) : Ledger :=
  let closes := l.resendFrom ≠ 0 ∧ l.resendTo ≤ seq
  { l with
    nextIn := wrapU32 (seq + 1)
    resendFrom := if closes then 0 else l.resendFrom
    resendTo := if closes then 0 else l.resendTo }

/-- Both counts at 1. -/
def restart (l : Ledger) : Ledger := { l with nextOut := 1, nextIn := 1 }

/-- The session ended; under its reset policy both counts restart. -/
def ended (l : Ledger) (resets : Bool) : Ledger :=
  let l := if resets then l.restart else l
  { l with state := .disconnected, owed := none }

/-- A gap below `seq` was found. -/
def missing (l : Ledger) (seq : ℕ) : Ledger :=
  { l with resendFrom := l.nextIn, resendTo := seq - 1 }

/-- A message is held in slot `i`. -/
def hold (l : Ledger) (i seq : ℕ) (bytes : Bytes) : Ledger :=
  { l with queue := l.queue.set i ⟨seq, bytes⟩ }

/-- Slot `i` is free again. -/
def release (l : Ledger) (i : ℕ) : Ledger :=
  { l with queue := l.queue.modify i fun q => { q with seq := 0 } }

/-- A connection was made. -/
def connected (l : Ledger) (speaksFirst : Bool) : Ledger :=
  { l with state := if speaksFirst then .mustLogon else .awaitingLogon }

/-- A schedule boundary passed. -/
def rolled (l : Ledger) : Ledger :=
  { l.restart with resendFrom := 0, resendTo := 0, owed := none }

end Ledger

@[simp] theorem Session.ledger_alive (s : Session) : s.ledger.Alive ↔ s.Alive := Iff.rfl

/-! ### What received bytes say -/

/-- The message in received bytes, when nothing refuses it before its number is looked at. -/
def Session.arrives (P : Params) (s : Session) (bytes : Bytes) : Option Inbound :=
  let view := viewOf P bytes
  match (frameOf P bytes).outcome with
  | .ok (.complete _) =>
    if (view.fieldAt 2).map (·.1) = some 35 ∧ (view.get 8).any s.cfg.beginString.isMatch ∧
        s.refusalOf view = none ∧ s.identityRefusal view = none then
      (Inbound.number view 34).map (Inbound.read view)
    else none
  | _ => none

/-- The fault the session finds in received bytes. -/
def Session.faultOn (P : Params) (s : Session) (bytes : Bytes) : Option Fault :=
  s.faultOf P (viewOf P bytes) (((viewOf P bytes).get 35).getD [])

/-- The number of a message with an unreadable tag, when that tag is refused. -/
def badTagNumber (P : Params) (bytes : Bytes) : Option ℕ :=
  match (frameOf P bytes).outcome with
  | .error (.badTag pos) =>
    if (tagTextAt bytes pos).any isSignedInteger then Inbound.number (viewOf P bytes) 34 else none
  | _ => none

/-- A fault that ends the session. -/
def Fault.endsSession (f : Fault) : Bool :=
  f.1 == .compIdProblem || f.1 == .sendingTimeAccuracyProblem

namespace Replay

/-- Does a resend come by a number? One that ends at the largest number never ends. -/
def Covers (r : Replay) (n : ℕ) : Prop := r.next ≤ n ∧ n ≤ r.stop ∨ u32Max ≤ r.stop

instance (r : Replay) (n : ℕ) : Decidable (r.Covers n) := inferInstanceAs (Decidable (_ ∨ _))

/-- What is left of a resend. -/
structure Within (q r : Replay) : Prop where
  stop : q.stop = r.stop
  next : r.stop < u32Max → r.next ≤ q.next

theorem Within.refl (r : Replay) : r.Within r := ⟨rfl, fun _ => le_rfl⟩

/-- A later number of a range begins a rest of it. -/
theorem Within.stepTo {r o : Replay} (h : r.Within o) {n : ℕ}
    (up : r.stop < u32Max → r.next ≤ n) : ({ r with next := n } : Replay).Within o :=
  ⟨h.stop, fun small => (h.next small).trans (up (h.stop ▸ small))⟩

theorem Within.covers {q r : Replay} (h : q.Within r) {n : ℕ} (c : q.Covers n) : r.Covers n := by
  obtain ⟨stop, next⟩ := h
  by_cases small : r.stop < u32Max
  · have := next small
    obtain ⟨low, high⟩ | big := c
    · exact .inl ⟨by omega, by omega⟩
    · omega
  · exact .inr (not_lt.mp small)

end Replay

namespace Inbound

/-- The inbound count a message is judged against. -/
def countAt (m : Inbound) (s : Session) : ℕ := if m.isLogon && m.resetSeq then 1 else s.nextIn

/-- Is the count past this message once it was judged? -/
def Consumed (m : Inbound) (s : Session) : Prop :=
  m.isLogout ∨ m.isResendRequest ∨ !m.isSequenceReset ∧ m.seq = m.countAt s

instance (m : Inbound) (s : Session) : Decidable (m.Consumed s) :=
  inferInstanceAs (Decidable (_ ∨ _ ∨ _))

/-- Is this number checked against running ahead? A Logon's is, once it has been answered. -/
def RunsAhead (m : Inbound) (s : Session) : Prop :=
  (m.checkTooHigh ∨ m.isLogon) ∧ m.countAt s < m.seq

instance (m : Inbound) (s : Session) : Decidable (m.RunsAhead s) :=
  inferInstanceAs (Decidable (_ ∧ _))

/-- What a message makes the session resend. A Logon asks by the number it expects; the answer to it
is sent before. -/
def owes (P : Params) (m : Inbound) (s : Session) : Option Replay :=
  if m.isResendRequest then
    let stop := Scene.resendEnd s.nextOut m.endSeqNo
    (m.beginSeqNo.filter (· ≤ stop)).map fun begin_ => ⟨begin_, stop⟩
  else if m.isLogon then
    let before := if m.resetSeq then 1 else s.nextOut
    let out := if P.speaksFirst then before else wrapU32 (before + 1)
    (m.nextExpected.filter (· < before)).map fun want => ⟨want, wrapU32 (out + u32Max)⟩
  else none

/-- Does this message make the session resend? A ResendRequest does, and a Logon that expects
less than was sent. -/
def asksBack (m : Inbound) (s : Session) : Bool :=
  m.isResendRequest ||
    m.isLogon && m.nextExpected.any (· < if m.resetSeq then 1 else s.nextOut)

end Inbound

/-! ### Readings of a call and of a message sent -/

/-- The time a call sets the clock to. -/
def Call.ticks : Call → Option ℕ
  | .tick n | .tickAt n _ | .tickWith n | .tickAtWith n _ => some n
  | _ => none

/-- The bytes a call received. -/
def Call.incoming : Call → Option Bytes
  | .received b | .receivedWith b => some b
  | _ => none

/-- The number a call announces. -/
def Call.announces : Call → Option ℕ
  | .sendSequenceReset n | .sendSequenceResetWith n => some n
  | _ => none

/-- A call that closes the connection from outside. -/
def Call.closes : Call → Bool
  | .disconnect | .disconnectWith _ => true
  | _ => false

namespace Emission

/-- Does a message go out under an old number, with `43=Y`? -/
def possDup : Emission → Bool
  | templated .gapFill slots _ => slots.lookup 43 == some (ascii "Y")
  | templated _ _ _ => false
  | reply _ _ => false
  | originated _ _ => false
  | replayed _ _ => true

/-- The number a message spends. -/
def spends : Emission → Option ℕ
  | templated _ slots _ => (slots.lookup 34).bind asU32?
  | reply seq _ => some seq
  | originated seq _ => some seq
  | replayed _ _ => none

/-- The first number a ResendRequest asks for. -/
def asksFrom : Emission → Option ℕ
  | templated .resendRequest slots _ => (slots.lookup 7).bind asU32?
  | _ => none

end Emission

/-! ### Readings of a history -/

namespace Event

/-- A call. -/
def isCall : Event → Bool
  | called _ _ => true
  | _ => false

/-- A connection being made. -/
def isConnect : Event → Bool
  | called _ .connect => true
  | _ => false

/-- A restart of the counts. -/
def isRestart : Event → Bool
  | restarted _ => true
  | _ => false

/-- The message under judgement: a call comes before any. -/
def focus : Event → Option (Option (Session × Bytes))
  | judged s b => some (some (s, b))
  | called _ _ => some none
  | _ => none

/-- The call in an event, and the session it found. -/
def call : Event → Option (Session × Call)
  | called s c => some (s, c)
  | _ => none

/-- The session in an event that shows it as its call, its message or its restart found it. -/
def shown : Event → Option Session
  | called s _ => some s
  | judged s _ => some s
  | restarted s => some s
  | _ => none

end Event

/-- The message under judgement in the current call. -/
def judging (h : List Event) : Option (Session × Bytes) := (newest Event.focus h).join

/-- The current call, and the session it found. -/
def callOf (h : List Event) : Option (Session × Call) := newest Event.call h

/-- The session as it was last shown. -/
def lastSeen (h : List Event) : Option Session := newest Event.shown h

/-- What happened on this connection. -/
def sinceConnect (h : List Event) : List Event := since Event.isConnect h

/-- What happened in this call. -/
def sinceCall (h : List Event) : List Event := since Event.isCall h

/-- What happened under these counts. -/
def sinceRestart (h : List Event) : List Event := since Event.isRestart h

end Fixbolt
