import Fixbolt.Session.Ledger

/-!
# What a session may do to its books

An abstract machine on `Books`: each constructor of `Acting` is one thing a session does to its
ledger and its history, with what is known when it does it; `Replaying` is the part that a resend
in progress plays. `Refine` shows that every call of the code is a run of these moves, so a
property of the books is proved by one look at each move.

`R` says what the application may answer to a message, and whether held messages are taken up.
-/

namespace Fixbolt

open History

/-- What a run of moves may rest on. -/
structure Rules where
  /-- What the application may answer. -/
  answers : Bytes → Header → Bytes → Prop
  /-- Held messages are taken up. -/
  drains : Prop

/-- Nothing is ruled out. -/
def Rules.free : Rules := ⟨fun _ _ _ => True, True⟩

/-- What is known when a session gives up its link: nothing moved since it was last shown, or the
message under judgement was consumed and then ended it. -/
inductive Closing (P : Params) (l : Ledger) (h : List Event) : Option DropReason → Prop
  /-- Neither the inbound count nor the queue moved. -/
  | unmoved {why : Option DropReason} {s : Session} (seen : lastSeen h = some s)
      (count : s.nextIn = l.nextIn) (queue : s.queue = l.queue) : Closing P l h why
  /-- The answer to a consumed message cannot be sent. -/
  | unanswered {s : Session} {b : Bytes} {m : Inbound} (now : judging h = some (s, b))
      (arr : s.arrives P b = some m) (consumed : m.Consumed s)
      (count : l.nextIn = wrapU32 (m.seq + 1)) (queue : l.queue = s.queue) :
      Closing P l h (some .cannotSend)
  /-- The fault of a consumed message ends the session. -/
  | faulted {s : Session} {b : Bytes} {m : Inbound} {f : Fault} (now : judging h = some (s, b))
      (arr : s.arrives P b = some m) (consumed : m.Consumed s) (fault : s.faultOn P b = some f)
      (ends : f.endsSession) (count : l.nextIn = wrapU32 (m.seq + 1))
      (queue : l.queue = s.queue) : Closing P l h none
  /-- The Reject of an unreadable tag cannot be sent. -/
  | skipped {s : Session} {b : Bytes} {seq : ℕ} (now : judging h = some (s, b))
      (live : s.state = .loggedOn) (bad : badTagNumber P b = some seq) (high : s.nextIn ≤ seq)
      (count : l.nextIn = wrapU32 (seq + 1)) (queue : l.queue = s.queue) :
      Closing P l h (some .cannotSend)

/-- The books once a session ended, with or without a restart of its counts. -/
def Books.ended (l : Ledger) (h : List Event) (why : DropReason) : Option Session → Books
  | none => ⟨l.ended false, .ended why :: h⟩
  | some s => ⟨l.ended true, .restarted s :: .ended why :: h⟩

/-- The session shown at a restart is the one the ledger is then of. -/
def ShowsEnd (l : Ledger) (resets : Option Session) : Prop :=
  ∀ s ∈ resets, s.ledger = l.ended true

/-- What a session does by itself, to its books. -/
inductive Acting (P : Params) (R : Rules) : Books → Books → Prop
  -- From outside.
  | connected {l : Ledger} {h : List Event} {s : Session} (before : s.ledger = l) :
      Acting P R ⟨l, .called s .connect :: h⟩
        ⟨l.connected P.speaksFirst, .called s .connect :: h⟩
  | connectedAnew {l : Ledger} {h : List Event} {s t : Session} (before : s.ledger = l)
      (after : t.ledger = (l.connected P.speaksFirst).restart) :
      Acting P R ⟨l, .called s .connect :: h⟩
        ⟨(l.connected P.speaksFirst).restart, .restarted t :: .called s .connect :: h⟩
  | closed {l : Ledger} {h : List Event} {s : Session} {c : Call} (closes : c.closes)
      (before : s.ledger = l) :
      Acting P R ⟨l, .called s c :: h⟩
        ⟨{ l with state := .disconnected }, .called s c :: h⟩
  | ticked {l : Ledger} {h : List Event} {s : Session} {c : Call} {n : ℕ} (tick : c.ticks = some n)
      (before : s.ledger = l) :
      Acting P R ⟨l, .called s c :: h⟩ ⟨{ l with nowMs := n }, .called s c :: h⟩
  | rolled {l : Ledger} {h : List Event} {s t : Session} {c : Call} {n : ℕ}
      (tick : c.ticks = some n) (before : s.ledger = l) (rolls : s.rolls n)
      (after : t.ledger = { l.rolled with nowMs := n }) :
      Acting P R ⟨l, .called s c :: h⟩
        ⟨{ l.rolled with nowMs := n }, .restarted t :: .called s c :: h⟩
  | setOut {l : Ledger} {h : List Event} {s : Session} {n : ℕ} (before : s.ledger = l)
      (pos : n ≠ 0) (fits : n < u32Size) :
      Acting P R ⟨l, .called s (.setNextOut n) :: h⟩
        ⟨{ l with nextOut := n }, .called s (.setNextOut n) :: h⟩
  | setIn {l : Ledger} {h : List Event} {s : Session} {n : ℕ} (before : s.ledger = l)
      (pos : n ≠ 0) (fits : n < u32Size) :
      Acting P R ⟨l, .called s (.setNextIn n) :: h⟩
        ⟨{ l with nextIn := n }, .called s (.setNextIn n) :: h⟩
  | announced {l : Ledger} {h : List Event} {s : Session} {c : Call} {n : ℕ}
      {slots : List (ℕ × Bytes)} {bytes : Bytes} (announces : c.announces = some n)
      (before : s.ledger = l) (fits : n < u32Size)
      (number : slots.lookup 34 = some (renderU32 l.nextOut)) (fresh : slots.lookup 43 = none) :
      Acting P R ⟨l, .called s c :: h⟩
        ⟨{ l with nextOut := n }, .emitted (.templated .gapFill slots bytes) :: .called s c :: h⟩
  | originated {l : Ledger} {h : List Event} {s : Session} {msg bytes : Bytes} {kept : Bool}
      (before : s.ledger = l) (live : l.state = .loggedOn) :
      Acting P R ⟨l, .called s (.sendApplication msg) :: h⟩
        ⟨l.spend, .emitted (.originated l.nextOut bytes) :: .stored l.nextOut bytes kept ::
          .called s (.sendApplication msg) :: h⟩
  -- Messages of the own, and the end of a connection.
  | sent {l : Ledger} {h : List Event} {which : Which} {slots : List (ℕ × Bytes)} {bytes : Bytes}
      (alive : l.Alive) (which_ne : which ≠ .gapFill)
      (number : slots.lookup 34 = some (renderU32 l.nextOut)) :
      Acting P R ⟨l, h⟩ ⟨l.spend, .emitted (.templated which slots bytes) :: h⟩
  | spoke {l : Ledger} {h : List Event} (owes : l.state = .mustLogon) :
      Acting P R ⟨l, h⟩ ⟨{ l with state := .awaitingLogon }, h⟩
  | saidGoodbye {l : Ledger} {h : List Event} (live : l.state = .loggedOn) :
      Acting P R ⟨l, h⟩ ⟨{ l with state := .loggingOut }, h⟩
  | cut {l : Ledger} {h : List Event} (closing : Closing P l h none) :
      Acting P R ⟨l, h⟩ ⟨{ l with state := .awaitingLogout }, h⟩
  | ended {l : Ledger} {h : List Event} {why : DropReason} {resets : Option Session}
      (closing : Closing P l h (some why)) (shows : ShowsEnd l resets) :
      Acting P R ⟨l, h⟩ (Books.ended l h why resets)
  -- Judging.
  | judged {l : Ledger} {h : List Event} {s t : Session} {c : Call} {b : Bytes}
      (incoming : c.incoming = some b) (alive : l.Alive) (shows : s.ledger = l) :
      Acting P R ⟨l, .called t c :: h⟩ ⟨l, .judged s b :: .called t c :: h⟩
  | judgedHeld {l : Ledger} {h : List Event} {s : Session} {b : Bytes} {i : ℕ}
      (drains : R.drains) (within : (judging h).isSome) (alive : l.Alive) (due : l.queue[i]? = some ⟨l.nextIn, b⟩)
      (shows : s.ledger = l.release i) :
      Acting P R ⟨l, h⟩ ⟨l.release i, .judged s b :: h⟩
  | restarted {l : Ledger} {h : List Event} {s t : Session} {b : Bytes} {m : Inbound}
      (before : s.ledger = l) (arr : s.arrives P b = some m) (resets : m.isLogon && m.resetSeq)
      (after : t.ledger = l.restart) :
      Acting P R ⟨l, .judged s b :: h⟩ ⟨l.restart, .restarted t :: .judged s b :: h⟩
  | loggedOn {l : Ledger} {h : List Event} {s : Session} {b : Bytes} {m : Inbound}
      (now : judging h = some (s, b)) (arr : s.arrives P b = some m) (logon : m.isLogon)
      (alive : l.Alive) :
      Acting P R ⟨l, h⟩ ⟨{ l with state := .loggedOn }, .loggedOn :: h⟩
  | owed {l : Ledger} {h : List Event} {s : Session} {b : Bytes} {m : Inbound} {r : Replay}
      (now : judging h = some (s, b)) (arr : s.arrives P b = some m) (alive : l.Alive) (asks : m.asksBack s)
      (owes : m.owes P s = some r) (fault : s.faultOn P b = none) :
      Acting P R ⟨l, h⟩ ⟨{ l with owed := some r }, h⟩
  | held {l : Ledger} {h : List Event} {s : Session} {b : Bytes} {m : Inbound} {i : ℕ}
      (now : judging h = some (s, b)) (arr : s.arrives P b = some m) (ahead : m.RunsAhead s)
      (count : l.nextIn = m.countAt s) (queue : l.queue = s.queue) (short : b.length ≤ queuedLen)
      (slot : l.queue.findIdx? (fun q => q.seq == m.seq || q.seq == 0) = some i) :
      Acting P R ⟨l, h⟩ ⟨l.hold i m.seq b, .held m.seq b :: h⟩
  | asked {l : Ledger} {h : List Event} {s : Session} {b : Bytes} {m : Inbound}
      {slots : List (ℕ × Bytes)} {bytes : Bytes}
      (now : judging h = some (s, b)) (arr : s.arrives P b = some m) (ahead : m.RunsAhead s)
      (count : l.nextIn = m.countAt s) (open_ : l.resendFrom = 0 ∨ m.seq < l.resendFrom)
      (alive : l.Alive) (number : slots.lookup 34 = some (renderU32 l.nextOut))
      (from_ : slots.lookup 7 = some (renderU32 l.nextIn)) :
      Acting P R ⟨l, h⟩
        ⟨(l.missing m.seq).spend, .emitted (.templated .resendRequest slots bytes) :: h⟩
  | askFailed {l : Ledger} {h : List Event} {s : Session} {b : Bytes} {m : Inbound}
      {resets : Option Session}
      (now : judging h = some (s, b)) (arr : s.arrives P b = some m) (ahead : m.RunsAhead s)
      (count : l.nextIn = m.countAt s) (shows : ShowsEnd (l.missing m.seq) resets) :
      Acting P R ⟨l, h⟩ (Books.ended (l.missing m.seq) h .cannotSend resets)
  | advanced {l : Ledger} {h : List Event} {s : Session} {b : Bytes} {m : Inbound}
      (now : judging h = some (s, b)) (arr : s.arrives P b = some m) (consumed : m.Consumed s)
      (stays : m.isLogout → s.faultOn P b ≠ none) (count : l.nextIn = m.countAt s)
      (queue : l.queue = s.queue) (gap : l.resendFrom = s.resendFrom ∧ l.resendTo = s.resendTo)
      (alive : l.Alive) : Acting P R ⟨l, h⟩ ⟨l.advance m.seq, h⟩
  | skipped {l : Ledger} {h : List Event} {s : Session} {b : Bytes} {seq : ℕ}
      (before : s.ledger = l) (live : l.state = .loggedOn) (bad : badTagNumber P b = some seq)
      (high : l.nextIn ≤ seq) :
      Acting P R ⟨l, .judged s b :: h⟩
        ⟨{ l with nextIn := wrapU32 (seq + 1) }, .judged s b :: h⟩
  | moved {l : Ledger} {h : List Event} {s : Session} {b : Bytes} {m : Inbound} {n : ℕ}
      (before : s.ledger = l) (arr : s.arrives P b = some m) (reset : m.isSequenceReset)
      (fault : s.faultOn P b = none) (new : m.newSeqNo = some n) (up : l.nextIn < n)
      (alive : l.Alive) :
      Acting P R ⟨l, .judged s b :: h⟩ ⟨{ l with nextIn := n }, .judged s b :: h⟩
  | peerLeft {l : Ledger} {h : List Event} {s : Session} {b : Bytes} {m : Inbound}
      {why : DropReason} {resets : Option Session}
      (now : judging h = some (s, b)) (arr : s.arrives P b = some m) (logout : m.isLogout)
      (left : why = .peerLogout ∨ why = .cannotSend)
      (fault : s.faultOn P b = none) (count : l.nextIn = s.nextIn) (queue : l.queue = s.queue)
      (shows : ShowsEnd (l.advance m.seq) resets) :
      Acting P R ⟨l, h⟩ (Books.ended (l.advance m.seq) h why resets)
  | delivered {l : Ledger} {h : List Event} {s t : Session} {b : Bytes} {m : Inbound}
      (before : s.ledger = l) (arr : s.arrives P b = some m) (app : m.isApplication)
      (fault : s.faultOn P b = none) (inOrder : m.seq = l.nextIn)
      (shows : t.ledger = l.advance m.seq) (cfg : t.cfg = s.cfg) (alive : l.Alive) :
      Acting P R ⟨l, .judged s b :: h⟩
        ⟨l.advance m.seq, .delivered t b :: .judged s b :: h⟩
  | replied {l : Ledger} {h : List Event} {s : Session} {b bytes : Bytes} {hdr : Header}
      {kept : Bool} (before : s.ledger = l) (alive : l.Alive) (number : hdr.seq = l.nextOut)
      (answer : R.answers b hdr bytes) :
      Acting P R ⟨l, .delivered s b :: h⟩
        ⟨l.spend, .emitted (.reply l.nextOut bytes) :: .stored l.nextOut bytes kept ::
          .delivered s b :: h⟩

/-- What a resend in progress does to the books. -/
inductive Replaying : Books → Books → Prop
  | filled {l : Ledger} {h : List Event} {slots : List (ℕ × Bytes)} {bytes : Bytes}
      (owes : l.owed.isSome) (dup : slots.lookup 43 = some (ascii "Y")) :
      Replaying ⟨l, h⟩ ⟨l, .emitted (.templated .gapFill slots bytes) :: h⟩
  | replayed {l : Ledger} {h : List Event} {seq : ℕ} {bytes : Bytes} (owes : l.owed.isSome)
      (covers : ∀ r ∈ l.owed, r.Covers seq) :
      Replaying ⟨l, h⟩ ⟨l, .emitted (.replayed seq bytes) :: h⟩
  | progressed {l : Ledger} {h : List Event} {r : Option Replay} (owes : l.owed.isSome)
      (left : ∀ q ∈ r, ∀ o ∈ l.owed, q.Within o) :
      Replaying ⟨l, h⟩ ⟨{ l with owed := r }, h⟩
  | gaveUp {l : Ledger} {h : List Event} {resets : Option Session} (owes : l.owed.isSome)
      (shows : ShowsEnd l resets) :
      Replaying ⟨l, h⟩ (Books.ended l h .cannotSend resets)

/-- Everything that may happen to the books of a session. -/
inductive Move (P : Params) (R : Rules) : Books → Books → Prop
  | called {l : Ledger} {h : List Event} {s : Session} {c : Call} (shows : s.ledger = l) :
      Move P R ⟨l, h⟩ ⟨l, .called s c :: h⟩
  | acting {x y : Books} (h : Acting P R x y) : Move P R x y
  | replaying {x y : Books} (h : Replaying x y) : Move P R x y

end Fixbolt
