import Fixbolt.Engine.Accounts
import Fixbolt.Lib.Stepping
import Fixbolt.Properties.Connection

/-!
# What the message log promised

* `Connection.Change`: all that a step does to the queue, to what went out and to what is recorded;
* `Balance`: what is recorded went out, waits, was reported, or was forgotten;
* `accounted_iff`: the account of a connection that left is right just if every step that throws the
  queue away uncounted found it empty;
* `accounted_closing`: a counterparty closes while the answer to its Logon is partly sent.
-/

namespace Fixbolt

namespace Connection

variable {P : Params} {A J : Type} {RX TX : ℕ} {c c' : Connection A J RX TX} {a : Act}

/-- What a step does to the queue and to what went out, with what it records; `dropped` and `counted`
say whether it throws the queue away, and how. -/
inductive Change (c c' : Connection A J RX TX) :
    (recorded : Option Bytes) → (dropped counted : Bool) → Prop
  | still (tx : c'.tx = c.tx) (sent : c'.sent = c.sent) (unsent : c'.unsent = c.unsent)
      (gone : c'.gone = c.gone) : Change c c' none false false
  | accepted (n : ℕ) (tx : c'.tx = c.tx.drop n) (sent : c'.sent = c.sent ++ c.tx.take n)
      (unsent : c'.unsent = c.unsent) (gone : c'.gone = c.gone) : Change c c' none false false
  | queued (m : Bytes) (tx : c'.tx = c.tx ++ m) (sent : c'.sent = c.sent)
      (unsent : c'.unsent = c.unsent) (gone : c'.gone = c.gone) : Change c c' (some m) false false
  /-- The queue of a slow consumer. -/
  | discarded (tx : c'.tx = []) (sent : c'.sent = c.sent) (unsent : c'.unsent = c.unsent)
      (gone : c'.gone = c.gone) : Change c c' none true false
  /-- The counterparty closed, or is turned away. -/
  | left (tx : c'.tx = c.tx) (sent : c'.sent = c.sent) (unsent : c'.unsent = c.unsent)
      (gone : c'.gone = true) : Change c c' none true false
  /-- The socket died, or the deployment refused it. -/
  | died (tx : c'.tx = c.tx) (sent : c'.sent = c.sent) (unsent : c'.unsent = c.tx.length)
      (gone : c'.gone = true) : Change c c' none false true
  | drained (empty : c.tx = []) (tx : c'.tx = c.tx) (sent : c'.sent = c.sent)
      (unsent : c'.unsent = c.unsent) (gone : c'.gone = true) : Change c c' none false false

section Calls

variable [Application A] [Journal J]

theorem change_begin (begins : c' = c.begin_ P a) (idle : c.emitting = [])
    (done : c.todo = []) : Change c c' (c.recording a) (c.drops a) (c.counts a) := by
  subst begins
  cases a with
  | opened => exact .still rfl rfl rfl rfl
  | prime bytes =>
    rw [begin_]
    split <;> exact .still rfl rfl rfl rfl
  | sendApplication msg => exact .still rfl rfl rfl rfl
  | slowApplication => exact .still rfl rfl rfl rfl
  | administer command => cases command <;> exact .still rfl rfl rfl rfl
  | beginLogout => exact .still rfl rfl rfl rfl
  | refuseWithoutASession why => exact .still rfl rfl rfl rfl
  | turn nowMs subMsNanos refuse =>
    rw [begin_]
    split
    · rename_i refused
      rw [show c.counts (.turn nowMs subMsNanos refuse) = true from refused]
      exact .died rfl rfl rfl rfl
    · rename_i refused
      rw [show c.counts (.turn nowMs subMsNanos refuse) = false from Bool.eq_false_iff.mpr refused]
      exact .still rfl rfl rfl rfl
  | go =>
    rw [recording, drops, counts, idle, done]
    exact .still rfl rfl rfl rfl
  | wrote io => exact .still rfl rfl rfl rfl
  | read io bytes => exact .still rfl rfl rfl rfl

/-- What a task does. -/
theorem change_work {task : Task} {todo : List Task} (idle : c.emitting = [])
    (next : c.todo = task :: todo)
    (took : ({ c with todo := todo } : Connection A J RX TX).work P task = some c') :
    Change c c' none (c.drops .go) (c.counts .go) := by
  simp only [drops, counts, idle, next]
  cases task with
  | flush =>
    obtain ⟨-, eq⟩ := Option.ite_none_right_eq_some.mp took
    exact Option.some.inj eq ▸ .still rfl rfl rfl rfl
  | close => exact Option.some.inj took ▸ .still rfl rfl rfl rfl
  | settle => exact Option.some.inj took ▸ .still rfl rfl rfl rfl
  | note why => exact Option.some.inj took ▸ .still rfl rfl rfl rfl
  | recv refuse => cases took
  | overflow =>
    cases Option.some.inj took
    cases full : c.overflow with
    | true =>
      rw [if_pos rfl]
      exact .discarded rfl rfl rfl rfl
    | false =>
      rw [if_neg (by decide)]
      exact .still rfl rfl rfl rfl
  | tick nowMs subMsNanos =>
    simp only [work] at took
    split at took
    · exact Option.some.inj took ▸ .still rfl rfl rfl rfl
    · exact Option.some.inj took ▸ .still rfl rfl rfl rfl
  | cut refuse =>
    simp only [work, turnsAway] at took ⊢
    cases found : c.rx.cut with
    | need =>
      simp only [found] at took ⊢
      exact Option.some.inj took ▸ .still rfl rfl rfl rfl
    | message k | garbage k =>
      simp only [found] at took ⊢
      cases away : refuse (c.rx.bytes k) with
      | true =>
        rw [if_pos away] at took
        exact Option.some.inj took ▸ .left rfl rfl rfl rfl
      | false =>
        rw [if_neg (Bool.eq_false_iff.mp away)] at took
        exact Option.some.inj took ▸ .still rfl rfl rfl rfl
  | judged k link refuse =>
    simp only [work] at took
    cases link with
    | dropped =>
      rw [if_pos rfl] at took
      exact Option.some.inj took ▸ .still rfl rfl rfl rfl
    | up =>
      rw [if_neg (by decide)] at took
      cases full : c.overflow with
      | true =>
        rw [if_pos full] at took
        exact Option.some.inj took ▸ .discarded rfl rfl rfl rfl
      | false =>
        rw [if_neg (Bool.eq_false_iff.mp full)] at took
        exact Option.some.inj took ▸ .still rfl rfl rfl rfl
  | leave closed =>
    simp only [work] at took
    cases closed with
    | true => exact Option.some.inj took ▸ .left rfl rfl rfl rfl
    | false =>
      rw [if_neg (by decide)] at took
      cases dead : c.dead with
      | true =>
        rw [if_pos dead] at took
        exact Option.some.inj took ▸ .died rfl rfl rfl rfl
      | false =>
        rw [if_neg (Bool.eq_false_iff.mp dead)] at took
        split at took
        · rename_i done
          exact Option.some.inj took ▸ .drained done.2 rfl rfl rfl rfl
        · exact Option.some.inj took ▸ .still rfl rfl rfl rfl

theorem change_go (took : c.go P = some c') :
    Change c c' (c.recording .go) (c.drops .go) (c.counts .go) := by
  rw [go] at took
  split at took
  · rename_i m rest emitting
    obtain ⟨-, eq⟩ := Option.ite_none_left_eq_some.mp took
    cases Option.some.inj eq
    simp only [recording, drops, counts, emitting, push]
    split
    · exact .still rfl rfl rfl rfl
    · exact .queued m rfl rfl rfl rfl
  · rename_i task todo emitting next
    rw [show c.recording .go = none by simp only [recording, emitting]]
    exact change_work emitting next took
  · cases took

omit [Application A] [Journal J] in
/-- The socket takes from the front of the queue. -/
theorem change_wrote {io : Io} (took : c.wrote io = some c') : Change c c' none false false := by
  rw [wrote] at took
  split at took
  · split at took
    · cases io with
      | ready n =>
        obtain ⟨-, eq⟩ := Option.ite_none_right_eq_some.mp took
        exact Option.some.inj eq ▸ .accepted n rfl rfl rfl rfl
      | idle => exact Option.some.inj took ▸ .still rfl rfl rfl rfl
      | closed => exact Option.some.inj took ▸ .still rfl rfl rfl rfl
      | failed => exact Option.some.inj took ▸ .still rfl rfl rfl rfl
    · cases took
  · split at took
    · cases took
    · cases io with
      | ready n =>
        obtain ⟨-, eq⟩ := Option.ite_none_right_eq_some.mp took
        exact Option.some.inj eq ▸ .accepted n rfl rfl rfl rfl
      | idle => exact Option.some.inj took ▸ .still rfl rfl rfl rfl
      | closed => exact Option.some.inj took ▸ .still rfl rfl rfl rfl
      | failed => exact Option.some.inj took ▸ .still rfl rfl rfl rfl
  · cases took

omit [Application A] [Journal J] in
theorem change_read {io : Io} {bytes : Bytes} (took : c.read io bytes = some c') :
    Change c c' none false false := by
  rw [read] at took
  split at took
  · cases io with
    | ready n =>
      obtain ⟨-, eq⟩ := Option.ite_none_right_eq_some.mp took
      exact Option.some.inj eq ▸ .still rfl rfl rfl rfl
    | idle => exact Option.some.inj took ▸ .still rfl rfl rfl rfl
    | closed => exact Option.some.inj took ▸ .still rfl rfl rfl rfl
    | failed => exact Option.some.inj took ▸ .still rfl rfl rfl rfl
  · cases took

/-- **All that a step does to the queue**, to what went out and to what is recorded. -/
theorem step_change (took : c.step P a = some c') :
    Change c c' (c.recording a) (c.drops a) (c.counts a) := by
  have method (begins : (if c.emitting = [] ∧ c.todo.isEmpty ∧ ¬ c.gone then some (c.begin_ P a)
      else none) = some c') : Change c c' (c.recording a) (c.drops a) (c.counts a) := by
    obtain ⟨⟨idle, done, -⟩, eq⟩ := Option.ite_none_right_eq_some.mp begins
    exact change_begin (Option.some.inj eq).symm idle (List.isEmpty_iff.mp done)
  cases a with
  | go => exact change_go took
  | wrote io => exact change_wrote took
  | read io bytes => exact change_read took
  | _ => exact method took

end Calls

end Connection

/-! ### The account -/

namespace Logged

variable {P : Params} {A J : Type} {RX TX : ℕ} {l l' : Logged A J RX TX}

/-- Does a step throw the queue away without a report? -/
def forgets (l : Logged A J RX TX) : Move → Bool
  | .conn a => l.conn.drops a || l.conn.counts a && !l.observed
  | .observer => false
  | .deadline => true

/-- The bytes that a step forgets. -/
def forgotten (l : Logged A J RX TX) (move : Move) : ℕ :=
  if l.forgets move then l.conn.tx.length else 0

/-- The bytes recorded as `OUT`. -/
def promised (l : Logged A J RX TX) : Bytes := l.recorded.flatten

/-- The bytes that still wait, or were reported as unsent. -/
def owed (l : Logged A J RX TX) : ℕ := l.left.getD l.conn.tx.length

/-- What is recorded went out, waits, was reported, or was forgotten. -/
structure Balance (l : Logged A J RX TX) (lost : ℕ) : Prop where
  count : l.promised.length = l.conn.sent.length + l.owed + lost
  order : lost = 0 → l.promised = l.conn.sent ++ l.conn.tx
  fresh : l.left = none → l.conn.unsent = 0 ∧ l.conn.gone = false

theorem report_zero (observed : Bool) : report observed 0 = 0 := if_neg fun h => absurd h.1 (by decide)

theorem report_true (unsent : ℕ) : report true unsent = unsent := by
  rcases unsent.eq_zero_or_pos with none | some
  · rw [none, report_zero]
  · exact if_pos ⟨some, rfl⟩

theorem report_false (unsent : ℕ) : report false unsent = 0 := if_neg fun h => nomatch h.2

theorem Balance.new (world : World A J) (policy : Backpressure) :
    Balance (.new RX TX world policy) 0 where
  count := rfl
  order _ := rfl
  fresh _ := ⟨rfl, rfl⟩

section Calls

variable [Application A] [Journal J]

/-- What a step of the connection does to the account. -/
theorem balance_conn {a : Connection.Act} {c' : Connection A J RX TX} {lost : ℕ} (h : Balance l lost)
    (here : l.left = none) (took : l.conn.step P a = some c') :
    Balance
      { l with
        conn := c'
        recorded := l.recorded ++ (l.conn.recording a).toList
        left := if c'.gone then some (report l.observed c'.unsent) else none }
      (lost + l.forgotten (.conn a)) := by
  obtain ⟨unsent, stays⟩ := h.fresh here
  have count : l.promised.length = l.conn.sent.length + l.conn.tx.length + lost := by
    have count := h.count
    rwa [owed, here] at count
  have order := h.order
  simp only [promised, List.length_flatten] at count
  simp only [promised] at order
  rw [forgotten, forgets]
  have change := Connection.step_change took
  generalize l.conn.recording a = recorded at change ⊢
  generalize l.conn.drops a = dropped at change ⊢
  generalize l.conn.counts a = counted at change ⊢
  cases change with
  | still tx sent unsent' gone | accepted n tx sent unsent' gone | queued m tx sent unsent' gone =>
    refine ⟨?_, fun none => ?_, fun _ => ⟨unsent'.trans unsent, gone.trans stays⟩⟩
    · simp [promised, owed, gone, stays, tx, sent]
      omega
    · simp [promised, tx, sent, order none]
  | discarded tx sent unsent' gone =>
    refine ⟨?_, fun none => ?_, fun _ => ⟨unsent'.trans unsent, gone.trans stays⟩⟩
    · simp [promised, owed, gone, stays, tx, sent]
      omega
    · simp at none
      simp [promised, tx, sent, order none.1, none.2]
  | left tx sent unsent' gone =>
    refine ⟨?_, fun none => ?_, fun left => ?_⟩
    · simp [promised, owed, gone, sent, unsent', unsent, report_zero]
      omega
    · simp at none
      simp [promised, tx, sent, order none.1]
    · simp [gone] at left
  | died tx sent unsent' gone =>
    refine ⟨?_, fun none => ?_, fun left => ?_⟩
    · cases watched : l.observed with
      | true =>
        simp [promised, owed, gone, sent, unsent', report_true]
        omega
      | false =>
        simp [promised, owed, gone, sent, report_false]
        omega
    · simp [promised, tx, sent, order (Nat.add_eq_zero_iff.mp none).1]
    · simp [gone] at left
  | drained empty tx sent unsent' gone =>
    refine ⟨?_, fun none => ?_, fun left => ?_⟩
    · simp [promised, owed, gone, sent, unsent', unsent, report_zero]
      simpa [empty] using count
    · simp [promised, tx, sent, order none]
    · simp [gone] at left

/-- **What a step does to the account**: it adds what it forgets. -/
theorem balance_step {move : Move} {lost : ℕ} (h : Balance l lost)
    (took : l.step P move = some l') : Balance l' (lost + l.forgotten move) := by
  unfold step at took
  obtain ⟨here, took⟩ := Option.ite_none_left_eq_some.mp took
  have here : l.left = none := Option.not_isSome_iff_eq_none.mp here
  cases move with
  | conn a =>
    obtain ⟨c', took, eq⟩ := Option.map_eq_some_iff.mp took
    exact eq ▸ balance_conn h here took
  | observer => exact Option.some.inj took ▸ ⟨h.count, h.order, h.fresh⟩
  | deadline =>
    obtain ⟨-, eq⟩ := Option.ite_none_right_eq_some.mp took
    cases Option.some.inj eq
    have count := h.count
    rw [owed, here] at count
    refine ⟨?_, fun none => h.order (Nat.add_eq_zero_iff.mp none).1, nofun⟩
    show l.promised.length = l.conn.sent.length + 0 + (lost + l.conn.tx.length)
    rw [count, Option.getD_none]
    omega

end Calls

/-- Does the account hold? What is recorded as `OUT` is what the transport accepted and what was
reported as unsent, and nothing was unsent just if every recorded message went out whole. -/
structure Accounted (l : Logged A J RX TX) (unsent : ℕ) : Prop where
  bytes : (l.recorded.map List.length).sum = l.conn.sent.length + unsent
  whole : unsent = 0 ↔ l.conn.sent = l.recorded.flatten

/-- The account of a connection that left. -/
theorem Balance.accounted {lost unsent : ℕ} (h : Balance l lost) (left : l.left = some unsent) :
    l.Accounted unsent ↔ lost = 0 := by
  have count : l.promised.length = l.conn.sent.length + unsent + lost := by
    have count := h.count
    rwa [owed, left] at count
  constructor
  · intro held
    have bytes := held.bytes
    rw [← List.length_flatten] at bytes
    have : l.promised.length = l.recorded.flatten.length := rfl
    omega
  · intro none
    have order := h.order none
    have queued : l.conn.tx.length = unsent := by
      rw [order, List.length_append] at count
      omega
    refine ⟨?_, ?_⟩
    · rw [← List.length_flatten]
      exact count.trans (by omega)
    · show unsent = 0 ↔ l.conn.sent = l.promised
      rw [order, List.self_eq_append_right, ← queued, List.length_eq_zero_iff]

section Runs

variable [Application A] [Journal J]

/-- **The account of a connection that left is right just if nothing was forgotten**: every step that
throws the queue away uncounted found it empty. Those are the Logout of a slow consumer, the close of
the counterparty, a Logon on a second connection, the deadline of a shutdown and, while nobody
listens, the end of a dead or refused socket. -/
theorem accounted_iff (world : World A J) (policy : Backpressure) (moves : List Move) {unsent : ℕ}
    (run : runsOf (step P) (.new RX TX world policy) moves = some l) (left : l.left = some unsent) :
    l.Accounted unsent ↔
      Along (step P) (fun l move => l.forgets move → l.conn.tx = [])
        (Logged.new RX TX world policy) moves := by
  obtain ⟨lost, balance, none_iff⟩ :=
    Along.weighed (fun _ _ _ _ h took => balance_step h took) run (Balance.new world policy)
  have light (l : Logged A J RX TX) (move : Move) :
      l.forgotten move = 0 ↔ (l.forgets move → l.conn.tx = []) := by
    rw [forgotten]
    split <;> simp_all
  simp only [light] at none_iff
  rw [balance.accounted left, Nat.zero_add, none_iff]

end Runs

/-! ### A close that finds a queue -/

open Connection Setting

/-- An acceptor with a queue of 130 bytes, and someone who reads the events. -/
def audited : Logged Silent NoJournal 256 130 := .new 256 130 (fresh acceptor config) .disconnect

/-- A Logon is read, the socket takes the first 20 bytes of the answer, and the next turn begins. -/
def answered : List Connection.Act :=
  Connection.answering ++ [.turn Setting.now 0 fun _ => false, .wrote .idle, .go, .go]

/-- The counterparty closes. -/
def closing : List Connection.Act := answered ++ [.read .closed [], .go, .wrote .idle, .go]

/-- The socket dies. -/
def dying : List Connection.Act := answered ++ [.read .idle [], .go, .wrote .failed, .go]

/-- A run of the connection, whose events are read. -/
def watched (as : List Connection.Act) : List Move := .observer :: as.map .conn

/-- 59 bytes are left of the Logon when the socket dies, and they are reported. -/
theorem accounted_dying :
    ∃ l, runsOf (step acceptor) audited (watched dying) = some l ∧ l.left = some 59 ∧
      l.Accounted 59 := by
  have ran : (runsOf (step acceptor) audited (watched dying)).any (·.left == some 59) := by
    decide +kernel
  obtain ⟨l, run, left⟩ := (Option.any_eq_true _ _).mp ran
  have left : l.left = some 59 := by simpa using left
  have kept : Along (step acceptor) (fun l move => l.forgets move → l.conn.tx = []) audited
      (watched dying) := by
    decide +kernel
  exact ⟨l, run, left, (accounted_iff _ _ _ run left).mpr kept⟩

/-- The same 59 bytes are left when the counterparty closes, and nobody reports them. -/
theorem accounted_closing :
    ¬ ∀ (moves : List Move) (l : Logged Silent NoJournal 256 130) (unsent : ℕ),
      runsOf (step acceptor) audited moves = some l → l.left = some unsent →
      l.Accounted unsent := by
  intro held
  have ran : (runsOf (step acceptor) audited (watched closing)).any fun l =>
      l.left == some 0 && (l.recorded.map List.length).sum != l.conn.sent.length := by
    decide +kernel
  obtain ⟨l, run, short⟩ := (Option.any_eq_true _ _).mp ran
  obtain ⟨left, short⟩ := by simpa using short
  exact short (held _ _ _ run left).bytes

end Logged

end Fixbolt
