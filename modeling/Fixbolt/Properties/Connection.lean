import Fixbolt.Engine.Connection
import Fixbolt.Properties.Setting
import Fixbolt.Session.Errands
import Mathlib.Data.List.Sublists

/-!
# What goes out is whole messages

* `Connection.Outgoing`: the bytes that went out and those that wait are messages of the session;
* `outgoing_step`: what a step keeps, unless it throws away the rest of a message;
* `sent_whole`: what the socket accepted is the beginning of messages, over every run in which no
  queue is thrown away while a message is partly sent;
* `sent_broken`: and a run in which one is.
-/

namespace Fixbolt

/-! ### What a call emits -/

theorem messages_append (new old : List Event) :
    messages (new ++ old) = messages old ++ messages new := by
  rw [messages, List.filterMap_append, List.reverse_append]
  rfl

section Grows

variable {P : Params} {A J : Type} [Journal J]

theorem World.Errands.grows {u w : World A J} (h : World.Errands P u w) :
    ∃ new, w.hist = new ++ u.hist := by
  induction h with
  | refl => exact ⟨[], rfl⟩
  | tail _ errand ih =>
    obtain ⟨old, eq⟩ := ih
    obtain ⟨new, eq'⟩ := errand.grows
    exact ⟨new ++ old, by rw [eq', eq, List.append_assoc]⟩

theorem World.Told.hist {c : Call} {u w : World A J} (h : World.Told c u w) : w.hist = u.hist := by
  have told (u : World A J) : u.tellJournal.hist = u.hist := by
    unfold World.tellJournal
    split <;> rfl
  cases h with
  | both b =>
    rw [told]
    unfold World.markIn
    split <;> rfl
  | spent own => exact told u
  | nothing holds => rfl
  | untouched own found => rfl

/-- A call only adds to the history. -/
theorem perform_grows [Application A] (w : World A J) (c : Call) :
    ∃ new, (w.perform P c).1.hist = new ++ w.hist := by
  obtain ⟨u, errands, told⟩ := World.perform_errands (P := P) w c
  obtain ⟨new, eq⟩ := errands.grows
  exact ⟨new ++ [.called w.ses c], by rw [told.hist, eq, List.append_assoc]; rfl⟩

end Grows

namespace Connection

variable {P : Params} {A J : Type} {RX TX : ℕ} {c c' : Connection A J RX TX} {ms : List Bytes}

/-- The messages `ms` went out or wait in the queue; those a call has still to push are behind them,
and the session emitted all of them in this order. -/
structure Outgoing (c : Connection A J RX TX) (ms : List Bytes) : Prop where
  emitted : (ms ++ c.emitting).Sublist (messages c.world.hist)
  bytes : c.sent ++ c.tx = ms.flatten

/-- Only the messages, the bytes and the queue matter. -/
theorem Outgoing.congr (h : c.Outgoing ms) (hist : c'.world.hist = c.world.hist)
    (emitting : c'.emitting = c.emitting) (tx : c'.tx = c.tx) (sent : c'.sent = c.sent) :
    c'.Outgoing ms where
  emitted := by rw [hist, emitting]; exact h.emitted
  bytes := by rw [tx, sent]; exact h.bytes

theorem Outgoing.accepted (h : c.Outgoing ms) (n : ℕ) : (c.accepted n).Outgoing ms where
  emitted := h.emitted
  bytes := by
    rw [Connection.accepted, List.append_assoc, List.take_append_drop, h.bytes]

/-- A message that is not pushed is none. -/
theorem Outgoing.skip {m : Bytes} (h : c.Outgoing ms) (next : c.emitting = m :: c'.emitting)
    (hist : c'.world.hist = c.world.hist) (tx : c'.tx = c.tx) (sent : c'.sent = c.sent) :
    c'.Outgoing ms := by
  have emitted := h.emitted
  rw [next] at emitted
  refine ⟨?_, by rw [tx, sent]; exact h.bytes⟩
  rw [hist]
  exact ((List.Sublist.refl ms).append (List.sublist_cons_self m _)).trans emitted

/-- One that is goes behind the queue. -/
theorem Outgoing.queued {m : Bytes} (h : c.Outgoing ms) (next : c.emitting = m :: c'.emitting)
    (hist : c'.world.hist = c.world.hist) (tx : c'.tx = c.tx ++ m) (sent : c'.sent = c.sent) :
    c'.Outgoing (ms ++ [m]) where
  emitted := by
    have emitted := h.emitted
    rw [next] at emitted
    rw [hist, List.append_assoc]
    exact emitted
  bytes := by
    rw [tx, sent, ← List.append_assoc, h.bytes, List.flatten_append, List.flatten_singleton]

theorem Outgoing.push {m : Bytes} {rest : List Bytes} (h : c.Outgoing ms)
    (next : c.emitting = m :: rest) :
    ∃ ms', ({ c.push m with emitting := rest } : Connection A J RX TX).Outgoing ms' := by
  by_cases full : c.out.bound < c.tx.length + m.length
  · rw [Connection.push, if_pos full]
    exact ⟨ms, h.skip next rfl rfl rfl⟩
  · rw [Connection.push, if_neg full]
    exact ⟨ms ++ [m], h.queued next rfl rfl rfl⟩

/-- Is what went out whole messages, with no message partly sent? -/
def Whole (c : Connection A J RX TX) : Prop :=
  ∃ ms : List Bytes, ms.Sublist (messages c.world.hist) ∧ c.sent = ms.flatten

/-- Is the next thing to do to throw the queue away? -/
def Discards (c : Connection A J RX TX) : Prop :=
  match c.emitting, c.todo with
  | [], .overflow :: _ => c.overflow = true
  | [], .judged _ .up _ :: _ => c.overflow = true
  | _, _ => False

/-- `Discards`, as a test. -/
def discards (c : Connection A J RX TX) : Bool :=
  match c.emitting, c.todo with
  | [], .overflow :: _ => c.overflow
  | [], .judged _ .up _ :: _ => c.overflow
  | _, _ => false

theorem discards_iff : c.discards = true ↔ c.Discards := by
  unfold discards Discards
  split <;> simp

section Calls

variable [Application A] [Journal J]

theorem Outgoing.tell (h : c.Outgoing ms) (call : Call) : (c.tell P call).Outgoing ms := by
  obtain ⟨new, grows⟩ := perform_grows (P := P) c.world call
  refine ⟨h.emitted.trans ?_, h.bytes⟩
  show (messages c.world.hist).Sublist (messages (c.world.perform P call).1.hist)
  rw [grows, messages_append]
  exact List.sublist_append_left _ _

theorem Outgoing.say {call : Call} {out : Out} {rest : Link → List Task} (h : c.Outgoing ms)
    (idle : c.emitting = []) : (c.say P call out rest).Outgoing ms := by
  obtain ⟨new, grows⟩ := perform_grows (P := P) c.world call
  have said : (c.say P call out rest).emitting = messages new := by
    show messages ((c.world.perform P call).1.hist.take
      ((c.world.perform P call).1.hist.length - c.world.hist.length)) = _
    rw [grows, List.length_append, Nat.add_sub_cancel, List.take_left' rfl]
  have emitted := h.emitted
  rw [idle, List.append_nil] at emitted
  refine ⟨?_, h.bytes⟩
  rw [said]
  show (ms ++ messages new).Sublist (messages (c.world.perform P call).1.hist)
  rw [grows, messages_append]
  exact emitted.append (List.Sublist.refl _)

/-- The queue can be thrown away when no message is partly sent. -/
theorem Whole.slowConsumer (whole : c.Whole) (idle : c.emitting = []) :
    ∃ ms, (c.slowConsumer P).Outgoing ms := by
  obtain ⟨ms, emitted, sent⟩ := whole
  have empty : Outgoing ({ c with tx := [], overflow := false } : Connection A J RX TX) ms := by
    refine ⟨?_, ?_⟩
    · show (ms ++ c.emitting).Sublist (messages c.world.hist)
      rwa [idle, List.append_nil]
    · show c.sent ++ [] = _
      rw [List.append_nil, sent]
  exact ⟨ms, empty.say idle⟩

/-- What a task keeps, unless it throws the rest of a message away. -/
theorem outgoing_work {task : Task} {todo : List Task} (h : c.Outgoing ms) (idle : c.emitting = [])
    (next : c.todo = task :: todo) (clean : c.Discards → c.Whole)
    (took : ({ c with todo := todo } : Connection A J RX TX).work P task = some c') :
    ∃ ms', c'.Outgoing ms' := by
  have same : Outgoing ({ c with todo := todo } : Connection A J RX TX) ms :=
    h.congr rfl rfl rfl rfl
  cases task with
  | flush =>
    simp only [work, Option.ite_none_right_eq_some, Option.some.injEq] at took
    exact ⟨ms, took.2 ▸ same⟩
  | close => exact ⟨ms, (Option.some.inj took) ▸ same.congr rfl rfl rfl rfl⟩
  | settle => exact ⟨ms, (Option.some.inj took) ▸ same.congr rfl rfl rfl rfl⟩
  | note why => exact ⟨ms, (Option.some.inj took) ▸ same.tell _⟩
  | recv refuse => exact nomatch took
  | overflow =>
    cases Option.some.inj took
    split
    · rename_i full
      have whole : c.Whole := clean (by simpa only [Discards, idle, next] using full)
      exact Whole.slowConsumer (c := { c with todo := todo }) whole idle
    · exact ⟨ms, same⟩
  | tick nowMs subMsNanos =>
    simp only [work] at took
    split at took
    · exact ⟨ms, (Option.some.inj took) ▸ same⟩
    · exact ⟨ms, (Option.some.inj took) ▸ same.say idle⟩
  | cut refuse =>
    have judge (k : ℕ) (took : (if refuse (c.rx.bytes k) then
        some { ({ c with todo := todo } : Connection A J RX TX).tell P
            (.disconnectWith .duplicateIdentity) with
          rx := c.rx.take k, gone := true, todo := [] }
      else some (({ c with todo := todo } : Connection A J RX TX).say P
        (.receivedWith (c.rx.bytes k)) c.queue fun link => [.judged k link refuse])) = some c') :
        ∃ ms', c'.Outgoing ms' := by
      split at took
      · exact ⟨ms, (Option.some.inj took) ▸ (same.tell _).congr rfl rfl rfl rfl⟩
      · exact ⟨ms, (Option.some.inj took) ▸ same.say idle⟩
    simp only [work] at took
    split at took
    · exact ⟨ms, (Option.some.inj took) ▸ same⟩
    · exact judge _ took
    · exact judge _ took
  | judged k link refuse =>
    simp only [work] at took
    split at took
    · exact ⟨ms, (Option.some.inj took) ▸ same.congr rfl rfl rfl rfl⟩
    · rename_i stays
      split at took
      · rename_i full
        cases link with
        | dropped => exact absurd rfl stays
        | up =>
          have whole : c.Whole := clean (by simpa only [Discards, idle, next] using full)
          cases Option.some.inj took
          exact Whole.slowConsumer (c := { c with todo := todo, rx := c.rx.take k }) whole idle
      · exact ⟨ms, (Option.some.inj took) ▸ same.congr rfl rfl rfl rfl⟩
  | leave closed =>
    simp only [work] at took
    split at took
    · exact ⟨ms, (Option.some.inj took) ▸ (same.tell _).congr rfl rfl rfl rfl⟩
    · split at took
      · exact ⟨ms, (Option.some.inj took) ▸ (same.tell _).congr rfl rfl rfl rfl⟩
      · split at took
        · exact ⟨ms, (Option.some.inj took) ▸ same.congr rfl rfl rfl rfl⟩
        · exact ⟨ms, (Option.some.inj took) ▸ same⟩

/-- A method begins. -/
theorem outgoing_begin (h : c.Outgoing ms) (idle : c.emitting = []) (a : Act) :
    (c.begin_ P a).Outgoing ms := by
  cases a with
  | opened =>
    rw [begin_]
    exact h.say idle
  | prime bytes =>
    rw [begin_]
    split
    · exact h
    · exact h.congr rfl rfl rfl rfl
  | sendApplication msg =>
    rw [begin_]
    exact h.say idle
  | slowApplication =>
    rw [begin_]
    exact h.say idle
  | administer command =>
    cases command with
    | setNextOut n => exact h.tell _
    | setNextIn n => exact h.tell _
    | sendSequenceReset n =>
      rw [begin_]
      exact h.say idle
  | beginLogout =>
    rw [begin_]
    exact h.say idle
  | refuseWithoutASession why => exact (h.tell _).congr rfl rfl rfl rfl
  | turn nowMs subMsNanos refuse =>
    rw [begin_]
    split
    · exact (h.tell _).congr rfl rfl rfl rfl
    · exact h.congr rfl rfl rfl rfl
  | go => exact h
  | wrote io => exact h
  | read io bytes => exact h

theorem outgoing_go (h : c.Outgoing ms) (clean : c.Discards → c.Whole) (took : c.go P = some c') :
    ∃ ms', c'.Outgoing ms' := by
  rw [go] at took
  split at took
  · rename_i m rest emitting
    split at took
    · exact nomatch took
    · exact (Option.some.inj took) ▸ h.push emitting
  · rename_i task todo emitting next
    exact outgoing_work h emitting next clean took
  · exact nomatch took

omit [Application A] [Journal J] in
/-- The socket takes from the front of the queue, and what it does not take stays there. -/
theorem outgoing_wrote {io : Io} (h : c.Outgoing ms) (took : c.wrote io = some c') :
    ∃ ms', c'.Outgoing ms' := by
  refine ⟨ms, ?_⟩
  rw [wrote] at took
  split at took
  · rename_i m rest emitting
    split at took
    · cases io with
      | ready n =>
        obtain ⟨-, eq⟩ := Option.ite_none_right_eq_some.mp took
        exact (Option.some.inj eq) ▸ h.accepted n
      | idle => exact (Option.some.inj took) ▸ h
      | closed => exact (Option.some.inj took) ▸ h.skip emitting rfl rfl rfl
      | failed => exact (Option.some.inj took) ▸ h.skip emitting rfl rfl rfl
    · exact nomatch took
  · split at took
    · exact nomatch took
    · cases io with
      | ready n =>
        obtain ⟨-, eq⟩ := Option.ite_none_right_eq_some.mp took
        exact (Option.some.inj eq) ▸ (h.accepted n).congr rfl rfl rfl rfl
      | idle => exact (Option.some.inj took) ▸ h.congr rfl rfl rfl rfl
      | closed => exact (Option.some.inj took) ▸ h.congr rfl rfl rfl rfl
      | failed => exact (Option.some.inj took) ▸ h.congr rfl rfl rfl rfl
  · exact nomatch took

omit [Application A] [Journal J] in
theorem outgoing_read {io : Io} {bytes : Bytes} (h : c.Outgoing ms)
    (took : c.read io bytes = some c') : c'.Outgoing ms := by
  rw [read] at took
  split at took
  · cases io with
    | ready n =>
      obtain ⟨-, eq⟩ := Option.ite_none_right_eq_some.mp took
      exact (Option.some.inj eq) ▸ h.congr rfl rfl rfl rfl
    | idle => exact (Option.some.inj took) ▸ h.congr rfl rfl rfl rfl
    | closed => exact (Option.some.inj took) ▸ h.congr rfl rfl rfl rfl
    | failed => exact (Option.some.inj took) ▸ h.congr rfl rfl rfl rfl
  · exact nomatch took

/-- What a step keeps, unless it throws away the rest of a message. -/
theorem outgoing_step {a : Act} (h : c.Outgoing ms) (clean : c.Discards → c.Whole)
    (took : c.step P a = some c') : ∃ ms', c'.Outgoing ms' := by
  have method (begins : (if c.emitting = [] ∧ c.todo.isEmpty ∧ ¬ c.gone then some (c.begin_ P a)
      else none) = some c') : ∃ ms', c'.Outgoing ms' := by
    obtain ⟨idle, eq⟩ := Option.ite_none_right_eq_some.mp begins
    exact ⟨ms, (Option.some.inj eq) ▸ outgoing_begin h idle.1 a⟩
  cases a with
  | go => exact outgoing_go h clean took
  | wrote io => exact outgoing_wrote h took
  | read io bytes => exact ⟨ms, outgoing_read h took⟩
  | _ => exact method took

end Calls

/-! ### Runs -/

section Runs

variable (P) [Application A] [Journal J]

/-- The states of a connection. -/
inductive Reachable : Connection A J RX TX → Prop
  | new (world : World A J) (policy : Backpressure) : Reachable (.new RX TX world policy)
  | step {c c' : Connection A J RX TX} {a : Act} (from_ : Reachable c) (took : c.step P a = some c') :
    Reachable c'

/-- Those of the runs that throw no queue away while a message is partly sent. -/
inductive Orderly : Connection A J RX TX → Prop
  | new (world : World A J) (policy : Backpressure) : Orderly (.new RX TX world policy)
  | step {c c' : Connection A J RX TX} {a : Act} (from_ : Orderly c) (clean : c.Discards → c.Whole)
    (took : c.step P a = some c') : Orderly c'

end Runs

section Whole

variable [Application A] [Journal J]

theorem Orderly.outgoing (run : c.Orderly P) : ∃ ms, c.Outgoing ms := by
  induction run with
  | new world policy => exact ⟨[], List.nil_sublist _, rfl⟩
  | step _ clean took ih =>
    obtain ⟨ms, h⟩ := ih
    exact outgoing_step h clean took

/-- Is what went out the beginning of whole messages of the session, in its order? -/
def SentWhole (c : Connection A J RX TX) : Prop :=
  ∃ ms : List Bytes, ms.Sublist (messages c.world.hist) ∧ c.sent <+: ms.flatten

/-- **What the socket accepted is whole messages**, but for the rest of the last, over every run that
throws no queue away while a message is partly sent. -/
theorem sent_whole (run : c.Orderly P) : c.SentWhole := by
  obtain ⟨ms, h⟩ := run.outgoing
  refine ⟨ms, (List.sublist_append_left _ _).trans h.emitted, ?_⟩
  rw [← h.bytes]
  exact List.prefix_append _ _

theorem Reachable.runs (from_ : c.Reachable P) {as : List Act} (run : c.runs P as = some c') :
    c'.Reachable P := by
  induction as generalizing c with
  | nil => exact (Option.some.inj run) ▸ from_
  | cons a as ih =>
    obtain ⟨d, took, rest⟩ := Option.bind_eq_some_iff.mp run
    exact ih (from_.step took) rest

/-- A run that throws no queue away at all. -/
def runsKeeping (P : Params) (c : Connection A J RX TX) (as : List Act) :
    Option (Connection A J RX TX) :=
  as.foldlM (fun c a => if c.discards then none else c.step P a) c

theorem Orderly.runs (from_ : c.Orderly P) {as : List Act} (run : c.runsKeeping P as = some c') :
    c'.Orderly P := by
  induction as generalizing c with
  | nil => exact (Option.some.inj run) ▸ from_
  | cons a as ih =>
    obtain ⟨d, took, rest⟩ := Option.bind_eq_some_iff.mp run
    obtain ⟨keeps, took⟩ := Option.ite_none_left_eq_some.mp took
    exact ih (from_.step (fun throws => absurd (discards_iff.mpr throws) keeps) took) rest

end Whole

open Setting

/-- An acceptor with a queue of 130 bytes, which ends the session when it is full. -/
def accepting : Connection Silent NoJournal 256 130 := .new 256 130 (fresh acceptor config) .disconnect

/-- A Logon is read, and the socket takes the first 20 bytes of the answer. -/
def answering : List Act :=
  [.opened, .prime (logon 1), .turn Setting.now 0 fun _ => false] ++ List.replicate 3 .go ++
    [.read .idle []] ++ List.replicate 4 .go ++ [.wrote (.ready 20), .go]

theorem sent_whole_logon :
    ∃ c, accepting.runsKeeping acceptor answering = some c ∧ c.sent.length = 20 ∧ c.SentWhole := by
  have ran : (accepting.runsKeeping acceptor answering).any (·.sent.length == 20) := by
    decide +kernel
  obtain ⟨c, run, taken⟩ := (Option.any_eq_true _ _).mp ran
  exact ⟨c, run, by simpa using taken, sent_whole ((Orderly.new _ _).runs run)⟩

/-- A SequenceReset does not fit behind the rest of it. The queue is thrown away for a Logout, of
which the socket takes nine bytes. -/
def overflowing : List Act :=
  answering ++ [.administer (.sendSequenceReset 5)] ++ List.replicate 6 .go ++
    [.turn Setting.now 0 fun _ => false, .wrote (.ready 9)]

/-- `8=FIX.4.4` follows the first twenty bytes of the Logon. -/
theorem sent_broken : ¬ ∀ c : Connection Silent NoJournal 256 130, c.Reachable acceptor →
    c.SentWhole := by
  intro whole
  have ran : (accepting.runs acceptor overflowing).any fun c =>
      (messages c.world.hist).sublists'.all fun ms => !c.sent.isPrefixOf ms.flatten := by
    decide +kernel
  obtain ⟨c, run, broken⟩ := (Option.any_eq_true _ _).mp ran
  obtain ⟨ms, emitted, begins⟩ := whole c ((Reachable.new _ _).runs run)
  have none := List.all_eq_true.mp broken ms (List.mem_sublists'.mpr emitted)
  rw [List.isPrefixOf_iff_prefix.mpr begins] at none
  exact absurd none (by decide)

end Connection

end Fixbolt
