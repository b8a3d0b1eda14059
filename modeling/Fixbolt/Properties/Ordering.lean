import Fixbolt.Engine.Orders
import Fixbolt.Properties.Setting

/-!
# What was asked for happens once

Whatever the threads that submit and the engine do in between, a command or a message that was taken
is handed to the engine once, in its turn, and one thing comes of it.

* `Mailbox.Once`: what this says of one queue;
* `Orders.Kept`, `Orders.kept_step`: the accounts of both queues, and that a step keeps them;
* `Orders.orders_once`: every run keeps them.
-/

namespace Fixbolt

namespace Mailbox

variable {σ ι : Type*} {cap : ℕ} {cell : Cell σ ι} {m m' : Mailbox σ ι cap}

/-- Nothing is handed over but by the drain that holds the lock. -/
theorem handed_step {a : Act ι} (took : m.step cell a = some m') (other : a ≠ .next) :
    m'.handed = m.handed := by
  cases a with
  | submit x =>
    obtain rfl := Option.some.inj took
    rfl
  | lock k =>
    simp only [step] at took
    split at took
    · obtain ⟨-, eq⟩ := Option.ite_none_right_eq_some.mp took
      obtain rfl := Option.some.inj eq
      rfl
    · cases took
  | go k =>
    simp only [step, go] at took
    split at took
    · split at took
      all_goals
        obtain rfl := Option.some.inj took
        rfl
    · obtain rfl := Option.some.inj took
      rfl
    · obtain rfl := Option.some.inj took
      rfl
    · cases took
  | drain granted =>
    obtain ⟨-, eq⟩ := Option.ite_none_right_eq_some.mp took
    dsimp only at eq
    split at eq
    all_goals
      obtain rfl := Option.some.inj eq
      rfl
  | next => exact absurd rfl other

/-- What the calls of `submit` that were answered can rely on. -/
structure Once (cell : Cell σ ι) (m : Mailbox σ ι cap) : Prop where
  /-- The items of the calls that were taken, in the order in which these had the lock: first those
  that were handed over, then those that wait. -/
  order : m.handed.map some ++ m.queued cell = m.accepted.map m.item?
  turns : m.accepted.Sublist m.locked
  once : m.accepted.Nodup
  /-- A call that was answered was taken if the answer says so. -/
  answer : ∀ (k : ℕ) (x : ι) (taken : Bool), m.calls[k]? = some (x, .answered taken) →
    (k ∈ m.accepted ↔ taken)
  /-- A refusal leaves the queue as it was. -/
  refusal : ∀ (a : Act ι) (m' : Mailbox σ ι cap), m.step cell a = some m' →
    (∃ (k : ℕ) (x : ι), m.calls[k]? ≠ some (x, .answered false) ∧ m'.calls[k]? = some (x, .answered false)) →
    m'.ring = m.ring ∧ m'.waiting = m.waiting ∧ m'.accepted = m.accepted ∧ m'.handed = m.handed
  /-- Nothing that was taken is left behind by a drain that got the lock. -/
  drained : m.drained = .cleared → m.handed.map some = m.accepted.map m.item?
  /-- The count says whether something waits when nobody holds the lock. -/
  flag : m.lock = none → (m.waiting ≠ 0 ↔ m.queued cell ≠ [])

/-- **A mailbox hands over once and in turn.** -/
theorem Sound.once (sound : m.Sound cell) : m.Once cell where
  order := sound.order
  turns := sound.sublist
  once := sound.nodup
  answer k x taken at_ := by
    rw [sound.put k, at_]
    cases taken <;> simp [Submit.put]
  refusal a m' took := by
    rintro ⟨k, x, before, after⟩
    cases a with
    | submit y =>
      obtain rfl := Option.some.inj took
      exact ⟨rfl, rfl, rfl, rfl⟩
    | lock j =>
      simp only [Mailbox.step] at took
      split at took
      · obtain ⟨-, eq⟩ := Option.ite_none_right_eq_some.mp took
        obtain rfl := Option.some.inj eq
        exact ⟨rfl, rfl, rfl, rfl⟩
      · cases took
    | go j =>
      simp only [Mailbox.step, go] at took
      split at took
      · rename_i y at_
        split at took
        · -- The item went in, so this call is not one that was refused.
          obtain rfl := Option.some.inj took
          have after : (m.reach j y .written).calls[k]? = some (x, .answered false) := after
          rw [getElem?_reach at_] at after
          split at after
          · cases after
          · exact absurd after before
        · obtain rfl := Option.some.inj took
          exact ⟨rfl, rfl, rfl, rfl⟩
      · rename_i y at_
        obtain rfl := Option.some.inj took
        have after : (m.reach j y .flagged).calls[k]? = some (x, .answered false) := after
        rw [getElem?_reach at_] at after
        split at after
        · cases after
        · exact absurd after before
      · obtain rfl := Option.some.inj took
        exact ⟨rfl, rfl, rfl, rfl⟩
      · cases took
    | drain granted =>
      obtain ⟨-, eq⟩ := Option.ite_none_right_eq_some.mp took
      dsimp only at eq
      split at eq
      all_goals
        obtain rfl := Option.some.inj eq
        exact absurd after before
    | next =>
      simp only [Mailbox.step, next] at took
      split at took
      · cases took
      all_goals
        obtain rfl := Option.some.inj took
        exact absurd after before
  drained cleared := by
    have order := sound.order
    rwa [queued, left, cleared, Circular.window_zero, List.map_nil, List.append_nil] at order
  flag free := by
    have idle : m.drained = .idle := by
      by_contra busy
      rw [sound.draining.mp busy] at free
      cases free
    rw [sound.count free, queued, left, idle, ne_eq, ne_eq, List.map_eq_nil_iff,
      ← List.length_eq_zero_iff, Circular.length_window]

end Mailbox

/-- The command that an event is about: of which connection, what it moves, and where to. -/
def OrderEvent.order? (e : OrderEvent) : Option (ℕ × Change × ℕ) :=
  match e.kind with
  | .administered change to_ _ => some (e.id, change, to_)
  | .originationUndeliverable _ => none

/-- How many messages an event says had no connection. -/
def OrderEvent.lost (e : OrderEvent) : ℕ :=
  match e.kind with
  | .administered _ _ _ => 0
  | .originationUndeliverable count => count

/-- A command, as its event names it. -/
def Order.named (o : Order) : ℕ × Change × ℕ := (o.id, o.command.change, o.command.to_)

namespace Duty

/-- The commands that were taken out and have no event yet. -/
def orders : Duty → List Order
  | collecting taken => taken
  | applying _ rest => rest
  | applied _ order _ rest => order :: rest
  | _ => []

/-- The messages without a connection that no event has told of yet. -/
def gone : Duty → ℕ
  | originating gone | sending gone | reporting gone => gone
  | _ => 0

/-- Those that are not in the total yet. -/
def uncounted : Duty → ℕ
  | originating gone | sending gone => gone
  | _ => 0

end Duty

namespace Orders

variable {P : Params} {A J : Type} [Application A] [Journal J] {RX TX : ℕ}
variable {s s' : Orders A J RX TX}

/-- How many messages had no connection. -/
def undelivered (s : Orders A J RX TX) : ℕ := s.dealt.countP fun d => !d.2

/-- The accounts of both queues. -/
structure Kept (s : Orders A J RX TX) : Prop where
  commands : s.commands.Sound commandCell
  origin : s.origin.Sound Origin.cell
  /-- One event for each command, in their order. -/
  administered : s.commands.handed.map Order.named =
    s.events.filterMap OrderEvent.order? ++ s.duty.orders.map Order.named
  /-- Each message is offered to a session or has no connection. -/
  dealt : s.origin.handed = s.dealt.map Prod.fst
  lost : s.undelivered = (s.events.map OrderEvent.lost).sum + s.duty.gone
  total : (s.undeliverable + s.duty.uncounted) % 2 ^ 64 = s.undelivered % 2 ^ 64

omit [Application A] [Journal J] in
theorem Kept.new : (new : Orders A J RX TX).Kept where
  commands := .new _
  origin := .new _
  administered := rfl
  dealt := rfl
  lost := rfl
  total := rfl

section Step

variable (kept : s.Kept)
include kept

theorem Kept.apply {nowMs : ℕ} {order : Order} {rest : List Order}
    (duty : s.duty = .applying nowMs (order :: rest))
    (took : s.apply P nowMs order rest = some s') : s'.Kept := by
  have administered := kept.administered
  have lost := kept.lost
  have total := kept.total
  rw [duty] at administered lost total
  unfold Orders.apply at took
  split at took
  · obtain rfl := Option.some.inj took
    exact { kept with administered := administered, lost := lost, total := total }
  · obtain ⟨m, -, eq⟩ := Option.bind_eq_some_iff.mp took
    obtain ⟨engine, -, rfl⟩ := Option.map_eq_some_iff.mp eq
    exact { kept with administered := administered, lost := lost, total := total }

theorem Kept.offer {r gone : ℕ} {origin : Origin} (duty : s.duty = .originating gone)
    (at_ : s.origin.drained = .taking (r + 1)) (next : s.origin.next Origin.cell = some origin)
    {x : ℕ × Bytes} (front : s.origin.front Origin.cell = some x)
    (took : s.offer P origin gone x = some s') : s'.Kept := by
  have sound := kept.origin.step (a := .next) next
  have lost := kept.lost
  have total := kept.total
  have administered := kept.administered
  rw [duty] at lost total administered
  have handed : origin.handed = s.origin.handed ++ [x] := by
    rw [Mailbox.next, at_, front] at next
    obtain rfl := Option.some.inj next
    rfl
  have dealt (b : Bool) : origin.handed = (s.dealt ++ [(x, b)]).map Prod.fst := by
    rw [handed, kept.dealt, List.map_append]
    rfl
  unfold Orders.offer at took
  split at took
  · obtain rfl := Option.some.inj took
    refine { kept with
      origin := sound, dealt := dealt false, administered := administered, lost := ?_, total := ?_ }
    · unfold undelivered at lost ⊢
      rw [List.countP_append, lost]
      exact Nat.add_assoc _ _ _
    · unfold undelivered at total ⊢
      rw [List.countP_append]
      show (s.undeliverable + (gone + 1)) % 2 ^ 64 = (_ + 1) % 2 ^ 64
      rw [← Nat.add_assoc, Nat.add_mod, show (s.undeliverable + gone) % 2 ^ 64 = _ from total,
        ← Nat.add_mod]
  · obtain ⟨engine, -, rfl⟩ := Option.map_eq_some_iff.mp took
    have none_lost : (s.dealt ++ [(x, true)]).countP (fun d => !d.2) =
        s.dealt.countP fun d => !d.2 := by
      rw [List.countP_append]
      rfl
    exact { kept with
      origin := sound, dealt := dealt true, administered := administered
      lost := none_lost.trans lost, total := total.trans (congrArg (· % 2 ^ 64) none_lost.symm) }

theorem Kept.next {nowMs : ℕ} (took : s.next P nowMs = some s') : s'.Kept := by
  have administered := kept.administered
  have lost := kept.lost
  have total := kept.total
  unfold Orders.next at took
  split at took
  · cases took
  · rename_i taken duty
    rw [duty] at administered lost total
    obtain ⟨commands, next, eq⟩ := Option.map_eq_some_iff.mp took
    have sound := kept.commands.step (a := .next) next
    unfold Mailbox.next at next
    split at next
    · cases next
    · rename_i r at_
      obtain rfl := Option.some.inj next
      rw [at_] at eq
      subst eq
      refine { kept with
        commands := sound, administered := ?_, lost := lost, total := total }
      dsimp only at administered ⊢
      rw [List.map_append, administered, List.append_assoc, ← List.map_append]
      rfl
    · rename_i at_
      obtain rfl := Option.some.inj next
      rw [at_] at eq
      subst eq
      exact { kept with commands := sound }
    · rename_i at_
      obtain rfl := Option.some.inj next
      rw [at_] at eq
      subst eq
      exact { kept with commands := sound }
    · rename_i at_
      obtain rfl := Option.some.inj next
      rw [at_] at eq
      subst eq
      exact { kept with
        commands := sound, administered := administered, lost := lost, total := total }
  · rename_i duty
    exact kept.apply duty took
  · rename_i duty
    rw [duty] at administered lost total
    obtain rfl := Option.some.inj took
    exact { kept with administered := administered, lost := lost, total := total }
  · rename_i at_ order outcome rest duty
    rw [duty] at administered lost total
    obtain ⟨-, eq⟩ := Option.ite_none_right_eq_some.mp took
    obtain rfl := Option.some.inj eq
    refine { kept with administered := ?_, lost := ?_, total := total }
    · refine administered.trans ?_
      show _ = (s.events ++ [_]).filterMap OrderEvent.order? ++ _
      rw [List.filterMap_append, List.append_assoc]
      rfl
    · show _ = ((s.events ++ [_]).map OrderEvent.lost).sum + _
      rw [List.map_append, List.sum_append]
      exact lost
  · rename_i gone duty
    obtain ⟨origin, next, eq⟩ := Option.bind_eq_some_iff.mp took
    split at eq
    · rename_i r at_
      obtain ⟨x, front, took⟩ := Option.bind_eq_some_iff.mp eq
      exact kept.offer duty at_ next front took
    · rename_i at_
      have sound := kept.origin.step (a := .next) next
      rw [Mailbox.next, at_] at next
      rw [duty] at administered lost total
      obtain rfl := Option.some.inj next
      obtain rfl := Option.some.inj eq
      refine { kept with
        origin := sound, administered := administered, lost := lost, total := ?_ }
      show ((s.undeliverable + gone) % 2 ^ 64 + 0) % 2 ^ 64 = _
      rw [Nat.add_zero, Nat.mod_mod]
      exact total
    · rename_i other last
      have sound := kept.origin.step (a := .next) next
      obtain rfl := Option.some.inj eq
      refine { kept with origin := sound, dealt := Eq.trans ?_ kept.dealt }
      unfold Mailbox.next at next
      split at next
      · cases next
      · rename_i r at_
        exact absurd at_ (other r)
      · obtain rfl := Option.some.inj next
        rfl
      · obtain rfl := Option.some.inj next
        rfl
      · obtain rfl := Option.some.inj next
        rfl
  · rename_i gone duty
    rw [duty] at administered lost total
    obtain ⟨-, eq⟩ := Option.ite_none_right_eq_some.mp took
    obtain rfl := Option.some.inj eq
    exact { kept with administered := administered, lost := lost, total := total }
  · rename_i gone duty
    rw [duty] at administered lost total
    obtain rfl := Option.some.inj took
    split
    · refine { kept with administered := ?_, lost := ?_, total := total }
      · refine administered.trans ?_
        show _ = (s.events ++ [_]).filterMap OrderEvent.order? ++ _
        rw [List.filterMap_append, List.append_assoc]
        rfl
      · show _ = ((s.events ++ [_]).map OrderEvent.lost).sum + 0
        rw [List.map_append, List.sum_append]
        exact lost
    · rename_i none
      obtain rfl : gone = 0 := Nat.eq_zero_of_not_pos none
      exact { kept with administered := administered, lost := lost, total := total }

/-- **A step keeps the accounts.** -/
theorem Kept.step {a : Act A J} (took : s.step P a = some s') : s'.Kept := by
  have administered := kept.administered
  have lost := kept.lost
  have total := kept.total
  cases a with
  | command a =>
    obtain ⟨submits, eq⟩ := Option.ite_none_right_eq_some.mp took
    obtain ⟨q, next, rfl⟩ := Option.map_eq_some_iff.mp eq
    have handed := Mailbox.handed_step next fun is => by rw [is] at submits; cases submits
    exact { kept with
      commands := kept.commands.step next
      administered := (congrArg (List.map Order.named) handed).trans administered }
  | message a =>
    obtain ⟨submits, eq⟩ := Option.ite_none_right_eq_some.mp took
    obtain ⟨q, next, rfl⟩ := Option.map_eq_some_iff.mp eq
    have handed := Mailbox.handed_step next fun is => by rw [is] at submits; cases submits
    exact { kept with origin := kept.origin.step next, dealt := handed.trans kept.dealt }
  | engine a =>
    obtain ⟨-, eq⟩ := Option.ite_none_right_eq_some.mp took
    obtain ⟨engine, -, rfl⟩ := Option.map_eq_some_iff.mp eq
    exact { kept with }
  | administer seen granted =>
    obtain ⟨⟨away, -, -⟩, eq⟩ := Option.ite_none_right_eq_some.mp took
    rw [away] at administered lost total
    split at eq
    · obtain ⟨q, next, rfl⟩ := Option.map_eq_some_iff.mp eq
      have handed := Mailbox.handed_step next nofun
      have administered := (congrArg (List.map Order.named) handed).trans administered
      split
      · exact { kept with
          commands := kept.commands.step next
          administered := administered, lost := lost, total := total }
      · exact { kept with
          commands := kept.commands.step next
          administered := administered, lost := lost, total := total }
    · exact Option.some.inj eq ▸ kept
  | originate seen granted =>
    obtain ⟨⟨away, -, -⟩, eq⟩ := Option.ite_none_right_eq_some.mp took
    rw [away] at administered lost total
    split at eq
    · obtain ⟨q, next, rfl⟩ := Option.map_eq_some_iff.mp eq
      have handed := Mailbox.handed_step next nofun
      split
      · exact { kept with
          origin := kept.origin.step next, dealt := handed.trans kept.dealt
          administered := administered, lost := lost, total := total }
      · exact { kept with
          origin := kept.origin.step next, dealt := handed.trans kept.dealt
          administered := administered, lost := lost, total := total }
    · exact Option.some.inj eq ▸ kept
  | next nowMs => exact kept.next took

end Step

theorem Kept.runs {as : List (Act A J)} (kept : s.Kept) (ran : s.runs P as = some s') :
    s'.Kept := by
  induction as generalizing s with
  | nil => exact Option.some.inj ran ▸ kept
  | cons a as ih =>
    obtain ⟨mid, took, rest⟩ := Option.bind_eq_some_iff.mp ran
    exact ih (kept.step took) rest

/-! ### What comes of one -/

/-- A message that was taken out was offered to the session of its connection, if there is one. -/
def Dealt (P : Params) (s s' : Orders A J RX TX) (x : ℕ × Bytes) : Bool → Prop
  | true => ∃ i m, s.engine.conns[i]? = some m ∧ m.id = x.1 ∧
      s'.engine = s.engine.put i { m with conn := m.conn.begin_ P (.sendApplication x.2) }
  | false => (∀ m ∈ s.engine.conns, m.id ≠ x.1) ∧ s'.engine = s.engine

/-- A command that was taken out is with the session of its connection, and that is its outcome; or
there is none. -/
def Applied (P : Params) (s s' : Orders A J RX TX) (o : Order) (outcome : Outcome) : Prop :=
  (outcome = .noSuchConnection ∧ (∀ m ∈ s.engine.conns, m.id ≠ o.id) ∧ s'.engine = s.engine) ∨
    ∃ i m, s.engine.conns[i]? = some m ∧ m.id = o.id ∧
      m.conn.administered P o.command = outcome ∧
      s'.engine = s.engine.put i { m with conn := m.conn.begin_ P (.administer o.command) }

/-- A step does with a command or a message what is told of it. -/
structure Honest (P : Params) (s s' : Orders A J RX TX) : Prop where
  dealt : s'.dealt = s.dealt ∨ ∃ x b, s'.dealt = s.dealt ++ [(x, b)] ∧ Dealt P s s' x b
  applied : ∀ nowMs o outcome rest, s'.duty = .applied nowMs o outcome rest →
    s.duty = s'.duty ∨ s.duty = .applying nowMs (o :: rest) ∧ Applied P s s' o outcome
  told : s'.events = s.events ∨ ∃ e, s'.events = s.events ++ [e] ∧
    ∀ change to_ outcome, e.kind = .administered change to_ outcome →
      ∃ nowMs o rest, s.duty = .applied nowMs o outcome rest ∧ e.order? = some o.named

omit [Application A] [Journal J] in
theorem find_none {id : ℕ} (none : s.find id = none) : ∀ m ∈ s.engine.conns, m.id ≠ id := by
  intro m mem
  have := List.findIdx?_eq_none_iff.mp none m mem
  simpa using this

omit [Application A] [Journal J] in
theorem find_some {id i : ℕ} (found : s.find id = some i) :
    ∃ m, s.engine.conns[i]? = some m ∧ m.id = id := by
  obtain ⟨inside, is, -⟩ := List.findIdx?_eq_some_iff_getElem.mp found
  exact ⟨_, List.getElem?_eq_getElem inside, by simpa using is⟩

theorem call_eq {e e' : Engine A J RX TX} {i : ℕ} {m : Member A J RX TX} {method : Connection.Act}
    (there : e.conns[i]? = some m) (took : e.step P (.call i method) = some e') :
    e' = e.put i { m with conn := m.conn.begin_ P method } := by
  simp only [Engine.step, there] at took
  obtain ⟨-, eq⟩ := Option.ite_none_right_eq_some.mp took
  exact (Option.some.inj eq).symm

theorem honest_next {nowMs : ℕ} (took : s.next P nowMs = some s') : Honest P s s' := by
  unfold Orders.next at took
  split at took
  · cases took
  · rename_i taken duty
    obtain ⟨commands, -, rfl⟩ := Option.map_eq_some_iff.mp took
    split
    · exact ⟨.inl rfl, by simp, .inl rfl⟩
    · exact ⟨.inl rfl, by simp, .inl rfl⟩
    · exact ⟨.inl rfl, fun _ _ _ _ _ => .inl rfl, .inl rfl⟩
  · rename_i at_ order later duty
    unfold Orders.apply at took
    split at took
    · rename_i none
      obtain rfl := Option.some.inj took
      refine ⟨.inl rfl, fun _ _ _ _ applied => ?_, .inl rfl⟩
      cases applied
      exact .inr ⟨duty, .inl ⟨rfl, find_none none, rfl⟩⟩
    · rename_i i found
      obtain ⟨m, there, eq⟩ := Option.bind_eq_some_iff.mp took
      obtain ⟨engine, called, rfl⟩ := Option.map_eq_some_iff.mp eq
      obtain ⟨_, at_i, is⟩ := find_some found
      obtain rfl := Option.some.inj (there.symm.trans at_i)
      refine ⟨.inl rfl, fun _ _ _ _ applied => ?_, .inl rfl⟩
      cases applied
      exact .inr ⟨duty, .inr ⟨i, m, there, is, rfl, call_eq there called⟩⟩
  · obtain rfl := Option.some.inj took
    exact ⟨.inl rfl, by simp, .inl rfl⟩
  · rename_i at_ order outcome rest duty
    obtain ⟨-, eq⟩ := Option.ite_none_right_eq_some.mp took
    obtain rfl := Option.some.inj eq
    refine ⟨.inl rfl, by simp, .inr ⟨_, rfl, fun _ _ _ is => ?_⟩⟩
    cases is
    exact ⟨at_, order, rest, duty, rfl⟩
  · rename_i gone duty
    obtain ⟨origin, -, eq⟩ := Option.bind_eq_some_iff.mp took
    split at eq
    · obtain ⟨x, -, took⟩ := Option.bind_eq_some_iff.mp eq
      unfold Orders.offer at took
      split at took
      · rename_i none
        obtain rfl := Option.some.inj took
        exact ⟨.inr ⟨x, false, rfl, find_none none, rfl⟩, by simp, .inl rfl⟩
      · rename_i i found
        obtain ⟨engine, called, rfl⟩ := Option.map_eq_some_iff.mp took
        obtain ⟨m, there, is⟩ := find_some found
        exact ⟨.inr ⟨x, true, rfl, i, m, there, is, call_eq there called⟩, by simp, .inl rfl⟩
    · obtain rfl := Option.some.inj eq
      exact ⟨.inl rfl, by simp, .inl rfl⟩
    · obtain rfl := Option.some.inj eq
      exact ⟨.inl rfl, fun _ _ _ _ _ => .inl rfl, .inl rfl⟩
  · obtain ⟨-, eq⟩ := Option.ite_none_right_eq_some.mp took
    obtain rfl := Option.some.inj eq
    exact ⟨.inl rfl, by simp, .inl rfl⟩
  · obtain rfl := Option.some.inj took
    split
    · exact ⟨.inl rfl, by simp, .inr ⟨_, rfl, by simp⟩⟩
    · exact ⟨.inl rfl, by simp, .inl rfl⟩

/-- **What is told of a command or a message is what was done with it.** -/
theorem honest_step {a : Act A J} (took : s.step P a = some s') : Honest P s s' := by
  cases a with
  | command a =>
    obtain ⟨-, eq⟩ := Option.ite_none_right_eq_some.mp took
    obtain ⟨q, -, rfl⟩ := Option.map_eq_some_iff.mp eq
    exact ⟨.inl rfl, fun _ _ _ _ _ => .inl rfl, .inl rfl⟩
  | message a =>
    obtain ⟨-, eq⟩ := Option.ite_none_right_eq_some.mp took
    obtain ⟨q, -, rfl⟩ := Option.map_eq_some_iff.mp eq
    exact ⟨.inl rfl, fun _ _ _ _ _ => .inl rfl, .inl rfl⟩
  | engine a =>
    obtain ⟨-, eq⟩ := Option.ite_none_right_eq_some.mp took
    obtain ⟨engine, -, rfl⟩ := Option.map_eq_some_iff.mp eq
    exact ⟨.inl rfl, fun _ _ _ _ _ => .inl rfl, .inl rfl⟩
  | administer seen granted =>
    obtain ⟨-, eq⟩ := Option.ite_none_right_eq_some.mp took
    split at eq
    · obtain ⟨q, -, rfl⟩ := Option.map_eq_some_iff.mp eq
      refine ⟨.inl rfl, fun _ _ _ _ applied => ?_, .inl rfl⟩
      dsimp only at applied
      split at applied <;> cases applied
    · obtain rfl := Option.some.inj eq
      exact ⟨.inl rfl, fun _ _ _ _ _ => .inl rfl, .inl rfl⟩
  | originate seen granted =>
    obtain ⟨-, eq⟩ := Option.ite_none_right_eq_some.mp took
    split at eq
    · obtain ⟨q, -, rfl⟩ := Option.map_eq_some_iff.mp eq
      refine ⟨.inl rfl, fun _ _ _ _ applied => ?_, .inl rfl⟩
      dsimp only at applied
      split at applied <;> cases applied
    · obtain rfl := Option.some.inj eq
      exact ⟨.inl rfl, fun _ _ _ _ _ => .inl rfl, .inl rfl⟩
  | next nowMs => exact honest_next took

/-! ### Every run -/

/-- What the threads that submit can rely on, of both queues and of what comes of their items. -/
structure Once (P : Params) (s : Orders A J RX TX) : Prop where
  commands : s.commands.Once commandCell
  origin : s.origin.Once Origin.cell
  /-- One event for each command, but for those the engine is still busy with. -/
  administered : s.commands.handed.map Order.named =
    s.events.filterMap OrderEvent.order? ++ s.duty.orders.map Order.named
  /-- Each message was offered to a session or had no connection, and those without are counted once
  in the events, but for those the engine is still busy with, and once in the total. -/
  dealt : s.origin.handed = s.dealt.map Prod.fst
  lost : s.undelivered = (s.events.map OrderEvent.lost).sum + s.duty.gone
  total : (s.undeliverable + s.duty.uncounted) % 2 ^ 64 = s.undelivered % 2 ^ 64
  honest : ∀ a s', s.step P a = some s' → Honest P s s'

/-- **What was taken is handed over once, in the order of the lock, and one thing comes of it**, in
every run of any threads that submit and of the engine. -/
theorem orders_once {as : List (Act A J)} (ran : (new : Orders A J RX TX).runs P as = some s) :
    s.Once P :=
  have kept := Kept.new.runs ran
  { commands := kept.commands.once
    origin := kept.origin.once
    administered := kept.administered
    dealt := kept.dealt
    lost := kept.lost
    total := kept.total
    honest := fun _ _ => honest_step }

open Setting

/-- A command for a connection that is not there is queued, taken out and told of. -/
def commanding : List (Act Silent NoJournal) :=
  [.command (.submit ⟨5, .setNextOut 7, rfl⟩), .command (.lock 0), .command (.go 0),
    .command (.go 0), .command (.go 0), .administer true true] ++ List.replicate 7 (.next 0)

theorem orders_once_gone : ∃ s : Orders Silent NoJournal 256 256,
    new.runs acceptor commanding = some s ∧
      s.events = [⟨5, 0, .administered .nextOut 7 .noSuchConnection⟩] ∧ s.Once acceptor := by
  have ran : (new.runs acceptor commanding : Option (Orders Silent NoJournal 256 256)).any fun s =>
      s.events == [⟨5, 0, .administered .nextOut 7 .noSuchConnection⟩] := by
    decide +kernel
  obtain ⟨s, run, told⟩ := (Option.any_eq_true _ _).mp ran
  exact ⟨s, run, eq_of_beq told, orders_once run⟩

end Orders

end Fixbolt
