import Fixbolt.Engine.Waker
import Fixbolt.Properties.Dispatch

/-!
# No reply sleeps through a wake

A wake leaves a byte in the pipe, and only `drain` takes it out, with a `collect` still to come
before the engine calls `poll` again. So an engine in `poll` with a reply that was pushed and waked
for finds the pipe ready.

* `Exchange.drawn_eq`: a `collect` that is over has taken every reply;
* `Standard.Kept.step`: what one step of either thread keeps;
* `no_reply_sleeps`: every run.
-/

namespace Fixbolt

namespace Exchange

variable {M : ℕ} {x x' : Exchange} {q : Fifo Delivery} {p : Fifo (Delivery × Bytes)}

/-- How many replies `collect` has taken out of the ring. -/
def drawn (x : Exchange) : ℕ := x.emitted.length + x.dropped

theorem Good.drawn_eq (h : x.Good M q p) : x.drawn = p.taken := by
  have parts := List.length_eq_length_filter_add (l := p.popped) (returns M)
  unfold drawn
  rw [h.emitted, h.dropped, List.length_map, ← p.popped_length, parts]

theorem Good.drawn_le (h : x.Good M q p) : x.drawn ≤ x.replied.length := by
  rw [h.drawn_eq, h.replied]
  exact p.within

/-- The engine was given the first replies that were taken, but for those it has no room for. -/
theorem Good.emitted_eq (h : x.Good M q p) :
    x.emitted = ((x.replied.take x.drawn).filter (returns M)).map tagged := by
  rw [h.emitted, h.drawn_eq, h.replied]
  rfl

/-- **A `collect` that is over has taken every reply.** -/
theorem Good.collects (h : x.Good M q p) (collecting : x.engine = .collecting)
    (next : x.engineStep M = some x') :
    x'.engine = .collecting ∨ x'.engine = .idle ∧ x'.drawn = x'.replied.length := by
  unfold Exchange.engineStep at next
  rw [collecting] at next
  obtain ⟨⟨ring, popping⟩, popped, rfl⟩ := Option.map_eq_some_iff.mp next
  obtain ⟨-, -, -, outcome⟩ := h.fromApp.popping h.fromRoom popped
  cases popping with
  | more => exact .inl collecting
  | empty =>
    obtain ⟨-, none⟩ := outcome
    have none : p.pending = [] := List.map_eq_nil_iff.mp ((Fifo.pending_map _).symm.trans none)
    have all := p.popped_append_pending
    rw [none, List.append_nil] at all
    refine .inr ⟨rfl, ?_⟩
    show x.drawn = x.replied.length
    rw [h.drawn_eq, h.replied, ← p.popped_length, all]
  | record bytes =>
    left
    unfold Exchange.collected
    dsimp only
    split <;> exact collecting

/-- The application's end takes no reply out, and pushes one at most. -/
theorem drawn_app {a : Act} (app : a matches .pump | .app | .answer _)
    (next : x.step M a = some x') : x'.drawn = x.drawn ∧
      x.replied.length ≤ x'.replied.length ∧ x'.replied.length ≤ x.replied.length + 1 ∧
        x'.engine = x.engine := by
  cases a with
  | pump =>
    rw [step] at next
    split at next
    · cases next
      exact ⟨rfl, Nat.le_refl _, Nat.le_succ _, rfl⟩
    · cases next
  | answer answer =>
    rw [step] at next
    split at next
    · rename_i done d handling
      cases answer with
      | silent | beyond =>
        cases next
        exact ⟨rfl, Nat.le_refl _, Nat.le_succ _, rfl⟩
      | bytes bytes =>
        obtain ⟨-, eq⟩ := Option.ite_none_left_eq_some.mp next
        obtain ⟨ring, -, rfl⟩ := Option.map_eq_some_iff.mp eq
        split <;> exact ⟨rfl, Nat.le_refl _, Nat.le_succ _, rfl⟩
    · cases next
  | app =>
    rw [step] at next
    unfold Exchange.appStep at next
    split at next
    · cases next
    · obtain ⟨⟨ring, popping⟩, -, rfl⟩ := Option.map_eq_some_iff.mp next
      cases popping with
      | more | empty => exact ⟨rfl, Nat.le_refl _, Nat.le_succ _, rfl⟩
      | record bytes =>
        unfold Exchange.pumped
        dsimp only
        split <;> exact ⟨rfl, Nat.le_refl _, Nat.le_succ _, rfl⟩
    · cases next
    · rename_i done d bytes replying
      obtain ⟨⟨ring, last⟩, -, eq⟩ := Option.map_eq_some_iff.mp next
      cases last with
      | false =>
        cases eq
        exact ⟨rfl, Nat.le_refl _, Nat.le_succ _, rfl⟩
      | true =>
        cases eq
        have long : (x.replied ++ [(d, bytes)]).length = x.replied.length + 1 := by simp
        exact ⟨rfl, long ▸ Nat.le_succ _, Nat.le_of_eq long, rfl⟩
  | collect | takeRefusal | engine | deliver d => cases app

end Exchange

namespace Standard

open Exchange

variable {M : ℕ} {s s' : Standard} {a : Act}

/-- How many replies were pushed and waked for. -/
def woken (s : Standard) : ℕ := s.x.replied.length - if s.owing then 1 else 0

/-- Will the engine call `poll`, or is it in it, with no `collect` before that? -/
def Loop.waits : Loop → Bool
  | .rebuilding | .polling | .asleep => true
  | .turning _ | .collecting _ | .draining => false

/-- What an application on another thread can rely on. -/
structure Waking (M : ℕ) (s : Standard) : Prop where
  /-- The engine is given the replies in their order, but for those it has no room for. -/
  order : s.x.emitted = ((s.x.replied.take s.x.drawn).filter (returns M)).map tagged
  /-- An engine in `poll` finds the pipe ready while a reply that was waked for is not collected. -/
  awake : s.loop = .polling ∨ s.loop = .asleep → s.x.drawn < s.woken → 0 < s.pipe.held
  returns : s.loop = .asleep → s.x.drawn < s.woken → ∃ s', s.step M (.ready false) = some s'
  /-- It blocks only when every one was collected. -/
  sleeps : ∀ a s', s.step M a = some s' → s'.loop = .asleep →
    s.loop = .asleep ∨ s.woken ≤ s.x.drawn
  /-- What lies in the pipe is from wakes after `drain` read short. -/
  calm : s.pipe.held ≤ s.waked

/-! ### The invariant -/

structure Kept (M : ℕ) (s : Standard) : Prop where
  good : ∃ q p, s.x.Good M q p
  collecting : ∀ moved, s.loop = .collecting moved → s.x.engine = .collecting
  awake : s.loop.waits → s.x.drawn < s.woken → 0 < s.pipe.held
  calm : s.pipe.held ≤ s.waked

theorem Kept.start (a b pipe : ℕ) (positive : 0 < pipe) :
    (start a b pipe positive).Kept M where
  good := ⟨_, _, good_start a b⟩
  collecting := nofun
  awake := nofun
  calm := Nat.le_refl 0

/-- The engine's thread goes on with its end of the rings. A turn that is over has left no reply. -/
theorem Kept.engineStep {a : Exchange.Act} (h : s.Kept M) (took : s.engineStep M a = some s') :
    s'.Kept M := by
  obtain ⟨q, p, good⟩ := h.good
  unfold Standard.engineStep at took
  split at took
  · obtain ⟨x, next, rfl⟩ := Option.map_eq_some_iff.mp took
    refine ⟨good_step good next, fun _ _ => ?_, by simp [Loop.waits], h.calm⟩
    rw [Exchange.step] at next
    split at next
    · cases next
      rfl
    · cases next
  · obtain ⟨x, next, rfl⟩ := Option.map_eq_some_iff.mp took
    rename_i turning
    exact ⟨good_step good next, by simp [turning], by simp [turning, Loop.waits], h.calm⟩
  · obtain ⟨x, next, rfl⟩ := Option.map_eq_some_iff.mp took
    rename_i turning
    exact ⟨good_step good next, by simp [turning], by simp [turning, Loop.waits], h.calm⟩
  · obtain ⟨x, next, rfl⟩ := Option.map_eq_some_iff.mp took
    rename_i turning
    exact ⟨good_step good next, by simp [turning], by simp [turning, Loop.waits], h.calm⟩
  · rename_i moved loop
    obtain ⟨x, next, rfl⟩ := Option.map_eq_some_iff.mp took
    have collecting := h.collecting moved loop
    rcases good.collects collecting next with still | ⟨idle, all⟩
    · refine ⟨good_step good next, fun _ _ => still, fun waits _ => ?_, h.calm⟩
      rw [Standard.collected, if_neg (by simp [still])] at waits
      cases waits
    · refine ⟨good_step good next, fun moved' loop => ?_, fun _ late => ?_, h.calm⟩
      · rw [Standard.collected, if_pos idle] at loop
        split at loop <;> cases loop
      · exact absurd late (Nat.not_lt.mpr (Nat.le_trans (Nat.sub_le _ _) (Nat.le_of_eq all.symm)))
  · cases took

/-- A wake leaves the pipe ready. -/
theorem held_write (p : Pipe) (refused : Bool) :
    0 < (p.write refused).held ∧ (p.write refused).held ≤ p.held + 1 := by
  have positive := p.positive
  unfold Pipe.write
  split
  · split
    · exact ⟨Nat.succ_pos _, Nat.le_refl _⟩
    · rename_i held
      exact ⟨by omega, Nat.le_succ _⟩
  · exact ⟨by omega, Nat.le_succ _⟩

/-- The application's thread goes on with `pump`. What it pushes now is not waked for yet. -/
theorem Kept.pump {a : Exchange.Act} {x : Exchange} (h : s.Kept M) (owing : ¬s.owing)
    (app : a matches .pump | .app | .answer _) (next : s.x.step M a = some x) :
    ({ s with x := x, owing := s.x.replied.length < x.replied.length }).Kept M := by
  obtain ⟨q, p, good⟩ := h.good
  obtain ⟨drawn, least, most, engine⟩ := drawn_app app next
  refine ⟨good_step good next, fun moved loop => ?_, fun waits late => ?_, h.calm⟩
  · rw [← h.collecting moved loop]
    exact engine
  · have before : s.woken = s.x.replied.length := by simp [woken, owing]
    refine h.awake waits ?_
    rw [before, ← drawn]
    refine Nat.lt_of_lt_of_le late ?_
    simp only [woken, decide_eq_true_eq]
    split <;> omega

theorem Kept.appStep {a : Exchange.Act} (h : s.Kept M) (owing : ¬s.owing)
    (took : s.appStep M a = some s') : s'.Kept M := by
  cases a with
  | pump | app | answer answer =>
    obtain ⟨x, next, rfl⟩ := Option.map_eq_some_iff.mp took
    exact h.pump owing rfl next
  | collect | takeRefusal | engine | deliver d => cases took

/-- **What one step of either thread keeps.** -/
theorem Kept.step (h : s.Kept M) (took : s.step M a = some s') : s'.Kept M := by
  cases a with
  | engine a => exact h.engineStep took
  | moves =>
    rw [Standard.step] at took
    split at took
    · cases took
      exact ⟨h.good, nofun, nofun, h.calm⟩
    · cases took
  | rebuild =>
    obtain ⟨loop, eq⟩ := Option.ite_none_right_eq_some.mp took
    obtain rfl := Option.some.inj eq
    exact ⟨h.good, nofun, fun _ => h.awake (by rw [loop]; rfl), h.calm⟩
  | poll other =>
    obtain ⟨loop, eq⟩ := Option.ite_none_right_eq_some.mp took
    obtain rfl := Option.some.inj eq
    refine ⟨h.good, fun _ is => ?_, fun _ => h.awake (by rw [loop]; rfl), h.calm⟩
    dsimp only at is
    split at is <;> cases is
  | ready other =>
    obtain ⟨-, eq⟩ := Option.ite_none_right_eq_some.mp took
    obtain rfl := Option.some.inj eq
    exact ⟨h.good, nofun, nofun, h.calm⟩
  | interrupted =>
    obtain ⟨loop, eq⟩ := Option.ite_none_right_eq_some.mp took
    obtain rfl := Option.some.inj eq
    exact ⟨h.good, nofun, fun _ => h.awake (by rw [loop]; rfl), h.calm⟩
  | drain =>
    obtain ⟨loop, eq⟩ := Option.ite_none_right_eq_some.mp took
    obtain rfl := Option.some.inj eq
    unfold Standard.drain
    split
    · refine ⟨h.good, h.collecting, fun waits => ?_, Nat.le_trans (Nat.sub_le _ _) h.calm⟩
      rw [loop] at waits
      cases waits
    · exact ⟨h.good, nofun, nofun, Nat.le_of_eq (Nat.sub_self _)⟩
  | app a =>
    obtain ⟨owing, eq⟩ := Option.ite_none_left_eq_some.mp took
    exact h.appStep owing eq
  | wake refused =>
    obtain ⟨-, eq⟩ := Option.ite_none_right_eq_some.mp took
    obtain rfl := Option.some.inj eq
    obtain ⟨ready, more⟩ := held_write s.pipe refused
    exact ⟨h.good, h.collecting, fun _ _ => ready, Nat.le_trans more (Nat.succ_le_succ h.calm)⟩

/-- The engine's end of the rings does not put its thread to sleep. -/
theorem awake_engine {a : Exchange.Act} (took : s.engineStep M a = some s') :
    s'.loop ≠ .asleep := by
  unfold Standard.engineStep at took
  split at took
  · obtain ⟨x, -, rfl⟩ := Option.map_eq_some_iff.mp took
    exact nofun
  iterate 3
    · rename_i turning
      obtain ⟨x, -, rfl⟩ := Option.map_eq_some_iff.mp took
      exact turning ▸ nofun
  · obtain ⟨x, -, rfl⟩ := Option.map_eq_some_iff.mp took
    unfold Standard.collected
    dsimp only
    split
    · split <;> exact nofun
    · exact nofun
  · cases took

/-- An engine blocks only when every reply that was waked for was collected. -/
theorem Kept.sleeps (h : s.Kept M) (took : s.step M a = some s') (asleep : s'.loop = .asleep) :
    s.loop = .asleep ∨ s.woken ≤ s.x.drawn := by
  cases a with
  | engine a => exact absurd asleep (awake_engine took)
  | moves =>
    rw [Standard.step] at took
    split at took
    · cases took
      cases asleep
    · cases took
  | rebuild | ready other | interrupted =>
    obtain ⟨-, eq⟩ := Option.ite_none_right_eq_some.mp took
    obtain rfl := Option.some.inj eq
    cases asleep
  | poll other =>
    obtain ⟨loop, eq⟩ := Option.ite_none_right_eq_some.mp took
    obtain rfl := Option.some.inj eq
    dsimp only at asleep
    split at asleep
    · cases asleep
    · rename_i unready
      refine .inr (Nat.not_lt.mp fun late => unready (.inr ?_))
      exact h.awake (by rw [loop]; rfl) late
  | drain =>
    obtain ⟨loop, eq⟩ := Option.ite_none_right_eq_some.mp took
    obtain rfl := Option.some.inj eq
    unfold Standard.drain at asleep
    split at asleep
    · exact .inl asleep
    · cases asleep
  | app a =>
    obtain ⟨-, eq⟩ := Option.ite_none_left_eq_some.mp took
    cases a with
    | pump | app | answer answer =>
      obtain ⟨x, -, rfl⟩ := Option.map_eq_some_iff.mp eq
      exact .inl asleep
    | collect | takeRefusal | engine | deliver d => cases eq
  | wake refused =>
    obtain ⟨-, eq⟩ := Option.ite_none_right_eq_some.mp took
    obtain rfl := Option.some.inj eq
    exact .inl asleep

theorem Kept.waking (h : s.Kept M) : s.Waking M where
  order := by
    obtain ⟨q, p, good⟩ := h.good
    exact good.emitted_eq
  awake loop := h.awake (by rcases loop with loop | loop <;> rw [loop] <;> rfl)
  returns loop late := by
    have ready := h.awake (by rw [loop]; rfl) late
    exact ⟨_, if_pos ⟨loop, .inr ready⟩⟩
  sleeps a s' took asleep := h.sleeps took asleep
  calm := h.calm

/-! ### Every run -/

/-- **No reply sleeps through a wake**, in every run of the two threads: an engine that blocks in `poll`
has collected every reply that was pushed and waked for, one in `poll` when a wake is performed finds
the pipe ready, and what lies in the pipe was put there after `drain` last read short. -/
theorem no_reply_sleeps {M a b pipe : ℕ} {positive : 0 < pipe} {as : List Act}
    (ran : runsOf (step M) (start a b pipe positive) as = some s) : s.Waking M :=
  (invariant_runsOf (fun _ _ _ h took => Kept.step h took) ran (.start a b pipe positive)).waking

/-- A message of two bytes is delivered and answered, and the engine asks for its reply only when it
was waked. -/
def answering : List Act :=
  [.engine (.deliver orderOnSeven)] ++ List.replicate 45 (.engine .engine) ++
    [.engine .collect, .engine .engine, .rebuild, .poll false, .app .pump] ++
    List.replicate 47 (.app .app) ++ [.app (.answer (.bytes [56, 61]))] ++
    List.replicate 15 (.app .app) ++ [.wake false]

theorem no_reply_sleeps_one : ∃ s, runsOf (step 64) (start 64 64 1 (by decide)) answering = some s ∧
    s.loop = .asleep ∧ s.woken = 1 ∧ s.x.drawn = 0 ∧ s.Waking 64 := by
  have ran : (runsOf (step 64) (start 64 64 1 (by decide)) answering).any fun s =>
      s.loop = .asleep ∧ s.woken = 1 ∧ s.x.drawn = 0 := by
    decide +kernel
  obtain ⟨s, run, there⟩ := (Option.any_eq_true _ _).mp ran
  obtain ⟨asleep, woken, drawn⟩ := of_decide_eq_true there
  exact ⟨s, run, asleep, woken, drawn, no_reply_sleeps run⟩

end Standard

end Fixbolt
