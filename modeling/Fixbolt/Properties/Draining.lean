import Fixbolt.Engine.Events
import Mathlib.Data.List.Perm.Basic
import Mathlib.Data.List.Range

/-!
# What is pushed is drained once or counted lost

Whatever turns the engine's thread and the readers take, every event is with one reader, counted
lost, in the ring or still in the engine's hand, and one is lost only when a whole ring of events is
undelivered. `Events.Move` says what a step can do; the invariants are read off it:

* `Events.Shaped`: the threads hold what they should, and never the same lock;
* `Events.Booked`: nothing is lost track of, and losses are counted;
* `Events.Placed`: where the readers are, on counters that do not wrap around.

Events come out in the order they went in as long as no push has gone round the ring to a slot that
a drain under way has yet to come to: `events_in_order`.
-/

namespace Fixbolt

open Shared (wrappingSub)

namespace Events

variable {α : Type*} {s s' : Events α}

/-! ### What a step can do -/

/-- What a step can do. -/
inductive Move (s : Events α) : Events α → Prop
  | push (e : α) (idle : s.producer = .idle) :
      Move s { s with producer := .loaded s.write e, pushed := s.pushed ++ [e] }
  | refused {w : ℕ} {e : α} (at_ : s.producer = .loaded w e)
      (there : w % eventCapacity < s.slots.length) (held : s.readerHolds (w % eventCapacity)) :
      Move s { s with producer := .counting w false, losses := s.losses ++ [s.current] }
  | lock {w : ℕ} {e : α} (at_ : s.producer = .loaded w e)
      (there : w % eventCapacity < s.slots.length)
      (free : s.readerHolds (w % eventCapacity) = false) :
      Move s { s with producer := .locked w e }
  | missing {w : ℕ} {e : α} (at_ : s.producer = .loaded w e)
      (none : s.slots.length ≤ w % eventCapacity) :
      Move s { s with
        producer := .idle, lost := (s.lost + 1) % 2 ^ 64, losses := s.losses ++ [s.current] }
  | replace {w k : ℕ} {e old : α} (at_ : s.producer = .locked w e)
      (occupied : s.slots[w % eventCapacity]? = some (some (k, old))) :
      Move s { s with
        slots := s.slots.set (w % eventCapacity) (some (s.current, e))
        producer := .counting w true, losses := s.losses ++ [k] }
  | fill {w : ℕ} {e : α} (at_ : s.producer = .locked w e)
      (empty : s.slots[w % eventCapacity]?.join = none) :
      Move s { s with
        slots := s.slots.set (w % eventCapacity) (some (s.current, e)), producer := .unlocking w }
  | count {w : ℕ} {held : Bool} (at_ : s.producer = .counting w held) :
      Move s { s with
        lost := (s.lost + 1) % 2 ^ 64, producer := if held then .unlocking w else .storing w }
  | unlock {w : ℕ} (at_ : s.producer = .unlocking w) : Move s { s with producer := .storing w }
  | store {w : ℕ} (at_ : s.producer = .storing w) :
      Move s { s with producer := .idle, write := (w + 1) % usizeSize }
  | enter (reader : ℕ) (idle : s.reader = .idle) :
      Move s { s with reader := .entered ⟨reader, [], 0⟩ }
  | load {d : Drain α} (at_ : s.reader = .entered d) :
      Move s { s with
        reader := .looping d s.write
        read :=
          if wrappingSub s.write s.read > eventCapacity then wrappingSub s.write eventCapacity
          else s.read
        sampled := s.stored }
  | leave {d : Drain α} (at_ : s.reader = .looping d s.read) :
      Move s { s with reader := .idle, drains := s.drains ++ [d] }
  | wait {d : Drain α} {w : ℕ} (at_ : s.reader = .looping d w) (more : s.read ≠ w)
      (free : s.producerHolds (s.read % eventCapacity) = false) :
      Move s { s with reader := .holding d w }
  | skip {d : Drain α} {w : ℕ} (at_ : s.reader = .looping d w)
      (none : s.slots.length ≤ s.read % eventCapacity) : Move s { s with reader := .passing d w }
  | take {d : Drain α} {w : ℕ} {ke : ℕ × α} (at_ : s.reader = .holding d w)
      (occupied : s.slots[s.read % eventCapacity]? = some (some ke)) :
      Move s { s with
        slots := s.slots.set (s.read % eventCapacity) none
        reader := .emptied { d with out := d.out ++ [ke], n := d.n + 1 } w }
  | find {d : Drain α} {w : ℕ} (at_ : s.reader = .holding d w)
      (empty : s.slots[s.read % eventCapacity]?.join = none) :
      Move s { s with reader := .emptied d w }
  | release {d : Drain α} {w : ℕ} (at_ : s.reader = .emptied d w) :
      Move s { s with reader := .passing d w }
  | pass {d : Drain α} {w : ℕ} (at_ : s.reader = .passing d w) :
      Move s { s with reader := .looping d w, read := (s.read + 1) % usizeSize }

theorem move_of_produce (h : s.produce = some s') : Move s s' := by
  unfold produce at h
  split at h
  · cases h
  · rename_i w e at_
    split at h
    · rename_i there
      split at h
      · rename_i held
        obtain rfl := Option.some.inj h
        exact .refused at_ there held
      · rename_i free
        obtain rfl := Option.some.inj h
        exact .lock at_ there (Bool.eq_false_iff.mpr free)
    · rename_i none
      obtain rfl := Option.some.inj h
      exact .missing at_ (Nat.le_of_not_lt none)
  · rename_i w e at_
    dsimp only at h
    split at h
    · rename_i k old occupied
      obtain rfl := Option.some.inj h
      exact .replace at_ occupied
    · rename_i empty
      obtain rfl := Option.some.inj h
      refine .fill at_ ?_
      match found : s.slots[w % eventCapacity]? with
      | none => rfl
      | some none => rfl
      | some (some (k, old)) => exact absurd found (empty k old)
  · rename_i w held at_
    obtain rfl := Option.some.inj h
    exact .count at_
  · rename_i w at_
    obtain rfl := Option.some.inj h
    exact .unlock at_
  · rename_i w at_
    obtain rfl := Option.some.inj h
    exact .store at_

theorem move_of_consume (h : s.consume = some s') : Move s s' := by
  unfold consume at h
  split at h
  · cases h
  · rename_i d at_
    obtain rfl := Option.some.inj h
    exact .load at_
  · rename_i d w at_
    split at h
    · rename_i there
      subst there
      obtain rfl := Option.some.inj h
      exact .leave at_
    · rename_i more
      split at h
      · rename_i there
        split at h
        · cases h
        · rename_i free
          obtain rfl := Option.some.inj h
          exact .wait at_ more (Bool.eq_false_iff.mpr free)
      · rename_i none
        obtain rfl := Option.some.inj h
        exact .skip at_ (Nat.le_of_not_lt none)
  · rename_i d w at_
    split at h
    · rename_i ke occupied
      obtain rfl := Option.some.inj h
      exact .take at_ occupied
    · rename_i empty
      obtain rfl := Option.some.inj h
      refine .find at_ ?_
      match found : s.slots[s.read % eventCapacity]? with
      | none => rfl
      | some none => rfl
      | some (some ke) => exact absurd found (empty ke)
  · rename_i d w at_
    obtain rfl := Option.some.inj h
    exact .release at_
  · rename_i d w at_
    obtain rfl := Option.some.inj h
    exact .pass at_

theorem move_of_step {a : Act α} (h : s.step a = some s') : Move s s' := by
  cases a with
  | push e =>
    dsimp only [step] at h
    split at h
    · rename_i idle
      obtain rfl := Option.some.inj h
      exact .push e idle
    · cases h
  | produce => exact move_of_produce h
  | drain reader =>
    dsimp only [step] at h
    split at h
    · rename_i idle
      obtain rfl := Option.some.inj h
      exact .enter reader idle
    · cases h
  | consume => exact move_of_consume h

/-! ### The threads -/

/-- The write index the engine's thread loaded. -/
def index (s : Events α) : Option ℕ :=
  match s.producer with
  | .idle => none
  | .loaded w _ | .locked w _ | .counting w _ | .unlocking w | .storing w => some w

/-- The event the engine's thread has yet to put in the ring. -/
def carrying (s : Events α) : Option α :=
  match s.producer with
  | .loaded _ e | .locked _ e => some e
  | _ => none

/-- The threads hold what they should, and never the same lock. -/
structure Shaped (s : Events α) : Prop where
  slots : s.slots.length = eventCapacity
  write : s.write = s.stored % usizeSize
  index : ∀ w, s.index = some w → w = s.write ∧ s.pushed ≠ []
  carrying : ∀ e, s.carrying = some e → s.pushed[s.current]? = some e
  apart : ∀ i, s.producerHolds i → s.readerHolds i = false

theorem shaped_new : Shaped (new : Events α) where
  slots := List.length_replicate
  write := rfl
  index := fun w h => by cases h
  carrying := fun e h => by cases h
  apart := fun i h => by cases h

theorem slot_lt (w : ℕ) : w % eventCapacity < eventCapacity := Nat.mod_lt _ (by decide)

/-- A reader's step leaves the engine's thread alone. -/
theorem Shaped.reading (shaped : s.Shaped) (slots : s'.slots.length = s.slots.length)
    (producer : s'.producer = s.producer) (write : s'.write = s.write)
    (pushed : s'.pushed = s.pushed)
    (apart : ∀ i, s.producerHolds i → s'.readerHolds i = false) : s'.Shaped where
  slots := slots.trans shaped.slots
  write := by
    rw [write, shaped.write]
    simp only [stored, current, producer, pushed]
  index := by
    intro w h
    simp only [Events.index, producer] at h
    rw [write, pushed]
    exact shaped.index w h
  carrying := by
    intro e h
    simp only [Events.carrying, producer] at h
    simp only [current, pushed]
    exact shaped.carrying e h
  apart := by
    intro i h
    simp only [producerHolds, producer] at h
    exact apart i h

theorem Shaped.move (shaped : s.Shaped) (m : Move s s') : s'.Shaped := by
  have ⟨slots, write, index, carrying, apart⟩ := shaped
  cases m with
  | push e idle =>
    refine ⟨slots, ?_, ?_, ?_, ?_⟩
    · simpa [stored, current, idle] using write
    · rintro w ⟨⟩
      exact ⟨rfl, by simp⟩
    · rintro e' ⟨⟩
      simp [current]
    · intro i h
      cases h
  | @refused w e at_ there held =>
    refine ⟨slots, ?_, ?_, ?_, ?_⟩
    · simpa [stored, current, at_] using write
    · rintro w' ⟨⟩
      exact index w (by simp [Events.index, at_])
    · intro e' h
      cases h
    · intro i h
      cases h
  | @lock w e at_ there free =>
    refine ⟨slots, ?_, ?_, ?_, ?_⟩
    · simpa [stored, current, at_] using write
    · rintro w' ⟨⟩
      exact index w (by simp [Events.index, at_])
    · rintro e' ⟨⟩
      exact carrying e (by simp [Events.carrying, at_])
    · intro i h
      obtain rfl : w % eventCapacity = i := by simpa [producerHolds] using h
      exact free
  | @missing w e at_ none =>
    rw [slots] at none
    exact absurd (slot_lt w) (Nat.not_lt.mpr none)
  | @replace w k e old at_ occupied =>
    refine ⟨(List.length_set).trans slots, ?_, ?_, ?_, ?_⟩
    · simpa [stored, current, at_] using write
    · rintro w' ⟨⟩
      exact index w (by simp [Events.index, at_])
    · intro e' h
      cases h
    · exact fun i h => apart i (by simpa [producerHolds, at_] using h)
  | @fill w e at_ empty =>
    refine ⟨(List.length_set).trans slots, ?_, ?_, ?_, ?_⟩
    · simpa [stored, current, at_] using write
    · rintro w' ⟨⟩
      exact index w (by simp [Events.index, at_])
    · intro e' h
      cases h
    · exact fun i h => apart i (by simpa [producerHolds, at_] using h)
  | @count w held at_ =>
    obtain ⟨rfl, busy⟩ := index w (by simp [Events.index, at_])
    cases held with
    | true =>
      refine ⟨slots, ?_, ?_, ?_, ?_⟩
      · simpa [stored, current, at_] using write
      · rintro w' ⟨⟩
        exact ⟨rfl, busy⟩
      · intro e' h
        cases h
      · exact fun i h => apart i (by simpa [producerHolds, at_] using h)
    | false =>
      refine ⟨slots, ?_, ?_, ?_, ?_⟩
      · simpa [stored, current, at_] using write
      · rintro w' ⟨⟩
        exact ⟨rfl, busy⟩
      · intro e' h
        cases h
      · intro i h
        cases h
  | @unlock w at_ =>
    refine ⟨slots, ?_, ?_, ?_, ?_⟩
    · simpa [stored, current, at_] using write
    · rintro w' ⟨⟩
      exact index w (by simp [Events.index, at_])
    · intro e' h
      cases h
    · intro i h
      cases h
  | @store w at_ =>
    obtain ⟨rfl, busy⟩ := index w (by simp [Events.index, at_])
    refine ⟨slots, ?_, ?_, ?_, ?_⟩
    · have pos : 0 < s.pushed.length := List.length_pos_of_ne_nil busy
      have : s.write = (s.pushed.length - 1) % usizeSize := by
        simpa [stored, current, at_] using write
      show (s.write + 1) % usizeSize = s.pushed.length % usizeSize
      rw [this, Nat.mod_add_mod, Nat.sub_add_cancel pos]
    · intro w' h
      cases h
    · intro e' h
      cases h
    · intro i h
      cases h
  | enter reader idle => exact shaped.reading rfl rfl rfl rfl fun i _ => rfl
  | load at_ => exact shaped.reading rfl rfl rfl rfl fun i _ => rfl
  | leave at_ => exact shaped.reading rfl rfl rfl rfl fun i _ => rfl
  | @wait d w at_ more free =>
    refine shaped.reading rfl rfl rfl rfl fun i held => ?_
    rw [Bool.eq_false_iff]
    intro both
    obtain rfl : s.read % eventCapacity = i := by simpa [readerHolds] using both
    rw [free] at held
    cases held
  | skip at_ none => exact shaped.reading rfl rfl rfl rfl fun i _ => rfl
  | take at_ occupied =>
    refine shaped.reading List.length_set rfl rfl rfl fun i held => ?_
    simpa [readerHolds, at_] using apart i held
  | find at_ empty =>
    refine shaped.reading rfl rfl rfl rfl fun i held => ?_
    simpa [readerHolds, at_] using apart i held
  | release at_ => exact shaped.reading rfl rfl rfl rfl fun i _ => rfl
  | pass at_ => exact shaped.reading rfl rfl rfl rfl fun i _ => rfl

/-! ### What becomes of an event -/

/-- The numbers of what was delivered. -/
def numbers (s : Events α) : List ℕ := s.delivered.map Prod.fst

theorem calls_of_draining {d : Drain α} (h : s.draining = some d) : s.calls = s.drains ++ [d] := by
  rw [calls, h]
  rfl

theorem delivered_of_draining {d : Drain α} (h : s.draining = some d) :
    s.delivered = s.drains.flatMap Drain.out ++ d.out := by
  rw [delivered, calls_of_draining h, List.flatMap_append]
  simp

/-- What a reader takes is delivered last. -/
theorem delivered_take {d : Drain α} {w : ℕ} (at_ : s.reader = .holding d w) (ke : ℕ × α)
    (slots : List (Option (ℕ × α))) :
    Events.delivered { s with
      slots := slots
      reader := .emptied { d with out := d.out ++ [ke], n := d.n + 1 } w } =
      s.delivered ++ [ke] := by
  have now : s.draining = some d := by simp [draining, at_]
  rw [delivered_of_draining now, delivered_of_draining rfl, List.append_assoc]

theorem filterMap_cons_toList {β γ : Type*} (f : β → Option γ) (b : β) (l : List β) :
    (b :: l).filterMap f = (f b).toList ++ l.filterMap f := by
  cases h : f b with
  | none => rw [List.filterMap_cons_none h, Option.toList_none, List.nil_append]
  | some c => rw [List.filterMap_cons_some h, Option.toList_some, List.singleton_append]

/-- Putting something in a slot takes out what was there. -/
theorem filterMap_set_perm {β γ : Type*} (f : β → Option γ) {l : List β} {i : ℕ} {old : β}
    (new : β) (h : l[i]? = some old) :
    ((f old).toList ++ (l.set i new).filterMap f).Perm ((f new).toList ++ l.filterMap f) := by
  induction l generalizing i with
  | nil => cases h
  | cons b l ih =>
    cases i with
    | zero =>
      obtain rfl : b = old := by simpa using h
      rw [List.set_cons_zero, filterMap_cons_toList, filterMap_cons_toList]
      exact List.perm_append_comm_assoc _ _ _
    | succ i =>
      rw [List.set_cons_succ, filterMap_cons_toList, filterMap_cons_toList]
      have rest := ih (i := i) (by simpa using h)
      exact (List.perm_append_comm_assoc _ _ _).trans
        ((rest.append_left _).trans (List.perm_append_comm_assoc _ _ _))

/-- What the ring holds, number by number, when a slot gets something else. -/
theorem count_waiting_set {i : ℕ} {old : Option (ℕ × α)} (there : s.slots[i]? = some old)
    (cell : Option (ℕ × α)) (k : ℕ) :
    (old.map Prod.fst).toList.count k +
        ((s.slots.set i cell).filterMap fun c => c.map Prod.fst).count k =
      (cell.map Prod.fst).toList.count k + s.waiting.count k := by
  have := (filterMap_set_perm (fun c : Option (ℕ × α) => c.map Prod.fst) cell there).count_eq k
  rwa [List.count_append, List.count_append] at this

/-- Nothing is lost track of, and losses are counted. -/
structure Booked (s : Events α) : Prop where
  conserved : (s.numbers ++ s.losses ++ s.waiting ++ s.inHand).Perm (List.range s.pushed.length)
  owed : s.uncounted ≤ s.losses.length
  counted : s.lost = (s.losses.length - s.uncounted) % 2 ^ 64
  answered : ∀ d ∈ s.calls, d.n = d.out.length

/-- Nothing is lost track of when every number is in as many places as it was pushed. -/
theorem conserved_iff :
    (s.numbers ++ s.losses ++ s.waiting ++ s.inHand).Perm (List.range s.pushed.length) ↔
      ∀ k, s.numbers.count k + s.losses.count k + s.waiting.count k + s.inHand.count k =
        (List.range s.pushed.length).count k := by
  rw [List.perm_iff_count]
  refine forall_congr' fun k => ?_
  rw [List.count_append, List.count_append, List.count_append]

theorem booked_new : Booked (new : Events α) where
  conserved := by
    have empty : (new : Events α).waiting = [] :=
      List.filterMap_eq_nil_iff.mpr fun c mem => by rw [List.eq_of_mem_replicate mem]; rfl
    rw [empty]
    exact List.Perm.refl []
  owed := Nat.zero_le _
  counted := rfl
  answered := fun d h => by cases h

/-- A step of a reader that takes nothing leaves the books as they are. -/
theorem Booked.reading (booked : s.Booked) (slots : s'.slots = s.slots)
    (producer : s'.producer = s.producer) (pushed : s'.pushed = s.pushed)
    (losses : s'.losses = s.losses) (lost : s'.lost = s.lost)
    (delivered : s'.delivered = s.delivered)
    (answered : ∀ d ∈ s'.calls, d.n = d.out.length) : s'.Booked where
  conserved := by
    simp only [numbers, waiting, inHand, current, slots, producer, pushed, losses, delivered]
    exact booked.conserved
  owed := by
    simp only [uncounted, producer, losses]
    exact booked.owed
  counted := by
    simp only [uncounted, producer, losses, lost]
    exact booked.counted
  answered := answered

theorem Booked.same (booked : s.Booked) (slots : s'.slots = s.slots)
    (producer : s'.producer = s.producer) (pushed : s'.pushed = s.pushed)
    (losses : s'.losses = s.losses) (lost : s'.lost = s.lost) (calls : s'.calls = s.calls) :
    s'.Booked := by
  refine booked.reading slots producer pushed losses lost ?_ ?_
  · simp only [delivered, calls]
  · rw [calls]
    exact booked.answered

theorem Booked.move (booked : s.Booked) (shaped : s.Shaped) (m : Move s s') : s'.Booked := by
  have ⟨conserved, owed, counted, answered⟩ := booked
  rw [conserved_iff] at conserved
  cases m with
  | push e idle =>
    refine ⟨conserved_iff.mpr fun k => ?_, by simp [uncounted], ?_, answered⟩
    · have before := conserved k
      simp only [inHand, idle, List.count_nil, Nat.add_zero] at before
      show s.numbers.count k + s.losses.count k + s.waiting.count k + List.count k [_] = _
      rw [before, List.length_append, List.length_singleton, List.range_succ, List.count_append]
      simp [current]
    · simpa [uncounted, idle] using counted
  | @refused w e at_ there held =>
    refine ⟨conserved_iff.mpr fun k => ?_, by simp [uncounted], ?_, answered⟩
    · have before := conserved k
      simp only [inHand, at_] at before
      show s.numbers.count k + (s.losses ++ [s.current]).count k + s.waiting.count k + 0 = _
      rw [← before, List.count_append]
      omega
    · simpa [uncounted, at_] using counted
  | @lock w e at_ there free =>
    refine ⟨conserved_iff.mpr fun k => ?_, by simp [uncounted], ?_, answered⟩
    · have before := conserved k
      simp only [inHand, at_] at before
      exact before
    · simpa [uncounted, at_] using counted
  | @missing w e at_ none =>
    rw [shaped.slots] at none
    exact absurd (slot_lt w) (Nat.not_lt.mpr none)
  | @replace w k e old at_ occupied =>
    refine ⟨conserved_iff.mpr fun j => ?_, by simp [uncounted], ?_, answered⟩
    · have before := conserved j
      simp only [inHand, at_] at before
      have slots := count_waiting_set occupied (some (s.current, e)) j
      simp only [Option.map_some, Option.toList_some] at slots
      show s.numbers.count j + (s.losses ++ [k]).count j + ((s.slots.set (w % eventCapacity)
        (some (s.current, e))).filterMap fun c => c.map Prod.fst).count j + 0 = _
      rw [← before, List.count_append]
      omega
    · simpa [uncounted, at_] using counted
  | @fill w e at_ empty =>
    have there : s.slots[w % eventCapacity]? = some none := by
      have lt : w % eventCapacity < s.slots.length := shaped.slots ▸ slot_lt w
      rw [List.getElem?_eq_getElem lt] at empty ⊢
      exact congrArg some empty
    refine ⟨conserved_iff.mpr fun j => ?_, by simp [uncounted], ?_, answered⟩
    · have before := conserved j
      simp only [inHand, at_] at before
      have slots := count_waiting_set there (some (s.current, e)) j
      simp only [Option.map_some, Option.toList_some, Option.map_none, Option.toList_none,
        List.count_nil] at slots
      show s.numbers.count j + s.losses.count j + ((s.slots.set (w % eventCapacity)
        (some (s.current, e))).filterMap fun c => c.map Prod.fst).count j + 0 = _
      rw [← before]
      omega
    · simpa [uncounted, at_] using counted
  | @count w held at_ =>
    have one : s.uncounted = 1 := by simp [uncounted, at_]
    have none : ∀ p : Pushing α, (p = if held then .unlocking w else .storing w) →
        Events.uncounted { s with producer := p } = 0 ∧
          Events.inHand { s with producer := p } = [] := by
      rintro p rfl
      cases held <;> exact ⟨rfl, rfl⟩
    obtain ⟨none, empty⟩ := none _ rfl
    refine ⟨conserved_iff.mpr fun k => ?_, ?_, ?_, answered⟩
    · have before := conserved k
      simp only [inHand, at_] at before
      refine Eq.trans ?_ before
      exact congrArg (fun l => s.numbers.count k + s.losses.count k + s.waiting.count k +
        List.count k l) empty
    · exact Nat.le_trans (Nat.le_of_eq none) (Nat.zero_le _)
    · show (s.lost + 1) % 2 ^ 64 = (s.losses.length - Events.uncounted _) % 2 ^ 64
      rw [one] at owed counted
      rw [counted, Nat.mod_add_mod, Nat.sub_add_cancel owed]
      exact congrArg (fun n => (s.losses.length - n) % 2 ^ 64) none.symm
  | @unlock w at_ =>
    refine ⟨conserved_iff.mpr fun k => ?_, by simp [uncounted], ?_, answered⟩
    · have before := conserved k
      simp only [inHand, at_] at before
      exact before
    · simpa [uncounted, at_] using counted
  | @store w at_ =>
    refine ⟨conserved_iff.mpr fun k => ?_, by simp [uncounted], ?_, answered⟩
    · have before := conserved k
      simp only [inHand, at_] at before
      exact before
    · simpa [uncounted, at_] using counted
  | enter reader idle =>
    refine booked.reading rfl rfl rfl rfl rfl ?_ ?_
    · simp [delivered, calls, draining, idle]
    · intro d mem
      simp only [calls, draining, idle, Option.toList_some, Option.toList_none, List.append_nil,
        List.mem_append, List.mem_singleton] at mem answered
      obtain mem | rfl := mem
      · exact answered d mem
      · rfl
  | load at_ => exact booked.same rfl rfl rfl rfl rfl (by simp [calls, draining, at_])
  | leave at_ => exact booked.same rfl rfl rfl rfl rfl (by simp [calls, draining, at_])
  | wait at_ more free => exact booked.same rfl rfl rfl rfl rfl (by simp [calls, draining, at_])
  | skip at_ none => exact booked.same rfl rfl rfl rfl rfl (by simp [calls, draining, at_])
  | @take d w ke at_ occupied =>
    have now : s.draining = some d := by simp [draining, at_]
    refine ⟨conserved_iff.mpr fun k => ?_, owed, counted, ?_⟩
    · have before := conserved k
      have slots := count_waiting_set occupied none k
      simp only [Option.map_some, Option.toList_some, Option.map_none, Option.toList_none,
        List.count_nil] at slots
      rw [numbers, delivered_take at_, List.map_append, List.count_append]
      show s.numbers.count k + List.count k [ke.1] + s.losses.count k +
        ((s.slots.set (s.read % eventCapacity) none).filterMap fun c => c.map Prod.fst).count k +
        s.inHand.count k = (List.range s.pushed.length).count k
      omega
    · intro d' mem
      rw [calls_of_draining now] at answered
      rw [calls_of_draining rfl, List.mem_append, List.mem_singleton] at mem
      obtain mem | rfl := mem
      · exact answered d' (List.mem_append_left _ mem)
      · have := answered d (List.mem_append_right _ (List.mem_singleton_self d))
        simp [this]
  | find at_ empty => exact booked.same rfl rfl rfl rfl rfl (by simp [calls, draining, at_])
  | release at_ => exact booked.same rfl rfl rfl rfl rfl (by simp [calls, draining, at_])
  | pass at_ => exact booked.same rfl rfl rfl rfl rfl (by simp [calls, draining, at_])

/-! ### Where the readers are -/

/-- The write index the reader loaded. -/
def bound (s : Events α) : Option ℕ :=
  match s.reader with
  | .idle | .entered _ => none
  | .looping _ w | .holding _ w | .emptied _ w | .passing _ w => some w

/-- Is the reader inside the loop, at a slot it has not moved on from? -/
def inside (s : Events α) : ℕ :=
  match s.reader with
  | .holding _ _ | .emptied _ _ | .passing _ _ => 1
  | _ => 0

/-- Has the reader emptied the slot it is at? -/
def taken (s : Events α) : ℕ :=
  match s.reader with
  | .emptied _ _ | .passing _ _ => 1
  | _ => 0

/-- Is the reader about to empty this slot? -/
def awaits (s : Events α) (i : ℕ) : Bool :=
  match s.reader with
  | .holding _ _ => s.read % eventCapacity = i
  | _ => false

/-- How many pushes have been at their slots. -/
def attempted (s : Events α) : ℕ :=
  match s.producer with
  | .loaded _ _ | .locked _ _ => s.current
  | _ => s.pushed.length

/-- An event in a slot: it is not behind the readers, and the last to come to its slot, unless a
reader has locked it. -/
structure Cell (s : Events α) (R i k : ℕ) (e : α) : Prop where
  slot : k % eventCapacity = i
  pushed : s.pushed[k]? = some e
  ahead : R + s.taken ≤ k
  tried : k < s.attempted
  lap : s.attempted ≤ k + eventCapacity ∨ s.awaits i ∧ s.sampled ≤ k + eventCapacity

/-- The readers have been at `R` slots, and have passed over `D` pushes more, whose numbers the
index cannot tell from those. -/
structure Placed (s : Events α) (R D : ℕ) : Prop where
  read : s.read = R % usizeSize
  laps : usizeSize ∣ D
  behind : R + D ≤ s.stored
  bound : ∀ w, s.bound = some w → w = s.sampled % usizeSize ∧ R + D + s.inside ≤ s.sampled ∧
    s.sampled ≤ R + D + eventCapacity ∧ s.sampled ≤ s.stored
  few : s.delivered.length ≤ R + s.taken
  genuine : ∀ ke ∈ s.delivered, s.pushed[ke.1]? = some ke.2
  cells : ∀ i k e, s.slots[i]? = some (some (k, e)) → s.Cell R i k e
  emptied : ∀ d w, s.reader = .emptied d w → s.slots[s.read % eventCapacity]? = some none

theorem placed_new : (new : Events α).Placed 0 0 where
  read := rfl
  laps := Nat.dvd_zero _
  behind := Nat.zero_le _
  bound := fun w h => by cases h
  few := Nat.zero_le _
  genuine := fun ke h => by cases h
  cells := by
    intro i k e h
    obtain ⟨lt, h⟩ := List.getElem?_eq_some_iff.mp h
    have : (new : Events α).slots[i] = none := List.getElem_replicate lt
    rw [this] at h
    cases h
  emptied := fun d w h => by cases h

theorem mod_capacity (n : ℕ) : n % usizeSize % eventCapacity = n % eventCapacity :=
  Nat.mod_mod_of_dvd n (by decide)

theorem stored_le_attempted (s : Events α) : s.stored ≤ s.attempted := by
  unfold stored attempted current
  cases s.producer <;> simp

theorem taken_le_inside (s : Events α) : s.taken ≤ s.inside := by
  unfold taken inside
  cases s.reader <;> simp

/-- The readers are not past what is in the ring. -/
theorem Placed.taken_le {R D : ℕ} (placed : s.Placed R D) : R + D + s.taken ≤ s.stored := by
  have inside := s.taken_le_inside
  cases h : s.bound with
  | none =>
    have : s.taken = 0 := by
      revert h
      unfold Events.bound taken
      cases s.reader <;> simp
    have := placed.behind
    omega
  | some w =>
    obtain ⟨-, _, _, _⟩ := placed.bound w h
    omega

/-- A step of the engine's thread leaves the readers where they are. -/
theorem Placed.producing {R D : ℕ} (placed : s.Placed R D) (read : s'.read = s.read)
    (reader : s'.reader = s.reader) (drains : s'.drains = s.drains)
    (sampled : s'.sampled = s.sampled) (stored : s.stored ≤ s'.stored)
    (pushed : ∀ (k : ℕ) (e : α), s.pushed[k]? = some e → s'.pushed[k]? = some e)
    (cells : ∀ i k e, s'.slots[i]? = some (some (k, e)) → s'.Cell R i k e)
    (emptied : ∀ d w, s.reader = .emptied d w → s'.slots[s.read % eventCapacity]? = some none) :
    s'.Placed R D := by
  have delivered : s'.delivered = s.delivered := by
    simp only [Events.delivered, calls, draining, reader, drains]
  have taken : s'.taken = s.taken := by simp only [Events.taken, reader]
  refine ⟨?_, placed.laps, ?_, ?_, ?_, ?_, cells, ?_⟩
  · rw [read]
    exact placed.read
  · exact Nat.le_trans placed.behind stored
  · intro w h
    simp only [Events.bound, reader] at h
    obtain ⟨eq, low, high, done⟩ := placed.bound w h
    simp only [inside, reader, sampled]
    exact ⟨eq, low, high, Nat.le_trans done stored⟩
  · rw [delivered, taken]
    exact placed.few
  · intro ke mem
    rw [delivered] at mem
    exact pushed _ _ (placed.genuine ke mem)
  · intro d w at_
    rw [read]
    exact emptied d w (reader ▸ at_)

/-- What lies in a slot stays as it is when the engine's thread goes on. -/
theorem Cell.producing {R i k : ℕ} {e : α} (cell : s.Cell R i k e) (read : s'.read = s.read)
    (reader : s'.reader = s.reader) (sampled : s'.sampled = s.sampled)
    (pushed : ∀ (k : ℕ) (e : α), s.pushed[k]? = some e → s'.pushed[k]? = some e)
    (attempted : s'.attempted = s.attempted) : s'.Cell R i k e where
  slot := cell.slot
  pushed := pushed _ _ cell.pushed
  ahead := by
    simp only [taken, reader]
    exact cell.ahead
  tried := by
    rw [attempted]
    exact cell.tried
  lap := by
    simp only [awaits, attempted, reader, read, sampled]
    exact cell.lap

/-- A step of the engine's thread that fills no slot and gives none up. -/
theorem Placed.same {R D : ℕ} (placed : s.Placed R D) (slots : s'.slots = s.slots)
    (read : s'.read = s.read) (reader : s'.reader = s.reader) (drains : s'.drains = s.drains)
    (sampled : s'.sampled = s.sampled) (stored : s.stored ≤ s'.stored)
    (pushed : ∀ (k : ℕ) (e : α), s.pushed[k]? = some e → s'.pushed[k]? = some e)
    (attempted : s'.attempted = s.attempted) : s'.Placed R D := by
  refine placed.producing read reader drains sampled stored pushed ?_ ?_
  · intro i k e there
    rw [slots] at there
    exact (placed.cells i k e there).producing read reader sampled pushed attempted
  · rw [slots]
    exact placed.emptied

/-- The slot that a full ring takes from a reader is the one it holds. -/
theorem Placed.refused {R D w : ℕ} {e : α} (placed : s.Placed R D) (shaped : s.Shaped)
    (at_ : s.producer = .loaded w e) (held : s.readerHolds (w % eventCapacity)) :
    Placed { s with producer := .counting w false, losses := s.losses ++ [s.current] } R D := by
  obtain ⟨rfl, busy⟩ := shaped.index w (by simp [Events.index, at_])
  have pos : 0 < s.pushed.length := List.length_pos_of_ne_nil busy
  have write : s.write % eventCapacity = s.current % eventCapacity := by
    rw [shaped.write, mod_capacity]
    simp [stored, at_]
  have tried : s.attempted = s.current := by simp [attempted, at_]
  have stored : s.stored = s.current := by simp [stored, at_]
  refine placed.producing rfl rfl rfl rfl (by simp [Events.stored, at_, current])
    (fun _ _ h => h) ?_ placed.emptied
  intro i k e' there
  obtain ⟨slot, pushed, ahead, before, lap⟩ := placed.cells i k e' there
  rw [tried] at before lap
  refine ⟨slot, pushed, ahead, Nat.lt_of_lt_of_le before (Nat.sub_le _ _), ?_⟩
  show s.pushed.length ≤ k + eventCapacity ∨ s.awaits i ∧ s.sampled ≤ k + eventCapacity
  obtain lap | lap := lap
  · by_cases full : s.current = k + eventCapacity
    · -- The event lies in the slot the reader holds, and has not been taken yet.
      have here : s.write % eventCapacity = i := by
        rw [write, full, Nat.add_mod_right, slot]
      subst here
      right
      unfold readerHolds at held
      split at held
      · rename_i d w' reader
        obtain ⟨-, -, -, done⟩ := placed.bound w' (by simp [Events.bound, reader])
        refine ⟨by simpa [awaits, reader] using held, ?_⟩
        rw [← full, ← stored]
        exact done
      · rename_i d w' reader
        have empty := placed.emptied d w' reader
        rw [of_decide_eq_true held, there] at empty
        cases empty
      · cases held
    · left
      unfold current at full lap
      omega
  · exact Or.inr lap

/-- What a reader holds stays in its slot when the engine's thread fills another. -/
theorem Placed.filling {R D w : ℕ} {e : α} (placed : s.Placed R D) (shaped : s.Shaped)
    (at_ : s.producer = .locked w e) (there : w % eventCapacity < s.slots.length)
    (slots : s'.slots = s.slots.set (w % eventCapacity) (some (s.current, e)))
    (read : s'.read = s.read) (reader : s'.reader = s.reader) (drains : s'.drains = s.drains)
    (sampled : s'.sampled = s.sampled) (pushed : s'.pushed = s.pushed)
    (stored : s'.stored = s.current) (attempted : s'.attempted = s.pushed.length) :
    s'.Placed R D := by
  obtain ⟨rfl, busy⟩ := shaped.index w (by simp [Events.index, at_])
  have pos : 0 < s.pushed.length := List.length_pos_of_ne_nil busy
  have write : s.write % eventCapacity = s.current % eventCapacity := by
    rw [shaped.write, mod_capacity]
    simp [Events.stored, at_]
  have tried : s.attempted = s.current := by simp [Events.attempted, at_]
  have behind : s.stored = s.current := by simp [Events.stored, at_]
  have mine : s.producerHolds (s.write % eventCapacity) := by simp [producerHolds, at_]
  refine placed.producing read reader drains sampled (by rw [stored, behind]) (by simp [pushed]) ?_ ?_
  · intro i k e' at_'
    rw [slots, List.getElem?_set] at at_'
    split at at_'
    · rename_i here
      subst here
      obtain ⟨rfl, rfl⟩ := Prod.mk.inj (Option.some.inj (Option.some.inj at_'))
      refine ⟨write.symm, ?_, ?_, ?_, Or.inl ?_⟩
      · rw [pushed]
        exact shaped.carrying _ (by simp [Events.carrying, at_])
      · have := placed.taken_le
        simp only [taken, reader]
        simp only [taken] at this
        omega
      · rw [attempted]
        exact Nat.sub_lt pos Nat.one_pos
      · rw [attempted]
        unfold current eventCapacity
        omega
    · rename_i other
      obtain ⟨slot, pushed', ahead, before, lap⟩ := placed.cells i k e' at_'
      rw [tried] at before lap
      refine ⟨slot, by rw [pushed]; exact pushed', by simpa [taken, reader] using ahead, ?_, ?_⟩
      · rw [attempted]
        exact Nat.lt_of_lt_of_le before (Nat.sub_le _ _)
      · rw [attempted, sampled]
        obtain lap | lap := lap
        · left
          have : s.current ≠ k + eventCapacity := by
            intro full
            rw [write, full, Nat.add_mod_right, slot] at other
            exact other rfl
          unfold current at this lap
          omega
        · right
          simpa [awaits, reader, read] using lap
  · intro d w' at_'
    have apart := shaped.apart _ mine
    rw [slots, List.getElem?_set_ne]
    · exact placed.emptied d w' at_'
    · simp [readerHolds, at_'] at apart
      exact fun same => apart same.symm

/-- The index that a reader goes on from: where it was, or a whole ring behind what was stored. -/
theorem load_index {R D : ℕ} (read : s.read = R % usizeSize)
    (write : s.write = s.stored % usizeSize) (laps : usizeSize ∣ D) (behind : R + D ≤ s.stored) :
    ∃ R' D', R ≤ R' ∧ D ≤ D' ∧ usizeSize ∣ D' ∧
      (if wrappingSub s.write s.read > eventCapacity then wrappingSub s.write eventCapacity
        else s.read) = R' % usizeSize ∧
      R' + D' ≤ s.stored ∧ s.stored ≤ R' + D' + eventCapacity ∧
      (R' = R ∨ R' + eventCapacity ≤ s.stored) := by
  obtain ⟨c, rfl⟩ := laps
  have far : wrappingSub s.write s.read = (s.stored - R) % usizeSize := by
    rw [read, write]
    unfold wrappingSub usizeSize at *
    omega
  have split := Nat.div_add_mod (s.stored - R) usizeSize
  have laps : usizeSize * c ≤ usizeSize * ((s.stored - R) / usizeSize) := by
    refine Nat.mul_le_mul_left _ ?_
    rw [Nat.le_div_iff_mul_le (by decide), Nat.mul_comm]
    omega
  have below : R ≤ s.stored := Nat.le_trans (Nat.le_add_right _ _) behind
  rw [far]
  split
  · rename_i behind
    refine ⟨R + (s.stored - R) % usizeSize - eventCapacity,
      usizeSize * ((s.stored - R) / usizeSize), ?_, laps, Nat.dvd_mul_right _ _, ?_, ?_, ?_,
      Or.inr ?_⟩
    · omega
    · rw [write]
      unfold wrappingSub usizeSize eventCapacity at *
      omega
    · omega
    · omega
    · unfold eventCapacity at *
      omega
  · rename_i near
    refine ⟨R, usizeSize * ((s.stored - R) / usizeSize), Nat.le_refl R, laps,
      Nat.dvd_mul_right _ _, read, ?_, ?_, Or.inl rfl⟩
    · omega
    · omega

/-- A step of a reader that takes nothing delivers nothing. -/
theorem delivered_same {d : Drain α} (now : s.draining = some d) (next : s'.draining = some d)
    (drains : s'.drains = s.drains) : s'.delivered = s.delivered := by
  rw [delivered_of_draining now, delivered_of_draining next, drains]

/-- A reader that loads the write index goes on from the first slot that may hold something. -/
theorem Placed.load {R D : ℕ} {d : Drain α} (placed : s.Placed R D) (shaped : s.Shaped)
    (at_ : s.reader = .entered d) (reader : s'.reader = .looping d s.write)
    (read : s'.read = if wrappingSub s.write s.read > eventCapacity
      then wrappingSub s.write eventCapacity else s.read)
    (sampled : s'.sampled = s.stored) (slots : s'.slots = s.slots)
    (producer : s'.producer = s.producer) (pushed : s'.pushed = s.pushed)
    (drains : s'.drains = s.drains) :
    ∃ R' D', R + D + s.taken ≤ R' + D' + s'.taken ∧ s'.Placed R' D' := by
  obtain ⟨R', D', onward, laps, whole_laps, index, low, high, whole⟩ :=
    load_index placed.read shaped.write placed.laps placed.behind
  have delivered : s'.delivered = s.delivered :=
    delivered_same (by rw [draining, at_]) (by rw [draining, reader]) drains
  have stored : s'.stored = s.stored := by simp only [Events.stored, current, producer, pushed]
  have attempted : s'.attempted = s.attempted := by
    simp only [Events.attempted, current, producer, pushed]
  have before : s.taken = 0 := by simp [taken, at_]
  have after : s'.taken = 0 := by simp [taken, reader]
  have inside : s'.inside = 0 := by simp [Events.inside, reader]
  refine ⟨R', D', ?_, read.trans index, whole_laps, ?_, ?_, ?_, ?_, ?_, ?_⟩
  · rw [before, after]
    exact Nat.add_le_add_right (Nat.add_le_add onward laps) 0
  · rw [stored]
    exact low
  · intro w h
    obtain rfl : s.write = w := by simpa [Events.bound, reader] using h
    rw [sampled, stored, inside]
    exact ⟨shaped.write, low, high, Nat.le_refl _⟩
  · rw [delivered, after]
    have few := placed.few
    rw [before] at few
    exact Nat.le_trans few onward
  · rw [delivered, pushed]
    exact placed.genuine
  · intro i k e there
    rw [slots] at there
    obtain ⟨slot, kept, ahead, tried, lap⟩ := placed.cells i k e there
    have free : s.awaits i = false := by simp [awaits, at_]
    rw [free] at lap
    obtain lap | ⟨⟨⟩, -⟩ := lap
    refine ⟨slot, by rw [pushed]; exact kept, ?_, by rw [attempted]; exact tried, ?_⟩
    · rw [after]
      have := s.stored_le_attempted
      obtain rfl | whole := whole
      · exact Nat.le_trans (Nat.le_add_right _ _) ahead
      · omega
    · rw [attempted]
      exact Or.inl lap
  · intro d' w' h
    rw [reader] at h
    cases h

/-- A step of a reader that has loaded the write index. -/
theorem Placed.reading {R R' D : ℕ} (placed : s.Placed R D) (producer : s'.producer = s.producer)
    (pushed : s'.pushed = s.pushed) (sampled : s'.sampled = s.sampled) (onward : R ≤ R')
    (read : s'.read = R' % usizeSize) (behind : R' + D ≤ s.stored)
    (bound : ∀ w, s'.bound = some w → s.bound = some w ∧ R' + D + s'.inside ≤ s.sampled)
    (few : s'.delivered.length ≤ R' + s'.taken)
    (genuine : ∀ ke ∈ s'.delivered, s.pushed[ke.1]? = some ke.2)
    (cells : ∀ (i k : ℕ) (e : α), s'.slots[i]? = some (some (k, e)) →
      s.slots[i]? = some (some (k, e)) ∧ R' + s'.taken ≤ k ∧ (s.awaits i → s'.awaits i))
    (emptied : ∀ d w, s'.reader = .emptied d w →
      s'.slots[s'.read % eventCapacity]? = some none) : s'.Placed R' D := by
  have stored : s'.stored = s.stored := by simp only [Events.stored, current, producer, pushed]
  have attempted : s'.attempted = s.attempted := by
    simp only [Events.attempted, current, producer, pushed]
  refine ⟨read, placed.laps, ?_, ?_, few, ?_, ?_, emptied⟩
  · rw [stored]
    exact behind
  · intro w h
    obtain ⟨before, low⟩ := bound w h
    obtain ⟨eq, _, high, done⟩ := placed.bound w before
    rw [sampled, stored]
    exact ⟨eq, low, by omega, done⟩
  · rw [pushed]
    exact genuine
  · intro i k e there
    obtain ⟨before, ahead, awaits⟩ := cells i k e there
    obtain ⟨slot, kept, _, tried, lap⟩ := placed.cells i k e before
    refine ⟨slot, by rw [pushed]; exact kept, ahead, by rw [attempted]; exact tried, ?_⟩
    rw [attempted, sampled]
    exact lap.imp_right fun h => ⟨awaits h.1, h.2⟩

/-- A step of a reader that takes nothing, and moves on only from a slot it has emptied. -/
theorem Placed.going {R R' D : ℕ} (placed : s.Placed R D) (slots : s'.slots = s.slots)
    (producer : s'.producer = s.producer) (pushed : s'.pushed = s.pushed)
    (sampled : s'.sampled = s.sampled) (delivered : s'.delivered = s.delivered) (onward : R ≤ R')
    (same : R' + s'.taken = R + s.taken) (read : s'.read = R' % usizeSize)
    (behind : R' + D ≤ s.stored)
    (bound : ∀ w, s'.bound = some w → s.bound = some w ∧ R' + D + s'.inside ≤ s.sampled)
    (awaits : ∀ i, s.awaits i = false) (full : ∀ d w, s'.reader ≠ .emptied d w) :
    s'.Placed R' D := by
  refine placed.reading producer pushed sampled onward read behind bound ?_ ?_ ?_ ?_
  · rw [delivered, same]
    exact placed.few
  · rw [delivered]
    exact placed.genuine
  · intro i k e there
    rw [slots] at there
    refine ⟨there, ?_, fun h => ?_⟩
    · rw [same]
      exact (placed.cells i k e there).ahead
    · rw [awaits i] at h
      cases h
  · exact fun d w h => absurd h (full d w)

/-- What is in the ring beyond the slot the readers are at lies beyond it. -/
theorem Placed.beyond {R D i k : ℕ} {e : α} (placed : s.Placed R D)
    (there : s.slots[i]? = some (some (k, e))) (other : s.read % eventCapacity ≠ i) :
    R + 1 ≤ k := by
  have cell := placed.cells i k e there
  have le := Nat.le_trans (Nat.le_add_right R s.taken) cell.ahead
  have : R ≠ k := by
    rintro rfl
    rw [placed.read, mod_capacity, cell.slot] at other
    exact other rfl
  omega

theorem Placed.emptying {R D w : ℕ} {d d' : Drain α} (placed : s.Placed R D)
    (at_ : s.reader = .holding d w) (reader : s'.reader = .emptied d' w)
    (read : s'.read = s.read) (producer : s'.producer = s.producer)
    (pushed : s'.pushed = s.pushed) (sampled : s'.sampled = s.sampled)
    (few : s'.delivered.length ≤ R + 1)
    (genuine : ∀ ke ∈ s'.delivered, s.pushed[ke.1]? = some ke.2)
    (others : ∀ i, s.read % eventCapacity ≠ i → s'.slots[i]? = s.slots[i]?)
    (empty : s'.slots[s.read % eventCapacity]? = some none) : s'.Placed R D := by
  have one : s'.taken = 1 := by simp [taken, reader]
  have inside : s'.inside = s.inside := by simp [Events.inside, reader, at_]
  refine placed.reading producer pushed sampled (Nat.le_refl R) (read.trans placed.read)
    placed.behind ?_ ?_ genuine ?_ ?_
  · intro w' h
    have before : s.bound = some w' := by simpa [Events.bound, reader, at_] using h
    rw [inside]
    exact ⟨before, (placed.bound w' before).2.1⟩
  · rw [one]
    exact few
  · intro i k e there
    have other : s.read % eventCapacity ≠ i := by
      rintro rfl
      rw [empty] at there
      cases there
    rw [others i other] at there
    rw [one]
    refine ⟨there, placed.beyond there other, fun awaited => ?_⟩
    simp only [awaits, at_, decide_eq_true_eq] at awaited
    exact absurd awaited other
  · intro _ _ _
    rw [read]
    exact empty

theorem Placed.take {R D w : ℕ} {d : Drain α} {ke : ℕ × α} (placed : s.Placed R D)
    (at_ : s.reader = .holding d w)
    (occupied : s.slots[s.read % eventCapacity]? = some (some ke)) :
    Placed { s with
      slots := s.slots.set (s.read % eventCapacity) none
      reader := .emptied { d with out := d.out ++ [ke], n := d.n + 1 } w } R D := by
  obtain ⟨lt, -⟩ := List.getElem?_eq_some_iff.mp occupied
  have same : s.taken = 0 := by simp [taken, at_]
  refine placed.emptying at_ rfl rfl rfl rfl rfl ?_ ?_ ?_ ?_
  · have few := placed.few
    rw [same] at few
    rw [delivered_take at_, List.length_append, List.length_singleton]
    exact Nat.add_le_add_right few 1
  · intro ke' mem
    rw [delivered_take at_, List.mem_append, List.mem_singleton] at mem
    obtain mem | rfl := mem
    · exact placed.genuine ke' mem
    · exact (placed.cells _ _ _ occupied).pushed
  · exact fun i other => List.getElem?_set_ne other
  · exact List.getElem?_set_self lt

/-- A step keeps the readers in their places, and takes them no way back. -/
theorem Placed.move {R D : ℕ} (placed : s.Placed R D) (shaped : s.Shaped) (m : Move s s') :
    ∃ R' D', R + D + s.taken ≤ R' + D' + s'.taken ∧ s'.Placed R' D' := by
  cases m with
  | push e idle =>
    refine ⟨R, D, Nat.le_refl _, ?_⟩
    refine placed.same rfl rfl rfl rfl rfl ?_ ?_ ?_
    · simp [stored, idle, current]
    · intro k e' h
      rw [← h]
      exact List.getElem?_append_left (List.getElem?_eq_some_iff.mp h).1
    · simp [attempted, idle, current]
  | refused at_ there held => exact ⟨R, D, Nat.le_refl _, placed.refused shaped at_ held⟩
  | lock at_ there free =>
    refine ⟨R, D, Nat.le_refl _, placed.same rfl rfl rfl rfl rfl ?_ (fun _ _ h => h) ?_⟩
    · simp [stored, at_, current]
    · simp [attempted, at_, current]
  | @missing w e at_ none =>
    rw [shaped.slots] at none
    exact absurd (slot_lt w) (Nat.not_lt.mpr none)
  | @replace w k e old at_ occupied =>
    have there := (List.getElem?_eq_some_iff.mp occupied).1
    exact ⟨R, D, Nat.le_refl _, placed.filling shaped at_ there rfl rfl rfl rfl rfl rfl rfl rfl⟩
  | @fill w e at_ empty =>
    have there : w % eventCapacity < s.slots.length := shaped.slots ▸ slot_lt w
    exact ⟨R, D, Nat.le_refl _, placed.filling shaped at_ there rfl rfl rfl rfl rfl rfl rfl rfl⟩
  | @count w held at_ =>
    refine ⟨R, D, Nat.le_refl _, placed.same rfl rfl rfl rfl rfl ?_ (fun _ _ h => h) ?_⟩
    · cases held <;> simp [stored, at_, current]
    · cases held <;> simp [attempted, at_]
  | unlock at_ =>
    refine ⟨R, D, Nat.le_refl _, placed.same rfl rfl rfl rfl rfl ?_ (fun _ _ h => h) ?_⟩
    · simp [stored, at_, current]
    · simp [attempted, at_]
  | store at_ =>
    refine ⟨R, D, Nat.le_refl _, placed.same rfl rfl rfl rfl rfl ?_ (fun _ _ h => h) ?_⟩
    · simp [stored, at_, current]
    · simp [attempted, at_]
  | enter reader idle =>
    have same : s.taken = 0 := by simp [taken, idle]
    refine ⟨R, D, by rw [same]; exact Nat.le_refl _, ?_⟩
    refine placed.going rfl rfl rfl rfl ?_ (Nat.le_refl R) (by rw [same]; rfl) placed.read
      placed.behind ?_ (by simp [awaits, idle]) nofun
    · simp [delivered, calls, draining, idle]
    · intro w h
      cases h
  | load at_ => exact placed.load shaped at_ rfl rfl rfl rfl rfl rfl rfl
  | @leave d at_ =>
    have same : s.taken = 0 := by simp [taken, at_]
    refine ⟨R, D, by rw [same]; exact Nat.le_refl _, ?_⟩
    refine placed.going rfl rfl rfl rfl ?_ (Nat.le_refl R) (by rw [same]; rfl) placed.read
      placed.behind ?_ (by simp [awaits, at_]) nofun
    · simp [delivered, calls, draining, at_]
    · intro w h
      cases h
  | @wait d w at_ more free =>
    have now : s.bound = some w := by simp [Events.bound, at_]
    obtain ⟨eq, low, high, done⟩ := placed.bound w now
    have same : s.taken = 0 := by simp [taken, at_]
    have before : R + D ≠ s.sampled := by
      intro there
      obtain ⟨c, rfl⟩ := placed.laps
      refine more ?_
      rw [placed.read, eq, ← there, Nat.add_mul_mod_self_left]
    refine ⟨R, D, by rw [same]; exact Nat.le_refl _, ?_⟩
    refine placed.going rfl rfl rfl rfl ?_ (Nat.le_refl R) (by rw [same]; rfl) placed.read
      placed.behind ?_ (by simp [awaits, at_]) nofun
    · exact delivered_same (by rw [draining, at_]) rfl rfl
    · rintro w' ⟨⟩
      refine ⟨now, ?_⟩
      show R + D + 1 ≤ s.sampled
      omega
  | @skip d w at_ none =>
    rw [shaped.slots] at none
    exact absurd (slot_lt s.read) (Nat.not_lt.mpr none)
  | @take d w ke at_ occupied =>
    have same : s.taken = 0 := by simp [taken, at_]
    exact ⟨R, D, by rw [same]; exact Nat.le_add_right _ _, placed.take at_ occupied⟩
  | @find d w at_ empty =>
    have none : s.taken = 0 := by simp [taken, at_]
    have delivered : Events.delivered { s with reader := .emptied d w } = s.delivered :=
      delivered_same (by rw [draining, at_]) rfl rfl
    refine ⟨R, D, by rw [none]; exact Nat.le_add_right _ _, ?_⟩
    refine placed.emptying at_ rfl rfl rfl rfl rfl ?_ ?_ (fun _ _ => rfl) ?_
    · have few := placed.few
      rw [none] at few
      rw [delivered]
      exact Nat.le_trans few (Nat.le_add_right _ _)
    · rw [delivered]
      exact placed.genuine
    · have lt : s.read % eventCapacity < s.slots.length := shaped.slots ▸ slot_lt s.read
      rw [List.getElem?_eq_getElem lt] at empty ⊢
      exact congrArg some empty
  | @release d w at_ =>
    have now : s.bound = some w := by simp [Events.bound, at_]
    have same : s.taken = 1 := by simp [taken, at_]
    have inside : s.inside = 1 := by simp [Events.inside, at_]
    refine ⟨R, D, by rw [same]; exact Nat.le_refl _, ?_⟩
    refine placed.going rfl rfl rfl rfl ?_ (Nat.le_refl R) (by rw [same]; rfl) placed.read
      placed.behind ?_ (by simp [awaits, at_]) nofun
    · exact delivered_same (by rw [draining, at_]) rfl rfl
    · rintro w' ⟨⟩
      have := (placed.bound w now).2.1
      rw [inside] at this
      exact ⟨now, this⟩
  | @pass d w at_ =>
    have now : s.bound = some w := by simp [Events.bound, at_]
    have same : s.taken = 1 := by simp [taken, at_]
    have inside : s.inside = 1 := by simp [Events.inside, at_]
    obtain ⟨-, low, -, done⟩ := placed.bound w now
    rw [inside] at low
    refine ⟨R + 1, D, ?_, ?_⟩
    · rw [same]
      show R + D + 1 ≤ R + 1 + D + 0
      omega
    refine placed.going rfl rfl rfl rfl ?_ (Nat.le_add_right R 1) (by rw [same]; rfl) ?_ ?_ ?_
      (by simp [awaits, at_]) nofun
    · exact delivered_same (by rw [draining, at_]) rfl rfl
    · show (s.read + 1) % usizeSize = (R + 1) % usizeSize
      rw [placed.read, Nat.mod_add_mod]
    · omega
    · rintro w' ⟨⟩
      refine ⟨now, ?_⟩
      show R + 1 + D + 0 ≤ s.sampled
      omega

/-! ### When an event is lost, and in which order events come out -/

/-- The slot of the push under way. -/
theorem Shaped.write_slot (shaped : s.Shaped) (busy : s.stored = s.current) :
    s.write % eventCapacity = s.current % eventCapacity := by
  rw [shaped.write, mod_capacity, busy]

/-- Numbers of one slot are a whole ring apart. -/
theorem ring_apart {a b : ℕ} (slot : a % eventCapacity = b % eventCapacity) (lt : a < b) :
    a + eventCapacity ≤ b := by
  unfold eventCapacity at *
  omega

/-- An event is lost only when a whole ring of events is undelivered. -/
theorem Placed.full {R D : ℕ} (placed : s.Placed R D) (shaped : s.Shaped) (m : Move s s')
    (lost : s'.losses ≠ s.losses) : s.delivered.length + eventCapacity ≤ s.pushed.length := by
  have few := placed.few
  cases m with
  | @refused w e at_ there held =>
    obtain ⟨rfl, busy⟩ := shaped.index w (by simp [Events.index, at_])
    have pos : 0 < s.pushed.length := List.length_pos_of_ne_nil busy
    have stored : s.stored = s.current := by simp [stored, at_]
    -- A reader holds the slot: the push has gone round to it.
    obtain ⟨here, w', now, inside⟩ :
        s.read % eventCapacity = s.write % eventCapacity ∧ ∃ w', s.bound = some w' ∧ s.inside = 1 := by
      unfold readerHolds at held
      split at held
      · rename_i d w' reader
        exact ⟨of_decide_eq_true held, w', by simp [Events.bound, reader],
          by simp [Events.inside, reader]⟩
      · rename_i d w' reader
        exact ⟨of_decide_eq_true held, w', by simp [Events.bound, reader],
          by simp [Events.inside, reader]⟩
      · cases held
    obtain ⟨-, low, -, done⟩ := placed.bound w' now
    rw [placed.read, mod_capacity, shaped.write_slot stored] at here
    have apart := ring_apart here (by omega)
    have := s.taken_le_inside
    unfold current at apart
    omega
  | @missing w e at_ none =>
    rw [shaped.slots] at none
    exact absurd (slot_lt w) (Nat.not_lt.mpr none)
  | @replace w k e old at_ occupied =>
    -- The event it replaces is a whole ring older.
    obtain ⟨rfl, busy⟩ := shaped.index w (by simp [Events.index, at_])
    have stored : s.stored = s.current := by simp [stored, at_]
    obtain ⟨slot, -, ahead, tried, -⟩ := placed.cells _ _ _ occupied
    rw [shaped.write_slot stored] at slot
    have before : s.attempted = s.current := by simp [attempted, at_]
    rw [before] at tried
    have apart := ring_apart slot tried
    unfold current at apart
    omega
  | _ => exact absurd rfl lost

/-- Events come out in the order they went in. -/
structure Ordered (s : Events α) (n : ℕ) : Prop where
  sorted : s.numbers.Pairwise (· < ·)
  below : ∀ k ∈ s.numbers, k < n

/-- Does every event a reader takes go back to a push that was over when the reader loaded the write
index? -/
def Unlapped (s : Events α) : Prop := ∀ ke ∈ s.taking, ke.1 < s.sampled

instance (s : Events α) : Decidable s.Unlapped :=
  inferInstanceAs (Decidable (∀ ke ∈ s.taking, ke.1 < s.sampled))

/-- What a reader takes, unless the ring was filled past it, is the event it came for. -/
theorem Placed.taken_eq {R D w : ℕ} {d : Drain α} {ke : ℕ × α} (placed : s.Placed R D)
    (at_ : s.reader = .holding d w)
    (occupied : s.slots[s.read % eventCapacity]? = some (some ke)) (old : ke.1 < s.sampled) :
    ke.1 = R + D := by
  obtain ⟨-, low, high, done⟩ := placed.bound w (by simp [Events.bound, at_])
  have inside : s.inside = 1 := by simp [Events.inside, at_]
  obtain ⟨slot, -, -, -, lap⟩ := placed.cells _ _ _ occupied
  have tried := s.stored_le_attempted
  have near : s.sampled ≤ ke.1 + eventCapacity := by
    obtain lap | ⟨-, lap⟩ := lap
    · omega
    · exact lap
  rw [placed.read, mod_capacity] at slot
  obtain ⟨c, rfl⟩ := placed.laps
  unfold usizeSize eventCapacity at *
  omega

theorem Ordered.same {m n : ℕ} (ordered : s.Ordered m) (delivered : s'.delivered = s.delivered)
    (le : m ≤ n) : s'.Ordered n := by
  have numbers : s'.numbers = s.numbers := by rw [numbers, delivered, numbers]
  refine ⟨numbers ▸ ordered.sorted, fun k mem => ?_⟩
  exact Nat.lt_of_lt_of_le (ordered.below k (numbers ▸ mem)) le

theorem Ordered.take {R D w : ℕ} {d : Drain α} {ke : ℕ × α} (ordered : s.Ordered (R + D))
    (placed : s.Placed R D) (at_ : s.reader = .holding d w)
    (occupied : s.slots[s.read % eventCapacity]? = some (some ke)) (old : ke.1 < s.sampled) :
    Ordered { s with
      slots := s.slots.set (s.read % eventCapacity) none
      reader := .emptied { d with out := d.out ++ [ke], n := d.n + 1 } w } (R + D + 1) := by
  have eq := placed.taken_eq at_ occupied old
  have numbers : Events.numbers { s with
      slots := s.slots.set (s.read % eventCapacity) none
      reader := .emptied { d with out := d.out ++ [ke], n := d.n + 1 } w } =
      s.numbers ++ [ke.1] := by
    rw [Events.numbers, delivered_take at_, List.map_append]
    rfl
  refine ⟨?_, fun k mem => ?_⟩
  · rw [numbers, List.pairwise_append]
    refine ⟨ordered.sorted, List.pairwise_singleton _ _, fun a mem b last => ?_⟩
    obtain rfl := List.mem_singleton.mp last
    rw [eq]
    exact ordered.below a mem
  · rw [numbers, List.mem_append, List.mem_singleton] at mem
    obtain mem | rfl := mem
    · exact Nat.lt_succ_of_lt (ordered.below k mem)
    · rw [eq]
      exact Nat.lt_succ_self _

/-- A step keeps the order, unless its reader takes an event of a later lap. -/
theorem Ordered.move {R D : ℕ} (ordered : s.Ordered (R + D + s.taken)) (placed : s.Placed R D)
    (shaped : s.Shaped) (unlapped : s.Unlapped) (m : Move s s') :
    ∃ R' D', s'.Placed R' D' ∧ s'.Ordered (R' + D' + s'.taken) := by
  obtain ⟨R', D', onward, next⟩ := placed.move shaped m
  cases m with
  | @take d w ke at_ occupied =>
    have old : ke.1 < s.sampled := unlapped ke (by simp [taking, at_, occupied])
    have none : s.taken = 0 := by simp [taken, at_]
    rw [none, Nat.add_zero] at ordered
    exact ⟨R, D, placed.take at_ occupied, ordered.take placed at_ occupied old⟩
  | enter reader idle =>
    exact ⟨R', D', next, ordered.same (by simp [delivered, calls, draining, idle]) onward⟩
  | load at_ =>
    exact ⟨R', D', next, ordered.same (by simp [delivered, calls, draining, at_]) onward⟩
  | leave at_ =>
    exact ⟨R', D', next, ordered.same (by simp [delivered, calls, draining, at_]) onward⟩
  | wait at_ more free =>
    exact ⟨R', D', next, ordered.same (by simp [delivered, calls, draining, at_]) onward⟩
  | skip at_ none =>
    exact ⟨R', D', next, ordered.same (by simp [delivered, calls, draining, at_]) onward⟩
  | find at_ empty =>
    exact ⟨R', D', next, ordered.same (by simp [delivered, calls, draining, at_]) onward⟩
  | release at_ =>
    exact ⟨R', D', next, ordered.same (by simp [delivered, calls, draining, at_]) onward⟩
  | pass at_ =>
    exact ⟨R', D', next, ordered.same (by simp [delivered, calls, draining, at_]) onward⟩
  | _ => exact ⟨R', D', next, ordered.same rfl onward⟩

/-! ### Every run -/

/-- The states of a ring that an engine and any number of readers share. -/
inductive Reachable : Events α → Prop
  | start : Reachable new
  | step {s s' : Events α} {a : Act α} (h : Reachable s) (next : s.step a = some s') : Reachable s'

/-- The states of a run whose readers take nothing of a later lap. -/
inductive Unhurried : Events α → Prop
  | start : Unhurried new
  | step {s s' : Events α} {a : Act α} (h : Unhurried s) (unlapped : s.Unlapped)
      (next : s.step a = some s') : Unhurried s'

/-- What becomes of every event. Each push is delivered, lost, waiting or under way, and only one of
these; losses are counted; an event comes out as it went in; and one is lost next only when a whole
ring of events is undelivered. -/
structure Accounted (s : Events α) : Prop where
  conserved : (s.numbers ++ s.losses ++ s.waiting ++ s.inHand).Perm (List.range s.pushed.length)
  counted : s.lost = (s.losses.length - s.uncounted) % 2 ^ 64
  quiet : s.producer = .idle →
    s.pushed.length = s.delivered.length + s.losses.length + s.waiting.length ∧
      s.lost = s.losses.length % 2 ^ 64
  answered : ∀ d ∈ s.calls, d.n = d.out.length
  genuine : ∀ ke ∈ s.delivered, s.pushed[ke.1]? = some ke.2
  full : ∀ a s', s.step a = some s' → s'.losses ≠ s.losses →
    s.delivered.length + eventCapacity ≤ s.pushed.length

theorem Placed.accounted {R D : ℕ} (placed : s.Placed R D) (shaped : s.Shaped)
    (booked : s.Booked) : s.Accounted where
  conserved := booked.conserved
  counted := booked.counted
  quiet := by
    intro idle
    have length := booked.conserved.length_eq
    have counted := booked.counted
    simp only [inHand, uncounted, idle, numbers, List.length_append, List.length_map,
      List.length_nil, List.length_range, Nat.sub_zero] at length counted
    exact ⟨by omega, counted⟩
  answered := booked.answered
  genuine := placed.genuine
  full := fun a s' next lost => placed.full shaped (move_of_step next) lost

theorem Reachable.invariant (run : s.Reachable) :
    s.Shaped ∧ s.Booked ∧ ∃ R D, s.Placed R D := by
  induction run with
  | start => exact ⟨shaped_new, booked_new, 0, 0, placed_new⟩
  | step _ next ih =>
    obtain ⟨shaped, booked, R, D, placed⟩ := ih
    have m := move_of_step next
    obtain ⟨R', D', -, placed⟩ := placed.move shaped m
    exact ⟨shaped.move m, booked.move shaped m, R', D', placed⟩

theorem Unhurried.invariant (run : s.Unhurried) :
    s.Shaped ∧ ∃ R D, s.Placed R D ∧ s.Ordered (R + D + s.taken) := by
  induction run with
  | start => exact ⟨shaped_new, 0, 0, placed_new, List.Pairwise.nil, fun k h => by cases h⟩
  | step _ unlapped next ih =>
    obtain ⟨shaped, R, D, placed, ordered⟩ := ih
    have m := move_of_step next
    exact ⟨shaped.move m, ordered.move placed shaped unlapped m⟩

/-- **Every event is drained once or counted lost once**, and events are drained in the order they
were pushed, the drains taken in the order their readers held the lock, as long as no reader takes
an event that was pushed a lap after it loaded the write index. -/
theorem events_in_order (run : s.Reachable) :
    s.Accounted ∧ (s.Unhurried → s.numbers.Pairwise (· < ·)) := by
  obtain ⟨shaped, booked, R, D, placed⟩ := run.invariant
  refine ⟨placed.accounted shaped booked, fun unhurried => ?_⟩
  obtain ⟨-, R, D, -, ordered⟩ := unhurried.invariant
  exact ordered.sorted

theorem reachable_of_runs {as : List (Act α)} (from_ : s.Reachable) (run : s.runs as = some s') :
    s'.Reachable := by
  induction as generalizing s with
  | nil =>
    obtain rfl := Option.some.inj run
    exact from_
  | cons a as ih =>
    obtain ⟨mid, next, rest⟩ := Option.bind_eq_some_iff.mp run
    exact ih (.step from_ next) rest

/-- A push that finds its slot empty. -/
def wholePush : List (Act Unit) := .push () :: List.replicate 4 .produce

/-- Two events, a reader that has loaded the write index, and a push of each slot of the ring but
one: the last of them goes round to the slot the reader comes to first. -/
def lapping : List (Act Unit) :=
  (List.replicate 2 wholePush).flatten ++ [.drain 7, .consume] ++
    (List.replicate 255 wholePush).flatten ++ .produce :: List.replicate 9 .consume

theorem lapping_out : (runs new lapping).map numbers = some [256, 1] := by decide +kernel

/-- A reader that was lapped drains event 256 before event 1. -/
theorem events_overtake : ¬ ∀ s : Events Unit, s.Reachable → s.numbers.Pairwise (· < ·) := by
  intro all
  obtain ⟨s, run, out⟩ := Option.map_eq_some_iff.mp lapping_out
  have sorted := all s (reachable_of_runs .start run)
  rw [out] at sorted
  exact absurd sorted (by decide)

/-- A run, step by step, while no reader takes anything of a later lap. -/
def runsUnlapped (s : Events α) (as : List (Act α)) : Option (Events α) :=
  as.foldlM (fun s a => if s.Unlapped then s.step a else none) s

theorem unhurried_of_runs {as : List (Act α)} (from_ : s.Unhurried)
    (run : s.runsUnlapped as = some s') : s'.Unhurried := by
  induction as generalizing s with
  | nil =>
    obtain rfl := Option.some.inj run
    exact from_
  | cons a as ih =>
    obtain ⟨mid, next, rest⟩ := Option.bind_eq_some_iff.mp run
    dsimp only at next
    split at next
    · rename_i unlapped
      exact ih (.step from_ unlapped next) rest
    · cases next

theorem Unhurried.reachable (run : s.Unhurried) : s.Reachable := by
  induction run with
  | start => exact .start
  | step _ _ next ih => exact ih.step next

/-- Two pushes, and a drain of both. -/
def exchange : List (Act Unit) :=
  (List.replicate 2 wholePush).flatten ++ .drain 7 :: List.replicate 10 .consume

theorem events_in_order_two :
    ∃ s : Events Unit, s.Reachable ∧ s.Unhurried ∧ s.numbers = [0, 1] ∧ s.Accounted ∧
      s.numbers.Pairwise (· < ·) := by
  have run : (runsUnlapped new exchange).map numbers = some [0, 1] := by decide +kernel
  obtain ⟨s, run, out⟩ := Option.map_eq_some_iff.mp run
  have unhurried := unhurried_of_runs .start run
  obtain ⟨accounted, ordered⟩ := events_in_order unhurried.reachable
  exact ⟨s, unhurried.reachable, unhurried, out, accounted, ordered unhurried⟩

end Events

end Fixbolt
