import Mathlib.Data.Int.Basic
import Mathlib.Data.List.Pairwise
import Mathlib.Tactic.Ring

/-!
# Intervals that come again

A `Recurrence` is an interval of the integers that begins again after every period and is over by
then. A number is in at most one of its occurrences, and the occurrence is a quotient.

* `Recurrence.Within`: a number is in the `k`-th occurrence;
* `Recurrence.within_iff`: which occurrence that is;
* `Recurrence.Within.le`: later numbers are in later occurrences;
* `count_entered`: a list that never decreases enters each of its values once.
-/

namespace Fixbolt

/-- An interval of `length` from `first` on, again after each `period`. -/
structure Recurrence where
  period : ℤ
  first : ℤ
  length : ℤ
  pos : 0 < length
  within : length ≤ period

namespace Recurrence

variable {r : Recurrence} {j k x y : ℤ}

theorem period_pos (r : Recurrence) : 0 < r.period := Int.lt_of_lt_of_le r.pos r.within

/-- Where the `k`-th occurrence begins. -/
def start (r : Recurrence) (k : ℤ) : ℤ := r.period * k + r.first

/-- Is `x` in the `k`-th occurrence? -/
def Within (r : Recurrence) (k x : ℤ) : Prop := r.start k ≤ x ∧ x < r.start k + r.length

instance (r : Recurrence) (k x : ℤ) : Decidable (r.Within k x) := inferInstanceAs (Decidable (_ ∧ _))

/-- The occurrence a number is in is a quotient, and how far it is in it is the rest. -/
theorem within_iff : r.Within k x ↔
    (x - r.first) / r.period = k ∧ (x - r.first) % r.period < r.length := by
  constructor
  · rintro ⟨below, above⟩
    have within := r.within
    unfold start at below above
    have division : (x - r.first) / r.period = k ∧
        (x - r.first) % r.period = x - r.first - r.period * k := by
      refine (Int.ediv_emod_unique r.period_pos).mpr ⟨by ring, ?_, ?_⟩
      · omega
      · omega
    refine ⟨division.1, ?_⟩
    rw [division.2]
    omega
  · rintro ⟨rfl, short⟩
    have parts := Int.mul_ediv_add_emod (x - r.first) r.period
    have rest := Int.emod_nonneg (x - r.first) (Int.ne_of_gt r.period_pos)
    unfold Within start
    constructor
    · omega
    · omega

/-- The occurrence a number is in, if it is in one. -/
def number (r : Recurrence) (x : ℤ) : ℤ := (x - r.first) / r.period

namespace Within

theorem number_eq (h : r.Within k x) : r.number x = k := (within_iff.mp h).1

/-- A number is in one occurrence. -/
theorem unique (h : r.Within j x) (h' : r.Within k x) : j = k := h.number_eq.symm.trans h'.number_eq

/-- Later numbers are in later occurrences. -/
theorem le (h : r.Within j x) (h' : r.Within k y) (later : x ≤ y) : j ≤ k := by
  rw [← h.number_eq, ← h'.number_eq]
  exact Int.ediv_le_ediv r.period_pos (by omega)

end Within

/-- Occurrences begin apart. -/
theorem start_injective (r : Recurrence) : Function.Injective r.start := by
  intro j k same
  unfold start at same
  have scaled : r.period * j = r.period * k := by omega
  exact Int.eq_of_mul_eq_mul_left (Int.ne_of_gt r.period_pos) scaled

end Recurrence

/-! ### Entering -/

variable {κ : Type} [LinearOrder κ]

/-- The values of a list that are not the value before, the first one held against `before`. -/
def entered (before : Option κ) : List κ → List κ
  | [] => []
  | k :: ks => if before = some k then entered (some k) ks else k :: entered (some k) ks

/-- A value that comes again in a list that never decreases comes again at once. -/
theorem head?_eq_of_mem {k : κ} {ks : List κ} (least : ∀ j ∈ ks, k ≤ j)
    (sorted : ks.Pairwise (· ≤ ·)) (again : k ∈ ks) : ks.head? = some k := by
  cases ks with
  | nil => cases again
  | cons j ks =>
    have le : k ≤ j := least j List.mem_cons_self
    have ge : j ≤ k := by
      obtain rfl | mem := List.mem_cons.mp again
      · exact le
      · exact (List.pairwise_cons.mp sorted).1 k mem
    rw [List.head?_cons, le_antisymm ge le]

/-- **A list that never decreases enters each of its values once**, and does not enter the value it
comes from. -/
theorem count_entered (before : Option κ) {ks : List κ} (sorted : ks.Pairwise (· ≤ ·)) (k : κ) :
    (entered before ks).count k =
      if k ∈ ks ∧ ¬ (ks.head? = some k ∧ before = some k) then 1 else 0 := by
  induction ks generalizing before with
  | nil => simp [entered]
  | cons a ks ih =>
    obtain ⟨least, rest⟩ := List.pairwise_cons.mp sorted
    have later := ih (some a) rest
    by_cases this : k = a
    · subst this
      -- From `k` on, the rest does not enter `k`: it has none, or begins with it.
      have none : (entered (some k) ks).count k = 0 := by
        rw [later, if_neg]
        rintro ⟨again, first⟩
        exact first ⟨head?_eq_of_mem least rest again, rfl⟩
      by_cases same : before = some k
      · rw [entered, if_pos same, none]
        simp [same]
      · rw [entered, if_neg same, List.count_cons_self, none]
        simp [same]
    · by_cases same : before = some a
      · rw [entered, if_pos same, later]
        simp [this, Ne.symm this]
      · rw [entered, if_neg same, List.count_cons_of_ne (Ne.symm this), later]
        simp [this, Ne.symm this]

end Fixbolt
