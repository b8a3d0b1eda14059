import Mathlib.Data.List.Basic

/-!
# Readers of a growing input

A reader is given the input that has arrived so far, and asks for more, takes a piece off the
front, or fails. It is `Streaming` when the places it looked at settle what it says: an input that
agrees with the first on those places is read the same way.

* `Streaming.append`: what is said of an input, unless it asks for more, is said of every longer one;
* `Streaming.front`: a piece is taken the same way whatever follows it;
* `Streaming.short`: of a part of a piece a reader asks for more;
* `Streaming.failed_take`: and of a part of an input that fails, unless the part fails too.
-/

namespace Fixbolt

/-- What a reader says of the input so far. -/
inductive Verdict (β ε : Type*) where
  /-- Not enough input yet. -/
  | more
  /-- The first `n` places are a piece of input, read as `value`. -/
  | done (n : ℕ) (value : β)
  | failed (why : ε)

/-- Two inputs agree on their first `k` places. -/
def AgreeOn {α : Type*} (k : ℕ) (xs ys : List α) : Prop := ∀ i < k, xs[i]? = ys[i]?

namespace AgreeOn

variable {α : Type*} {k n : ℕ} {xs ys : List α}

theorem symm (h : AgreeOn k xs ys) : AgreeOn k ys xs := fun i hi => (h i hi).symm

theorem mono (h : AgreeOn k xs ys) (le : n ≤ k) : AgreeOn n xs ys := fun i hi => h i (by omega)

theorem append (xs more : List α) : AgreeOn xs.length xs (xs ++ more) := by
  intro i hi
  rw [List.getElem?_append_left hi]

theorem take (k : ℕ) (xs : List α) : AgreeOn k xs (xs.take k) := by
  intro i hi
  rw [List.getElem?_take_of_lt hi]

theorem take_eq (h : AgreeOn k xs ys) : xs.take k = ys.take k := by
  apply List.ext_getElem?
  intro i
  by_cases hi : i < k
  · rw [List.getElem?_take_of_lt hi, List.getElem?_take_of_lt hi, h i hi]
  · rw [List.getElem?_take_eq_none (by omega), List.getElem?_take_eq_none (by omega)]

/-- A whole input that another one agrees with is a prefix of it. -/
theorem isPrefix (h : AgreeOn k xs ys) (le : xs.length ≤ k) : ∃ more, ys = xs ++ more := by
  have all : xs.take xs.length = ys.take xs.length := (h.mono le).take_eq
  rw [List.take_length] at all
  refine ⟨ys.drop xs.length, ?_⟩
  calc ys = ys.take xs.length ++ ys.drop xs.length := (List.take_append_drop _ _).symm
    _ = xs ++ ys.drop xs.length := by rw [← all]

/-- What stands at a place of one input stands there in the other. -/
theorem drop_eq {before after : List α} (h : AgreeOn k xs ys)
    (eq : xs.drop n = before ++ after) (le : n + before.length ≤ k) :
    ∃ after', ys.drop n = before ++ after' := by
  have moved : AgreeOn before.length (xs.drop n) (ys.drop n) := by
    intro i hi
    rw [List.getElem?_drop, List.getElem?_drop, h _ (by omega)]
  have head : before = (ys.drop n).take before.length := by
    rw [← moved.take_eq, eq, List.take_left]
  refine ⟨(ys.drop n).drop before.length, ?_⟩
  calc ys.drop n = (ys.drop n).take before.length ++ (ys.drop n).drop before.length :=
        (List.take_append_drop _ _).symm
    _ = before ++ (ys.drop n).drop before.length := by rw [← head]

/-- A piece inside the places they agree on is the same piece. -/
theorem take_drop_eq {at_ len : ℕ} (h : AgreeOn k xs ys) (le : at_ + len ≤ k) :
    (ys.drop at_).take len = (xs.drop at_).take len := by
  have same (zs : List α) : (zs.drop at_).take len = (zs.take (at_ + len)).drop at_ := by
    rw [List.drop_take, Nat.add_sub_cancel_left]
  rw [same xs, same ys, (h.mono le).take_eq]

theorem length_le (h : AgreeOn k xs ys) (le : k ≤ xs.length) : k ≤ ys.length := by
  have same := congrArg List.length h.take_eq
  rw [List.length_take, List.length_take] at same
  omega

end AgreeOn

/-- The first `k` places of an input of `len` places settle a verdict on it. -/
def Verdict.SettledBy {β ε : Type*} (k len : ℕ) : Verdict β ε → Prop
  | more => False
  | done n _ => n ≤ k
  | failed _ => len ≤ k

/-- A reader whose verdict is settled by the places it looked at. -/
structure Streaming {α β ε : Type*} (read : List α → Verdict β ε) : Prop where
  within : ∀ {xs n v}, read xs = .done n v → n ≤ xs.length
  settled : ∀ {k xs ys}, AgreeOn k xs ys → (read xs).SettledBy k xs.length → read ys = read xs

namespace Streaming

variable {α β ε : Type*} {read : List α → Verdict β ε} {xs : List α} {n k : ℕ} {v : β} {e : ε}

/-- A failure is a failure of every longer input. -/
theorem failed_append (h : Streaming read) (bad : read xs = .failed e) (more : List α) :
    read (xs ++ more) = .failed e := by
  rw [h.settled (AgreeOn.append xs more), bad]
  rw [bad]
  exact Nat.le_refl _

/-- Of a part of an input that fails a reader asks for more, or it fails the same way. -/
theorem failed_take (h : Streaming read) (bad : read xs = .failed e) (k : ℕ) :
    read (xs.take k) = .more ∨ read (xs.take k) = .failed e := by
  cases said : read (xs.take k) with
  | more => exact .inl rfl
  | failed e' =>
    have same := h.failed_append said (xs.drop k)
    rw [List.take_append_drop, bad] at same
    exact .inr same.symm
  | done n v =>
    have inside := h.within said
    have same : read xs = .done n v := by
      rw [h.settled (AgreeOn.take k xs).symm ?_, said]
      rw [said]
      rw [List.length_take] at inside
      exact Nat.le_trans inside (Nat.min_le_left _ _)
    rw [bad] at same
    cases same

/-- **A piece is taken the same way whatever follows it.** -/
theorem front (h : Streaming read) (good : read xs = .done n v) (more : List α) :
    read (xs.take n ++ more) = .done n v := by
  have agree : AgreeOn n xs (xs.take n ++ more) := by
    intro i hi
    have := h.within good
    rw [List.getElem?_append_left (by rw [List.length_take]; omega), List.getElem?_take_of_lt hi]
  rw [h.settled agree, good]
  rw [good]
  exact Nat.le_refl _

/-- **Of a part of a piece a reader asks for more.** -/
theorem short (h : Streaming read) (good : read xs = .done n v) (lt : k < n) :
    read (xs.take k) = .more := by
  have whole : xs.take k ++ (xs.take n).drop k = xs.take n := by
    have inner : (xs.take n).take k = xs.take k := by
      rw [List.take_take, Nat.min_eq_left (Nat.le_of_lt lt)]
    rw [← inner, List.take_append_drop]
  have all : read (xs.take n) = .done n v := by simpa using h.front good []
  cases said : read (xs.take k) with
  | more => rfl
  | failed e =>
    have same := h.failed_append said ((xs.take n).drop k)
    rw [whole, all] at same
    cases same
  | done m w =>
    have inside := h.within said
    have same := h.front said ((xs.take k).drop m ++ (xs.take n).drop k)
    rw [← List.append_assoc, List.take_append_drop, whole, all] at same
    obtain ⟨rfl, -⟩ := Verdict.done.inj same
    rw [List.length_take] at inside
    omega

end Streaming

end Fixbolt
