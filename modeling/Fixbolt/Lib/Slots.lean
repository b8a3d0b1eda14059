import Mathlib.Data.List.Basic

/-!
# Numbered slots

A list of slots, each of which holds something under a number; a slot numbered 0 is free. `key`
reads the number of a slot.

* `From key n l`: what is held is numbered from `n` on;
* `Distinct key l`: no number is held twice;
* `occupied key l`: how many slots are not free.

`set` fills a slot and `modify` frees one. Freeing the slot of the least number leaves what is held
above it (`From.free`).
-/

namespace Fixbolt

namespace Slots

variable {σ : Type*} {key : σ → ℕ} {l : List σ} {n i : ℕ}

/-- What is held is numbered from `n` on. -/
def From (key : σ → ℕ) (n : ℕ) (l : List σ) : Prop := ∀ q ∈ l, key q ≠ 0 → n ≤ key q

/-- No number is held twice. -/
def Distinct (key : σ → ℕ) (l : List σ) : Prop :=
  ∀ ⦃i j : ℕ⦄ ⦃p q : σ⦄, l[i]? = some p → l[j]? = some q → key p ≠ 0 → key p = key q → i = j

/-- How many slots are not free. -/
def occupied (key : σ → ℕ) (l : List σ) : ℕ := l.countP fun q => key q != 0

theorem From.mono {m : ℕ} (h : From key n l) (hm : m ≤ n) : From key m l :=
  fun q hq occ => Nat.le_trans hm (h q hq occ)

theorem From.of_free (h : ∀ q ∈ l, key q = 0) : From key n l := fun q hq occ => absurd (h q hq) occ

theorem Distinct.of_free (h : ∀ q ∈ l, key q = 0) : Distinct key l := by
  intro i j p q hp _ occ _
  exact absurd (h p (List.mem_of_getElem? hp)) occ

/-- What is held from `n` on, and not under `n`, is held from `n + 1` on. -/
theorem From.succ (h : From key n l) (none : ∀ q ∈ l, key q ≠ 0 → key q ≠ n) :
    From key (n + 1) l := by
  intro q hq occ
  have := h q hq occ
  have := none q hq occ
  omega

theorem From.set {a : σ} (h : From key n l) (ha : n ≤ key a) : From key n (l.set i a) := by
  intro q hq occ
  obtain hq | rfl := List.mem_or_eq_of_mem_set hq
  · exact h q hq occ
  · exact ha

theorem Distinct.set {a : σ} (h : Distinct key l)
    (only : ∀ j p, j ≠ i → l[j]? = some p → key p ≠ key a) : Distinct key (l.set i a) := by
  intro j k p q hp hq occ same
  rw [List.getElem?_set] at hp hq
  by_cases hj : i = j
  · by_cases hk : i = k
    · exact hj.symm.trans hk
    · rw [if_neg hk] at hq
      rw [if_pos hj] at hp
      split at hp
      · obtain rfl := Option.some.inj hp
        exact absurd same.symm (only k q (Ne.symm hk) hq)
      · cases hp
  · rw [if_neg hj] at hp
    by_cases hk : i = k
    · rw [if_pos hk] at hq
      split at hq
      · obtain rfl := Option.some.inj hq
        exact absurd same (only j p (Ne.symm hj) hp)
      · cases hq
    · rw [if_neg hk] at hq
      exact h hp hq occ same

section Free

variable {f : σ → σ} (frees : ∀ q, key (f q) = 0)

include frees

/-- A slot that is still occupied after one was freed is another one. -/
theorem of_modify {j : ℕ} {q : σ} (hq : (l.modify i f)[j]? = some q) (occ : key q ≠ 0) :
    i ≠ j ∧ l[j]? = some q := by
  by_cases hj : i = j
  · subst hj
    rw [List.getElem?_modify_eq] at hq
    obtain ⟨p, -, rfl⟩ := Option.map_eq_some_iff.mp hq
    exact absurd (frees p) occ
  · rw [List.getElem?_modify_ne f l hj] at hq
    exact ⟨hj, hq⟩

theorem From.free {p : σ} (h : From key n l) (once : Distinct key l) (slot : l[i]? = some p)
    (least : key p = n) (pos : n ≠ 0) : From key (n + 1) (l.modify i f) := by
  intro q hq occ
  obtain ⟨j, hj⟩ := List.getElem?_of_mem hq
  obtain ⟨other, hq⟩ := of_modify frees hj occ
  have low := h q (List.mem_of_getElem? hq) occ
  have : key q ≠ n := fun same => other (once slot hq (least ▸ pos) (least.trans same.symm))
  omega

theorem Distinct.free (h : Distinct key l) : Distinct key (l.modify i f) := by
  intro j k p q hp hq occ same
  exact h (of_modify frees hp occ).2 (of_modify frees hq (same ▸ occ)).2 occ same

theorem mem_of_mem_free {q : σ} (hq : q ∈ l.modify i f) (occ : key q ≠ 0) : q ∈ l := by
  obtain ⟨j, hj⟩ := List.getElem?_of_mem hq
  exact List.mem_of_getElem? (of_modify frees hj occ).2

/-- Freeing an occupied slot leaves one occupied slot less. -/
theorem occupied_free {p : σ} (slot : l[i]? = some p) (occ : key p ≠ 0) :
    occupied key (l.modify i f) + 1 = occupied key l := by
  induction l generalizing i with
  | nil => cases slot
  | cons a l ih =>
    cases i with
    | zero =>
      obtain rfl : a = p := by simpa using slot
      simp [occupied, frees, occ]
    | succ i =>
      have := ih (by simpa using slot)
      simp only [occupied, List.modify_succ_cons, List.countP_cons] at this ⊢
      omega

end Free

theorem occupied_le_length : occupied key l ≤ l.length := List.countP_le_length

theorem free_of_occupied_zero (h : occupied key l = 0) : ∀ q ∈ l, key q = 0 := by
  simpa [occupied] using h

end Slots

end Fixbolt
