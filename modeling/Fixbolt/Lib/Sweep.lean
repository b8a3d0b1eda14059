import Mathlib.Data.List.Perm.Basic

/-!
# Walking a list that shrinks

A loop that removes the element it stands on by putting the last one in its place, and then looks at
the same place again. What it has passed stays where it is, and what it has not yet looked at is what
there was, in some order.
-/

namespace Fixbolt

open scoped List

variable {α : Type*} {l : List α} {i : ℕ}

/-- The last element in the place of the `i`-th, and one element less. -/
def swapRemove (l : List α) (i : ℕ) : List α :=
  match l.getLast? with
  | none => []
  | some last => (l.set i last).dropLast

theorem swapRemove_append (init : List α) (last : α) :
    swapRemove (init ++ [last]) i = if i < init.length then init.set i last else init := by
  rw [swapRemove, List.getLast?_concat]
  dsimp only
  split
  · rename_i within
    rw [List.set_append_left _ _ within, List.dropLast_concat]
  · rename_i beyond
    rw [List.set_append_right _ _ (Nat.le_of_not_lt beyond)]
    cases i - init.length with
    | zero => exact List.dropLast_concat
    | succ k => exact List.dropLast_concat

/-- What stood in the place of what goes does not matter. -/
theorem swapRemove_set (l : List α) (i : ℕ) (a : α) : swapRemove (l.set i a) i = swapRemove l i := by
  obtain rfl | ⟨init, last, rfl⟩ := l.eq_nil_or_concat'
  · rfl
  by_cases within : i < init.length
  · rw [List.set_append_left _ _ within, swapRemove_append, swapRemove_append, if_pos within,
      List.length_set, if_pos within, List.set_set]
  · have beyond : ([last].set (i - init.length) a).length = 1 := List.length_set
    obtain ⟨x, eq⟩ := List.length_eq_one_iff.mp beyond
    rw [List.set_append_right _ _ (Nat.le_of_not_lt within), eq, swapRemove_append, swapRemove_append,
      if_neg within, if_neg within]

/-- Nothing else goes. -/
theorem swapRemove_perm (h : i < l.length) : (l[i] :: swapRemove l i).Perm l := by
  obtain rfl | ⟨init, last, rfl⟩ := l.eq_nil_or_concat'
  · exact absurd h (Nat.not_lt_zero _)
  rw [swapRemove_append]
  split
  · rename_i within
    rw [List.getElem_append_left within]
    have moved : (init.set i last).Perm (last :: init.eraseIdx i) := List.set_perm_cons_eraseIdx within last
    have kept : (init[i] :: init.eraseIdx i).Perm init := List.getElem_cons_eraseIdx_perm within
    calc init[i] :: init.set i last
      _ ~ init[i] :: last :: init.eraseIdx i := moved.cons _
      _ ~ last :: init[i] :: init.eraseIdx i := .swap _ _ _
      _ ~ last :: init := kept.cons _
      _ ~ init ++ [last] := (List.perm_append_singleton _ _).symm
  · rename_i beyond
    have last_ : i = init.length := by
      rw [List.length_append, List.length_singleton] at h
      omega
    subst last_
    rw [List.getElem_concat_length rfl]
    exact (List.perm_append_singleton _ _).symm

theorem take_swapRemove (h : i < l.length) : (swapRemove l i).take i = l.take i := by
  obtain rfl | ⟨init, last, rfl⟩ := l.eq_nil_or_concat'
  · exact absurd h (Nat.not_lt_zero _)
  rw [swapRemove_append]
  rw [List.length_append, List.length_singleton] at h
  rw [List.take_append_of_le_length (by omega)]
  split
  · exact List.take_set_of_le (Nat.le_refl i)
  · rfl

/-- What is left to look at is what was. -/
theorem drop_swapRemove (h : i < l.length) : ((swapRemove l i).drop i).Perm (l.drop (i + 1)) := by
  obtain rfl | ⟨init, last, rfl⟩ := l.eq_nil_or_concat'
  · exact absurd h (Nat.not_lt_zero _)
  rw [swapRemove_append]
  rw [List.length_append, List.length_singleton] at h
  split
  · rename_i within
    have placed : (init.set i last).drop i = last :: init.drop (i + 1) := by
      rw [List.drop_set, if_neg (Nat.lt_irrefl i), Nat.sub_self, List.drop_eq_getElem_cons within,
        List.set_cons_zero]
    rw [placed, List.drop_append_of_le_length within]
    exact (List.perm_append_singleton _ _).symm
  · rename_i beyond
    have last_ : i = init.length := by omega
    subst last_
    rw [List.drop_length, List.drop_of_length_le (by simp)]

end Fixbolt
