import Mathlib.Data.List.Basic

/-!
# Queues that remember

A queue as the list of everything ever pushed and how much of it was popped. What was popped is a
prefix of what was pushed by construction.

* `Fifo.push`, `Fifo.pop?`: the operations, and what they do to what was popped and what is pending;
* `Fifo.Next`: one push, one pop, or nothing.
-/

namespace Fixbolt

/-- A queue, with all that was ever pushed. -/
structure Fifo (α : Type*) where
  pushed : List α
  taken : ℕ
  within : taken ≤ pushed.length

namespace Fifo

variable {α β : Type*} {q q' : Fifo α} {a : α}

/-- A queue nothing was pushed on. -/
def empty : Fifo α := ⟨[], 0, Nat.le_refl 0⟩

/-- What was popped, in order. -/
def popped (q : Fifo α) : List α := q.pushed.take q.taken

/-- What is still to be popped. -/
def pending (q : Fifo α) : List α := q.pushed.drop q.taken

/-- Put something behind what is pending. -/
def push (q : Fifo α) (a : α) : Fifo α :=
  ⟨q.pushed ++ [a], q.taken, Nat.le_trans q.within (by simp)⟩

/-- Take the first of what is pending. -/
def pop? (q : Fifo α) : Option (α × Fifo α) :=
  if h : q.taken < q.pushed.length then some (q.pushed[q.taken], ⟨q.pushed, q.taken + 1, h⟩)
  else none

/-- The queue of what each thing is sent as. -/
def map (f : α → β) (q : Fifo α) : Fifo β :=
  ⟨q.pushed.map f, q.taken, (List.length_map f).symm ▸ q.within⟩

@[ext] theorem ext (pushed : q.pushed = q'.pushed) (taken : q.taken = q'.taken) : q = q' := by
  cases q
  cases q'
  cases pushed
  cases taken
  rfl

theorem popped_append_pending (q : Fifo α) : q.popped ++ q.pending = q.pushed :=
  List.take_append_drop _ _

theorem popped_prefix (q : Fifo α) : q.popped <+: q.pushed := List.take_prefix _ _

@[simp] theorem popped_empty : (empty : Fifo α).popped = [] := rfl

@[simp] theorem pending_empty : (empty : Fifo α).pending = [] := rfl

@[simp] theorem pushed_push : (q.push a).pushed = q.pushed ++ [a] := rfl

@[simp] theorem popped_push : (q.push a).popped = q.popped := List.take_append_of_le_length q.within

@[simp] theorem pending_push : (q.push a).pending = q.pending ++ [a] :=
  List.drop_append_of_le_length q.within

theorem popped_length (q : Fifo α) : q.popped.length = q.taken := by
  rw [popped, List.length_take, Nat.min_eq_left q.within]

theorem pop?_eq_none_iff : q.pop? = none ↔ q.pending = [] := by
  unfold pop? pending
  rw [List.drop_eq_nil_iff]
  split
  · rename_i h
    exact iff_of_false (by simp) (by omega)
  · rename_i h
    exact iff_of_true rfl (by omega)

theorem pop?_some (h : q.pop? = some (a, q')) : q'.pushed = q.pushed ∧
    q'.popped = q.popped ++ [a] ∧ q.pending = a :: q'.pending := by
  unfold pop? at h
  split at h
  · rename_i lt
    cases h
    refine ⟨rfl, ?_, ?_⟩
    · exact (List.take_append_getElem lt).symm
    · exact List.drop_eq_getElem_cons lt
  · cases h

/-- A queue with something pending gives it up. -/
theorem pop?_of_pending {rest : List α} (h : q.pending = a :: rest) :
    ∃ q', q.pop? = some (a, q') ∧ q'.pending = rest := by
  cases found : q.pop? with
  | none =>
    rw [pop?_eq_none_iff.mp found] at h
    cases h
  | some r =>
    obtain ⟨b, q'⟩ := r
    obtain ⟨-, -, pending⟩ := pop?_some found
    rw [h] at pending
    obtain ⟨rfl, rfl⟩ := List.cons.inj pending
    exact ⟨q', rfl, rfl⟩

@[simp] theorem map_empty (f : α → β) : (empty : Fifo α).map f = empty := rfl

theorem pushed_map (f : α → β) : (q.map f).pushed = q.pushed.map f := rfl

theorem pending_map (f : α → β) : (q.map f).pending = q.pending.map f := List.map_drop.symm

theorem map_push (f : α → β) : (q.push a).map f = (q.map f).push (f a) :=
  ext (by simp [map, push]) rfl

/-- What was sent as something was popped with it. -/
theorem pop?_map {f : α → β} {b : β} {r : Fifo β} (h : (q.map f).pop? = some (b, r)) :
    ∃ a q', q.pop? = some (a, q') ∧ f a = b ∧ q'.map f = r := by
  unfold pop? at h
  split at h
  · rename_i lt
    cases h
    have lt' : q.taken < q.pushed.length := Nat.lt_of_lt_of_eq lt (List.length_map f)
    refine ⟨q.pushed[q.taken], ⟨q.pushed, q.taken + 1, lt'⟩, dif_pos lt', ?_, rfl⟩
    exact (List.getElem_map f).symm
  · cases h

/-- One push, one pop, or nothing. -/
inductive Next (q : Fifo α) : Fifo α → Prop
  | idle : Next q q
  | push (a : α) : Next q (q.push a)
  | pop {a : α} {q' : Fifo α} (h : q.pop? = some (a, q')) : Next q q'

end Fifo

end Fixbolt
