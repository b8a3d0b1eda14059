import Mathlib.Data.Nat.ModEq

/-!
# A circular queue

A fixed number of slots, a head that is never put back, and a length. What the queue holds is read
off `len` slots from the head on, around the end.

* `push` fills the slot behind the last one, `pop` leaves the slot at the head and moves on;
* `window_push`: what was pushed lies behind what was there;
* `window_pop`: what is popped lay in front of what is left.

A slot is not replaced by an item: both change it with a function, so that it may keep what the
function leaves of it.
-/

namespace Fixbolt

/-- Slots, a head and a length. -/
structure Circular (σ : Type*) (cap : ℕ) where
  slots : Vector σ cap
  head : Fin cap
  len : ℕ
  within : len ≤ cap

namespace Circular

variable {σ : Type*} {cap : ℕ}

/-- The place of the slot `i` behind the head. -/
def place (q : Circular σ cap) (i : ℕ) : Fin cap :=
  ⟨(q.head + i) % cap, Nat.mod_lt _ q.head.pos⟩

/-- The `i`-th slot from the head on. -/
def slot (q : Circular σ cap) (i : ℕ) : σ := q.slots[q.place i]

/-- The first `r` slots from the head on. -/
def window (q : Circular σ cap) (r : ℕ) : List σ := (List.range r).map q.slot

/-- Fill the slot behind the last one. -/
def push (q : Circular σ cap) (f : σ → σ) (room : q.len < cap) : Circular σ cap where
  slots := q.slots.set (q.place q.len) (f (q.slot q.len))
  head := q.head
  len := q.len + 1
  within := room

/-- Leave the slot at the head, and move on. The length is put right in the end, by `reset`. -/
def pop (q : Circular σ cap) (f : σ → σ) : Circular σ cap where
  slots := q.slots.set q.head (f q.slots[q.head])
  head := q.place 1
  len := q.len
  within := q.within

/-- Nothing is held any more. -/
def reset (q : Circular σ cap) : Circular σ cap := { q with len := 0, within := Nat.zero_le _ }

@[simp] theorem window_zero (q : Circular σ cap) : q.window 0 = [] := rfl

@[simp] theorem length_window (q : Circular σ cap) (r : ℕ) : (q.window r).length = r := by
  rw [window, List.length_map, List.length_range]

theorem window_succ (q : Circular σ cap) (r : ℕ) : q.window (r + 1) = q.window r ++ [q.slot r] := by
  rw [window, List.range_succ, List.map_append]
  rfl

/-- Two slots less than a round apart are not one. -/
theorem place_ne (q : Circular σ cap) {i j : ℕ} (lt : i < j) (le : j < cap) :
    (q.place i : ℕ) ≠ q.place j := by
  intro same
  have cancelled : i ≡ j [MOD cap] := Nat.ModEq.add_left_cancel' q.head same
  exact lt.ne (cancelled.eq_of_lt_of_lt (lt.trans le) le)

theorem window_push (q : Circular σ cap) (f : σ → σ) (room : q.len < cap) :
    (q.push f room).window (q.len + 1) = q.window q.len ++ [f (q.slot q.len)] := by
  rw [window_succ]
  congr 1
  · refine List.map_congr_left fun i mem => ?_
    have before := List.mem_range.mp mem
    exact Vector.getElem_set_ne (q.place q.len).isLt (q.place i).isLt (q.place_ne before room).symm
  · exact congrArg (fun x => [x]) (Vector.getElem_set_self (q.place q.len).isLt)

theorem window_pop (q : Circular σ cap) (f : σ → σ) {r : ℕ} (le : r < cap) :
    q.window (r + 1) = q.slot 0 :: (q.pop f).window r := by
  unfold window
  rw [List.range_succ_eq_map, List.map_cons, List.map_map]
  congr 1
  refine List.map_congr_left fun i mem => ?_
  have before := List.mem_range.mp mem
  have next : (q.pop f).place i = q.place (i + 1) := by
    refine Fin.ext ?_
    show ((q.head + 1) % cap + i) % cap = (q.head + (i + 1)) % cap
    rw [Nat.mod_add_mod, Nat.add_assoc, Nat.add_comm 1]
  have head : (q.place 0 : ℕ) = q.head := by
    show (q.head + 0) % cap = q.head
    rw [Nat.add_zero, Nat.mod_eq_of_lt q.head.isLt]
  have other : (q.head : ℕ) ≠ (q.pop f).place i := by
    rw [next, ← head]
    exact q.place_ne (Nat.succ_pos i) (by omega)
  show q.slots[q.place (i + 1)] = (q.slots.set q.head _)[(q.pop f).place i]
  rw [Fin.getElem_fin, Fin.getElem_fin, Vector.getElem_set_ne q.head.isLt _ other]
  exact congrArg (fun k : Fin cap => q.slots[(k : ℕ)]) next.symm

end Circular

end Fixbolt
