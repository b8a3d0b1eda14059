import Mathlib.Data.Nat.Basic

/-!
# Tilings of a range of numbers

A range of numbers, some of them held, is covered in order: a held number by itself, and every
maximal run of others by one interval.

* `Tiles held e b ps c`: the pieces `ps` cover the numbers from `b` up to `c`, within a range that
  ends at `e`;
* `Tiles.numbers`: each number is covered once, in increasing order;
* `Tiles.unique`: there is one way to do it.
-/

namespace Fixbolt

/-- A piece of a tiling: one number that is held, or an interval of others. -/
inductive Piece where
  | one (n : ℕ)
  | run (from_ upto : ℕ)
deriving DecidableEq, Repr

/-- The numbers that a piece covers, in order. -/
def Piece.numbers : Piece → List ℕ
  | one n => [n]
  | run from_ upto => List.range' from_ (upto - from_)

/-- The pieces cover `[b, c)` within a range that ends at `e`. -/
inductive Tiles (held : ℕ → Prop) (e : ℕ) : ℕ → List Piece → ℕ → Prop
  | nil (b : ℕ) : Tiles held e b [] b
  | one {b c : ℕ} {ps : List Piece} (le : b ≤ e) (holds : held b)
      (rest : Tiles held e (b + 1) ps c) : Tiles held e b (.one b :: ps) c
  | run {b u c : ℕ} {ps : List Piece} (lt : b < u) (le : u ≤ e + 1)
      (gone : ∀ n, b ≤ n → n < u → ¬ held n) (stop : u ≤ e → held u)
      (rest : Tiles held e u ps c) : Tiles held e b (.run b u :: ps) c

namespace Tiles

variable {held : ℕ → Prop} {e b c d : ℕ} {ps qs : List Piece}

theorem append (h : Tiles held e b ps c) (h' : Tiles held e c qs d) :
    Tiles held e b (ps ++ qs) d := by
  induction h with
  | nil b => exact h'
  | one le holds rest ih => exact .one le holds (ih h')
  | run lt le gone stop rest ih => exact .run lt le gone stop (ih h')

theorem le (h : Tiles held e b ps c) : b ≤ c := by
  induction h with
  | nil b => exact le_rfl
  | one le holds rest ih => omega
  | run lt le gone stop rest ih => omega

/-- **Each number is covered once, in increasing order.** -/
theorem numbers (h : Tiles held e b ps c) : ps.flatMap Piece.numbers = List.range' b (c - b) := by
  induction h with
  | nil b => simp
  | @one b c ps le holds rest ih =>
    have up := rest.le
    rw [List.flatMap_cons, ih, show c - b = 1 + (c - (b + 1)) by omega, ← List.range'_append]
    rfl
  | @run b u c ps lt le gone stop rest ih =>
    have up := rest.le
    rw [List.flatMap_cons, ih, show c - b = (u - b) + (c - u) by omega, ← List.range'_append]
    rw [show b + 1 * (u - b) = u by omega]
    rfl

/-- **There is one tiling of a range.** -/
theorem unique (h : Tiles held e b ps c) (h' : Tiles held e b qs c) : ps = qs := by
  induction h generalizing qs with
  | nil b =>
    cases h' with
    | nil => rfl
    | one le holds rest => exact absurd rest.le (by omega)
    | run lt le gone stop rest => exact absurd rest.le (by omega)
  | @one b c ps le holds rest ih =>
    cases h' with
    | nil => exact absurd rest.le (by omega)
    | one _ _ rest' => rw [ih rest']
    | run lt _ gone => exact absurd holds (gone b le_rfl lt)
  | @run b u c ps lt le gone stop rest ih =>
    cases h' with
    | nil => exact absurd rest.le (by omega)
    | one _ holds => exact absurd holds (gone b le_rfl lt)
    | @run _ v _ qs lt' le' gone' stop' rest' =>
      obtain rfl : u = v := by
        by_contra other
        obtain before | after := Nat.lt_or_gt_of_ne other
        · exact gone' u (Nat.le_of_lt lt) before (stop (by omega))
        · exact gone v (Nat.le_of_lt lt') after (stop' (by omega))
      rw [ih rest']

end Tiles

end Fixbolt
