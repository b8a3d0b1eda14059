import Mathlib.Data.Nat.Digits.Lemmas

/-!
# Numbers of a fixed width

Digits in the order they are written, the first the largest: `ofDigits` reads them in reverse.

* `ofDigits_reverse_lt`: of two numbers of one width, the one with the smaller digit at the first
  place where they differ is the smaller;
* `fixedDigits`: the digits of a number, as many as the width; they are `digitsAppend`.
-/

namespace Fixbolt

open Nat (ofDigits)

variable {b : ℕ}

/-- A number split behind one of its digits. -/
theorem ofDigits_reverse_split (ds es : List ℕ) (d : ℕ) :
    ofDigits b (ds ++ d :: es).reverse =
      ofDigits b es.reverse + b ^ es.length * (d + b * ofDigits b ds.reverse) := by
  have parts : (ds ++ d :: es).reverse = es.reverse ++ d :: ds.reverse := by simp
  rw [parts, Nat.ofDigits_append, List.length_reverse, Nat.ofDigits_cons]

/-- The first place where two numbers of one width differ decides. -/
theorem ofDigits_reverse_lt {pre ds es : List ℕ} {d e : ℕ} (base : 1 < b)
    (width : ds.length = es.length) (small : ∀ x ∈ ds, x < b) (lt : d < e) :
    ofDigits b (pre ++ d :: ds).reverse < ofDigits b (pre ++ e :: es).reverse := by
  have tail : ofDigits b ds.reverse < b ^ ds.length := by
    have := Nat.ofDigits_lt_base_pow_length (l := ds.reverse) base
      fun x mem => small x (List.mem_reverse.mp mem)
    rwa [List.length_reverse] at this
  rw [ofDigits_reverse_split, ofDigits_reverse_split, ← width]
  calc ofDigits b ds.reverse + b ^ ds.length * (d + b * ofDigits b pre.reverse)
      < b ^ ds.length + b ^ ds.length * (d + b * ofDigits b pre.reverse) := by omega
    _ = b ^ ds.length * (d + 1 + b * ofDigits b pre.reverse) := by ring
    _ ≤ b ^ ds.length * (e + b * ofDigits b pre.reverse) :=
        Nat.mul_le_mul_left _ (by omega)
    _ ≤ ofDigits b es.reverse + b ^ ds.length * (e + b * ofDigits b pre.reverse) :=
        Nat.le_add_left _ _

/-- The digits of `v` in base `b`, `width` of them. -/
def fixedDigits (b : ℕ) : ℕ → ℕ → List ℕ
  | 0, _ => []
  | width + 1, v => fixedDigits b width (v / b) ++ [v % b]

@[simp] theorem fixedDigits_length (b width v : ℕ) : (fixedDigits b width v).length = width := by
  induction width generalizing v with
  | zero => rfl
  | succ width ih => rw [fixedDigits, List.length_append, ih, List.length_singleton]

theorem fixedDigits_lt (base : 1 < b) {width v : ℕ} : ∀ d ∈ fixedDigits b width v, d < b := by
  induction width generalizing v with
  | zero => exact List.forall_mem_nil _
  | succ width ih =>
    intro d mem
    rw [fixedDigits, List.mem_append, List.mem_singleton] at mem
    obtain mem | rfl := mem
    · exact ih d mem
    · exact Nat.mod_lt _ (by omega)

/-- A number that fits the width is read back. -/
theorem ofDigits_fixedDigits {width v : ℕ} (fits : v < b ^ width) :
    ofDigits b (fixedDigits b width v).reverse = v := by
  induction width generalizing v with
  | zero =>
    rw [pow_zero] at fits
    rw [fixedDigits, List.reverse_nil, Nat.ofDigits_nil]
    omega
  | succ width ih =>
    have rest : v / b < b ^ width := by
      rw [pow_succ] at fits
      exact Nat.div_lt_of_lt_mul (by rwa [mul_comm] at fits)
    rw [fixedDigits, List.reverse_append, List.reverse_singleton, List.singleton_append,
      Nat.ofDigits_cons, ih rest]
    exact Nat.mod_add_div v b

/-- They are the digits of the number with zeros in front. -/
theorem fixedDigits_eq (base : 1 < b) {width v : ℕ} (fits : v < b ^ width) :
    fixedDigits b width v = (Nat.digitsAppend b width v).reverse := by
  have digits : (fixedDigits b width v).reverse ∈
      {ds : List ℕ | ds.length = width ∧ ∀ d ∈ ds, d < b} :=
    ⟨by simp, fun d mem => fixedDigits_lt base d (List.mem_reverse.mp mem)⟩
  have inverse := (Nat.setInvOn_digitsAppend_ofDigits base width).1 digits
  rw [ofDigits_fixedDigits fits] at inverse
  rw [inverse, List.reverse_reverse]

/-- Digits behind digits. -/
theorem fixedDigits_add (b : ℕ) {k j v w : ℕ} (fits : w < b ^ j) :
    fixedDigits b (k + j) (v * b ^ j + w) = fixedDigits b k v ++ fixedDigits b j w := by
  induction j generalizing w with
  | zero =>
    rw [pow_zero] at fits
    obtain rfl : w = 0 := by omega
    simp [fixedDigits]
  | succ j ih =>
    have rest : w / b < b ^ j := by
      rw [pow_succ, mul_comm] at fits
      exact Nat.div_lt_of_lt_mul fits
    have pos : 0 < b := by
      obtain rfl | pos := Nat.eq_zero_or_pos b
      · rw [zero_pow (Nat.succ_ne_zero j)] at fits
        exact absurd fits (Nat.not_lt_zero w)
      · exact pos
    have scaled : v * b ^ (j + 1) + w = w + b * (v * b ^ j) := by ring
    rw [← Nat.add_assoc, fixedDigits, scaled, Nat.add_mul_div_left _ _ pos,
      Nat.add_mul_mod_self_left, Nat.add_comm (w / b), ih rest, List.append_assoc, fixedDigits]

end Fixbolt
