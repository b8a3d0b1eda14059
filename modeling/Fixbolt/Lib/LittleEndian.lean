import Mathlib.Data.List.Basic
import Mathlib.Data.Nat.Log
import Mathlib.Tactic.Ring

/-!
# Little-endian numbers

A number as `k` bytes, the least byte first, and a number read back from bytes.

* `ofLe_toLe`: a number that fits is read back;
* `toLe_ofLe`: bytes are written back.
-/

namespace Fixbolt

/-- `n` as `k` bytes, the least first. -/
def toLe : ℕ → ℕ → List UInt8
  | 0, _ => []
  | k + 1, n => (n % 256).toUInt8 :: toLe k (n / 256)

/-- The number that bytes are, the least first. -/
def ofLe : List UInt8 → ℕ
  | [] => 0
  | b :: bs => b.toNat + 256 * ofLe bs

@[simp] theorem toLe_length (k n : ℕ) : (toLe k n).length = k := by
  induction k generalizing n with
  | zero => rfl
  | succ k ih => rw [toLe, List.length_cons, ih]

theorem ofLe_toLe {k n : ℕ} (h : n < 256 ^ k) : ofLe (toLe k n) = n := by
  induction k generalizing n with
  | zero =>
    rw [pow_zero] at h
    rw [toLe, ofLe]
    omega
  | succ k ih =>
    have fits : n / 256 < 256 ^ k := by
      rw [pow_succ] at h
      exact Nat.div_lt_of_lt_mul (by omega)
    have byte : (n % 256).toUInt8.toNat = n % 256 := by
      show n % 256 % 256 = n % 256
      omega
    rw [toLe, ofLe, ih fits, byte]
    omega

theorem ofLe_lt (bs : List UInt8) : ofLe bs < 256 ^ bs.length := by
  induction bs with
  | nil => simp [ofLe]
  | cons b bs ih =>
    have := b.toNat_lt
    rw [ofLe, List.length_cons, pow_succ]
    omega

theorem toLe_ofLe (bs : List UInt8) : toLe bs.length (ofLe bs) = bs := by
  induction bs with
  | nil => rfl
  | cons b bs ih =>
    have small := b.toNat_lt
    have low : (b.toNat + 256 * ofLe bs) % 256 = b.toNat := by omega
    have high : (b.toNat + 256 * ofLe bs) / 256 = ofLe bs := by omega
    rw [List.length_cons, ofLe, toLe, low, high, ih]
    simp

end Fixbolt
