import Mathlib.Data.List.Basic
import Mathlib.Data.UInt
import Mathlib.Tactic.IntervalCases

/-!
# Byte strings and the numbers written in them

A frame is a list of bytes. Machine integers of the source are natural numbers here, with the
wrap (`wrapU32`) or the overflow check (`checkedU32`) written out where the source has one.

* `asU32` reads an unsigned decimal; a syntax fault wins over an overflow.
* `renderU32` writes one, at most ten digits.
* `asU32_renderU32`: what is rendered is read back.
-/

namespace Fixbolt

/-- A byte string. -/
abbrev Bytes := List UInt8

/-- The bytes of an ASCII literal. -/
def ascii (s : String) : Bytes := s.toList.map fun c => c.toNat.toUInt8

/-- The FIX field separator. -/
def SOH : UInt8 := 0x01

/-- The byte between a tag and its value. -/
def EQ : UInt8 := 0x3D

/-- The byte `0`. -/
def ZERO : UInt8 := 0x30

/-- The number of values of a `u32`. -/
def u32Size : ℕ := 4294967296

/-- The largest `u32`. -/
def u32Max : ℕ := 4294967295

/-- The largest `i64`. -/
def i64Max : ℕ := 9223372036854775807

/-- What a `usize` counts up to. -/
def usizeSize : ℕ := 18446744073709551616

/-- `u32` arithmetic that wraps. -/
def wrapU32 (n : ℕ) : ℕ := n % u32Size

/-- `u32` arithmetic that is checked. -/
def checkedU32 (n : ℕ) : Option ℕ := if n < u32Size then some n else none

/-- The value of a decimal digit. -/
def digitOf (b : UInt8) : Option ℕ :=
  if (b - ZERO).toNat ≤ 9 then some (b - ZERO).toNat else none

/-- The byte of a digit below ten. -/
def digitByte (d : ℕ) : UInt8 := ZERO + d.toUInt8

/-- A value that could not be read as the requested type. -/
inductive ConvertError where
  | notANumber
  | overflow
  | notOneByte
deriving DecidableEq, Repr

/-- The loop of `asU32`: the accumulator is `none` once it has overflowed, and the scan goes on
so that a bad byte later still wins. -/
def asU32Loop : Bytes → Option ℕ → Except ConvertError ℕ
  | [], some n => .ok n
  | [], none => .error .overflow
  | b :: rest, acc =>
    match digitOf b with
    | none => .error .notANumber
    | some d => asU32Loop rest (acc.bind fun n => checkedU32 (n * 10 + d))

/-- Read an unsigned decimal. -/
def asU32 (value : Bytes) : Except ConvertError ℕ :=
  if value.isEmpty then .error .notANumber else asU32Loop value (some 0)

/-- The number a value reads as, if it reads as one. -/
def asU32? (value : Bytes) : Option ℕ := (asU32 value).toOption

/-- The digits of `v` in front of `acc`, at most `fuel` of them. -/
def renderLoop : ℕ → ℕ → Bytes → Bytes
  | 0, _, acc => acc
  | fuel + 1, v, acc =>
    if v = 0 then acc else renderLoop fuel (v / 10) (digitByte (v % 10) :: acc)

/-- The decimal digits of `v`, in the ten-byte buffer the source writes them to. -/
def renderU32 (v : ℕ) : Bytes := if v = 0 then [ZERO] else renderLoop 10 v []

/-! ### Reading back what was rendered -/

theorem digitOf_digitByte {d : ℕ} (h : d < 10) : digitOf (digitByte d) = some d := by
  interval_cases d <;> decide

theorem digitOf_eq_some {b : UInt8} {d : ℕ} : digitOf b = some d ↔ d < 10 ∧ b = digitByte d := by
  constructor
  · intro h
    unfold digitOf at h
    split at h
    · cases h
      refine ⟨by omega, ?_⟩
      unfold digitByte
      have same : (b - ZERO).toNat.toUInt8 = b - ZERO := UInt8.ofNat_toNat
      rw [same]
      grind
    · cases h
  · rintro ⟨small, rfl⟩
    exact digitOf_digitByte small

theorem digitByte_ne {d : ℕ} (h : d < 10) : digitByte d ≠ SOH ∧ digitByte d ≠ EQ := by
  interval_cases d <;> decide

theorem renderLoop_append (fuel v : ℕ) (acc : Bytes) :
    renderLoop fuel v acc = renderLoop fuel v [] ++ acc := by
  induction fuel generalizing v acc with
  | zero => rfl
  | succ fuel ih =>
    simp only [renderLoop]
    split
    · rfl
    · rw [ih (v / 10) (_ :: acc), ih (v / 10) [_], List.append_assoc]
      rfl

theorem renderLoop_succ_last (fuel : ℕ) {v : ℕ} (h : v ≠ 0) :
    renderLoop (fuel + 1) v [] = renderLoop fuel (v / 10) [] ++ [digitByte (v % 10)] := by
  rw [renderLoop, if_neg h, renderLoop_append]

theorem asU32Loop_append (xs ys : Bytes) (acc : Option ℕ) (n : ℕ)
    (h : asU32Loop xs acc = .ok n) : asU32Loop (xs ++ ys) acc = asU32Loop ys (some n) := by
  induction xs generalizing acc with
  | nil =>
    cases acc with
    | none => cases h
    | some m =>
      obtain rfl : m = n := by simpa [asU32Loop] using h
      rfl
  | cons b xs ih =>
    simp only [asU32Loop, List.cons_append] at h ⊢
    cases hd : digitOf b with
    | none => rw [hd] at h; cases h
    | some d => rw [hd] at h; exact ih _ h

theorem asU32Loop_renderLoop (fuel v : ℕ) (hf : v < 10 ^ fuel) (hv : v < u32Size) :
    asU32Loop (renderLoop fuel v []) (some 0) = .ok v := by
  induction fuel generalizing v with
  | zero =>
    obtain rfl : v = 0 := by simpa using hf
    rfl
  | succ fuel ih =>
    by_cases h0 : v = 0
    · subst h0
      rfl
    · have hlt : v / 10 < 10 ^ fuel := by
        rw [Nat.div_lt_iff_lt_mul (by decide), ← Nat.pow_succ]
        exact hf
      have hrest := ih (v / 10) hlt (by omega)
      rw [renderLoop_succ_last fuel h0, asU32Loop_append _ _ _ _ hrest]
      have hstep : v / 10 * 10 + v % 10 = v := by omega
      simp [asU32Loop, digitOf_digitByte (Nat.mod_lt v (by decide : 0 < 10)), hstep, checkedU32,
        hv]

theorem renderU32_ne_nil (v : ℕ) : renderU32 v ≠ [] := by
  unfold renderU32
  split
  · simp
  · rename_i h
    rw [renderLoop_succ_last 9 h]
    simp

/-- **What is rendered is read back.** -/
theorem asU32_renderU32 {v : ℕ} (h : v < u32Size) : asU32 (renderU32 v) = .ok v := by
  have hne : (renderU32 v).isEmpty = false := by
    simpa [List.isEmpty_iff] using renderU32_ne_nil v
  simp only [asU32, hne, Bool.false_eq_true, if_false]
  unfold renderU32
  split
  · subst v
    decide
  · exact asU32Loop_renderLoop 10 v (by unfold u32Size at h; omega) h

theorem asU32?_renderU32 {v : ℕ} (h : v < u32Size) : asU32? (renderU32 v) = some v := by
  rw [asU32?, asU32_renderU32 h]
  rfl

theorem asU32Loop_lt (xs : Bytes) (acc : Option ℕ) (hacc : ∀ m ∈ acc, m < u32Size) (n : ℕ)
    (h : asU32Loop xs acc = .ok n) : n < u32Size := by
  induction xs generalizing acc with
  | nil =>
    cases acc with
    | none => cases h
    | some m =>
      obtain rfl : m = n := by simpa [asU32Loop] using h
      exact hacc m rfl
  | cons b xs ih =>
    simp only [asU32Loop] at h
    cases hd : digitOf b with
    | none => rw [hd] at h; cases h
    | some d =>
      rw [hd] at h
      refine ih _ (fun m hm => ?_) h
      obtain ⟨k, -, hk⟩ := Option.bind_eq_some_iff.mp hm
      unfold checkedU32 at hk
      split at hk
      · cases hk
        assumption
      · cases hk

theorem asU32?_lt {value : Bytes} {n : ℕ} (h : asU32? value = some n) : n < u32Size := by
  unfold asU32? asU32 at h
  split at h
  · cases h
  · cases hl : asU32Loop value (some 0) with
    | error e => rw [hl] at h; cases h
    | ok m =>
      rw [hl] at h
      obtain rfl : m = n := by simpa [Except.toOption] using h
      exact asU32Loop_lt value (some 0) (by rintro m ⟨⟩; decide) m hl

theorem renderLoop_digits (fuel v : ℕ) : ∀ b ∈ renderLoop fuel v [], b ≠ SOH ∧ b ≠ EQ := by
  induction fuel generalizing v with
  | zero => simp [renderLoop]
  | succ fuel ih =>
    by_cases h0 : v = 0
    · subst h0
      simp [renderLoop]
    · intro b hb
      rw [renderLoop_succ_last fuel h0, List.mem_append, List.mem_singleton] at hb
      rcases hb with hb | rfl
      · exact ih _ b hb
      · exact digitByte_ne (Nat.mod_lt v (by decide))

/-- Rendered digits hold neither the separator nor `=`. -/
theorem renderU32_digits (v : ℕ) : ∀ b ∈ renderU32 v, b ≠ SOH ∧ b ≠ EQ := by
  unfold renderU32
  split
  · simp [SOH, EQ, ZERO]
  · exact renderLoop_digits 10 v

theorem renderLoop_length (fuel v : ℕ) : (renderLoop fuel v []).length ≤ fuel := by
  induction fuel generalizing v with
  | zero => simp [renderLoop]
  | succ fuel ih =>
    by_cases h0 : v = 0
    · simp [renderLoop, h0]
    · rw [renderLoop_succ_last fuel h0, List.length_append]
      have := ih (v / 10)
      simp only [List.length_singleton]
      omega

theorem renderU32_length (v : ℕ) : (renderU32 v).length ≤ 10 := by
  unfold renderU32
  split
  · decide
  · exact renderLoop_length 10 v

end Fixbolt
