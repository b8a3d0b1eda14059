import Fixbolt.Codec.Decimal

/-!
# Reading a signed integer

`asI64` reads a FIX `int` on the negative side, where the smallest number is. Behind an overflow it
scans on, as `asU32` does.
-/

namespace Fixbolt

/-- `i64` arithmetic that is checked. -/
def checkedSigned (n : ℤ) : Option ℤ := if -(2 ^ 63) ≤ n ∧ n < 2 ^ 63 then some n else none

/-- The loop of `asI64`; the accumulator is `none` once it has overflowed. -/
def asI64Loop : Bytes → Option ℤ → Except ConvertError (Option ℤ)
  | [], acc => .ok acc
  | b :: rest, acc =>
    match digitOf b with
    | none => .error .notANumber
    | some d =>
      asI64Loop rest (acc.bind fun n => (checkedSigned (n * 10)).bind fun n => checkedSigned (n - d))

/-- Read a signed decimal. -/
def asI64 (value : Bytes) : Except ConvertError ℤ :=
  if (splitSign value).2.isEmpty then .error .notANumber
  else match asI64Loop (splitSign value).2 (some 0) with
    | .error e => .error e
    | .ok none => .error .overflow
    | .ok (some n) =>
      if (splitSign value).1 then .ok n
      else match checkedSigned (-n) with
        | some m => .ok m
        | none => .error .overflow

example : asI64 (ascii "-9223372036854775808") = .ok (-9223372036854775808) := by decide

end Fixbolt
