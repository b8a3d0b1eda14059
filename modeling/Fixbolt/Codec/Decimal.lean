import Fixbolt.Codec.Bytes

/-!
# A FIX float read on demand, and written back

A `Decimal` is a mantissa and a power of ten, an `i64` and an `i8`. `format` writes the canonical FIX
form through a cursor that cannot pass the end of its buffer, and `asDecimal` reads a value digit by
digit. An overflow is remembered and the scan goes on, so that a bad byte later still wins.
-/

namespace Fixbolt

/-- The byte `-`. -/
def MINUS : UInt8 := 0x2D

/-- The byte `.`. -/
def POINT : UInt8 := 0x2E

/-- A decimal number, `mantissa * 10 ^ exponent`. -/
structure Decimal where
  mantissa : ℤ
  exponent : ℤ
  mantissa_i64 : -(2 ^ 63) ≤ mantissa ∧ mantissa < 2 ^ 63
  exponent_i8 : -128 ≤ exponent ∧ exponent < 128
deriving DecidableEq, Repr

/-! ### Writing -/

/-- A cursor that writes nothing past the end of its buffer. -/
structure Writer where
  written : Bytes
  room : ℕ
deriving DecidableEq, Repr

namespace Writer

def put (w : Writer) (b : UInt8) : Writer :=
  if w.room = 0 then w else ⟨w.written ++ [b], w.room - 1⟩

def putAll (w : Writer) (bytes : Bytes) : Writer := bytes.foldl put w

def repeat_ (w : Writer) (b : UInt8) (n : ℕ) : Writer := w.putAll (List.replicate n b)

end Writer

/-- The digits of `n` in front of `acc`, in the slots that are left: one at least. -/
def digitLoop : ℕ → ℕ → Bytes → Bytes
  | 0, _, acc => acc
  | slots + 1, n, acc =>
    let acc := digitByte (n % 10) :: acc
    if n / 10 = 0 then acc else digitLoop slots (n / 10) acc

namespace Decimal

/-- The longest `format` can write. -/
def MAX_LEN : ℕ := 147

/-- The digits of the mantissa without its sign. -/
def digits (d : Decimal) : Bytes := digitLoop 20 d.mantissa.natAbs []

/-- The canonical form, into a buffer of some room. -/
def formatIn (room : ℕ) (d : Decimal) : Bytes :=
  let w : Writer := ⟨[], room⟩
  let w := if d.mantissa < 0 then w.put MINUS else w
  let w :=
    if 0 ≤ d.exponent then
      let w := w.putAll d.digits
      if d.mantissa ≠ 0 then w.repeat_ ZERO d.exponent.natAbs else w
    else
      let frac := d.exponent.natAbs
      if frac < d.digits.length then
        let whole := d.digits.length - frac
        ((w.putAll (d.digits.take whole)).put POINT).putAll (d.digits.drop whole)
      else
        (((w.put ZERO).put POINT).repeat_ ZERO (frac - d.digits.length)).putAll d.digits
  w.written

/-- The canonical form. -/
def format (d : Decimal) : Bytes := d.formatIn MAX_LEN

end Decimal

/-! ### Reading -/

/-- What the scan of a value has seen; `magnitude` is `none` once it has overflowed. -/
structure DecimalScan where
  magnitude : Option ℕ
  anyDigit : Bool
  point : Bool
  fractionDigits : ℕ
deriving DecidableEq, Repr

/-- `i64` arithmetic that is checked, of numbers that are not negative. -/
def checkedI64 (n : ℕ) : Option ℕ := if n ≤ i64Max then some n else none

/-- One digit more. -/
def DecimalScan.digit (s : DecimalScan) (d : ℕ) : DecimalScan :=
  { s with
    anyDigit := true
    fractionDigits := if s.point then min (s.fractionDigits + 1) u32Max else s.fractionDigits
    magnitude := s.magnitude.bind fun m =>
      (checkedI64 (m * 10)).bind fun m => checkedI64 (m + d) }

/-- The loop of `asDecimal`. -/
def scanDecimal : Bytes → DecimalScan → Except ConvertError DecimalScan
  | [], s => .ok s
  | b :: rest, s =>
    match digitOf b with
    | some d => scanDecimal rest (s.digit d)
    | none =>
      if b = POINT ∧ s.point = false then scanDecimal rest { s with point := true }
      else .error .notANumber

/-- A decimal, when the mantissa is an `i64` and the exponent an `i8`. -/
def Decimal.checked (mantissa exponent : ℤ) : Except ConvertError Decimal :=
  if h : (-(2 ^ 63) ≤ mantissa ∧ mantissa < 2 ^ 63) ∧ -128 ≤ exponent ∧ exponent < 128 then
    .ok ⟨mantissa, exponent, h.1, h.2⟩
  else .error .overflow

/-- Does a value begin with a minus, and what follows it? -/
def splitSign : Bytes → Bool × Bytes
  | b :: rest => if b = MINUS then (true, rest) else (false, b :: rest)
  | [] => (false, [])

/-- Read a FIX float. -/
def asDecimal (value : Bytes) : Except ConvertError Decimal :=
  match scanDecimal (splitSign value).2 ⟨some 0, false, false, 0⟩ with
  | .error e => .error e
  | .ok s =>
    if s.anyDigit = false then .error .notANumber
    else match s.magnitude with
      | none => .error .overflow
      | some m => Decimal.checked (if (splitSign value).1 then -m else m) (-s.fractionDigits)

end Fixbolt
