import Fixbolt.Codec.Bytes

/-!
# The field types of the dictionaries, and what each accepts on the wire

A format check, which answers `SessionRejectReason 6`: not a range check and not a business rule.
-/

namespace Fixbolt

/-- The field types of the dictionaries. -/
inductive FieldType where
  | int | length | seqNum | numInGroup | float | qty | price | priceOffset | amt | percentage
  | char | boolean | string | multipleValueString | currency | country | exchange | monthYear
  | localMktDate | utcDateOnly | utcTimeOnly | utcTimestamp | data
  | language | tagNum | multipleCharValue | localMktTime | tzTimeOnly | tzTimestamp
deriving DecidableEq, Repr

/-- An ASCII digit. -/
def isAsciiDigit (b : UInt8) : Bool := (digitOf b).isSome

/-- An ASCII letter. -/
def isAsciiAlphabetic (b : UInt8) : Bool :=
  0x41 ≤ b.toNat && b.toNat ≤ 0x5A || 0x61 ≤ b.toNat && b.toNat ≤ 0x7A

/-- The value two digits name. -/
def twoDigit (a b : UInt8) : Option ℕ :=
  match digitOf a, digitOf b with
  | some x, some y => some (x * 10 + y)
  | _, _ => none

/-- The value of the two digits at a position. -/
def twoAt (v : Bytes) (pos : ℕ) : Option ℕ :=
  match v[pos]?, v[pos + 1]? with
  | some a, some b => twoDigit a b
  | _, _ => none

/-- A value less its leading `-`. -/
def stripMinus : Bytes → Bytes
  | 0x2D :: rest => rest
  | v => v

/-- Digits, at least one. -/
def unsignedInt (v : Bytes) : Bool := !v.isEmpty && v.all isAsciiDigit

/-- Digits behind an optional `-`. -/
def signedInt (v : Bytes) : Bool := unsignedInt (stripMinus v)

/-- Digits with at most one point among them, behind an optional `-`. -/
def signedNumber (v : Bytes) : Bool :=
  let v := stripMinus v
  let whole := v.takeWhile (· != 0x2E)
  let tail := (v.drop whole.length).drop 1
  !v.isEmpty && !(whole.isEmpty && tail.isEmpty) && whole.all isAsciiDigit && tail.all isAsciiDigit

/-- `YYYYMM`, `YYYYMMDD` or `YYYYMMw` and a digit. -/
def monthYear (v : Bytes) : Bool :=
  (v.length == 6 || v.length == 8) && (v.take 6).all isAsciiDigit &&
    (match twoAt v 4 with
      | some m => 1 ≤ m && m ≤ 12
      | none => false) &&
    (v.length == 6 || (v.drop 6).all isAsciiDigit ||
      match v.drop 6 with
      | [w, d] => w == 0x77 && isAsciiDigit d
      | _ => false)

/-- `YYYYMMDD`. -/
def date (v : Bytes) : Bool :=
  v.length == 8 && v.all isAsciiDigit &&
    match twoAt v 4, twoAt v 6 with
    | some m, some d => 1 ≤ m && m ≤ 12 && 1 ≤ d && d ≤ 31
    | _, _ => false

/-- `HH:MM:SS`, or that with a point and one to twelve digits. -/
def time (v : Bytes) : Bool :=
  (v.length == 8 || 10 ≤ v.length && v.length ≤ 21) && v[2]? == some 0x3A && v[5]? == some 0x3A &&
    (match twoAt v 0, twoAt v 3, twoAt v 6 with
      | some h, some m, some s => h ≤ 23 && m ≤ 59 && s ≤ 60
      | _, _, _ => false) &&
    (v.length == 8 || v[8]? == some 0x2E && (v.drop 9).all isAsciiDigit)

/-- A date, `-`, and a time. -/
def utcTimestamp (v : Bytes) : Bool :=
  match v.drop 8 with
  | 0x2D :: t => date (v.take 8) && time t
  | _ => false

/-- An hour a zone offset may name. -/
def zoneHour (a b : UInt8) : Bool :=
  match twoDigit a b with
  | some h => 1 ≤ h && h ≤ 12
  | none => false

/-- A sign in front of a zone offset. -/
def isSign (b : UInt8) : Bool := b == 0x2B || b == 0x2D

/-- A value less the offset `+hh` or `-hh` at its end. -/
def stripHour (v : Bytes) : Bytes :=
  match v.drop (v.length - 3) with
  | [sign, h1, h2] => if isSign sign && zoneHour h1 h2 then v.take (v.length - 3) else v
  | _ => v

/-- A value less the time zone at its end. -/
def stripZone (v : Bytes) : Bytes :=
  if v.getLast? = some 0x5A then v.dropLast
  else
    match v.drop (v.length - 6) with
    | [sign, h1, h2, 0x3A, m1, m2] =>
      if isSign sign && zoneHour h1 h2 && (twoDigit m1 m2).any (· ≤ 59) then
        v.take (v.length - 6)
      else stripHour v
    | _ => stripHour v

/-- `HH:MM`. -/
def hourMinute : Bytes → Bool
  | [h1, h2, 0x3A, m1, m2] => (twoDigit h1 h2).any (· ≤ 23) && (twoDigit m1 m2).any (· ≤ 59)
  | _ => false

/-- Every part of a value between blanks is one byte long: the length of the part read so far
decides. -/
def singleChars : ℕ → Bytes → Bool
  | n, [] => n == 1
  | n, b :: rest => if b = 0x20 then n == 1 && singleChars 0 rest else singleChars (n + 1) rest

/-- Whether a value has the format of its type. -/
def FieldType.accepts (t : FieldType) (value : Bytes) : Bool :=
  if t = .data then true
  else if value.isEmpty then false
  else
    match t with
    | .data => true
    | .int => signedInt value
    | .float | .qty | .price | .priceOffset | .amt | .percentage => signedNumber value
    | .length | .numInGroup | .seqNum => unsignedInt value
    | .char => value.length == 1
    | .boolean => value == ascii "Y" || value == ascii "N"
    | .string | .multipleValueString | .exchange => !value.contains SOH
    | .currency => value.length == 3 && value.all isAsciiAlphabetic
    | .country => value.length == 2 && value.all isAsciiAlphabetic
    | .monthYear => Fixbolt.monthYear value
    | .localMktDate | .utcDateOnly => date value
    | .utcTimeOnly => time value
    | .utcTimestamp => Fixbolt.utcTimestamp value
    | .language => value.length == 2 && value.all isAsciiAlphabetic
    | .tagNum => unsignedInt value && value.head? != some ZERO
    | .multipleCharValue => singleChars 0 value
    | .localMktTime => value.length == 8 && time value
    | .tzTimeOnly =>
      if (stripZone value).length == 8 then time (stripZone value) else hourMinute (stripZone value)
    | .tzTimestamp => Fixbolt.utcTimestamp (stripZone value)

end Fixbolt
