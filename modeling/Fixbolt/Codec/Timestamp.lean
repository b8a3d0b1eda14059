import Fixbolt.Codec.Bytes

/-!
# `SendingTime`, as it is written

The source caches the minute prefix of a stamp; `formatTimestamp` is what the cache renders for
an instant, whatever it rendered before.
-/

namespace Fixbolt

/-- How many fractional digits a stamp carries on the way out. -/
inductive Precision where
  | millis
  | micros
  | nanos
deriving DecidableEq, Repr

namespace Precision

/-- Digits after the decimal point. -/
def fractionalDigits : Precision → ℕ
  | millis => 3
  | micros => 6
  | nanos => 9

/-- The coarser of the two. -/
def coarser (p q : Precision) : Precision :=
  if p.fractionalDigits ≤ q.fractionalDigits then p else q

end Precision

/-- A `u8` made of the low byte of a digit or more, as `b'0' + v as u8` makes it. -/
def asciiDigit (v : ℕ) : UInt8 := ZERO + v.toUInt8

/-- Two digits. -/
def write2 (v : ℕ) : Bytes := [asciiDigit (v / 10), asciiDigit (v % 10)]

/-- Four digits. -/
def write4 (v : ℕ) : Bytes :=
  [asciiDigit (v / 1000), asciiDigit (v / 100 % 10), asciiDigit (v / 10 % 10), asciiDigit (v % 10)]

/-- Days since 1970-01-01 to a civil date: year, month and day. -/
def civilFromDays (days : ℕ) : ℕ × ℕ × ℕ :=
  let z := days + 719468
  let era := z / 146097
  let doe := z - era * 146097
  let yoe := (doe - doe / 1460 + doe / 36524 - doe / 146096) / 365
  let y := yoe + era * 400
  let doy := doe - (365 * yoe + yoe / 4 - yoe / 100)
  let mp := (5 * doy + 2) / 153
  let d := doy - (153 * mp + 2) / 5 + 1
  let m := if mp < 10 then mp + 3 else mp - 9
  (if m ≤ 2 then y + 1 else y, m, d)

/-- The digits of a fraction, `width` of them. -/
def fractionDigits : ℕ → ℕ → Bytes
  | 0, _ => []
  | width + 1, v => fractionDigits width (v / 10) ++ [asciiDigit (v % 10)]

/-- The fraction of a second at a precision. -/
def fractionAt (p : Precision) (ms subMsNanos : ℕ) : ℕ :=
  let nanos := if 1000000 ≤ subMsNanos then 999999 else subMsNanos
  match p with
  | .millis => ms
  | .micros => ms * 1000 + nanos / 1000
  | .nanos => ms * 1000000 + nanos

/-- UTC `YYYYMMDD-HH:MM:SS.` and the fraction, for an instant since the Unix epoch. -/
def formatTimestamp (p : Precision) (millis subMsNanos : ℕ) : Bytes :=
  let secs := millis / 1000
  let minute := secs / 60
  let (y, m, d) := civilFromDays (minute / 1440)
  let minsOfDay := minute % 1440
  write4 y ++ write2 m ++ write2 d ++ [0x2D] ++ write2 (minsOfDay / 60) ++ [0x3A] ++
    write2 (minsOfDay % 60) ++ [0x3A] ++ write2 (secs % 60) ++ [0x2E] ++
    fractionDigits p.fractionalDigits (fractionAt p (millis % 1000) subMsNanos)

theorem fractionDigits_length (w v : ℕ) : (fractionDigits w v).length = w := by
  induction w generalizing v with
  | zero => rfl
  | succ w ih => simp [fractionDigits, ih]

/-- The bytes a stamp may hold when the instant is far off are still one byte a digit. -/
theorem formatTimestamp_length (p : Precision) (millis sub : ℕ) :
    (formatTimestamp p millis sub).length = 18 + p.fractionalDigits := by
  simp only [formatTimestamp, List.length_append, fractionDigits_length, write4, write2,
    List.length_cons, List.length_nil]

end Fixbolt
