import Fixbolt.Codec.Index
import Fixbolt.Dict.FieldType
import Mathlib.Data.Int.Basic

/-!
# Reading a `UTCTimestamp`, and when a session is open

Instants are milliseconds since 0000-01-01, so that every timestamp the wire can name is a
natural number. A `Schedule` is arithmetic on that line: `sessionStart` names the interval an
instant falls in, and `sameSession` compares two of them.
-/

namespace Fixbolt

/-! ### Timestamps -/

/-- Days from 0000-01-01 to 1970-01-01. -/
def daysYearZeroToEpoch : ℕ := 719528

/-- Milliseconds from 0000-01-01 to 1970-01-01. -/
def millisYearZeroToEpoch : ℕ := 719528 * 86400000

/-- The number that the `width` digits at `pos` write. -/
def num (s : Bytes) (pos width : ℕ) : Option ℕ :=
  (slice s pos width).bind fun ds =>
    ds.foldl (fun acc b => acc.bind fun v => (digitOf b).map fun d => v * 10 + d) (some 0)

/-- A leap year. -/
def isLeap (y : ℕ) : Bool := y % 4 == 0 && (y % 100 != 0 || y % 400 == 0)

/-- Days of a month. -/
def daysInMonth (y m : ℕ) : ℕ :=
  if m ∈ [1, 3, 5, 7, 8, 10, 12] then 31
  else if m ∈ [4, 6, 9, 11] then 30
  else if m = 2 then (if isLeap y then 29 else 28)
  else 0

/-- Days from 1970-01-01 to a civil date. -/
def daysFromCivil (y : ℤ) (m d : ℕ) : ℤ :=
  let y := if m ≤ 2 then y - 1 else y
  let era := (if 0 ≤ y then y else y - 399).tdiv 400
  let yoe := (y - era * 400).toNat
  let mp := if 2 < m then m - 3 else m + 9
  let doy := (153 * mp + 2) / 5 + d - 1
  let doe := yoe * 365 + yoe / 4 - yoe / 100 + doy
  era * 146097 + doe - 719468

/-- The millisecond of a second that a stamp names: its length says how many digits there are. -/
def parseFraction (s : Bytes) : Option ℕ :=
  if s.length = 17 then some 0
  else if 19 ≤ s.length ∧ s.length ≤ 30 then
    if s[17]? ≠ some 0x2E then none
    else
      let frac := s.drop 18
      if frac.all isAsciiDigit then
        let digit (i : ℕ) : ℕ := (frac[i]?.bind digitOf).getD 0
        some (digit 0 * 100 + digit 1 * 10 + digit 2)
      else none
  else none

/-- The instant a `UTCTimestamp` names. -/
def parseUtc (s : Bytes) : Option ℕ := do
  let milli ← parseFraction s
  if s[8]? ≠ some 0x2D ∨ s[11]? ≠ some 0x3A ∨ s[14]? ≠ some 0x3A then none
  let year ← num s 0 4
  let month ← num s 4 2
  let day ← num s 6 2
  let hour ← num s 9 2
  let minute ← num s 12 2
  let second ← num s 15 2
  if month < 1 ∨ 12 < month ∨ day < 1 ∨ daysInMonth year month < day then none
  if 23 < hour ∨ 59 < minute ∨ 60 < second then none
  let days := daysFromCivil year month day + daysYearZeroToEpoch
  if days < 0 then none
  some (days.toNat * 86400000 + hour * 3600000 + minute * 60000 + second * 1000 + milli)

/-! ### Schedules -/

/-- Milliseconds of a day. -/
def dayMs : ℕ := 86400000

/-- Milliseconds of a week. -/
def weekMs : ℕ := 7 * dayMs

/-- A day of the week, Monday first. -/
inductive Weekday where
  | monday | tuesday | wednesday | thursday | friday | saturday | sunday
deriving DecidableEq, Repr

namespace Weekday

/-- Its place in the week. -/
def index : Weekday → ℕ
  | monday => 0
  | tuesday => 1
  | wednesday => 2
  | thursday => 3
  | friday => 4
  | saturday => 5
  | sunday => 6

/-- The weekday of a day counted from 0000-01-01. -/
def fromDaysSinceYearZero (days : ℕ) : Weekday :=
  match (days + 5) % 7 with
  | 0 => monday
  | 1 => tuesday
  | 2 => wednesday
  | 3 => thursday
  | 4 => friday
  | 5 => saturday
  | _ => sunday

end Weekday

/-- A repeating window of the week or of the day; `days` are the days a daily one opens on. -/
structure Window where
  periodMs : ℕ
  open_ : ℕ
  close : ℕ
  days : List Weekday
deriving DecidableEq, Repr

/-- When a session is open: always, or in a window that repeats. -/
structure Schedule where
  window : Option Window
  offsetMs : ℤ
deriving DecidableEq, Repr

/-- `u64` plus `i64`, when it is a `u64`. -/
def checkedAddSigned (t : ℕ) (off : ℤ) : Option ℕ :=
  if 0 ≤ (t : ℤ) + off ∧ (t : ℤ) + off < 2 ^ 64 then some ((t : ℤ) + off).toNat else none

namespace Schedule

/-- One session without an end. -/
def always : Schedule := ⟨none, 0⟩

/-- Every day of the week. -/
def allDays : List Weekday :=
  [.monday, .tuesday, .wednesday, .thursday, .friday, .saturday, .sunday]

/-- Open every day between two seconds of the day. -/
def daily (openSod closeSod : ℕ) : Option Schedule :=
  if 86399 < openSod ∨ 86399 < closeSod ∨ openSod = closeSod then none
  else some ⟨some ⟨dayMs, openSod * 1000, closeSod * 1000, allDays⟩, 0⟩

/-- Open every week between two instants of the week. -/
def weekly (openDay : Weekday) (openSod : ℕ) (closeDay : Weekday) (closeSod : ℕ) :
    Option Schedule :=
  let open_ := openDay.index * dayMs + openSod * 1000
  let close := closeDay.index * dayMs + closeSod * 1000
  if 86399 < openSod ∨ 86399 < closeSod ∨ open_ = close then none
  else some ⟨some ⟨weekMs, open_, close, allDays⟩, 0⟩

/-- A daily schedule that opens on some days only. -/
def withWeekdays (s : Schedule) (days : List Weekday) : Option Schedule :=
  if days.isEmpty then none
  else match s.window with
    | some w => if w.periodMs = dayMs then some { s with window := some { w with days } } else none
    | none => none

/-- A schedule read at a fixed distance from UTC. -/
def withUtcOffsetMs (s : Schedule) (offsetMs : ℤ) : Option Schedule :=
  if offsetMs ≤ -(dayMs : ℤ) ∨ (dayMs : ℤ) ≤ offsetMs then none else some { s with offsetMs }

/-- Where the interval around a local instant began. -/
def startLocal (w : Window) (local_ : ℕ) : Option ℕ :=
  let into := local_ % w.periodMs
  let base := local_ - into
  if w.open_ < w.close then
    if w.open_ ≤ into ∧ into < w.close then some (base + w.open_) else none
  else if w.open_ ≤ into then some (base + w.open_)
  else if into < w.close then
    -- Still inside the interval that opened in the previous period.
    if w.periodMs ≤ base + w.open_ then some (base + w.open_ - w.periodMs) else none
  else none

/-- When the session an instant belongs to began. -/
def sessionStart (s : Schedule) (t : ℕ) : Option ℕ :=
  match s.window with
  | none => some 0
  | some w => do
    let local_ ← checkedAddSigned t s.offsetMs
    let start ← startLocal w local_
    if w.periodMs = dayMs ∧ Weekday.fromDaysSinceYearZero (start / dayMs) ∉ w.days then none
    checkedAddSigned start (-s.offsetMs)

/-- Is the session open at an instant? -/
def contains (s : Schedule) (t : ℕ) : Bool := (s.sessionStart t).isSome

/-- Do two instants fall in the same interval? -/
def sameSession (s : Schedule) (a b : ℕ) : Bool :=
  match s.sessionStart a, s.sessionStart b with
  | some x, some y => x == y
  | _, _ => false

@[simp] theorem always_contains (t : ℕ) : always.contains t = true := rfl

@[simp] theorem always_sameSession (a b : ℕ) : always.sameSession a b = true := rfl

end Schedule

end Fixbolt
