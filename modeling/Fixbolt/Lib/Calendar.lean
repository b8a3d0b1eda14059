import Mathlib.Data.List.Basic
import Mathlib.Logic.Function.Iterate
import Mathlib.Tactic.IntervalCases

/-!
# The Gregorian calendar

A `Date` is a day that exists: its month and its day are fields with their bounds. The rules of
the calendar run backwards from its introduction, and the first year is the year zero.

* `Date.next`: the day after;
* `Date.ordinal`: how many days a date is after the first of January of the year zero;
* `Date.ofOrdinal`: the date a number of days after it, one day at a time;
* `Date.ordinal_lt`: a later date has the larger ordinal, so that a date is its ordinal.
-/

namespace Fixbolt

/-- A year with a 29th of February. -/
def LeapYear (y : ℕ) : Prop := 4 ∣ y ∧ (¬ 100 ∣ y ∨ 400 ∣ y)

instance (y : ℕ) : Decidable (LeapYear y) := inferInstanceAs (Decidable (_ ∧ _))

/-- How many days a year has. -/
def yearLength (y : ℕ) : ℕ := if LeapYear y then 366 else 365

/-- How many days a month has. -/
def monthLength (y m : ℕ) : ℕ :=
  if m = 2 then (if LeapYear y then 29 else 28)
  else if m = 4 ∨ m = 6 ∨ m = 9 ∨ m = 11 then 30
  else 31

/-- The days before a year. -/
def yearStart : ℕ → ℕ
  | 0 => 0
  | y + 1 => yearStart y + yearLength y

/-- The days of a year before the month after `m`. -/
def monthEnd (y : ℕ) : ℕ → ℕ
  | 0 => 0
  | m + 1 => monthEnd y m + monthLength y (m + 1)

/-- Three leap years in four centuries fall out. -/
theorem yearStart_eq (y : ℕ) :
    yearStart y + (y + 99) / 100 = 365 * y + (y + 3) / 4 + (y + 399) / 400 := by
  induction y with
  | zero => rfl
  | succ y ih =>
    by_cases leap : LeapYear y
    · rw [yearStart, yearLength, if_pos leap]
      unfold LeapYear at leap
      omega
    · rw [yearStart, yearLength, if_neg leap]
      unfold LeapYear at leap
      omega

theorem yearStart_mono {y z : ℕ} (le : y ≤ z) : yearStart y ≤ yearStart z := by
  induction z, le using Nat.le_induction with
  | base => exact le_rfl
  | succ z _ ih => exact ih.trans (Nat.le_add_right _ _)

theorem monthEnd_mono (y : ℕ) {m n : ℕ} (le : m ≤ n) : monthEnd y m ≤ monthEnd y n := by
  induction n, le using Nat.le_induction with
  | base => exact le_rfl
  | succ n _ ih => exact ih.trans (Nat.le_add_right _ _)

/-- The twelve months are the year. -/
theorem monthEnd_twelve (y : ℕ) : monthEnd y 12 = yearLength y := by
  by_cases leap : LeapYear y
  · simp [monthEnd, monthLength, yearLength, leap]
  · simp [monthEnd, monthLength, yearLength, leap]

theorem monthLength_le (y m : ℕ) : monthLength y m ≤ 31 := by
  unfold monthLength
  repeat' split
  all_goals omega

theorem monthLength_pos (y m : ℕ) : 0 < monthLength y m := by
  unfold monthLength
  repeat' split
  all_goals omega

/-- A day of the calendar. -/
@[ext] structure Date where
  year : ℕ
  month : ℕ
  day : ℕ
  month_pos : 1 ≤ month
  month_le : month ≤ 12
  day_pos : 1 ≤ day
  day_le : day ≤ monthLength year month
deriving DecidableEq

namespace Date

variable {d e : Date}

/-- The first of January of the year zero. -/
def first : Date := ⟨0, 1, 1, le_rfl, by omega, le_rfl, monthLength_pos 0 1⟩

/-- The day after. -/
def next (d : Date) : Date :=
  if within : d.day < monthLength d.year d.month then
    ⟨d.year, d.month, d.day + 1, d.month_pos, d.month_le, Nat.le_add_left 1 _, within⟩
  else if month : d.month < 12 then
    ⟨d.year, d.month + 1, 1, Nat.le_add_left 1 _, month, le_rfl, monthLength_pos _ _⟩
  else ⟨d.year + 1, 1, 1, le_rfl, by omega, le_rfl, monthLength_pos _ _⟩

/-- How many days a date is after the first of January of the year zero. -/
def ordinal (d : Date) : ℕ := yearStart d.year + monthEnd d.year (d.month - 1) + (d.day - 1)

/-- The date some days after the first of January of the year zero. -/
def ofOrdinal (n : ℕ) : Date := next^[n] first

/-- The day after counts one more. -/
theorem ordinal_next (d : Date) : d.next.ordinal = d.ordinal + 1 := by
  have pos := d.day_pos
  have le := d.day_le
  have month := d.month_pos
  obtain ⟨m, hm⟩ : ∃ m, d.month = m + 1 := ⟨d.month - 1, by omega⟩
  unfold next
  split
  · show yearStart d.year + monthEnd d.year (d.month - 1) + (d.day + 1 - 1) = _
    unfold ordinal
    omega
  · rename_i last
    -- The last day of a month: the month is full.
    have full : monthEnd d.year d.month = monthEnd d.year (d.month - 1) + d.day := by
      rw [hm, Nat.add_sub_cancel, monthEnd, ← hm]
      omega
    split
    · show yearStart d.year + monthEnd d.year (d.month + 1 - 1) + (1 - 1) = _
      unfold ordinal
      rw [Nat.add_sub_cancel]
      omega
    · rename_i december
      have twelve : d.month = 12 := Nat.le_antisymm d.month_le (by omega)
      have year := monthEnd_twelve d.year
      rw [← twelve] at year
      show yearStart d.year + yearLength d.year + 0 + 0 = _
      unfold ordinal
      omega

theorem ordinal_ofOrdinal (n : ℕ) : (ofOrdinal n).ordinal = n := by
  induction n with
  | zero => rfl
  | succ n ih =>
    unfold ofOrdinal at ih ⊢
    rw [Function.iterate_succ_apply', ordinal_next, ih]

/-- `d` comes before `e`: by the year, then by the month, then by the day. -/
def Before (d e : Date) : Prop :=
  d.year < e.year ∨
    d.year = e.year ∧ (d.month < e.month ∨ d.month = e.month ∧ d.day < e.day)

/-- A date is before the month after it. -/
theorem ordinal_lt_month (d : Date) :
    d.ordinal < yearStart d.year + monthEnd d.year d.month := by
  obtain ⟨m, hm⟩ : ∃ m, d.month = m + 1 := ⟨d.month - 1, by have := d.month_pos; omega⟩
  have pos := d.day_pos
  have le := d.day_le
  unfold ordinal
  rw [hm, Nat.add_sub_cancel, monthEnd, ← hm]
  omega

/-- A date is before the year after it. -/
theorem ordinal_lt_year (d : Date) : d.ordinal < yearStart (d.year + 1) := by
  have := d.ordinal_lt_month
  have := monthEnd_mono d.year d.month_le
  rw [monthEnd_twelve] at this
  rw [yearStart]
  omega

/-- **A later date has the larger ordinal.** -/
theorem ordinal_lt (h : d.Before e) : d.ordinal < e.ordinal := by
  obtain year | ⟨year, month | ⟨month, day⟩⟩ := h
  · have := d.ordinal_lt_year
    have := yearStart_mono (show d.year + 1 ≤ e.year from year)
    unfold ordinal at *
    omega
  · have := d.ordinal_lt_month
    have := monthEnd_mono e.year (show d.month ≤ e.month - 1 by omega)
    unfold ordinal at *
    rw [year] at *
    omega
  · have := d.day_pos
    unfold ordinal
    rw [year, month]
    omega

/-- Two dates are the same or one comes first. -/
theorem before_or (d e : Date) : d.Before e ∨ d = e ∨ e.Before d := by
  by_cases year : d.year = e.year
  · by_cases month : d.month = e.month
    · by_cases day : d.day = e.day
      · exact .inr (.inl (Date.ext year month day))
      · unfold Before
        omega
    · unfold Before
      omega
  · unfold Before
    omega

/-- A date is its ordinal. -/
theorem ordinal_injective : Function.Injective ordinal := by
  intro d e same
  obtain lt | eq | gt := d.before_or e
  · exact absurd (ordinal_lt lt) (by omega)
  · exact eq
  · exact absurd (ordinal_lt gt) (by omega)

theorem ofOrdinal_ordinal (d : Date) : ofOrdinal d.ordinal = d :=
  ordinal_injective (ordinal_ofOrdinal _)

end Date

end Fixbolt
