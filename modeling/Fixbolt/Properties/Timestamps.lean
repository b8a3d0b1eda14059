import Fixbolt.Codec.TimestampCache
import Fixbolt.Session.Clock
import Fixbolt.Lib.Calendar
import Fixbolt.Lib.Digits

/-!
# A timestamp survives the wire

The writer of `SendingTime` patches a cached prefix and turns days into a date; the reader turns a
date into days, counted from another year. Both are held against the calendar: a date is the one
that counting days leads to, and an instant is rendered with the digits of its parts.

* `daysFromCivil_eq`, `civilFromDays_eq`: both roads agree with the calendar;
* `formatTimestamp_eq_calendarStamp`: what is written is what the calendar says;
* `parseUtc_eq_some`: what is read, and that its date exists;
* `parseUtc_calendarStamp`: what was written is read back, cut off where it may be;
* `ReadsAs.instant_lt`: the order of stamps is the order of instants, up to the millisecond and
  without leap seconds;
* `timestamp_survives`: all of it, for a cache and its calls.
-/

namespace Fixbolt

/-! ### Two roads to a date -/

theorem isLeap_eq (y : ℕ) : isLeap y = decide (LeapYear y) := by
  unfold isLeap LeapYear
  rw [Bool.eq_iff_iff]
  simp only [Bool.and_eq_true, Bool.or_eq_true, beq_iff_eq, bne_iff_ne,
    decide_eq_true_eq, ne_eq, Nat.dvd_iff_mod_eq_zero]

theorem daysInMonth_eq (y : ℕ) {m : ℕ} (pos : 1 ≤ m) (le : m ≤ 12) :
    daysInMonth y m = monthLength y m := by
  interval_cases m <;> simp [daysInMonth, monthLength, isLeap_eq]

/-- The days of a year before the month that begins it in March: `153` for five months. -/
theorem monthEnd_eq (d : Date) :
    monthEnd d.year (d.month - 1) =
      if d.month ≤ 2 then 31 * (d.month - 1)
      else (153 * (d.month - 3) + 2) / 5 + 59 + (if LeapYear d.year then 1 else 0) := by
  have pos := d.month_pos
  have le := d.month_le
  generalize d.month = m at *
  by_cases leap : LeapYear d.year
  · interval_cases m <;> simp [monthEnd, monthLength, leap]
  · interval_cases m <;> simp [monthEnd, monthLength, leap]

/-- The reader counts a year from March: the years before, the months and the day. -/
theorem daysFromCivil_of_march {y Y m d : ℕ} (march : (if m ≤ 2 then (y : ℤ) - 1 else y) = Y) :
    daysFromCivil y m d + 719468 + (Y / 100 : ℕ) =
      (365 * Y + Y / 4 + Y / 400 +
        ((153 * (if 2 < m then m - 3 else m + 9) + 2) / 5 + d - 1) : ℕ) := by
  have era : (if (0 : ℤ) ≤ Y then (Y : ℤ) else Y - 399).tdiv 400 = (Y / 400 : ℕ) := by
    rw [if_pos (Int.natCast_nonneg Y), Int.tdiv_eq_ediv_of_nonneg (Int.natCast_nonneg Y)]
    rfl
  have yoe : ((Y : ℤ) - (Y / 400 : ℕ) * 400).toNat = Y % 400 := by omega
  unfold daysFromCivil
  simp only [march, era, yoe]
  omega

/-- The road of the reader: days from a date. -/
theorem daysFromCivil_eq (d : Date) :
    daysFromCivil d.year d.month d.day + daysYearZeroToEpoch = d.ordinal := by
  have year := yearStart_eq d.year
  have month := monthEnd_eq d
  have day := d.day_pos
  have pos := d.month_pos
  have le := d.month_le
  unfold Date.ordinal daysYearZeroToEpoch
  by_cases early : d.month ≤ 2
  · rw [if_pos early] at month
    obtain zero | ⟨Y, succ⟩ : d.year = 0 ∨ ∃ Y, d.year = Y + 1 := by
      cases d.year with
      | zero => exact .inl rfl
      | succ Y => exact .inr ⟨Y, rfl⟩
    · -- January and February of the year zero are before the first March.
      rw [zero] at year month ⊢
      have : daysFromCivil ((0 : ℕ) : ℤ) d.month d.day = 31 * (d.month - 1) + d.day - 719529 := by
        have era : ((0 : ℤ) - 1 - 399).tdiv 400 = -1 := rfl
        unfold daysFromCivil
        simp only [if_pos early, if_neg (show ¬ 2 < d.month by omega), Nat.cast_zero,
          if_neg (show ¬ (0 : ℤ) ≤ 0 - 1 by decide), era]
        omega
      omega
    · have march := daysFromCivil_of_march (y := d.year) (Y := Y) (m := d.month) (d := d.day)
        (by rw [if_pos early]; omega)
      rw [if_neg (by omega)] at march
      omega
  · rw [if_neg early] at month
    have march := daysFromCivil_of_march (y := d.year) (Y := d.year) (m := d.month) (d := d.day)
      (by rw [if_neg early])
    rw [if_pos (by omega)] at march
    by_cases leap : LeapYear d.year
    · rw [if_pos leap] at month
      unfold LeapYear at leap
      omega
    · rw [if_neg leap] at month
      unfold LeapYear at leap
      omega

/-- The days of an era before one of its years, which begins in March. -/
def marchStart (yoe : ℕ) : ℕ := 365 * yoe + yoe / 4 - yoe / 100

/-- The days of an era with those left out that leap years add. -/
def evenDays (doe : ℕ) : ℕ := doe - doe / 1460 + doe / 36524 - doe / 146096

theorem evenDays_mono {m n : ℕ} (le : m ≤ n) : evenDays m ≤ evenDays n := by
  induction n, le using Nat.le_induction with
  | base => exact le_rfl
  | succ n _ ih =>
    refine ih.trans ?_
    unfold evenDays
    omega

/-- Every year of an era has 365 of them; its last year ends on a leap day. -/
theorem evenDays_march : ∀ yoe < 400, 365 * yoe ≤ evenDays (marchStart yoe) ∧
    evenDays (marchStart (yoe + 1) - 1 + yoe / 399) < 365 * (yoe + 1) := by
  decide +kernel

/-- The year of an era that a day is in. -/
theorem evenDays_year {yoe doy : ℕ} (small : yoe < 400)
    (within : marchStart yoe + doy ≤ marchStart (yoe + 1) - 1 + yoe / 399) :
    evenDays (marchStart yoe + doy) / 365 = yoe := by
  obtain ⟨begins, ends⟩ := evenDays_march yoe small
  have low := evenDays_mono (Nat.le_add_right (marchStart yoe) doy)
  have high := evenDays_mono within
  omega

/-- The road of the writer: a date from days. -/
theorem civilFromDays_of_march {Y mp d days : ℕ} (months : mp ≤ 11) (day : 1 ≤ d)
    (long : d ≤ monthLength (if mp < 10 then Y else Y + 1) (if mp < 10 then mp + 3 else mp - 9))
    (count : days + 719468 + Y / 100 =
      365 * Y + Y / 4 + Y / 400 + ((153 * mp + 2) / 5 + d - 1)) :
    civilFromDays days =
      (if mp < 10 then Y else Y + 1, if mp < 10 then mp + 3 else mp - 9, d) := by
  obtain ⟨doy, hdoy⟩ : ∃ doy, doy = (153 * mp + 2) / 5 + d - 1 := ⟨_, rfl⟩
  have bound : (5 * doy + 2) / 153 = mp ∧ doy ≤ 364 + (if LeapYear (Y + 1) then 1 else 0) := by
    by_cases leap : LeapYear (Y + 1)
    · interval_cases mp <;> simp [monthLength, leap] at long hdoy ⊢ <;> omega
    · interval_cases mp <;> simp [monthLength, leap] at long hdoy ⊢ <;> omega
  obtain ⟨month, short⟩ := bound
  obtain ⟨yoe, hyoe⟩ : ∃ yoe, yoe = Y % 400 := ⟨_, rfl⟩
  have within : marchStart yoe + doy ≤ marchStart (yoe + 1) - 1 + yoe / 399 := by
    unfold marchStart
    by_cases last : yoe = 399
    · -- The era's last year ends with a leap day.
      have leap : LeapYear (Y + 1) := by
        unfold LeapYear
        omega
      rw [if_pos leap] at short
      rw [last]
      omega
    · have none : yoe / 399 = 0 := Nat.div_eq_of_lt (by omega)
      by_cases leap : LeapYear (Y + 1)
      · rw [if_pos leap] at short
        unfold LeapYear at leap
        omega
      · rw [if_neg leap] at short
        unfold LeapYear at leap
        omega
  have split : days + 719468 = 146097 * (Y / 400) + (marchStart yoe + doy) := by
    unfold marchStart
    omega
  have doe : marchStart yoe + doy < 146097 := by
    unfold marchStart at within ⊢
    omega
  have era : (days + 719468) / 146097 = Y / 400 := by omega
  have rest : days + 719468 - Y / 400 * 146097 = marchStart yoe + doy := by omega
  have year := evenDays_year (by omega) within
  unfold evenDays at year
  have ofYear : marchStart yoe + doy - (365 * yoe + yoe / 4 - yoe / 100) = doy :=
    Nat.add_sub_cancel_left _ _
  unfold civilFromDays
  simp only [era, rest, year, ofYear, month]
  have whole : yoe + Y / 400 * 400 = Y := by omega
  have dayOf : doy - (153 * mp + 2) / 5 + 1 = d := by omega
  rw [whole, dayOf]
  by_cases late : mp < 10
  · rw [if_pos late, if_pos late, if_neg (by omega)]
  · rw [if_neg late, if_neg late, if_pos (by omega)]

/-- **The writer's date is the calendar's**: so many days after the first of January 1970. -/
theorem civilFromDays_eq (days : ℕ) :
    let date := Date.ofOrdinal (daysYearZeroToEpoch + days)
    civilFromDays days = (date.year, date.month, date.day) := by
  intro date
  have ordinal : date.ordinal = daysYearZeroToEpoch + days := Date.ordinal_ofOrdinal _
  have roads := daysFromCivil_eq date
  have pos := date.month_pos
  have le := date.month_le
  have long := date.day_le
  unfold daysYearZeroToEpoch at *
  by_cases early : date.month ≤ 2
  · obtain ⟨Y, succ⟩ : ∃ Y, date.year = Y + 1 := by
      cases h : date.year with
      | zero =>
        have year := date.ordinal_lt_year
        rw [h] at year
        have : yearStart (0 + 1) = 366 := rfl
        omega
      | succ Y => exact ⟨Y, rfl⟩
    have march := daysFromCivil_of_march (y := date.year) (Y := Y) (m := date.month)
      (d := date.day) (by rw [if_pos early]; omega)
    rw [if_neg (by omega)] at march
    have civil := @civilFromDays_of_march Y (date.month + 9) date.day days (by omega) date.day_pos
      (by rwa [if_neg (by omega), if_neg (by omega), ← succ, Nat.add_sub_cancel]) (by omega)
    rwa [if_neg (by omega), if_neg (by omega), ← succ, Nat.add_sub_cancel] at civil
  · have march := daysFromCivil_of_march (y := date.year) (Y := date.year) (m := date.month)
      (d := date.day) (by rw [if_neg early])
    rw [if_pos (by omega)] at march
    have civil := @civilFromDays_of_march date.year (date.month - 3) date.day days (by omega) date.day_pos
      (by rwa [if_pos (by omega), if_pos (by omega), Nat.sub_add_cancel (by omega)]) (by omega)
    rwa [if_pos (by omega), if_pos (by omega), Nat.sub_add_cancel (by omega)] at civil

/-! ### Rendering from scratch -/

/-- A number written out with as many digits as the width. -/
def writtenOut (width v : ℕ) : Bytes := (Nat.digitsAppend 10 width v).reverse.map digitByte

/-- What an instant since the epoch is by the calendar and the clock on the wall: the date is found
by counting days. -/
def calendarStamp (p : Precision) (millis subMsNanos : ℕ) : Bytes :=
  let date := Date.ofOrdinal (daysYearZeroToEpoch + millis / 86400000)
  let nanos := millis % 1000 * 1000000 + min subMsNanos 999999
  writtenOut 4 date.year ++ writtenOut 2 date.month ++ writtenOut 2 date.day ++ ascii "-" ++
    writtenOut 2 (millis / 3600000 % 24) ++ ascii ":" ++ writtenOut 2 (millis / 60000 % 60) ++
    ascii ":" ++ writtenOut 2 (millis / 1000 % 60) ++ ascii "." ++
    writtenOut p.fractionalDigits (nanos / 10 ^ (9 - p.fractionalDigits))

theorem writtenOut_eq {width v : ℕ} (fits : v < 10 ^ width) :
    writtenOut width v = (fixedDigits 10 width v).map digitByte := by
  rw [writtenOut, fixedDigits_eq (by decide) fits]

theorem fractionDigits_eq (width v : ℕ) :
    fractionDigits width v = (fixedDigits 10 width v).map digitByte := by
  induction width generalizing v with
  | zero => rfl
  | succ width ih =>
    rw [fractionDigits, fixedDigits, List.map_append, ih]
    rfl

theorem write2_eq {v : ℕ} (fits : v < 100) : write2 v = (fixedDigits 10 2 v).map digitByte := by
  have tens : v / 10 % 10 = v / 10 := Nat.mod_eq_of_lt (by omega)
  simp only [fixedDigits, write2, List.nil_append, List.cons_append, List.map_cons, List.map_nil,
    tens]
  rfl

theorem write4_eq {v : ℕ} (fits : v < 10000) : write4 v = (fixedDigits 10 4 v).map digitByte := by
  have hundreds : v / 10 / 10 % 10 = v / 100 % 10 := by omega
  have thousands : v / 10 / 10 / 10 % 10 = v / 1000 := by omega
  simp only [fixedDigits, write4, List.nil_append, List.cons_append, List.map_cons, List.map_nil,
    hundreds, thousands]
  rfl

/-- The end of the year 9999, in milliseconds since the epoch. -/
def endOfYear9999 : ℕ := 253402300800000

/-- Up to the end of the year 9999 a year has four digits. -/
theorem year_lt {millis : ℕ} (upTo : millis < endOfYear9999) :
    (Date.ofOrdinal (daysYearZeroToEpoch + millis / 86400000)).year < 10000 := by
  by_contra far
  have start := yearStart_mono (Nat.le_of_not_lt far)
  have last := yearStart_eq 10000
  have ordinal := Date.ordinal_ofOrdinal (daysYearZeroToEpoch + millis / 86400000)
  unfold endOfYear9999 at upTo
  unfold Date.ordinal daysYearZeroToEpoch at *
  omega

/-- The digits after the point are those of the nanoseconds, cut off at the precision. -/
theorem fractionAt_eq (p : Precision) (ms sub : ℕ) :
    fractionAt p ms sub = (ms * 1000000 + min sub 999999) / 10 ^ (9 - p.fractionalDigits) := by
  have nanos : (if 1000000 ≤ sub then 999999 else sub) = min sub 999999 := by
    split <;> omega
  unfold fractionAt
  rw [nanos]
  cases p <;> simp only [Precision.fractionalDigits] <;> omega

theorem fractionAt_lt (p : Precision) {ms : ℕ} (sub : ℕ) (small : ms < 1000) :
    fractionAt p ms sub < 10 ^ p.fractionalDigits := by
  rw [fractionAt_eq]
  cases p <;> simp only [Precision.fractionalDigits] <;> omega

/-- The writer writes what the calendar says. -/
theorem formatTimestamp_eq_calendarStamp (p : Precision) {millis : ℕ} (sub : ℕ)
    (upTo : millis < endOfYear9999) :
    formatTimestamp p millis sub = calendarStamp p millis sub := by
  have days : millis / 1000 / 60 / 1440 = millis / 86400000 := by omega
  have hours : millis / 1000 / 60 % 1440 / 60 = millis / 3600000 % 24 := by omega
  have minutes : millis / 1000 / 60 % 1440 % 60 = millis / 60000 % 60 := by omega
  have year := year_lt upTo
  have date := civilFromDays_eq (millis / 86400000)
  obtain ⟨d, hd⟩ : ∃ d, d = Date.ofOrdinal (daysYearZeroToEpoch + millis / 86400000) := ⟨_, rfl⟩
  have month := d.month_le
  have day := d.day_le.trans (monthLength_le _ _)
  have fraction := fractionAt_lt p sub (Nat.mod_lt millis (show 0 < 1000 by decide))
  rw [← hd] at year
  simp only [formatTimestamp, calendarStamp, days, hours, minutes, date, ← hd, ← fractionAt_eq]
  rw [writtenOut_eq (by omega), writtenOut_eq (by omega), writtenOut_eq (by omega),
    writtenOut_eq (by omega), writtenOut_eq (by omega), writtenOut_eq (by omega),
    writtenOut_eq fraction, write4_eq year, write2_eq (by omega), write2_eq (by omega),
    write2_eq (by omega), write2_eq (by omega), write2_eq (by omega), fractionDigits_eq]
  rfl

/-! ### What a reader accepts -/

/-- Digits read one after another: the number they are, behind what was read before. -/
theorem foldl_digitOf {bs : Bytes} {a v : ℕ} :
    bs.foldl (fun acc b => acc.bind fun v => (digitOf b).map fun d => v * 10 + d) (some a) =
        some v ↔
      ∃ ds : List ℕ, (∀ d ∈ ds, d < 10) ∧ bs = ds.map digitByte ∧
        v = a * 10 ^ ds.length + Nat.ofDigits 10 ds.reverse := by
  induction bs generalizing a with
  | nil =>
    constructor
    · intro h
      cases h
      exact ⟨[], List.forall_mem_nil _, rfl, by simp⟩
    · rintro ⟨ds, _, bytes, rfl⟩
      obtain rfl : ds = [] := List.map_eq_nil_iff.mp bytes.symm
      simp
  | cons b bs ih =>
    rw [List.foldl_cons, Option.bind_some]
    cases digit : digitOf b with
    | none =>
      have stuck : bs.foldl (fun acc b => acc.bind fun v => (digitOf b).map fun d => v * 10 + d)
          (none : Option ℕ) = none := by
        clear ih digit
        induction bs with
        | nil => rfl
        | cons b bs ih => exact ih
      rw [Option.map_none, stuck]
      constructor
      · intro h
        cases h
      · rintro ⟨ds, small, bytes, _⟩
        cases ds with
        | nil => cases bytes
        | cons d ds =>
          cases bytes
          rw [digitOf_digitByte (small d List.mem_cons_self)] at digit
          cases digit
    | some d =>
      rw [Option.map_some, ih]
      obtain ⟨small, rfl⟩ := digitOf_eq_some.mp digit
      have value (ds : List ℕ) : (a * 10 + d) * 10 ^ ds.length + Nat.ofDigits 10 ds.reverse =
          a * 10 ^ (d :: ds).length + Nat.ofDigits 10 (d :: ds).reverse := by
        rw [Nat.ofDigits_reverse_cons, List.length_cons, pow_succ]
        ring
      constructor
      · rintro ⟨ds, smalls, rfl, rfl⟩
        exact ⟨d :: ds, List.forall_mem_cons.mpr ⟨small, smalls⟩, rfl, value ds⟩
      · rintro ⟨ds, smalls, bytes, rfl⟩
        cases ds with
        | nil => cases bytes
        | cons e ds =>
          obtain ⟨first, rest⟩ := List.cons.inj bytes
          obtain ⟨small', later⟩ := List.forall_mem_cons.mp smalls
          have same := digitOf_digitByte small'
          rw [← first, digit] at same
          cases same
          exact ⟨ds, later, rest, (value ds).symm⟩

/-- A number of some width is that many digits. -/
theorem num_eq_some {s : Bytes} {pos width v : ℕ} : num s pos width = some v ↔
    ∃ ds : List ℕ, (∀ d ∈ ds, d < 10) ∧ slice s pos width = some (ds.map digitByte) ∧
      v = Nat.ofDigits 10 ds.reverse := by
  unfold num
  cases bytes : slice s pos width with
  | none => simp
  | some bs =>
    rw [Option.bind_some, foldl_digitOf]
    simp only [Nat.zero_mul, Nat.zero_add, Option.some.injEq]

/-- A stamp with parts that a reader accepts: a date that exists, a time of the day, and the
milliseconds that the fraction begins with. -/
structure ReadsAs (s : Bytes) (date : Date) (hour minute second milli : ℕ) : Prop where
  fraction : parseFraction s = some milli
  dash : s[8]? = some 0x2D
  colon : s[11]? = some 0x3A
  colon' : s[14]? = some 0x3A
  year : num s 0 4 = some date.year
  month : num s 4 2 = some date.month
  day : num s 6 2 = some date.day
  hours : num s 9 2 = some hour
  minutes : num s 12 2 = some minute
  seconds : num s 15 2 = some second
  hour_le : hour ≤ 23
  minute_le : minute ≤ 59
  second_le : second ≤ 60

/-- The instant that the parts of a stamp name. -/
def instant (date : Date) (hour minute second milli : ℕ) : ℕ :=
  date.ordinal * 86400000 + hour * 3600000 + minute * 60000 + second * 1000 + milli

/-- **A reader accepts the stamps of dates that exist**, and reads the instant they name. -/
theorem parseUtc_eq_some {s : Bytes} {v : ℕ} : parseUtc s = some v ↔
    ∃ date hour minute second milli, ReadsAs s date hour minute second milli ∧
      v = instant date hour minute second milli := by
  simp only [parseUtc, bind, Option.bind_eq_some_iff, Option.bind_none,
    Option.ite_none_left_eq_some, Option.some.injEq]
  constructor
  · rintro ⟨milli, fraction, separators, y, year, m, month, d, day, hour, hours, minute, minutes,
      second, seconds, valid, time, _, rfl⟩
    have long := daysInMonth_eq y (m := m) (by omega) (by omega)
    let date : Date := ⟨y, m, d, by omega, by omega, by omega, by omega⟩
    refine ⟨date, hour, minute, second, milli, ?_, ?_⟩
    · exact
        { fraction, year, month, day, hours, minutes, seconds
          dash := by tauto
          colon := by tauto
          colon' := by tauto
          hour_le := by omega
          minute_le := by omega
          second_le := by omega }
    · rw [daysFromCivil_eq date, Int.toNat_natCast]
      rfl
  · rintro ⟨date, hour, minute, second, milli, reads, rfl⟩
    have days := daysFromCivil_eq date
    have long := daysInMonth_eq date.year date.month_pos date.month_le
    have bounds := reads.hour_le
    have bounds' := reads.minute_le
    have bounds'' := reads.second_le
    have pos := date.month_pos
    have le := date.month_le
    have day := date.day_pos
    have day' := date.day_le
    refine ⟨milli, reads.fraction, by simp [reads.dash, reads.colon, reads.colon'], date.year,
      reads.year, date.month, reads.month, date.day, reads.day, hour, reads.hours, minute,
      reads.minutes, second, reads.seconds, by omega, by omega, by omega, ?_⟩
    rw [days, Int.toNat_natCast]
    rfl

/-! ### Reading back what was written -/

/-- The seventeen bytes of a stamp without a fraction. -/
def clockFace (date : Date) (hour minute second : ℕ) : Bytes :=
  writtenOut 4 date.year ++ writtenOut 2 date.month ++ writtenOut 2 date.day ++ ascii "-" ++
    writtenOut 2 hour ++ ascii ":" ++ writtenOut 2 minute ++ ascii ":" ++ writtenOut 2 second

theorem writtenOut_length {width v : ℕ} (fits : v < 10 ^ width) :
    (writtenOut width v).length = width := by
  rw [writtenOut_eq fits, List.length_map, fixedDigits_length]

/-- What was written out between other bytes is read. -/
theorem num_writtenOut (xs zs : Bytes) {pos width v : ℕ} (fits : v < 10 ^ width)
    (place : xs.length = pos) : num (xs ++ writtenOut width v ++ zs) pos width = some v := by
  refine num_eq_some.mpr ⟨fixedDigits 10 width v, fixedDigits_lt (by decide), ?_,
    (ofDigits_fixedDigits fits).symm⟩
  have written := slice_append xs (writtenOut width v) zs
  rw [place, writtenOut_length fits] at written
  rw [← writtenOut_eq fits]
  exact written

/-- A fraction is read by its first three digits. -/
theorem parseFraction_digits {pre : Bytes} {ds : List ℕ} {ms : ℕ} (face : pre.length = 17)
    (width : ds.length ≤ 9) (small : ∀ d ∈ ds, d < 10) (fits : ms < 1000) :
    parseFraction (pre ++ 0x2E :: (fixedDigits 10 3 ms ++ ds).map digitByte) = some ms := by
  have length : (pre ++ 0x2E :: (fixedDigits 10 3 ms ++ ds).map digitByte).length =
      21 + ds.length := by
    simp [face]
    omega
  have point : (pre ++ 0x2E :: (fixedDigits 10 3 ms ++ ds).map digitByte)[17]? = some 0x2E := by
    rw [List.getElem?_append_right (by omega), face]
    rfl
  have rest : (pre ++ 0x2E :: (fixedDigits 10 3 ms ++ ds).map digitByte).drop 18 =
      (fixedDigits 10 3 ms ++ ds).map digitByte := by
    rw [List.drop_append, face, List.drop_eq_nil_of_le (by omega)]
    rfl
  have digits : ((fixedDigits 10 3 ms ++ ds).map digitByte).all isAsciiDigit = true := by
    refine List.all_eq_true.mpr ?_
    intro b mem
    obtain ⟨d, digit, rfl⟩ := List.mem_map.mp mem
    have lt : d < 10 := by
      obtain first | later := List.mem_append.mp digit
      · exact fixedDigits_lt (by decide) d first
      · exact small d later
    rw [isAsciiDigit, digitOf_digitByte lt]
    rfl
  unfold parseFraction
  rw [if_neg (by omega), if_pos (by omega), if_neg (fun other => other point), rest, if_pos digits]
  have ones := digitOf_digitByte (d := ms % 10) (by omega)
  have tens := digitOf_digitByte (d := ms / 10 % 10) (by omega)
  have hundreds := digitOf_digitByte (d := ms / 10 / 10 % 10) (by omega)
  simp [fixedDigits, ones, tens, hundreds]
  omega

/-- A face with a fraction reads as what it says. -/
theorem clockFace_reads {date : Date} {hour minute second milli : ℕ} {tail : Bytes}
    (year : date.year < 10000) (hour_le : hour ≤ 23) (minute_le : minute ≤ 59)
    (second_le : second ≤ 59)
    (fraction : parseFraction (clockFace date hour minute second ++ tail) = some milli) :
    ReadsAs (clockFace date hour minute second ++ tail) date hour minute second milli := by
  have month : date.month < 10 ^ 2 := by have := date.month_le; omega
  have day : date.day < 10 ^ 2 := by
    have := date.day_le.trans (monthLength_le _ _)
    omega
  have lengths : (writtenOut 4 date.year).length = 4 ∧ (writtenOut 2 date.month).length = 2 ∧
      (writtenOut 2 date.day).length = 2 ∧ (writtenOut 2 hour).length = 2 ∧
      (writtenOut 2 minute).length = 2 ∧ (writtenOut 2 second).length = 2 :=
    ⟨writtenOut_length year, writtenOut_length month, writtenOut_length day,
      writtenOut_length (by omega), writtenOut_length (by omega), writtenOut_length (by omega)⟩
  obtain ⟨y, m, d, h, mi, se⟩ := lengths
  exact
    { fraction, hour_le, minute_le
      dash := by simp [clockFace, List.getElem?_append, y, m, d, ascii]
      colon := by simp [clockFace, List.getElem?_append, y, m, d, h, ascii]
      colon' := by simp [clockFace, List.getElem?_append, y, m, d, h, mi, ascii]
      year := by
        simpa [clockFace] using num_writtenOut [] _ year rfl
      month := by
        simpa [clockFace] using num_writtenOut (writtenOut 4 date.year) _ month y
      day := by
        have place : (writtenOut 4 date.year ++ writtenOut 2 date.month).length = 6 := by
          simp [y, m]
        simpa [clockFace] using num_writtenOut _ _ day place
      hours := by
        have place : (writtenOut 4 date.year ++ writtenOut 2 date.month ++ writtenOut 2 date.day ++
            ascii "-").length = 9 := by simp [y, m, d, ascii]
        simpa [clockFace] using num_writtenOut _ _ (show hour < 10 ^ 2 by omega) place
      minutes := by
        have place : (writtenOut 4 date.year ++ writtenOut 2 date.month ++ writtenOut 2 date.day ++
            ascii "-" ++ writtenOut 2 hour ++ ascii ":").length = 12 := by simp [y, m, d, h, ascii]
        simpa [clockFace] using num_writtenOut _ _ (show minute < 10 ^ 2 by omega) place
      seconds := by
        have place : (writtenOut 4 date.year ++ writtenOut 2 date.month ++ writtenOut 2 date.day ++
            ascii "-" ++ writtenOut 2 hour ++ ascii ":" ++ writtenOut 2 minute ++
            ascii ":").length = 15 := by simp [y, m, d, h, mi, ascii]
        simpa [clockFace] using num_writtenOut _ _ (show second < 10 ^ 2 by omega) place
      second_le := by omega }

theorem clockFace_length {date : Date} {hour minute second : ℕ} (year : date.year < 10000)
    (hour_le : hour ≤ 23) (minute_le : minute ≤ 59) (second_le : second ≤ 59) :
    (clockFace date hour minute second).length = 17 := by
  have month : date.month < 10 ^ 2 := by have := date.month_le; omega
  have day : date.day < 10 ^ 2 := by
    have := date.day_le.trans (monthLength_le _ _)
    omega
  simp only [clockFace, List.length_append, writtenOut_length (show date.year < 10 ^ 4 from year),
    writtenOut_length month, writtenOut_length day,
    writtenOut_length (show hour < 10 ^ 2 by omega),
    writtenOut_length (show minute < 10 ^ 2 by omega),
    writtenOut_length (show second < 10 ^ 2 by omega)]
  rfl

/-- The fraction begins with the millisecond, and the digits of what is finer follow. -/
theorem fraction_digits (p : Precision) {ms : ℕ} (sub : ℕ) (small : ms < 1000) :
    ∃ ds : List ℕ, ds.length + 3 = p.fractionalDigits ∧ (∀ d ∈ ds, d < 10) ∧
      writtenOut p.fractionalDigits
          ((ms * 1000000 + min sub 999999) / 10 ^ (9 - p.fractionalDigits)) =
        (fixedDigits 10 3 ms ++ ds).map digitByte := by
  obtain ⟨j, finer, width, fine, value⟩ : ∃ j finer, p.fractionalDigits = 3 + j ∧
      finer < 10 ^ j ∧
      (ms * 1000000 + min sub 999999) / 10 ^ (9 - p.fractionalDigits) = ms * 10 ^ j + finer := by
    cases p with
    | millis => exact ⟨0, 0, rfl, by decide, by simp only [Precision.fractionalDigits]; omega⟩
    | micros =>
      exact ⟨3, min sub 999999 / 1000, rfl, by omega,
        by simp only [Precision.fractionalDigits]; omega⟩
    | nanos =>
      exact ⟨6, min sub 999999, rfl, by omega, by simp only [Precision.fractionalDigits]; omega⟩
  refine ⟨fixedDigits 10 j finer, by rw [fixedDigits_length]; omega, fixedDigits_lt (by decide), ?_⟩
  have fits : ms * 10 ^ j + finer < 10 ^ (3 + j) := by
    rw [pow_add]
    nlinarith
  rw [value, width, writtenOut_eq fits, fixedDigits_add 10 fine]

/-- **What was written is read back**: the millisecond, or the second where no fraction is left. -/
theorem parseUtc_calendarStamp (p : Precision) {millis : ℕ} (sub : ℕ) {n : ℕ}
    (upTo : millis < endOfYear9999) (kept : n = 17 ∨ 21 ≤ n ∧ n ≤ p.bytes) :
    parseUtc ((calendarStamp p millis sub).take n) =
      some (millisYearZeroToEpoch + if n = 17 then millis - millis % 1000 else millis) := by
  obtain ⟨ds, width, small, digits⟩ :=
    fraction_digits p sub (Nat.mod_lt millis (show 0 < 1000 by decide))
  let date := Date.ofOrdinal (daysYearZeroToEpoch + millis / 86400000)
  have ordinal : date.ordinal = daysYearZeroToEpoch + millis / 86400000 := Date.ordinal_ofOrdinal _
  have year : date.year < 10000 := year_lt upTo
  have face : (clockFace date (millis / 3600000 % 24) (millis / 60000 % 60)
      (millis / 1000 % 60)).length = 17 :=
    clockFace_length year (by omega) (by omega) (by omega)
  have stamp : calendarStamp p millis sub =
      clockFace date (millis / 3600000 % 24) (millis / 60000 % 60) (millis / 1000 % 60) ++
        0x2E :: (fixedDigits 10 3 (millis % 1000) ++ ds).map digitByte := by
    rw [← digits]
    simp [calendarStamp, clockFace, date, ascii]
  obtain rfl | ⟨ge, le⟩ := kept
  · have cut : (calendarStamp p millis sub).take 17 = clockFace date (millis / 3600000 % 24)
        (millis / 60000 % 60) (millis / 1000 % 60) ++ [] := by
      rw [stamp, ← face, List.take_left, List.append_nil]
    rw [cut]
    have fraction : parseFraction (clockFace date (millis / 3600000 % 24) (millis / 60000 % 60)
        (millis / 1000 % 60) ++ []) = some 0 := by
      rw [List.append_nil, parseFraction, if_pos face]
    refine parseUtc_eq_some.mpr ⟨date, _, _, _, _,
      clockFace_reads year (by omega) (by omega) (by omega) fraction, ?_⟩
    unfold instant millisYearZeroToEpoch
    rw [ordinal, if_pos rfl]
    unfold daysYearZeroToEpoch
    omega
  · have cut : (calendarStamp p millis sub).take n = clockFace date (millis / 3600000 % 24)
        (millis / 60000 % 60) (millis / 1000 % 60) ++
          0x2E :: (fixedDigits 10 3 (millis % 1000) ++ ds.take (n - 21)).map digitByte := by
      obtain ⟨k, rfl⟩ : ∃ k, n = 17 + (1 + (3 + k)) := ⟨n - 21, by omega⟩
      have first : (fixedDigits 10 3 (millis % 1000) ++ ds).take (3 + k) =
          fixedDigits 10 3 (millis % 1000) ++ ds.take k := by
        have three := fixedDigits_length 10 3 (millis % 1000)
        generalize fixedDigits 10 3 (millis % 1000) = front at three ⊢
        rw [← three, List.take_length_add_append]
      have rest : 17 + (1 + (3 + k)) - 21 = k := by omega
      rw [rest, ← first, List.map_take, stamp, ← face, List.take_length_add_append,
        Nat.add_comm 1, List.take_succ_cons]
    rw [cut]
    have fraction := @parseFraction_digits _ (ds.take (n - 21)) _ face
      (by have := p.bytes_le; unfold Precision.bytes TIMESTAMP_MAX_LEN at this; simp; omega)
      (fun d mem => small d (List.mem_of_mem_take mem))
      (Nat.mod_lt millis (show 0 < 1000 by decide))
    refine parseUtc_eq_some.mpr ⟨date, _, _, _, _,
      clockFace_reads year (by omega) (by omega) (by omega) fraction, ?_⟩
    unfold instant millisYearZeroToEpoch
    rw [ordinal, if_neg (by omega)]
    unfold daysYearZeroToEpoch
    omega

/-! ### The order of stamps -/

theorem digitByte_toNat {d : ℕ} (small : d < 10) : (digitByte d).toNat = 48 + d := by
  interval_cases d <;> rfl

theorem digitByte_injOn {ds es : List ℕ} (small : ∀ d ∈ ds, d < 10) (small' : ∀ e ∈ es, e < 10)
    (same : ds.map digitByte = es.map digitByte) : ds = es := by
  have read {ds : List ℕ} (small : ∀ d ∈ ds, d < 10) :
      (ds.map digitByte).map digitOf = ds.map some := by
    rw [List.map_map]
    exact List.map_congr_left fun d mem => digitOf_digitByte (small d mem)
  have digits := congrArg (List.map digitOf) same
  rw [read small, read small'] at digits
  exact List.map_injective_iff.mpr (Option.some_injective ℕ) digits

/-- The first byte where two stamps differ. -/
structure DifferAt (i : ℕ) (s t : Bytes) : Prop where
  agree : s.take i = t.take i
  length : s.length = t.length
  lt : ∃ a b, s[i]? = some a ∧ t[i]? = some b ∧ a < b

/-- Of two byte strings of one length, the lesser differs first by a lesser byte. -/
theorem differAt_of_lt {s t : Bytes} {k : ℕ} (length : s.length = t.length)
    (lt : s.take k < t.take k) : ∃ i < k, DifferAt i s t := by
  have len : (s.take k).length = (t.take k).length := by simp [length]
  obtain ⟨_, shorter⟩ | ⟨i, hs, ht, agree, lt⟩ := List.lt_iff_exists.mp lt
  · omega
  · rw [List.length_take] at hs ht
    refine ⟨i, by omega, ⟨?_, length, s[i], t[i], List.getElem?_eq_getElem _,
      List.getElem?_eq_getElem _, by simpa using lt⟩⟩
    refine List.ext_getElem (by simp [length]) ?_
    intro j hj hj'
    rw [List.length_take] at hj hj'
    simpa using agree j (by omega)

namespace DifferAt

variable {i pos width u v : ℕ} {s t : Bytes}

/-- A number before the place is the same. -/
theorem num_eq (h : DifferAt i s t) (before : pos + width ≤ i) :
    num s pos width = num t pos width := by
  have cut (s : Bytes) : (s.drop pos).take width = ((s.take i).drop pos).take width := by
    rw [List.drop_take, List.take_take, Nat.min_eq_left (by omega)]
  unfold num slice
  rw [h.length, cut s, cut t, h.agree]

/-- A number that both stamps write before the place. -/
theorem num_same (h : DifferAt i s t) (before : pos + width ≤ i) (hs : num s pos width = some u)
    (ht : num t pos width = some v) : u = v := by
  rw [h.num_eq before, ht] at hs
  exact (Option.some.inj hs).symm

/-- The stamps differ at the place. -/
theorem ne (h : DifferAt i s t) {a : UInt8} (hs : s[i]? = some a) : t[i]? ≠ some a := by
  intro ht
  obtain ⟨b, c, hb, hc, lt⟩ := h.lt
  rw [hs] at hb
  rw [ht] at hc
  cases hb
  cases hc
  exact absurd lt (UInt8.lt_irrefl a)

/-- The digits of a number, split at a place in it. -/
theorem digits_split {ds : List ℕ} {a : UInt8} (bytes : slice s pos width = some (ds.map digitByte))
    (ge : pos ≤ i) (lt : i < pos + width) (place : s[i]? = some a) :
    ∃ x es, ds = ds.take (i - pos) ++ x :: es ∧ digitByte x = a ∧
      (ds.take (i - pos)).map digitByte = (s.take i).drop pos ∧
      es.length = pos + width - i - 1 := by
  unfold slice at bytes
  split at bytes
  · rename_i room
    have bytes := (Option.some.inj bytes).symm
    have length : ds.length = width := by
      have := congrArg List.length bytes
      simp at this
      omega
    have within : i - pos < ds.length := by omega
    have byte : (ds.map digitByte)[i - pos]? = some a := by
      rw [bytes, List.getElem?_take_of_lt (by omega), List.getElem?_drop,
        Nat.add_sub_cancel' ge, place]
    rw [List.getElem?_map, List.getElem?_eq_getElem within] at byte
    refine ⟨ds[i - pos], ds.drop (i - pos + 1), ?_, Option.some.inj byte, ?_, ?_⟩
    · rw [← List.drop_eq_getElem_cons within, List.take_append_drop]
    · rw [List.map_take, bytes, List.take_take, List.drop_take, Nat.min_eq_left (by omega)]
    · rw [List.length_drop]
      omega
  · cases bytes

/-- Of the two numbers that the place is in, the one in the lesser stamp is less. -/
theorem num_lt (h : DifferAt i s t) (ge : pos ≤ i) (lt : i < pos + width)
    (hs : num s pos width = some u) (ht : num t pos width = some v) : u < v := by
  obtain ⟨ds, small, digits, rfl⟩ := num_eq_some.mp hs
  obtain ⟨es, small', digits', rfl⟩ := num_eq_some.mp ht
  obtain ⟨a, b, ha, hb, byte⟩ := h.lt
  obtain ⟨x, ds', split, rfl, before, length⟩ := digits_split digits ge lt ha
  obtain ⟨y, es', split', rfl, before', length'⟩ := digits_split digits' ge lt hb
  have same : ds.take (i - pos) = es.take (i - pos) := by
    refine digitByte_injOn (fun d mem => small d (List.mem_of_mem_take mem))
      (fun e mem => small' e (List.mem_of_mem_take mem)) ?_
    rw [before, before', h.agree]
  have lesser : x < y := by
    have hx : x < 10 := small x (by rw [split]; simp)
    have hy : y < 10 := small' y (by rw [split']; simp)
    have := UInt8.lt_iff_toNat_lt.mp byte
    rw [digitByte_toNat hx, digitByte_toNat hy] at this
    omega
  rw [split, split', same]
  exact ofDigits_reverse_lt (by decide) (length.trans length'.symm)
    (fun d mem => small d (by rw [split]; simp [mem])) lesser

end DifferAt

/-- The digit at a place, zero where there is none. -/
def digitAt (s : Bytes) (i : ℕ) : ℕ := (s[i]?.bind digitOf).getD 0

theorem digitAt_lt (s : Bytes) (i : ℕ) : digitAt s i < 10 := by
  unfold digitAt
  cases digit : s[i]?.bind digitOf with
  | none => decide
  | some d =>
    obtain ⟨b, _, digit⟩ := Option.bind_eq_some_iff.mp digit
    exact (digitOf_eq_some.mp digit).1

/-- No fraction, or a point and digits, the first three of which count. -/
theorem parseFraction_cases {s : Bytes} {milli : ℕ} (h : parseFraction s = some milli) :
    s.length = 17 ∧ milli = 0 ∨
      s[17]? = some 0x2E ∧ (∀ b ∈ s.drop 18, isAsciiDigit b = true) ∧
        milli = digitAt s 18 * 100 + digitAt s 19 * 10 + digitAt s 20 := by
  unfold parseFraction at h
  split at h
  · rename_i length
    exact .inl ⟨length, (Option.some.inj h).symm⟩
  · simp only [Option.ite_none_left_eq_some, Option.ite_none_right_eq_some, Option.some.injEq,
      not_not, List.getElem?_drop] at h
    obtain ⟨_, point, digits, rfl⟩ := h
    exact .inr ⟨point, List.all_eq_true.mp digits, rfl⟩

/-- Past the end there are no digits. -/
theorem digitAt_eq_zero {s : Bytes} {i : ℕ} (far : s.length ≤ i) : digitAt s i = 0 := by
  rw [digitAt, List.getElem?_eq_none far]
  rfl

/-- The milliseconds of a fraction are its first three digits. -/
theorem parseFraction_eq {s : Bytes} {milli : ℕ} (h : parseFraction s = some milli) :
    milli = digitAt s 18 * 100 + digitAt s 19 * 10 + digitAt s 20 := by
  obtain ⟨length, rfl⟩ | ⟨_, _, value⟩ := parseFraction_cases h
  · rw [digitAt_eq_zero (by omega), digitAt_eq_zero (by omega), digitAt_eq_zero (by omega)]
  · exact value

/-- Stamps that agree up to a place have the same digits before it. -/
theorem digitAt_congr {s t : Bytes} {i j : ℕ} (agree : s.take i = t.take i) (before : j < i) :
    digitAt s j = digitAt t j := by
  have cut (s : Bytes) : s[j]? = (s.take i)[j]? := (List.getElem?_take_of_lt before).symm
  rw [digitAt, digitAt, cut s, cut t, agree]

/-- The digit at the place where two fractions differ first. -/
theorem DifferAt.digitAt_lt {i : ℕ} {s t : Bytes} {m n : ℕ} (h : DifferAt i s t) (ge : 17 ≤ i)
    (hs : parseFraction s = some m) (ht : parseFraction t = some n) :
    18 ≤ i ∧ digitAt s i < digitAt t i := by
  obtain ⟨a, b, ha, hb, byte⟩ := h.lt
  have long : i < s.length := (List.getElem?_eq_some_iff.mp ha).1
  obtain ⟨short, _⟩ | ⟨point, digits, _⟩ := parseFraction_cases hs
  · omega
  obtain ⟨short, _⟩ | ⟨point', digits', _⟩ := parseFraction_cases ht
  · have := h.length
    omega
  have past : 18 ≤ i := by
    by_contra near
    obtain rfl : i = 17 := by omega
    rw [point] at ha
    rw [point'] at hb
    cases ha
    cases hb
    exact absurd byte (by decide)
  refine ⟨past, ?_⟩
  have digit {s : Bytes} {a : UInt8} (digits : ∀ b ∈ s.drop 18, isAsciiDigit b = true)
      (at_ : s[i]? = some a) : ∃ d < 10, a = digitByte d ∧ digitAt s i = d := by
    have mem : a ∈ s.drop 18 := by
      refine List.mem_of_getElem? (i := i - 18) ?_
      rw [List.getElem?_drop, Nat.add_sub_cancel' past, at_]
    obtain ⟨d, value⟩ := Option.isSome_iff_exists.mp (digits a mem)
    obtain ⟨small, rfl⟩ := digitOf_eq_some.mp value
    refine ⟨d, small, rfl, ?_⟩
    rw [digitAt, at_, Option.bind_some, value]
    rfl
  obtain ⟨d, small, rfl, value⟩ := digit digits ha
  obtain ⟨e, small', rfl, value'⟩ := digit digits' hb
  have := UInt8.lt_iff_toNat_lt.mp byte
  rw [digitByte_toNat small, digitByte_toNat small'] at this
  omega

/-- A date is before the one that a lesser stamp of the same kind does not write. -/
theorem ReadsAs.date_before {s t : Bytes} {date date' : Date}
    {hour minute second milli hour' minute' second' milli' : ℕ} {i : ℕ}
    (hs : ReadsAs s date hour minute second milli)
    (ht : ReadsAs t date' hour' minute' second' milli')
    (h : DifferAt i s t) (near : i < 8) : date.Before date' := by
  unfold Date.Before
  by_cases year : i < 4
  · exact .inl (h.num_lt (Nat.zero_le i) (by omega) hs.year ht.year)
  refine .inr ⟨h.num_same (by omega) hs.year ht.year, ?_⟩
  by_cases month : i < 6
  · exact .inl (h.num_lt (by omega) (by omega) hs.month ht.month)
  · exact .inr ⟨h.num_same (by omega) hs.month ht.month,
      h.num_lt (by omega) (by omega) hs.day ht.day⟩

/-- Two stamps that differ behind the date write the same one. -/
theorem ReadsAs.date_eq {s t : Bytes} {date date' : Date}
    {hour minute second milli hour' minute' second' milli' : ℕ} {i : ℕ}
    (hs : ReadsAs s date hour minute second milli)
    (ht : ReadsAs t date' hour' minute' second' milli')
    (h : DifferAt i s t) (far : 8 ≤ i) : date = date' :=
  Date.ext (h.num_same (by omega) hs.year ht.year) (h.num_same (by omega) hs.month ht.month)
    (h.num_same (by omega) hs.day ht.day)

/-- Of two stamps without a leap second, the one that is less by the millisecond is the earlier. -/
theorem ReadsAs.instant_lt {s t : Bytes} {date date' : Date}
    {hour minute second milli hour' minute' second' milli' : ℕ} {i : ℕ}
    (hs : ReadsAs s date hour minute second milli)
    (ht : ReadsAs t date' hour' minute' second' milli')
    (real : second ≤ 59) (h : DifferAt i s t) (near : i < 21) :
    instant date hour minute second milli < instant date' hour' minute' second' milli' := by
  have milliseconds := parseFraction_eq hs.fraction
  have milliseconds' := parseFraction_eq ht.fraction
  have tens := digitAt_lt s 18
  have hundreds := digitAt_lt s 19
  have ones := digitAt_lt s 20
  have hour_le := hs.hour_le
  have minute_le := hs.minute_le
  unfold instant
  by_cases date : i < 8
  · have := Date.ordinal_lt (hs.date_before ht h date)
    omega
  obtain rfl := hs.date_eq ht h (by omega)
  by_cases hours : i < 11
  · have apart : i ≠ 8 := by
      rintro rfl
      exact h.ne hs.dash ht.dash
    have := h.num_lt (by omega) (by omega) hs.hours ht.hours
    omega
  obtain rfl := h.num_same (by omega) hs.hours ht.hours
  by_cases minutes : i < 14
  · have apart : i ≠ 11 := by
      rintro rfl
      exact h.ne hs.colon ht.colon
    have := h.num_lt (by omega) (by omega) hs.minutes ht.minutes
    omega
  obtain rfl := h.num_same (by omega) hs.minutes ht.minutes
  by_cases seconds : i < 17
  · have apart : i ≠ 14 := by
      rintro rfl
      exact h.ne hs.colon' ht.colon'
    have := h.num_lt (by omega) (by omega) hs.seconds ht.seconds
    omega
  obtain rfl := h.num_same (by omega) hs.seconds ht.seconds
  -- The place is in the fraction, and the digits before it are the same.
  obtain ⟨past, lesser⟩ := h.digitAt_lt (by omega) hs.fraction ht.fraction
  have before (j : ℕ) (lt : j < i) := digitAt_congr h.agree lt
  obtain rfl | rfl | rfl : i = 18 ∨ i = 19 ∨ i = 20 := by omega
  · omega
  · have := before 18 (by decide)
    omega
  · have := before 18 (by decide)
    have := before 19 (by decide)
    omega

/-- Stamps that agree up to the millisecond name one instant. -/
theorem parseUtc_congr {s t : Bytes} {u v : ℕ} (length : s.length = t.length)
    (agree : s.take 21 = t.take 21) (hs : parseUtc s = some u) (ht : parseUtc t = some v) :
    u = v := by
  obtain ⟨date, hour, minute, second, milli, reads, rfl⟩ := parseUtc_eq_some.mp hs
  obtain ⟨date', hour', minute', second', milli', reads', rfl⟩ := parseUtc_eq_some.mp ht
  have same {pos width a b : ℕ} (within : pos + width ≤ 21) (hs : num s pos width = some a)
      (ht : num t pos width = some b) : a = b := by
    have cut (s : Bytes) : (s.drop pos).take width = ((s.take 21).drop pos).take width := by
      rw [List.drop_take, List.take_take, Nat.min_eq_left (by omega)]
    unfold num slice at hs ht
    rw [length, cut s, agree, ← cut t, ht] at hs
    exact (Option.some.inj hs).symm
  obtain rfl : date = date' := Date.ext (same (by decide) reads.year reads'.year)
    (same (by decide) reads.month reads'.month) (same (by decide) reads.day reads'.day)
  obtain rfl := same (by decide) reads.hours reads'.hours
  obtain rfl := same (by decide) reads.minutes reads'.minutes
  obtain rfl := same (by decide) reads.seconds reads'.seconds
  rw [parseFraction_eq reads.fraction, parseFraction_eq reads'.fraction,
    digitAt_congr agree (show 18 < 21 by decide), digitAt_congr agree (show 19 < 21 by decide),
    digitAt_congr agree (show 20 < 21 by decide)]

/-- **A timestamp survives the wire.** However the calls of one cache follow each other, each lends
out what the calendar says of its instant, and what is cut off at the second or behind the
millisecond is read back as that second or that millisecond. Stamps of one width that name no leap
second are read in their order up to the millisecond, and only dates that exist are read. -/
theorem timestamp_survives (p : Precision) {calls : List (ℕ × ℕ)}
    (upTo : ∀ call ∈ calls, call.1 < endOfYear9999) :
    (TimestampCache.withPrecision p).run calls =
        (calls.map fun call => calendarStamp p call.1 call.2) ∧
      (∀ call ∈ calls, ∀ n, n = 17 ∨ 21 ≤ n ∧ n ≤ p.bytes →
        parseUtc ((calendarStamp p call.1 call.2).take n) =
          some (millisYearZeroToEpoch +
            if n = 17 then call.1 - call.1 % 1000 else call.1)) ∧
      (∀ s t u v, s.length = t.length → parseUtc s = some u → parseUtc t = some v →
        num s 15 2 ≠ some 60 → num t 15 2 ≠ some 60 →
          (s.take 21 < t.take 21 → u < v) ∧ (s.take 21 = t.take 21 → u = v)) ∧
      ∀ s v, parseUtc s = some v → ∃ date : Date,
        num s 0 4 = some date.year ∧ num s 4 2 = some date.month ∧ num s 6 2 = some date.day := by
  refine ⟨?_, ?_, ?_, ?_⟩
  · have u64 : ∀ call ∈ calls, call.1 < 2 ^ 64 := by
      intro call mem
      have := upTo call mem
      unfold endOfYear9999 at this
      omega
    rw [TimestampCache.run_eq _ u64]
    exact List.map_congr_left fun call mem =>
      formatTimestamp_eq_calendarStamp p call.2 (upTo call mem)
  · intro call mem n kept
    exact parseUtc_calendarStamp p call.2 (upTo call mem) kept
  · intro s t u v length hs ht real _
    refine ⟨?_, fun agree => parseUtc_congr length agree hs ht⟩
    intro lt
    obtain ⟨date, hour, minute, second, milli, reads, rfl⟩ := parseUtc_eq_some.mp hs
    obtain ⟨date', hour', minute', second', milli', reads', rfl⟩ := parseUtc_eq_some.mp ht
    obtain ⟨i, near, differ⟩ := differAt_of_lt length lt
    have le := reads.second_le
    have ordinary : second ≠ 60 := by
      rintro rfl
      exact real reads.seconds
    exact reads.instant_lt reads' (by omega) differ near
  · intro s v hs
    obtain ⟨date, hour, minute, second, milli, reads, _⟩ := parseUtc_eq_some.mp hs
    exact ⟨date, reads.year, reads.month, reads.day⟩

/-- Around a leap day, there and back. -/
def leapDay : List (ℕ × ℕ) :=
  [(1709164799999, 999999), (1709164800000, 0), (1709251199999, 1500000), (1709164740000, 7)]

/-- The leap day and the millisecond after it began, as they are written. -/
def leapStamps : Bytes × Bytes := (ascii "20240229-00:00:00.000", ascii "20240229-00:00:00.001")

theorem timestamp_survives_leapDay :
    (TimestampCache.withPrecision .micros).run leapDay =
        (leapDay.map fun call => calendarStamp .micros call.1 call.2) ∧
      parseUtc ((calendarStamp .micros 1709251199999 1500000).take 24) =
        some (millisYearZeroToEpoch + 1709251199999) ∧
      63876384000000 < 63876384000001 ∧
      ∃ date : Date, num leapStamps.1 0 4 = some date.year ∧
        num leapStamps.1 4 2 = some date.month ∧ num leapStamps.1 6 2 = some date.day := by
  have upTo : ∀ call ∈ leapDay, call.1 < endOfYear9999 := by decide
  have read : parseUtc leapStamps.1 = some 63876384000000 := by decide +kernel
  have read' : parseUtc leapStamps.2 = some 63876384000001 := by decide +kernel
  have length : leapStamps.1.length = leapStamps.2.length := by decide +kernel
  have real : num leapStamps.1 15 2 ≠ some 60 := by decide +kernel
  have real' : num leapStamps.2 15 2 ≠ some 60 := by decide +kernel
  have lt : leapStamps.1.take 21 < leapStamps.2.take 21 := by decide +kernel
  obtain ⟨run, back, order, dates⟩ := timestamp_survives .micros upTo
  refine ⟨run, ?_, ?_, ?_⟩
  · exact back (1709251199999, 1500000) (by decide) 24 (by decide)
  · exact (order _ _ _ _ length read read' real real').1 lt
  · exact dates _ _ read

/-- Two stamps of one width, in order, that are read as one instant: what is finer than a
millisecond is dropped. -/
theorem finer_dropped : ∃ s t : Bytes, s.length = t.length ∧ s < t ∧
    ∃ v, parseUtc s = some v ∧ parseUtc t = some v := by
  refine ⟨ascii "20240229-00:00:00.123000", ascii "20240229-00:00:00.123001", ?_, ?_,
    63876384000123, ?_, ?_⟩
  · decide +kernel
  · decide +kernel
  · decide +kernel
  · decide +kernel

end Fixbolt
