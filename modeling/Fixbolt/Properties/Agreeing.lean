import Fixbolt.Codec.Integer
import Fixbolt.Properties.Decimals
import Fixbolt.Properties.Timestamps

/-!
# One field, two readers

The dictionary says whether a value has the format of its type, and a reader of its own makes a number
or an instant of it. Of numbers the two agree on every value. Of timestamps they agree but for a date
past the end of its month, which the dictionary lets through up to the 31st.

* `asU32_reads_iff`, `asI64_reads_iff`, `asDecimal_reads_iff`: numbers;
* `utcTimestamp_iff`: what the dictionary takes for a timestamp;
* `stamps_agree_iff`: when both readers of a timestamp agree.
-/

namespace Fixbolt

variable {v s : Bytes}

/-- Does a value read as something, if only as one that is too large? -/
def Understood {α : Type*} (r : Except ConvertError α) : Prop := (∃ a, r = .ok a) ∨ r = .error .overflow

/-! ### Digits -/

theorem isAsciiDigit_iff {b : UInt8} : isAsciiDigit b = true ↔ ∃ d, d < 10 ∧ b = digitByte d := by
  unfold isAsciiDigit
  rw [Option.isSome_iff_exists]
  exact exists_congr fun d => digitOf_eq_some

/-- Bytes that are digits are the digits of a list. -/
theorem all_digits_iff : v.all isAsciiDigit = true ↔
    ∃ ds : List ℕ, (∀ d ∈ ds, d < 10) ∧ v = ds.map digitByte := by
  induction v with
  | nil => exact iff_of_true rfl ⟨[], List.forall_mem_nil _, rfl⟩
  | cons b v ih =>
    rw [List.all_cons, Bool.and_eq_true, isAsciiDigit_iff, ih]
    constructor
    · rintro ⟨⟨d, small, rfl⟩, ds, smalls, rfl⟩
      exact ⟨d :: ds, List.forall_mem_cons.mpr ⟨small, smalls⟩, rfl⟩
    · rintro ⟨ds, smalls, eq⟩
      cases ds with
      | nil => cases eq
      | cons d ds =>
        obtain ⟨rfl, rfl⟩ := List.cons.inj eq
        obtain ⟨small, smalls⟩ := List.forall_mem_cons.mp smalls
        exact ⟨⟨d, small, rfl⟩, ds, smalls, rfl⟩

/-- Both readers take off one leading minus. -/
theorem splitSign_snd (v : Bytes) : (splitSign v).2 = stripMinus v := by
  cases v with
  | nil => rfl
  | cons b rest =>
    rw [splitSign]
    split
    · rename_i minus
      rw [minus]
      rfl
    · rename_i other
      unfold stripMinus
      split
      · rename_i eq
        exact absurd (List.cons.inj eq).1 other
      · rfl

/-! ### Integers -/

theorem asU32Loop_reads (acc : Option ℕ) :
    Understood (asU32Loop v acc) ↔ v.all isAsciiDigit = true := by
  induction v generalizing acc with
  | nil => cases acc <;> simp [asU32Loop, Understood]
  | cons b v ih =>
    rw [asU32Loop, List.all_cons, isAsciiDigit]
    cases digitOf b with
    | none => simp [Understood]
    | some d =>
      dsimp only
      rw [ih]
      simp

/-- **Counts agree.** -/
theorem asU32_reads_iff : Understood (asU32 v) ↔ unsignedInt v = true := by
  unfold asU32 unsignedInt
  split
  · rename_i empty
    simp [Understood, empty]
  · rename_i some_
    rw [asU32Loop_reads]
    simp [some_]

theorem asI64Loop_ok_iff (acc : Option ℤ) :
    (∃ n, asI64Loop v acc = .ok n) ↔ v.all isAsciiDigit = true := by
  induction v generalizing acc with
  | nil => simp [asI64Loop]
  | cons b v ih =>
    rw [asI64Loop, List.all_cons, isAsciiDigit]
    cases digitOf b with
    | none => simp
    | some d =>
      dsimp only
      rw [ih]
      simp

theorem asI64Loop_error {acc : Option ℤ} {e : ConvertError} (h : asI64Loop v acc = .error e) :
    e = .notANumber := by
  induction v generalizing acc with
  | nil => cases h
  | cons b v ih =>
    rw [asI64Loop] at h
    split at h
    · cases h
      rfl
    · exact ih h

/-- **Integers agree.** -/
theorem asI64_reads_iff : Understood (asI64 v) ↔ signedInt v = true := by
  unfold asI64 signedInt unsignedInt
  rw [splitSign_snd]
  split
  · rename_i empty
    simp [Understood, empty]
  · rename_i some_
    have digits := asI64Loop_ok_iff (v := stripMinus v) (some 0)
    cases loop : asI64Loop (stripMinus v) (some 0) with
    | error e =>
      obtain rfl := asI64Loop_error loop
      rw [loop] at digits
      simpa [Understood, some_] using digits
    | ok n =>
      have all := digits.mp ⟨n, loop⟩
      cases n with
      | none => simp [Understood, all, some_]
      | some n =>
        dsimp only
        split
        · simp [Understood, all, some_]
        · split <;> simp [Understood, all, some_]

/-! ### Floats -/

/-- What stands before the first point, and behind it. -/
theorem split_point {whole : Bytes} (fraction : Option Bytes) (clean : POINT ∉ whole) :
    let body := whole ++ fraction.elim [] (POINT :: ·)
    body.takeWhile (· != 0x2E) = whole ∧ (body.drop whole.length).drop 1 = fraction.getD [] := by
  have before : ∀ b ∈ whole, (b != 0x2E) = true := fun b mem =>
    bne_iff_ne.mpr fun eq => clean (by rwa [POINT, ← eq])
  constructor
  · rw [List.takeWhile_append_of_pos before]
    cases fraction <;> simp [POINT]
  · rw [List.drop_left]
    cases fraction <;> rfl

/-- Every value is of that form. -/
theorem exists_point (body : Bytes) : ∃ (whole : Bytes) (fraction : Option Bytes),
    POINT ∉ whole ∧ body = whole ++ fraction.elim [] (POINT :: ·) := by
  by_cases mem : POINT ∈ body
  · obtain ⟨whole, rest, eq, clean⟩ := List.eq_append_cons_of_mem mem
    exact ⟨whole, some rest, clean, eq⟩
  · exact ⟨body, none, mem, (List.append_nil body).symm⟩

/-- What the dictionary asks of a number whose parts these are. -/
theorem signedNumber_parts {whole : Bytes} {fraction : Option Bytes} (clean : POINT ∉ whole)
    (parts : stripMinus v = whole ++ fraction.elim [] (POINT :: ·)) : signedNumber v = true ↔
      whole ++ fraction.getD [] ≠ [] ∧ whole.all isAsciiDigit = true ∧
        (fraction.getD []).all isAsciiDigit = true := by
  obtain ⟨front, back⟩ := split_point fraction clean
  unfold signedNumber
  dsimp only
  rw [parts, front, back]
  cases fraction <;> cases whole <;> simp

/-- **The text of a numeral is what the dictionary takes for a number.** -/
theorem signedNumber_iff : signedNumber v = true ↔ ∃ n : Numeral, n.text = v := by
  constructor
  · intro accepted
    obtain ⟨whole, fraction, clean, parts⟩ := exists_point (stripMinus v)
    obtain ⟨some_, front, back⟩ := (signedNumber_parts clean parts).mp accepted
    obtain ⟨ds, small, rfl⟩ := all_digits_iff.mp front
    obtain ⟨es, small', digits⟩ := all_digits_iff.mp back
    have signed := splitSign_eq v
    rw [splitSign_snd, parts] at signed
    cases fraction with
    | none =>
      refine ⟨⟨(splitSign v).1, ds, none, by simpa using small, by simpa using some_⟩, ?_⟩
      exact Eq.trans (by simp [Numeral.text, Numeral.tail]) signed.symm
    | some rest =>
      obtain rfl : rest = es.map digitByte := digits
      refine ⟨⟨(splitSign v).1, ds, some es, fun d mem => ?_, by simpa using some_⟩, ?_⟩
      · exact (List.mem_append.mp mem).elim (small d) (small' d)
      · exact Eq.trans (by simp [Numeral.text, Numeral.tail]) signed.symm
  · rintro ⟨n, rfl⟩
    have body : stripMinus n.text =
        n.whole.map digitByte ++ (n.fraction.map (·.map digitByte)).elim [] (POINT :: ·) := by
      rw [← splitSign_snd, splitSign_text]
      unfold Numeral.tail
      cases n.fraction <;> rfl
    have below := n.small
    have clean : POINT ∉ n.whole.map digitByte := by
      intro mem
      obtain ⟨d, inside, eq⟩ := List.mem_map.mp mem
      exact digitByte_ne_point (below d (List.mem_append_left _ inside)) eq
    refine (signedNumber_parts clean body).mpr ⟨?_, ?_, ?_⟩
    · have some_ := n.some_digit
      cases fraction : n.fraction with
      | none => simpa [fraction] using some_
      | some ds => simpa [fraction] using some_
    · exact all_digits_iff.mpr ⟨n.whole, fun d mem => below d (List.mem_append_left _ mem), rfl⟩
    · refine all_digits_iff.mpr ⟨n.fraction.getD [], fun d mem =>
        below d (List.mem_append_right _ mem), ?_⟩
      cases n.fraction <;> rfl

theorem checked_error {mantissa exponent : ℤ} {e : ConvertError}
    (h : Decimal.checked mantissa exponent = .error e) : e = .overflow := by
  unfold Decimal.checked at h
  split at h
  · exact absurd h (by simp)
  · exact (Except.error.inj h).symm

theorem asDecimal_error {e : ConvertError} (h : asDecimal v = .error e) :
    e = .notANumber ∨ e = .overflow := by
  unfold asDecimal at h
  split at h
  · rename_i scan
    cases h
    exact .inl (scanDecimal_error scan)
  · split at h
    · cases h
      exact .inl rfl
    · split at h
      · cases h
        exact .inr rfl
      · exact .inr (checked_error h)

/-- **Floats agree.** -/
theorem asDecimal_reads_iff : Understood (asDecimal v) ↔ signedNumber v = true := by
  rw [signedNumber_iff, ← not_iff_not, ← asDecimal_notANumber_iff]
  constructor
  · intro unread
    cases read : asDecimal v with
    | ok d => exact absurd (.inl ⟨d, read⟩) unread
    | error e =>
      rcases asDecimal_error read with rfl | rfl
      · rfl
      · exact absurd (.inr read) unread
  · rintro notANumber (⟨d, read⟩ | read) <;> rw [notANumber] at read <;> cases read

/-! ### Timestamps -/

/-- Nothing behind the seconds, or a point and one to twelve digits. -/
def FractionForm (s : Bytes) : Prop :=
  s.length = 17 ∨ 19 ≤ s.length ∧ s.length ≤ 30 ∧ s[17]? = some 0x2E ∧
    (s.drop 18).all isAsciiDigit = true

/-- A stamp with these parts: a month of the year, a day up to the 31st, a time of the day. -/
structure WrittenAs (s : Bytes) (year month day hour minute second : ℕ) : Prop where
  fraction : FractionForm s
  dash : s[8]? = some 0x2D
  colon : s[11]? = some 0x3A
  colon' : s[14]? = some 0x3A
  years : num s 0 4 = some year
  months : num s 4 2 = some month
  days : num s 6 2 = some day
  hours : num s 9 2 = some hour
  minutes : num s 12 2 = some minute
  seconds : num s 15 2 = some second
  month_pos : 1 ≤ month
  month_le : month ≤ 12
  day_pos : 1 ≤ day
  day_le : day ≤ 31
  hour_le : hour ≤ 23
  minute_le : minute ≤ 59
  second_le : second ≤ 60

/-- A stamp whose day is past the end of its month. -/
def PastMonthEnd (s : Bytes) : Prop :=
  ∃ year month day hour minute second, WrittenAs s year month day hour minute second ∧
    daysInMonth year month < day

theorem parseFraction_isSome : (parseFraction s).isSome ↔ FractionForm s := by
  unfold parseFraction FractionForm
  split
  · rename_i short
    simp [short]
  · rename_i long
    split
    · rename_i bounds
      split
      · rename_i point
        simp [long, point]
      · rename_i point
        rw [not_not] at point
        dsimp only
        split <;> simp_all
    · rename_i bounds
      simp only [Option.isSome_none, Bool.false_eq_true, false_iff]
      tauto

theorem num_drop {k pos width : ℕ} (long : k ≤ s.length) :
    num (s.drop k) pos width = num s (k + pos) width := by
  have same : slice (s.drop k) pos width = slice s (k + pos) width := by
    unfold slice
    rw [List.length_drop, List.drop_drop]
    exact if_congr (by omega) rfl rfl
  rw [num, same, num]

theorem num_take {k pos width : ℕ} (within : pos + width ≤ k) (long : k ≤ s.length) :
    num (s.take k) pos width = num s pos width := by
  have same : slice (s.take k) pos width = slice s pos width := by
    unfold slice
    rw [List.length_take, Nat.min_eq_left long, if_pos within, if_pos (within.trans long),
      List.drop_take, List.take_take, Nat.min_eq_left (by omega)]
  rw [num, same, num]

/-- Two digits are a number of width two. -/
theorem twoAt_eq_num (pos : ℕ) : twoAt s pos = num s pos 2 := by
  have first : s[pos]? = (s.drop pos)[0]? := by simp
  have second : s[pos + 1]? = (s.drop pos)[1]? := by simp
  have long : (s.drop pos).length = s.length - pos := List.length_drop
  unfold twoAt num slice
  rw [first, second]
  cases rest : s.drop pos with
  | nil =>
    rw [rest, List.length_nil] at long
    rw [if_neg (by omega)]
    rfl
  | cons a rest' =>
    cases rest' with
    | nil =>
      rw [rest, List.length_singleton] at long
      rw [if_neg (by omega)]
      rfl
    | cons b rest' =>
      rw [rest, List.length_cons, List.length_cons] at long
      rw [if_pos (by omega)]
      show twoDigit a b = ((digitOf a).map fun d => 0 * 10 + d).bind fun v =>
        (digitOf b).map fun d => v * 10 + d
      unfold twoDigit
      cases digitOf a <;> cases digitOf b <;> simp

/-- A number of some width is there if digits are. -/
theorem num_isSome {pos width : ℕ} (long : pos + width ≤ s.length) :
    (num s pos width).isSome ↔ ((s.drop pos).take width).all isAsciiDigit = true := by
  rw [all_digits_iff, Option.isSome_iff_exists]
  simp only [num_eq_some, slice, if_pos long, Option.some.injEq]
  constructor
  · rintro ⟨_, ds, small, eq, -⟩
    exact ⟨ds, small, eq⟩
  · rintro ⟨ds, small, eq⟩
    exact ⟨_, ds, small, eq, rfl⟩

/-- A date of the dictionary: eight digits, with a month and a day. -/
theorem date_iff (long : 8 ≤ s.length) : date (s.take 8) = true ↔ ∃ year month day,
    num s 0 4 = some year ∧ num s 4 2 = some month ∧ num s 6 2 = some day ∧
      1 ≤ month ∧ month ≤ 12 ∧ 1 ≤ day ∧ day ≤ 31 := by
  have parts : (s.take 8).all isAsciiDigit = true ↔
      (num s 0 4).isSome ∧ (num s 4 2).isSome ∧ (num s 6 2).isSome := by
    have split_ : s.take 8 = (s.drop 0).take 4 ++ ((s.drop 4).take 2 ++ (s.drop 6).take 2) := by
      rw [← List.drop_drop (i := 2) (j := 4), ← List.take_add, List.drop_zero, ← List.take_add]
    rw [num_isSome (by omega), num_isSome (by omega), num_isSome (by omega), split_,
      List.all_append, List.all_append, Bool.and_eq_true, Bool.and_eq_true]
  unfold date
  rw [twoAt_eq_num, twoAt_eq_num, num_take (by omega) long, num_take (by omega) long,
    Bool.and_eq_true, Bool.and_eq_true, parts]
  have len : ((s.take 8).length == 8) = true := by simp [long]
  rw [len]
  cases num s 0 4 with
  | none => simp
  | some year =>
    cases num s 4 2 with
    | none => simp
    | some month =>
      cases num s 6 2 with
      | none => simp
      | some day => simp [and_assoc]

/-- A time of the day of the dictionary. -/
theorem time_iff (long : 9 ≤ s.length) : time (s.drop 9) = true ↔ FractionForm s ∧
    s[11]? = some 0x3A ∧ s[14]? = some 0x3A ∧ ∃ hour minute second, num s 9 2 = some hour ∧
      num s 12 2 = some minute ∧ num s 15 2 = some second ∧
        hour ≤ 23 ∧ minute ≤ 59 ∧ second ≤ 60 := by
  unfold time FractionForm
  rw [twoAt_eq_num, twoAt_eq_num, twoAt_eq_num, num_drop long, num_drop long, num_drop long,
    List.getElem?_drop, List.getElem?_drop, List.getElem?_drop, List.drop_drop, List.length_drop]
  cases num s (9 + 0) 2 with
  | none => simp
  | some hour =>
    cases num s (9 + 3) 2 with
    | none => simp
    | some minute =>
      cases num s (9 + 6) 2 with
      | none => simp
      | some second =>
        have short : s.length - 9 = 8 ↔ s.length = 17 := by omega
        have wide : (10 ≤ s.length - 9 ∧ s.length - 9 ≤ 21) ↔ 19 ≤ s.length ∧ s.length ≤ 30 := by
          omega
        simp only [Bool.and_eq_true, Bool.or_eq_true, beq_iff_eq, decide_eq_true_eq,
          Option.some.injEq, short, wide]
        constructor
        · rintro ⟨⟨⟨⟨widths, colon⟩, colon'⟩, ⟨hours, minutes⟩, seconds⟩, fraction⟩
          refine ⟨?_, colon, colon', hour, minute, second, rfl, rfl, rfl, hours, minutes, seconds⟩
          by_cases bare : s.length = 17
          · exact .inl bare
          · obtain ⟨least, most⟩ := widths.resolve_left bare
            exact .inr ⟨least, most, fraction.resolve_left bare⟩
        · rintro ⟨fraction, colon, colon', _, _, _, rfl, rfl, rfl, hours, minutes, seconds⟩
          refine ⟨⟨⟨⟨?_, colon⟩, colon'⟩, ⟨hours, minutes⟩, seconds⟩, ?_⟩
          · exact fraction.imp_right fun ⟨least, most, _⟩ => ⟨least, most⟩
          · exact fraction.imp_right fun ⟨_, _, tail⟩ => tail

/-- **What the dictionary takes for a timestamp.** -/
theorem utcTimestamp_iff : Fixbolt.utcTimestamp s = true ↔ ∃ year month day hour minute second,
    WrittenAs s year month day hour minute second := by
  have dashed : Fixbolt.utcTimestamp s = true ↔
      s[8]? = some 0x2D ∧ date (s.take 8) = true ∧ time (s.drop 9) = true := by
    have here : s[8]? = (s.drop 8)[0]? := by simp
    have rest : s.drop 9 = (s.drop 8).drop 1 := by simp
    unfold Fixbolt.utcTimestamp
    rw [here, rest]
    cases s.drop 8 with
    | nil => simp
    | cons b t =>
      by_cases dash : b = 0x2D
      · subst dash
        simp
      · refine iff_of_false (fun accepted => ?_) (by simp [dash])
        split at accepted
        · rename_i eq
          exact dash (List.cons.inj eq).1
        · cases accepted
  rw [dashed]
  constructor
  · rintro ⟨dash, accepted, clock⟩
    have long : 9 ≤ s.length := (List.getElem?_eq_some_iff.mp dash).1
    obtain ⟨year, month, day, years, months, days, m1, m2, d1, d2⟩ :=
      (date_iff (by omega)).mp accepted
    obtain ⟨fraction, colon, colon', hour, minute, second, hours, minutes, seconds, h, m, x⟩ :=
      (time_iff long).mp clock
    exact ⟨year, month, day, hour, minute, second, fraction, dash, colon, colon', years, months, days,
      hours, minutes, seconds, m1, m2, d1, d2, h, m, x⟩
  · rintro ⟨year, month, day, hour, minute, second, w⟩
    have long : 9 ≤ s.length := (List.getElem?_eq_some_iff.mp w.dash).1
    refine ⟨w.dash, (date_iff (by omega)).mpr ?_, (time_iff long).mpr ?_⟩
    · exact ⟨year, month, day, w.years, w.months, w.days, w.month_pos, w.month_le, w.day_pos,
        w.day_le⟩
    · exact ⟨w.fraction, w.colon, w.colon', hour, minute, second, w.hours, w.minutes, w.seconds,
        w.hour_le, w.minute_le, w.second_le⟩

/-- **What has an instant.** -/
theorem parseUtc_iff : (parseUtc s).isSome ↔ ∃ year month day hour minute second,
    WrittenAs s year month day hour minute second ∧ day ≤ daysInMonth year month := by
  rw [Option.isSome_iff_exists]
  constructor
  · rintro ⟨v, read⟩
    obtain ⟨d, hour, minute, second, milli, r, -⟩ := parseUtc_eq_some.mp read
    have long := daysInMonth_eq d.year d.month_pos d.month_le
    have within := monthLength_le d.year d.month
    have fits := d.day_le
    refine ⟨d.year, d.month, d.day, hour, minute, second, ?_, by omega⟩
    exact
      { fraction := parseFraction_isSome.mp (Option.isSome_iff_exists.mpr ⟨milli, r.fraction⟩)
        dash := r.dash
        colon := r.colon
        colon' := r.colon'
        years := r.year
        months := r.month
        days := r.day
        hours := r.hours
        minutes := r.minutes
        seconds := r.seconds
        month_pos := d.month_pos
        month_le := d.month_le
        day_pos := d.day_pos
        day_le := fits.trans within
        hour_le := r.hour_le
        minute_le := r.minute_le
        second_le := r.second_le }
  · rintro ⟨year, month, day, hour, minute, second, w, fits⟩
    have long := daysInMonth_eq year w.month_pos w.month_le
    obtain ⟨milli, fraction⟩ := Option.isSome_iff_exists.mp (parseFraction_isSome.mpr w.fraction)
    let d : Date := ⟨year, month, day, w.month_pos, w.month_le, w.day_pos, long ▸ fits⟩
    refine ⟨_, parseUtc_eq_some.mpr ⟨d, hour, minute, second, milli, ?_, rfl⟩⟩
    exact
      { fraction
        dash := w.dash
        colon := w.colon
        colon' := w.colon'
        year := w.years
        month := w.months
        day := w.days
        hours := w.hours
        minutes := w.minutes
        seconds := w.seconds
        hour_le := w.hour_le
        minute_le := w.minute_le
        second_le := w.second_le }

/-- The parts of a stamp are in its text. -/
theorem WrittenAs.unique {year month day hour minute second year' month' day' hour' minute'
    second' : ℕ} (w : WrittenAs s year month day hour minute second)
    (w' : WrittenAs s year' month' day' hour' minute' second') :
    year = year' ∧ month = month' ∧ day = day' :=
  ⟨Option.some.inj (w.years.symm.trans w'.years), Option.some.inj (w.months.symm.trans w'.months),
    Option.some.inj (w.days.symm.trans w'.days)⟩

/-- **Both readers of a timestamp agree but where its day is past the end of its month.** -/
theorem stamp_agrees_iff :
    ((parseUtc s).isSome ↔ FieldType.utcTimestamp.accepts s = true) ↔ ¬ PastMonthEnd s := by
  have accepts : FieldType.utcTimestamp.accepts s = Fixbolt.utcTimestamp s := by
    cases s with
    | nil => rfl
    | cons b s => rfl
  rw [accepts, utcTimestamp_iff, parseUtc_iff]
  constructor
  · rintro agree ⟨year, month, day, hour, minute, second, w, past⟩
    obtain ⟨_, _, _, _, _, _, w', fits⟩ := agree.mpr ⟨_, _, _, _, _, _, w⟩
    obtain ⟨rfl, rfl, rfl⟩ := w.unique w'
    exact absurd fits (Nat.not_le.mpr past)
  · intro within
    constructor
    · rintro ⟨year, month, day, hour, minute, second, w, -⟩
      exact ⟨_, _, _, _, _, _, w⟩
    · rintro ⟨year, month, day, hour, minute, second, w⟩
      refine ⟨_, _, _, _, _, _, w, Nat.not_lt.mp fun past => within ?_⟩
      exact ⟨_, _, _, _, _, _, w, past⟩

/-! ### All the readers -/

/-- The types the dictionaries read as decimals. -/
def floatTypes : List FieldType := [.float, .qty, .price, .priceOffset, .amt, .percentage]

/-- The types they read as countTypes. -/
def countTypes : List FieldType := [.length, .seqNum, .numInGroup]

/-- The readers of numbers and the dictionary agree on a value. -/
structure NumbersAgree (v : Bytes) : Prop where
  float : ∀ t ∈ floatTypes, Understood (asDecimal v) ↔ t.accepts v = true
  int : Understood (asI64 v) ↔ FieldType.int.accepts v = true
  count : ∀ t ∈ countTypes, Understood (asU32 v) ↔ t.accepts v = true

theorem numbersAgree (v : Bytes) : NumbersAgree v := by
  refine ⟨fun t mem => ?_, ?_, fun t mem => ?_⟩
  · rw [asDecimal_reads_iff]
    simp only [floatTypes, List.mem_cons, List.not_mem_nil, or_false] at mem
    rcases mem with rfl | rfl | rfl | rfl | rfl | rfl <;> cases v <;> rfl
  · rw [asI64_reads_iff]
    cases v <;> rfl
  · rw [asU32_reads_iff]
    simp only [countTypes, List.mem_cons, List.not_mem_nil, or_false] at mem
    rcases mem with rfl | rfl | rfl <;> cases v <;> rfl

/-- **The readers agree with the dictionary**: of numbers on every value, of timestamps exactly on
those that are no stamp with a day past the end of its month. -/
theorem field_readers_agree_iff (s : Bytes) :
    NumbersAgree s ∧
      (((parseUtc s).isSome ↔ FieldType.utcTimestamp.accepts s = true) ↔ ¬ PastMonthEnd s) :=
  ⟨numbersAgree s, stamp_agrees_iff⟩

/-- **The dictionary takes the 30th of February for a timestamp**, and it has no instant. -/
theorem thirtieth_of_february :
    ¬ ∀ s, (parseUtc s).isSome ↔ FieldType.utcTimestamp.accepts s = true := by
  intro agree
  have accepted : FieldType.utcTimestamp.accepts (ascii "20260230-12:00:00") = true := by decide
  have read := (agree _).mpr accepted
  revert read
  decide

end Fixbolt
