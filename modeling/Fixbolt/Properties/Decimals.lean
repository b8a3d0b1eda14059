import Fixbolt.Codec.Decimal
import Mathlib.Data.Nat.Digits.Lemmas
import Mathlib.Data.Rat.Defs
import Mathlib.Tactic.FieldSimp
import Mathlib.Tactic.Ring

/-!
# Decimals on the wire

A value of the grammar `-? digit* ('.' digit*)?` with a digit in it is a `Numeral`. The reader answers
what the numeral is, or an overflow, and of anything else that it is not a number; the writer writes a
numeral of the decimal it was given.

* `asDecimal_text`, `asDecimal_notANumber_iff`: what the reader makes of any value;
* `format_eq_text`: what the writer writes;
* `decimals_survive`: nothing is rounded, dropped or added on the way.
-/

namespace Fixbolt

open Nat (ofDigits)

/-! ### The cursor -/

namespace Writer

theorem putAll_eq (w : Writer) (bytes : Bytes) :
    w.putAll bytes = ⟨w.written ++ bytes.take w.room, w.room - bytes.length⟩ := by
  induction bytes generalizing w with
  | nil => simp [putAll]
  | cons b bytes ih =>
    have step : w.putAll (b :: bytes) = (w.put b).putAll bytes := rfl
    rw [step, ih]
    unfold put
    split
    · rename_i full
      simp [full]
    · rename_i room
      obtain ⟨k, hk⟩ : ∃ k, w.room = k + 1 := ⟨w.room - 1, by omega⟩
      simp [hk]

theorem put_eq_putAll (w : Writer) (b : UInt8) : w.put b = w.putAll [b] := rfl

theorem putAll_putAll (w : Writer) (xs ys : Bytes) :
    (w.putAll xs).putAll ys = w.putAll (xs ++ ys) := by
  unfold putAll
  rw [List.foldl_append]

/-- Nothing that fits is dropped. -/
theorem putAll_written {bytes : Bytes} {room : ℕ} (fits : bytes.length ≤ room) :
    ((⟨[], room⟩ : Writer).putAll bytes).written = bytes := by
  rw [putAll_eq, List.take_of_length_le fits, List.nil_append]

end Writer

/-! ### Digits -/

/-- The digits of a number, the first the largest, and one for zero. -/
def numberDigits (n : ℕ) : List ℕ := if n = 0 then [0] else (Nat.digits 10 n).reverse

theorem numberDigits_lt {n : ℕ} : ∀ d ∈ numberDigits n, d < 10 := by
  intro d mem
  unfold numberDigits at mem
  split at mem
  · simp only [List.mem_singleton] at mem
    omega
  · exact Nat.digits_lt_base (by decide) (List.mem_reverse.mp mem)

theorem ofDigits_numberDigits (n : ℕ) : ofDigits 10 (numberDigits n).reverse = n := by
  unfold numberDigits
  split
  · rename_i zero
    simp [zero]
  · rw [List.reverse_reverse, Nat.ofDigits_digits]

theorem numberDigits_ne_nil (n : ℕ) : numberDigits n ≠ [] := by
  unfold numberDigits
  split
  · exact List.cons_ne_nil _ _
  · rename_i pos
    rw [Ne, List.reverse_eq_nil_iff]
    exact Nat.digits_ne_nil_iff_ne_zero.mpr pos

theorem numberDigits_length_pos (n : ℕ) : 0 < (numberDigits n).length :=
  List.length_pos_iff.mpr (numberDigits_ne_nil n)

theorem numberDigits_length_le {n k : ℕ} (pos : 0 < k) (fits : n < 10 ^ k) :
    (numberDigits n).length ≤ k := by
  unfold numberDigits
  split
  · exact pos
  · rw [List.length_reverse]
    exact (Nat.digits_length_le_iff (by decide) n).mpr fits

theorem digitLoop_eq (slots : ℕ) {n : ℕ} (pos : 0 < slots) (fits : n < 10 ^ slots) (acc : Bytes) :
    digitLoop slots n acc = (numberDigits n).map digitByte ++ acc := by
  induction slots generalizing n acc with
  | zero => exact absurd pos (Nat.lt_irrefl 0)
  | succ slots ih =>
    unfold digitLoop
    dsimp only
    split
    · rename_i last
      have small : n < 10 := by omega
      have only : numberDigits n = [n] := by
        unfold numberDigits
        split
        · rename_i zero
          rw [zero]
        · rename_i nonzero
          rw [Nat.digits_of_lt 10 n nonzero small, List.reverse_singleton]
      rw [only, Nat.mod_eq_of_lt small]
      rfl
    · rename_i more
      have rest : n / 10 < 10 ^ slots := by
        rw [pow_succ] at fits
        exact Nat.div_lt_of_lt_mul (by rwa [mul_comm] at fits)
      have room : 0 < slots := by
        rcases Nat.eq_zero_or_pos slots with rfl | pos
        · rw [pow_zero] at rest
          omega
        · exact pos
      have split_ : numberDigits n = numberDigits (n / 10) ++ [n % 10] := by
        unfold numberDigits
        rw [if_neg more, if_neg (by omega), Nat.digits_def' (by decide) (by omega),
          List.reverse_cons]
      rw [ih room rest, split_, List.map_append, List.append_assoc]
      rfl

/-! ### Numerals -/

/-- A value of the grammar: a sign, digits, and digits behind a point; at least one digit. -/
structure Numeral where
  negative : Bool
  whole : List ℕ
  fraction : Option (List ℕ)
  small : ∀ d ∈ whole ++ fraction.getD [], d < 10
  some_digit : whole ++ fraction.getD [] ≠ []

namespace Numeral

variable (n : Numeral)

/-- All its digits. -/
def digits : List ℕ := n.whole ++ n.fraction.getD []

/-- How many of them stand behind the point. -/
def places : ℕ := (n.fraction.getD []).length

/-- The number its digits are. -/
def magnitude : ℕ := ofDigits 10 n.digits.reverse

/-- The number it is. -/
def value : ℚ := (if n.negative then -1 else 1) * n.magnitude / 10 ^ n.places

/-- The point and what stands behind it. -/
def tail : Bytes :=
  match n.fraction with
  | none => []
  | some ds => POINT :: ds.map digitByte

/-- The numeral written out. -/
def text : Bytes :=
  (if n.negative then [MINUS] else []) ++ n.whole.map digitByte ++ n.tail

/-- What the reader says of it. -/
def read : Except ConvertError Decimal :=
  if n.magnitude ≤ i64Max then
    Decimal.checked (if n.negative then -n.magnitude else n.magnitude) (-n.places)
  else .error .overflow

end Numeral

/-- A byte string stands for a number, with so many digits behind the point. -/
def Denotes (v : Bytes) (q : ℚ) (places : ℕ) : Prop :=
  ∃ n : Numeral, n.text = v ∧ n.value = q ∧ n.places = places

/-! ### Reading a numeral -/

/-- A number held in an `i64`. -/
theorem checkedI64_digit (m d : ℕ) (small : d < 10) :
    ((checkedI64 (m * 10)).bind fun m => checkedI64 (m + d)) = checkedI64 (m * 10 + d) := by
  unfold checkedI64
  split
  · rfl
  · rw [if_neg (by omega)]
    rfl

theorem foldl_digit {ds : List ℕ} (small : ∀ d ∈ ds, d < 10) (m : ℕ) (s : DecimalScan)
    (front : s.magnitude = checkedI64 m) :
    (ds.foldl DecimalScan.digit s).magnitude =
        checkedI64 (m * 10 ^ ds.length + ofDigits 10 ds.reverse) ∧
      (ds.foldl DecimalScan.digit s).anyDigit = (s.anyDigit || !ds.isEmpty) ∧
      (ds.foldl DecimalScan.digit s).point = s.point ∧
      (s.fractionDigits ≤ u32Max → (ds.foldl DecimalScan.digit s).fractionDigits =
        if s.point then min (s.fractionDigits + ds.length) u32Max else s.fractionDigits) := by
  induction ds generalizing m s with
  | nil =>
    refine ⟨by simpa using front, by simp, rfl, fun le => ?_⟩
    cases s.point
    · rfl
    · exact (Nat.min_eq_left le).symm
  | cons d ds ih =>
    have next : (s.digit d).magnitude = checkedI64 (m * 10 + d) := by
      have step := checkedI64_digit m d (small d List.mem_cons_self)
      by_cases fits : m ≤ i64Max
      · rw [checkedI64, if_pos fits] at front
        simpa [DecimalScan.digit, front] using step
      · rw [checkedI64, if_neg fits] at front
        rw [checkedI64, if_neg (by omega)]
        simp [DecimalScan.digit, front]
    obtain ⟨magnitude, any, point, places⟩ :=
      ih (fun x mem => small x (List.mem_cons_of_mem d mem)) (m * 10 + d) (s.digit d) next
    have value : (m * 10 + d) * 10 ^ ds.length + ofDigits 10 ds.reverse =
        m * 10 ^ (d :: ds).length + ofDigits 10 (d :: ds).reverse := by
      rw [List.reverse_cons, Nat.ofDigits_append, List.length_reverse, List.length_cons, pow_succ,
        Nat.ofDigits_singleton]
      ring
    rw [List.foldl_cons]
    have seen : (s.digit d).anyDigit = true := rfl
    have kept : (s.digit d).point = s.point := rfl
    have more : (s.digit d).fractionDigits =
      if s.point then min (s.fractionDigits + 1) u32Max else s.fractionDigits := rfl
    rw [seen] at any
    rw [kept, more] at places
    refine ⟨by rw [magnitude, value], by simp [any], point, fun le => ?_⟩
    rw [List.length_cons]
    generalize u32Max = most at *
    rw [places (by split <;> omega)]
    split
    · omega
    · rfl

theorem scanDecimal_digits {ds : List ℕ} (small : ∀ d ∈ ds, d < 10) (rest : Bytes)
    (s : DecimalScan) :
    scanDecimal (ds.map digitByte ++ rest) s = scanDecimal rest (ds.foldl DecimalScan.digit s) := by
  induction ds generalizing s with
  | nil => rfl
  | cons d ds ih =>
    rw [List.map_cons, List.cons_append, scanDecimal,
      digitOf_digitByte (small d List.mem_cons_self)]
    exact ih (fun x mem => small x (List.mem_cons_of_mem d mem)) _

/-- What a value without its sign looks like if the scan does not refuse it. -/
theorem scanDecimal_ok {body : Bytes} {s s' : DecimalScan} (h : scanDecimal body s = .ok s') :
    ∃ (whole : List ℕ) (fraction : Option (List ℕ)), (∀ d ∈ whole ++ fraction.getD [], d < 10) ∧
      (s.point = true → fraction = none) ∧
      body = whole.map digitByte ++ fraction.elim [] fun ds => POINT :: ds.map digitByte := by
  induction body generalizing s with
  | nil => exact ⟨[], none, by simp, fun _ => rfl, rfl⟩
  | cons b body ih =>
    unfold scanDecimal at h
    split at h
    · rename_i d digit
      obtain ⟨small, rfl⟩ := digitOf_eq_some.mp digit
      obtain ⟨whole, fraction, below, point, rfl⟩ := ih h
      refine ⟨d :: whole, fraction, ?_, point, rfl⟩
      exact List.forall_mem_cons.mpr ⟨small, below⟩
    · split at h
      · rename_i first
        obtain ⟨rfl, before⟩ := first
        obtain ⟨whole, fraction, below, point, rfl⟩ := ih h
        -- No second point: all the rest is digits.
        obtain rfl := point rfl
        refine ⟨[], some whole, by simpa using below, fun late => ?_, by simp⟩
        rw [late] at before
        cases before
      · cases h

theorem digitByte_ne_minus {d : ℕ} (small : d < 10) : digitByte d ≠ MINUS := by
  interval_cases d <;> decide

/-- The sign comes off a numeral. -/
theorem splitSign_text (n : Numeral) :
    splitSign n.text = (n.negative, n.whole.map digitByte ++ n.tail) := by
  cases sign : n.negative with
  | true => simp [Numeral.text, sign, splitSign]
  | false =>
    have same : n.text = n.whole.map digitByte ++ n.tail := by simp [Numeral.text, sign]
    rw [same]
    cases front : n.whole with
    | cons d ds =>
      have small := n.small d (by simp [front])
      simp [splitSign, digitByte_ne_minus small]
    | nil =>
      unfold Numeral.tail
      cases n.fraction with
      | none => rfl
      | some ds => simp [splitSign, show POINT ≠ MINUS by decide]

theorem splitSign_eq (v : Bytes) :
    v = (if (splitSign v).1 then [MINUS] else []) ++ (splitSign v).2 := by
  cases v with
  | nil => rfl
  | cons b rest =>
    rw [splitSign]
    split
    · rename_i minus
      rw [minus]
      rfl
    · rfl

/-- **What the reader makes of a numeral**: the decimal it is, or an overflow. -/
theorem asDecimal_text (n : Numeral) : asDecimal n.text = n.read := by
  have scanned : ∃ s, scanDecimal (n.whole.map digitByte ++ n.tail) ⟨some 0, false, false, 0⟩ =
      .ok s ∧ s.magnitude = checkedI64 n.magnitude ∧ s.anyDigit = true ∧
      s.fractionDigits = min n.places u32Max := by
    have small := n.small
    have some_digit := n.some_digit
    rw [scanDecimal_digits fun d mem => small d (List.mem_append_left _ mem)]
    obtain ⟨magnitude, any, point, places⟩ := foldl_digit
      (fun d mem => small d (List.mem_append_left _ mem)) 0 ⟨some 0, false, false, 0⟩ rfl
    generalize n.whole.foldl DecimalScan.digit ⟨some 0, false, false, 0⟩ = s at *
    unfold Numeral.tail Numeral.magnitude Numeral.digits Numeral.places
    cases frac : n.fraction with
    | none =>
      rw [frac] at some_digit
      refine ⟨s, rfl, by simpa using magnitude, ?_, by simpa using places (Nat.zero_le _)⟩
      simpa [any] using some_digit
    | some ds =>
      rw [frac] at small some_digit
      have below : ∀ d ∈ ds, d < 10 := fun d mem => small d (List.mem_append_right _ mem)
      have after : scanDecimal (POINT :: ds.map digitByte) s =
          scanDecimal (ds.map digitByte ++ []) { s with point := true } := by
        rw [scanDecimal, show digitOf POINT = none by decide]
        simp [point]
      obtain ⟨magnitude', any', -, places'⟩ := foldl_digit below _ { s with point := true } magnitude
      refine ⟨_, by rw [after, scanDecimal_digits below]; rfl, ?_, ?_, ?_⟩
      · rw [magnitude']
        simp [Nat.ofDigits_append, Nat.add_comm, Nat.mul_comm]
      · rw [any', any]
        have : ¬ (n.whole = [] ∧ ds = []) := by simpa using some_digit
        simp only [Bool.false_or, Bool.or_eq_true, Bool.not_eq_true', List.isEmpty_eq_false_iff]
        tauto
      · have start : s.fractionDigits = 0 := by simpa using places (Nat.zero_le _)
        have last := places' (by rw [start]; exact Nat.zero_le _)
        simpa [start] using last
  obtain ⟨s, scan, magnitude, any, places⟩ := scanned
  unfold asDecimal
  rw [splitSign_text]
  simp only [scan, any, Bool.true_eq_false, if_false, magnitude, places]
  unfold Numeral.read checkedI64
  by_cases fits : n.magnitude ≤ i64Max
  · simp only [fits, if_true]
    -- More digits behind the point than a `u32` counts are too many in any case.
    unfold Decimal.checked
    by_cases few : n.places ≤ 128
    · rw [Nat.min_eq_left (by unfold u32Max; omega)]
    · rw [dif_neg, dif_neg]
      · omega
      · unfold u32Max
        omega
  · simp only [fits, if_false]

theorem Decimal.checked_ne {mantissa exponent : ℤ} :
    Decimal.checked mantissa exponent ≠ .error .notANumber := by
  unfold Decimal.checked
  split <;> simp

theorem Numeral.read_ne (n : Numeral) : n.read ≠ .error .notANumber := by
  unfold Numeral.read
  split
  · exact Decimal.checked_ne
  · simp

theorem scanDecimal_error {body : Bytes} {s : DecimalScan} {e : ConvertError}
    (h : scanDecimal body s = .error e) : e = .notANumber := by
  induction body generalizing s with
  | nil => cases h
  | cons b body ih =>
    unfold scanDecimal at h
    split at h
    · exact ih h
    · split at h
      · exact ih h
      · cases h
        rfl

/-- **Exactly what is outside the grammar is not a number**, however long it is. -/
theorem asDecimal_notANumber_iff {v : Bytes} :
    asDecimal v = .error .notANumber ↔ ¬ ∃ n : Numeral, n.text = v := by
  constructor
  · rintro h ⟨n, rfl⟩
    exact n.read_ne (asDecimal_text n ▸ h)
  · intro outside
    have signed := splitSign_eq v
    unfold asDecimal
    cases scan : scanDecimal (splitSign v).2 ⟨some 0, false, false, 0⟩ with
    | error e =>
      obtain rfl := scanDecimal_error scan
      rfl
    | ok s =>
      obtain ⟨whole, fraction, small, -, written⟩ := scanDecimal_ok scan
      -- In the grammar but for a digit.
      by_cases digits : whole ++ fraction.getD [] = []
      · have silent : s.anyDigit = false := by
          obtain ⟨rfl, rest⟩ := List.append_eq_nil_iff.mp digits
          rw [written] at scan
          cases fraction with
          | none =>
            cases scan
            rfl
          | some ds =>
            obtain rfl : ds = [] := rest
            have point : digitOf POINT = none := by decide
            simp only [List.map_nil, Option.elim_some, List.nil_append, scanDecimal, point,
              and_self, if_true, Except.ok.injEq] at scan
            rw [← scan]
        simp only [silent, if_true]
      · refine absurd ⟨⟨(splitSign v).1, whole, fraction, small, digits⟩, ?_⟩ outside
        refine Eq.trans ?_ signed.symm
        rw [written, Numeral.text, List.append_assoc]
        cases fraction <;> rfl

/-! ### The numeral that is written -/

namespace Decimal

variable (d : Decimal)

/-- The digits in front of the point, and those behind one. -/
def parts : List ℕ × Option (List ℕ) :=
  let ds := numberDigits d.mantissa.natAbs
  if 0 ≤ d.exponent then
    (if d.mantissa = 0 then ds else ds ++ List.replicate d.exponent.natAbs 0, none)
  else if d.exponent.natAbs < ds.length then
    (ds.take (ds.length - d.exponent.natAbs), some (ds.drop (ds.length - d.exponent.natAbs)))
  else ([0], some (List.replicate (d.exponent.natAbs - ds.length) 0 ++ ds))

theorem parts_lt : ∀ x ∈ d.parts.1 ++ d.parts.2.getD [], x < 10 := by
  intro x mem
  have small := numberDigits_lt (n := d.mantissa.natAbs) x
  unfold parts at mem
  dsimp only at mem
  split at mem
  · rw [Option.getD_none, List.append_nil] at mem
    split at mem
    · exact small mem
    · obtain mem | mem := List.mem_append.mp mem
      · exact small mem
      · rw [List.eq_of_mem_replicate mem]
        decide
  · split at mem
    · rw [Option.getD_some, List.take_append_drop] at mem
      exact small mem
    · simp only [Option.getD_some, List.mem_append, List.mem_singleton, List.mem_replicate] at mem
      obtain rfl | ⟨-, rfl⟩ | mem := mem
      · decide
      · decide
      · exact small mem

theorem parts_ne_nil : d.parts.1 ++ d.parts.2.getD [] ≠ [] := by
  have some_digit := numberDigits_ne_nil d.mantissa.natAbs
  unfold parts
  dsimp only
  split
  · rw [Option.getD_none, List.append_nil]
    split
    · exact some_digit
    · exact List.append_ne_nil_of_left_ne_nil some_digit _
  · split
    · rw [Option.getD_some, List.take_append_drop]
      exact some_digit
    · exact List.cons_ne_nil _ _

/-- The numeral a decimal is written as. -/
def numeral : Numeral := ⟨d.mantissa < 0, d.parts.1, d.parts.2, d.parts_lt, d.parts_ne_nil⟩

theorem natAbs_le : d.mantissa.natAbs ≤ 2 ^ 63 := by
  have := d.mantissa_i64
  omega

theorem digits_eq : d.digits = (numberDigits d.mantissa.natAbs).map digitByte := by
  have le := d.natAbs_le
  unfold digits
  rw [digitLoop_eq 20 (by decide) (by omega), List.append_nil]

theorem numberDigits_le : (numberDigits d.mantissa.natAbs).length ≤ 19 := by
  have le := d.natAbs_le
  exact numberDigits_length_le (by decide) (by omega)

theorem map_replicate_zero (k : ℕ) : (List.replicate k 0).map digitByte = List.replicate k ZERO := by
  rw [List.map_replicate]
  rfl

/-- Into a buffer of any room goes as much of the numeral as fits. -/
theorem formatIn_eq (room : ℕ) : d.formatIn room = d.numeral.text.take room := by
  have sign (w : Writer) : (if d.mantissa < 0 then w.put MINUS else w) =
      w.putAll (if d.mantissa < 0 then [MINUS] else []) := by
    split <;> rfl
  have text : d.numeral.text = (if d.mantissa < 0 then [MINUS] else []) ++
      (d.parts.1.map digitByte ++ d.numeral.tail) := by
    rw [Numeral.text, List.append_assoc]
    congr 1
    simp [numeral]
  have written (bytes : Bytes) : ((⟨[], room⟩ : Writer).putAll
      ((if d.mantissa < 0 then [MINUS] else []) ++ bytes)).written =
        ((if d.mantissa < 0 then [MINUS] else []) ++ bytes).take room := by
    rw [Writer.putAll_eq, List.nil_append]
  rw [text]
  unfold formatIn Numeral.tail numeral parts
  dsimp only
  rw [sign, digits_eq, List.length_map]
  by_cases positive : 0 ≤ d.exponent
  · simp only [if_pos positive]
    by_cases zero : d.mantissa = 0
    · rw [if_neg (not_not.mpr zero), if_pos zero, Writer.putAll_putAll, written]
      simp
    · rw [if_pos zero, if_neg zero, Writer.repeat_, Writer.putAll_putAll, Writer.putAll_putAll,
        written, List.map_append, map_replicate_zero, List.append_nil]
  · simp only [if_neg positive]
    split
    · rw [Writer.put_eq_putAll]
      simp only [Writer.putAll_putAll, List.append_assoc]
      rw [written]
      simp [List.map_take, List.map_drop]
    · rw [Writer.put_eq_putAll, Writer.put_eq_putAll, Writer.repeat_]
      simp only [Writer.putAll_putAll, List.append_assoc]
      rw [written]
      simp only [List.map_cons, List.map_nil, List.map_append, map_replicate_zero]
      rfl

theorem numeral_length : d.numeral.text.length ≤ MAX_LEN := by
  have few := d.numberDigits_le
  have exponent := d.exponent_i8
  have sign : (if d.numeral.negative then [MINUS] else []).length ≤ 1 := by
    split
    · exact le_rfl
    · exact Nat.zero_le _
  unfold Numeral.text
  rw [List.length_append, List.length_append]
  have body : (d.numeral.whole.map digitByte).length + d.numeral.tail.length ≤ 146 := by
    unfold Numeral.tail numeral parts
    dsimp only
    split
    · rw [List.length_map, List.length_nil, Nat.add_zero]
      split
      · exact few.trans (by decide)
      · rw [List.length_append, List.length_replicate]
        omega
    · split
      · simp only [List.length_map, List.length_cons, List.length_take, List.length_drop]
        omega
      · simp only [List.length_map, List.length_cons, List.length_nil, List.length_append,
          List.length_replicate]
        omega
  unfold MAX_LEN
  omega

/-- **The writer writes the numeral, all of it.** -/
theorem format_eq_text : d.format = d.numeral.text := by
  unfold format
  rw [formatIn_eq, List.take_of_length_le d.numeral_length]

/-! ### What it stands for -/

theorem numeral_places : d.numeral.places = if 0 ≤ d.exponent then 0 else d.exponent.natAbs := by
  unfold Numeral.places numeral parts
  dsimp only
  split
  · rfl
  · split
    · simp only [Option.getD_some, List.length_drop]
      omega
    · simp only [Option.getD_some, List.length_append, List.length_replicate]
      omega

theorem numeral_magnitude : d.numeral.magnitude =
    d.mantissa.natAbs * 10 ^ (if 0 ≤ d.exponent then d.exponent.natAbs else 0) := by
  have whole := ofDigits_numberDigits d.mantissa.natAbs
  unfold Numeral.magnitude Numeral.digits numeral parts
  dsimp only
  split
  · rw [Option.getD_none, List.append_nil]
    split
    · rename_i zero
      rw [whole, zero]
      simp
    · rw [List.reverse_append, List.reverse_replicate, Nat.ofDigits_append,
        Nat.ofDigits_replicate_zero, List.length_replicate, whole]
      ring
  · rw [pow_zero, Nat.mul_one]
    split
    · rw [Option.getD_some, List.take_append_drop, whole]
    · simp only [Option.getD_some, List.reverse_append, List.reverse_replicate,
        List.reverse_singleton, Nat.ofDigits_append, Nat.ofDigits_replicate_zero,
        Nat.ofDigits_singleton, Nat.mul_zero, Nat.add_zero, whole]

/-- The number a decimal is. -/
def value : ℚ := d.mantissa * 10 ^ d.exponent

theorem signed_natAbs : (if d.numeral.negative then -1 else 1) * (d.mantissa.natAbs : ℚ) =
    d.mantissa := by
  have abs : (d.mantissa.natAbs : ℚ) = |(d.mantissa : ℚ)| := by
    rw [← Int.cast_abs, Int.abs_eq_natAbs, Int.cast_natCast]
  rw [abs]
  unfold numeral
  by_cases negative : d.mantissa < 0
  · have cast : (d.mantissa : ℚ) < 0 := Int.cast_lt_zero.mpr negative
    rw [abs_of_neg cast]
    simp [negative]
  · have cast : (0 : ℚ) ≤ d.mantissa := by exact_mod_cast not_lt.mp negative
    rw [abs_of_nonneg cast]
    simp [negative]

theorem numeral_value : d.numeral.value = d.value := by
  unfold Numeral.value value
  rw [numeral_magnitude, numeral_places]
  by_cases positive : 0 ≤ d.exponent
  · obtain ⟨e, he⟩ := Int.eq_ofNat_of_zero_le positive
    rw [if_pos positive, if_pos positive, Nat.cast_mul, ← mul_assoc, signed_natAbs, he]
    simp
  · obtain ⟨e, he⟩ : ∃ e : ℕ, d.exponent = -e := ⟨d.exponent.natAbs, by omega⟩
    rw [if_neg positive, if_neg positive, pow_zero, Nat.mul_one, signed_natAbs, he]
    simp [div_eq_mul_inv]

end Decimal

/-! ### One reading -/

theorem digitByte_ne_point {d : ℕ} (small : d < 10) : digitByte d ≠ POINT := by
  interval_cases d <;> decide

theorem digitByte_inj {d e : ℕ} (small : d < 10) (small' : e < 10)
    (same : digitByte d = digitByte e) : d = e := by
  have left := digitOf_digitByte small
  rw [same, digitOf_digitByte small'] at left
  exact (Option.some.inj left).symm

/-- Digits end where a point stands, or the value ends. -/
theorem map_digitByte_append_inj {ds es : List ℕ} (small : ∀ d ∈ ds, d < 10)
    (small' : ∀ d ∈ es, d < 10) {xs ys : Bytes} (front : ∀ b ∈ xs.head?, b = POINT)
    (front' : ∀ b ∈ ys.head?, b = POINT)
    (same : ds.map digitByte ++ xs = es.map digitByte ++ ys) : ds = es ∧ xs = ys := by
  induction ds generalizing es with
  | nil =>
    cases es with
    | nil => exact ⟨rfl, same⟩
    | cons e es =>
      rw [List.map_nil, List.nil_append] at same
      have point := front (digitByte e) (by rw [same]; rfl)
      exact absurd point (digitByte_ne_point (small' e List.mem_cons_self))
  | cons d ds ih =>
    cases es with
    | nil =>
      rw [List.map_nil, List.nil_append] at same
      have point := front' (digitByte d) (by rw [← same]; rfl)
      exact absurd point (digitByte_ne_point (small d List.mem_cons_self))
    | cons e es =>
      obtain ⟨head, tail⟩ := List.cons.inj same
      obtain rfl := digitByte_inj (small d List.mem_cons_self) (small' e List.mem_cons_self) head
      obtain ⟨rfl, rest⟩ := ih (fun x mem => small x (List.mem_cons_of_mem _ mem))
        (fun x mem => small' x (List.mem_cons_of_mem _ mem)) tail
      exact ⟨rfl, rest⟩

theorem Numeral.tail_head (n : Numeral) : ∀ b ∈ n.tail.head?, b = POINT := by
  intro b mem
  unfold Numeral.tail at mem
  split at mem
  · cases mem
  · exact (Option.some.inj mem).symm

theorem Numeral.fraction_lt (n : Numeral) : ∀ d ∈ n.fraction.getD [], d < 10 :=
  fun d mem => n.small d (List.mem_append_right _ mem)

/-- A byte string is at most one numeral. -/
theorem Numeral.text_injective {n m : Numeral} (same : n.text = m.text) : n = m := by
  have parts := splitSign_text n
  rw [same, splitSign_text m] at parts
  obtain ⟨sign, body⟩ := Prod.mk.inj parts
  obtain ⟨whole, tail⟩ := map_digitByte_append_inj
    (fun d mem => m.small d (List.mem_append_left _ mem))
    (fun d mem => n.small d (List.mem_append_left _ mem)) m.tail_head n.tail_head body
  have fraction : m.fraction = n.fraction := by
    have small := m.fraction_lt
    have small' := n.fraction_lt
    unfold Numeral.tail at tail
    cases left : m.fraction with
    | none =>
      cases right : n.fraction with
      | none => rfl
      | some es => simp [left, right] at tail
    | some ds =>
      cases right : n.fraction with
      | none => simp [left, right] at tail
      | some es =>
        rw [left] at small
        rw [right] at small'
        simp only [left, right] at tail
        obtain ⟨-, digits⟩ := List.cons.inj tail
        have ended : ∀ b ∈ ([] : Bytes).head?, b = POINT := nofun
        obtain ⟨equal, -⟩ :=
          map_digitByte_append_inj small small' ended ended (congrArg (· ++ []) digits)
        exact congrArg some equal
  cases n
  cases m
  simp only at sign whole fraction
  subst sign whole fraction
  rfl

theorem Denotes.unique {v : Bytes} {q q' : ℚ} {k k' : ℕ} (h : Denotes v q k)
    (h' : Denotes v q' k') : q = q' ∧ k = k' := by
  obtain ⟨n, text, rfl, rfl⟩ := h
  obtain ⟨m, text', rfl, rfl⟩ := h'
  obtain rfl := Numeral.text_injective (text.trans text'.symm)
  exact ⟨rfl, rfl⟩

/-! ### There and back -/

namespace Decimal

theorem checked_eq_ok_iff {mantissa exponent : ℤ} {d : Decimal} :
    checked mantissa exponent = .ok d ↔ d.mantissa = mantissa ∧ d.exponent = exponent := by
  unfold checked
  constructor
  · intro h
    split at h
    · cases h
      exact ⟨rfl, rfl⟩
    · cases h
  · rintro ⟨rfl, rfl⟩
    rw [dif_pos ⟨d.mantissa_i64, d.exponent_i8⟩]

/-- The mantissa is what its sign and its digits say. -/
theorem sign_natAbs (d : Decimal) :
    (if d.numeral.negative then -(d.mantissa.natAbs : ℤ) else d.mantissa.natAbs) = d.mantissa := by
  unfold numeral
  by_cases negative : d.mantissa < 0
  · simp only [negative, decide_true, if_true]
    omega
  · simp only [negative, decide_false, Bool.false_eq_true, if_false]
    omega

/-- Written and read again. -/
theorem asDecimal_format (d : Decimal) : asDecimal d.format = d.numeral.read := by
  rw [format_eq_text, asDecimal_text]

theorem asDecimal_format_of_nonpos (d : Decimal) (exponent : d.exponent ≤ 0)
    (least : d.mantissa ≠ -(2 ^ 63)) : asDecimal d.format = .ok d := by
  have magnitude : d.numeral.magnitude = d.mantissa.natAbs := by
    rw [numeral_magnitude]
    split
    · rw [show d.exponent.natAbs = 0 by omega, pow_zero, Nat.mul_one]
    · rw [pow_zero, Nat.mul_one]
  have places : (d.numeral.places : ℤ) = -d.exponent := by
    rw [numeral_places]
    split <;> omega
  have range := d.mantissa_i64
  rw [asDecimal_format, Numeral.read, magnitude, if_pos (by unfold i64Max; omega), places,
    sign_natAbs]
  exact checked_eq_ok_iff.mpr ⟨rfl, (neg_neg _).symm⟩

theorem asDecimal_format_of_pos (d e : Decimal) (positive : 0 < d.exponent)
    (product : e.mantissa = d.mantissa * 10 ^ d.exponent.toNat) (whole : e.exponent = 0) :
    asDecimal d.format = .ok e := by
  obtain ⟨k, hk⟩ : ∃ k : ℕ, d.exponent.toNat = k + 1 := ⟨d.exponent.toNat - 1, by omega⟩
  have magnitude : d.numeral.magnitude = e.mantissa.natAbs := by
    rw [numeral_magnitude, if_pos positive.le, product, Int.natAbs_mul, Int.natAbs_pow,
      show d.exponent.natAbs = d.exponent.toNat by omega]
    rfl
  -- The least `i64` is no multiple of ten.
  have range := e.mantissa_i64
  have ten : e.mantissa = d.mantissa * 10 ^ k * 10 := by rw [product, hk, pow_succ, mul_assoc]
  have fits : e.mantissa.natAbs ≤ i64Max := by
    generalize d.mantissa * 10 ^ k = m at ten
    unfold i64Max
    omega
  have places : d.numeral.places = 0 := by rw [numeral_places, if_pos positive.le]
  have sign : d.numeral.negative = e.numeral.negative := by
    have pow : (0 : ℤ) < 10 ^ d.exponent.toNat := by positivity
    have same : d.mantissa * 10 ^ d.exponent.toNat < 0 ↔ d.mantissa < 0 := by
      constructor
      · exact fun neg => neg_of_mul_neg_left neg pow.le
      · exact fun neg => mul_neg_of_neg_of_pos neg pow
    unfold numeral
    simp only [product, same]
  rw [asDecimal_format, Numeral.read, magnitude, if_pos fits, places, sign, sign_natAbs]
  exact checked_eq_ok_iff.mpr ⟨rfl, whole⟩

/-- A value that is read stands for the decimal, and so does what is written of that. -/
theorem denotes_of_asDecimal {v : Bytes} {d : Decimal} (h : asDecimal v = .ok d) :
    Denotes v d.value d.exponent.natAbs ∧ Denotes d.format d.value d.exponent.natAbs ∧
      d.exponent ≤ 0 := by
  obtain ⟨n, rfl⟩ : ∃ n : Numeral, n.text = v := by
    by_contra outside
    rw [asDecimal_notANumber_iff.mpr outside] at h
    cases h
  rw [asDecimal_text] at h
  unfold Numeral.read at h
  split at h
  · obtain ⟨mantissa, exponent⟩ := checked_eq_ok_iff.mp h
    have value : n.value = d.value := by
      unfold Numeral.value Decimal.value
      rw [mantissa, exponent, zpow_neg, zpow_natCast, div_eq_mul_inv]
      congr 1
      cases n.negative <;> simp
    refine ⟨⟨n, rfl, value, by omega⟩, ⟨d.numeral, d.format_eq_text.symm, d.numeral_value, ?_⟩,
      by omega⟩
    rw [numeral_places]
    split <;> omega
  · cases h

end Decimal

/-- **Decimals survive the wire without rounding.** A decimal without a positive exponent is read
back as it was, but for the least mantissa; one with a positive exponent as the product, where that
is an `i64`. Nothing written is cut off. Whatever is read stands for the same number, with as many
digits behind the point, as what is written of it; and exactly a value outside the grammar is not a
number. -/
theorem decimals_survive :
    (∀ d : Decimal, d.exponent ≤ 0 → d.mantissa ≠ -(2 ^ 63) → asDecimal d.format = .ok d) ∧
      (∀ d e : Decimal, 0 < d.exponent → e.mantissa = d.mantissa * 10 ^ d.exponent.toNat →
        e.exponent = 0 → asDecimal d.format = .ok e) ∧
      (∀ d : Decimal, d.format.length ≤ Decimal.MAX_LEN ∧
        ∀ room, Decimal.MAX_LEN ≤ room → d.formatIn room = d.format) ∧
      (∀ v d, asDecimal v = .ok d → ∃ q places, Denotes v q places ∧ Denotes d.format q places) ∧
      ∀ v, asDecimal v = .error .notANumber ↔ ¬ ∃ n : Numeral, n.text = v := by
  refine ⟨Decimal.asDecimal_format_of_nonpos, Decimal.asDecimal_format_of_pos, fun d => ?_,
    fun v d h => ?_, fun v => asDecimal_notANumber_iff⟩
  · refine ⟨d.format_eq_text ▸ d.numeral_length, fun room enough => ?_⟩
    rw [Decimal.format_eq_text, Decimal.formatIn_eq,
      List.take_of_length_le (d.numeral_length.trans enough)]
  · obtain ⟨front, back, -⟩ := Decimal.denotes_of_asDecimal h
    exact ⟨_, _, front, back⟩

end Fixbolt
