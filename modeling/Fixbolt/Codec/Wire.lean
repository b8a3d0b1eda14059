import Fixbolt.Codec.Parse
import Mathlib.Data.List.Chain

/-!
# Fields on the wire

What the readers of `Parse` find, said in terms of the bytes they read.

* `WireField`: a field as the wire has it, the text of its tag and its value;
* `findSoh_eq_some_iff`, `readTag_eq_some_iff`: where a value and a tag end;
* `entriesAt`: the index entries of fields laid end to end.
-/

namespace Fixbolt

/-- A field as the wire has it. The tag is a number of at most as many digits as a `u32` counts,
leading zeros included. -/
structure WireField where
  text : Bytes
  value : Bytes
  tag : ℕ
  reads : asU32? text = some tag
  digits : wrapU32 text.length ≠ 0

namespace WireField

/-- Tag, `=`, value and separator. -/
def bytes (f : WireField) : Bytes := f.text ++ EQ :: (f.value ++ [SOH])

/-- The index entry of a field whose tag begins at `pos`. -/
def entry (pos : ℕ) (f : WireField) : FieldEntry := ⟨f.tag, pos + f.text.length + 1, f.value.length⟩

/-- The field as tag and value. -/
def pair (f : WireField) : ℕ × Bytes := (f.tag, f.value)

theorem bytes_length (f : WireField) : f.bytes.length = f.text.length + f.value.length + 2 := by
  simp only [bytes, List.length_append, List.length_cons, List.length_nil]
  omega

end WireField

/-- Fields end to end. -/
def spell (fields : List WireField) : Bytes := fields.flatMap WireField.bytes

/-- The index entries of fields that lie end to end from `pos` on. -/
def entriesAt : ℕ → List WireField → List FieldEntry
  | _, [] => []
  | pos, f :: fields => f.entry pos :: entriesAt (pos + f.bytes.length) fields

@[simp] theorem spell_nil : spell [] = [] := rfl

@[simp] theorem spell_cons (f : WireField) (fields : List WireField) :
    spell (f :: fields) = f.bytes ++ spell fields := rfl

@[simp] theorem spell_append (xs ys : List WireField) : spell (xs ++ ys) = spell xs ++ spell ys :=
  List.flatMap_append

theorem entriesAt_append (xs ys : List WireField) (pos : ℕ) :
    entriesAt pos (xs ++ ys) = entriesAt pos xs ++ entriesAt (pos + (spell xs).length) ys := by
  induction xs generalizing pos with
  | nil => rfl
  | cons f xs ih =>
    simp only [List.cons_append, entriesAt, ih, spell_cons, List.length_append, Nat.add_assoc]

@[simp] theorem entriesAt_length (fields : List WireField) (pos : ℕ) :
    (entriesAt pos fields).length = fields.length := by
  induction fields generalizing pos with
  | nil => rfl
  | cons f fields ih => simp [entriesAt, ih]

theorem length_le_spell (fields : List WireField) : fields.length ≤ (spell fields).length := by
  induction fields with
  | nil => exact le_rfl
  | cons f fields ih =>
    simp only [spell_cons, List.length_append, List.length_cons, f.bytes_length]
    omega

/-! ### Where a value ends -/

theorem findSoh_eq_some_iff {buf : Bytes} {from_ soh : ℕ} :
    findSoh buf from_ = some soh ↔
      ∃ value rest, buf.drop from_ = value ++ SOH :: rest ∧ SOH ∉ value ∧
        soh = from_ + value.length := by
  unfold findSoh
  constructor
  · intro h
    obtain ⟨i, found, rfl⟩ := Option.map_eq_some_iff.mp h
    obtain ⟨lt, here, before⟩ := List.findIdx?_eq_some_iff_getElem.mp found
    have here : (buf.drop from_)[i] = SOH := by simpa using here
    refine ⟨(buf.drop from_).take i, (buf.drop from_).drop (i + 1), ?_, ?_, ?_⟩
    · rw [← here, List.getElem_cons_drop, List.take_append_drop]
    · intro mem
      obtain ⟨j, hj, eq⟩ := List.getElem_of_mem mem
      rw [List.getElem_take] at eq
      rw [List.length_take] at hj
      have := before j (by omega)
      simp [eq] at this
    · rw [List.length_take]
      omega
  · rintro ⟨value, rest, eq, none, rfl⟩
    rw [Option.map_eq_some_iff]
    refine ⟨value.length, ?_, by omega⟩
    rw [eq, List.findIdx?_eq_some_iff_getElem]
    refine ⟨by simp, by simp, fun j hj => ?_⟩
    rw [List.getElem_append_left hj]
    have : value[j] ≠ SOH := fun h => none (h ▸ List.getElem_mem hj)
    simpa using this

/-! ### Where a tag ends -/

theorem digitOf_EQ : digitOf EQ = none := by decide

theorem asU32?_eq_some_iff {text : Bytes} {n : ℕ} :
    asU32? text = some n ↔ text ≠ [] ∧ asU32Loop text (some 0) = .ok n := by
  unfold asU32? asU32
  cases text with
  | nil => simp [Except.toOption]
  | cons b text =>
    cases asU32Loop (b :: text) (some 0) <;> simp [Except.toOption]

theorem asU32Loop_none (xs : Bytes) (n : ℕ) : asU32Loop xs none ≠ .ok n := by
  induction xs with
  | nil => simp [asU32Loop]
  | cons b xs ih =>
    simp only [asU32Loop]
    cases digitOf b with
    | none => simp
    | some d => exact ih

theorem asU32Loop_cons_ok {b : UInt8} {text : Bytes} {n tag : ℕ} :
    asU32Loop (b :: text) (some n) = .ok tag ↔
      ∃ d n', digitOf b = some d ∧ checkedU32 (n * 10 + d) = some n' ∧
        asU32Loop text (some n') = .ok tag := by
  simp only [asU32Loop]
  cases hd : digitOf b with
  | none => simp
  | some d =>
    cases hn : checkedU32 (n * 10 + d) with
    | none => simp [hn, asU32Loop_none]
    | some n' => simp [hn]

theorem text_digits {text : Bytes} {tag : ℕ} (reads : asU32? text = some tag) :
    ∀ b ∈ text, digitOf b ≠ none := by
  have loop := (asU32?_eq_some_iff.mp reads).2
  suffices ∀ n, asU32Loop text (some n) = .ok tag → ∀ b ∈ text, digitOf b ≠ none from this 0 loop
  clear reads loop
  induction text with
  | nil => exact fun _ _ b mem => absurd mem List.not_mem_nil
  | cons b text ih =>
    intro n reads c mem
    obtain ⟨d, n', digit, -, reads⟩ := asU32Loop_cons_ok.mp reads
    rcases List.mem_cons.mp mem with rfl | mem
    · rw [digit]
      exact Option.some_ne_none d
    · exact ih n' reads c mem

theorem noSoh_piece (f : WireField) {value : Bytes} (noSoh : SOH ∉ value) :
    SOH ∉ f.text ++ EQ :: value := by
  intro mem
  rcases List.mem_append.mp mem with mem | mem
  · exact text_digits f.reads SOH mem rfl
  · rcases List.mem_cons.mp mem with eq | mem
    · cases eq
    · exact noSoh mem

theorem readTagLoop_cons_of_ne {from_ : ℕ} {b : UInt8} {xs : Bytes} {pos n digits : ℕ}
    (ne : b ≠ EQ) {found : ℕ × ℕ} :
    readTagLoop from_ (b :: xs) pos n digits = .ok (some found) ↔
      ∃ d n', digitOf b = some d ∧ checkedU32 (n * 10 + d) = some n' ∧
        readTagLoop from_ xs (pos + 1) n' (wrapU32 (digits + 1)) = .ok (some found) := by
  simp only [readTagLoop, if_neg ne]
  cases hd : digitOf b with
  | none => simp
  | some d => cases hn : checkedU32 (n * 10 + d) <;> simp [hn]

theorem readTagLoop_eq_some_iff {from_ : ℕ} {xs : Bytes} {pos n digits tag valStart : ℕ}
    (small : digits < u32Size) :
    readTagLoop from_ xs pos n digits = .ok (some (tag, valStart)) ↔
      ∃ text rest, xs = text ++ EQ :: rest ∧ asU32Loop text (some n) = .ok tag ∧
        wrapU32 (digits + text.length) ≠ 0 ∧ valStart = pos + text.length + 1 := by
  induction xs generalizing pos n digits with
  | nil => simp [readTagLoop]
  | cons b xs ih =>
    by_cases eq : b = EQ
    · subst eq
      have none : wrapU32 digits = digits := Nat.mod_eq_of_lt small
      constructor
      · intro h
        simp only [readTagLoop, if_true] at h
        split at h
        · cases h
        · rename_i some
          cases h
          exact ⟨[], xs, rfl, rfl, by simpa [none] using some, rfl⟩
      · rintro ⟨text, rest, split, reads, count, rfl⟩
        cases text with
        | nil =>
          cases reads
          have some : ¬ digits = 0 := by simpa [none] using count
          simp [readTagLoop, some]
        | cons c text =>
          obtain ⟨rfl, -⟩ := List.cons.inj split
          obtain ⟨d, -, isDigit, -⟩ := asU32Loop_cons_ok.mp reads
          rw [digitOf_EQ] at isDigit
          cases isDigit
    · rw [readTagLoop_cons_of_ne eq]
      -- the count of digits wraps once here and once more at the end
      have count (k : ℕ) : wrapU32 (wrapU32 (digits + 1) + k) = wrapU32 (digits + (k + 1)) := by
        unfold wrapU32 u32Size
        omega
      constructor
      · rintro ⟨d, n', isDigit, fits, h⟩
        obtain ⟨text, rest, rfl, reads, some, rfl⟩ := (ih (Nat.mod_lt _ (by decide))).mp h
        refine ⟨b :: text, rest, rfl, asU32Loop_cons_ok.mpr ⟨d, n', isDigit, fits, reads⟩, ?_, ?_⟩
        · rwa [List.length_cons, ← count]
        · rw [List.length_cons]
          omega
      · rintro ⟨text, rest, split, reads, some, rfl⟩
        cases text with
        | nil =>
          obtain ⟨rfl, -⟩ := List.cons.inj split
          exact absurd rfl eq
        | cons c text =>
          obtain ⟨rfl, rfl⟩ := List.cons.inj split
          obtain ⟨d, n', isDigit, fits, reads⟩ := asU32Loop_cons_ok.mp reads
          have small : wrapU32 (digits + 1) < u32Size := Nat.mod_lt _ (by decide)
          refine ⟨d, n', isDigit, fits, (ih small).mpr ⟨text, rest, rfl, reads, ?_, ?_⟩⟩
          · rwa [count, ← List.length_cons]
          · rw [List.length_cons]
            omega

theorem readTag_eq_some_iff {buf : Bytes} {pos tag valStart : ℕ} :
    readTag buf pos = .ok (some (tag, valStart)) ↔
      ∃ text rest, buf.drop pos = text ++ EQ :: rest ∧ asU32? text = some tag ∧
        wrapU32 text.length ≠ 0 ∧ valStart = pos + text.length + 1 := by
  unfold readTag
  rw [readTagLoop_eq_some_iff (by decide)]
  constructor
  · rintro ⟨text, rest, eq, reads, digits, rfl⟩
    rw [Nat.zero_add] at digits
    refine ⟨text, rest, eq, asU32?_eq_some_iff.mpr ⟨?_, reads⟩, digits, rfl⟩
    rintro rfl
    exact digits rfl
  · rintro ⟨text, rest, eq, reads, digits, rfl⟩
    exact ⟨text, rest, eq, (asU32?_eq_some_iff.mp reads).2, by simpa using digits, rfl⟩

/-- A tag that cannot be read cannot be read whatever follows. -/
theorem readTagLoop_error_append {from_ : ℕ} {xs : Bytes} {pos n digits : ℕ} {e : ParseError}
    (h : readTagLoop from_ xs pos n digits = .error e) (more : Bytes) :
    readTagLoop from_ (xs ++ more) pos n digits = .error e := by
  induction xs generalizing pos n digits with
  | nil => cases h
  | cons b xs ih =>
    simp only [readTagLoop, List.cons_append] at h ⊢
    split at h
    · rename_i eq
      rw [if_pos eq]
      exact h
    · rename_i ne
      rw [if_neg ne]
      cases hd : digitOf b with
      | none => rw [hd] at h; exact h
      | some d =>
        rw [hd] at h
        cases hn : checkedU32 (n * 10 + d) with
        | none => simp only [hn] at h ⊢; exact h
        | some n' => simp only [hn] at h ⊢; exact ih h

end Fixbolt
