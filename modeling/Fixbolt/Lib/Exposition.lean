import Mathlib.Algebra.Order.Field.Rat
import Mathlib.Data.List.TakeWhile
import Mathlib.Data.Nat.Digits.Defs
import Mathlib.Data.UInt
import Mathlib.Tactic.IntervalCases

/-!
# The text exposition format

A body is a list of lines, each ended by a line feed. A line is a sample (a name, labels in braces, a
number), the help or the type of a family, or one to ignore. Label values are escaped; numbers are
decimals and are read exactly. Timestamps and exponents are not read.

* `readBody`: the lines of a body;
* `readQuoted_escape`: an escaped label value is read back;
* `Spells`: a text is the spelling of a line; `spells_sample` puts one together;
* `Exposes`: a body is a list of families, each in one piece under its two lines.
-/

namespace Fixbolt

namespace Exposition

/-- Text, byte by byte. -/
abbrev Text := List UInt8

/-- The byte that ends a line. -/
def newline : UInt8 := 0x0A

/-- The byte around a label value. -/
def quote : UInt8 := 0x22

/-- The byte in front of an escaped one. -/
def backslash : UInt8 := 0x5C

/-- The byte between two tokens. -/
def blank : UInt8 := 0x20

/-- One sample. -/
structure Sample where
  name : Text
  labels : List (Text × Text)
  value : ℚ
deriving DecidableEq

/-- One line. -/
inductive Line where
  | help (name doc : Text)
  | type (name kind : Text)
  | sample (s : Sample)
  | ignored
deriving DecidableEq

/-! ### Reading -/

/-- What stands behind `word`. -/
def behind (word l : Text) : Option Text :=
  if l.take word.length = word then some (l.drop word.length) else none

/-- A digit. -/
def isDigit (b : UInt8) : Bool := 0x30 ≤ b && b ≤ 0x39

/-- A letter, a digit, `_` or `:`. -/
def isNameByte (b : UInt8) : Bool :=
  (0x61 ≤ b && b ≤ 0x7A) || (0x41 ≤ b && b ≤ 0x5A) || isDigit b || b == 0x5F || b == 0x3A

/-- The name of a family or of a label. -/
def isName : Text → Bool
  | [] => false
  | b :: rest => isNameByte b && !isDigit b && rest.all isNameByte

/-- A name, and what follows. -/
def readName (l : Text) : Option (Text × Text) :=
  if isName (l.takeWhile isNameByte) then
    some (l.takeWhile isNameByte, l.dropWhile isNameByte)
  else none

/-- What an escaped byte stands for: `\\`, `\"` and `\n`. -/
def unescape (b : UInt8) : Option UInt8 :=
  if b = backslash then some backslash
  else if b = quote then some quote
  else if b = 0x6E then some newline
  else none

/-- A label value up to its closing quote, and what follows. -/
def readQuoted : Text → Option (Text × Text)
  | [] => none
  | b :: rest =>
    if b = quote then some ([], rest)
    else if b = backslash then
      match rest with
      | [] => none
      | c :: rest => do
        let plain ← unescape c
        let (value, rest) ← readQuoted rest
        pure (plain :: value, rest)
    else do
      let (value, rest) ← readQuoted rest
      pure (b :: value, rest)

/-- One label, and what follows. -/
def readLabel (l : Text) : Option ((Text × Text) × Text) := do
  let (name, rest) ← readName l
  let quoted ← behind [0x3D, quote] rest
  let (value, rest) ← readQuoted quoted
  pure ((name, value), rest)

/-- Labels up to the closing brace, and what follows. -/
def readLabels : ℕ → Text → Option (List (Text × Text) × Text)
  | 0, _ => none
  | fuel + 1, l => do
    let (label, rest) ← readLabel l
    match rest with
    | 0x7D :: rest => pure ([label], rest)
    | 0x2C :: rest => do
      let (labels, rest) ← readLabels fuel rest
      pure (label :: labels, rest)
    | _ => none

/-- The labels of a sample, if it has any. -/
def readLabelSet (l : Text) : Option (List (Text × Text) × Text) :=
  match l with
  | 0x7B :: rest => readLabels rest.length rest
  | _ => some ([], l)

/-- The number some digits are. -/
def numberOf (ds : Text) : ℕ := Nat.ofDigits 10 (ds.map fun b => (b - 0x30).toNat).reverse

/-- A decimal without its sign. -/
def readDecimal (l : Text) : Option ℚ :=
  let whole := l.takeWhile isDigit
  if whole = [] then none
  else match l.dropWhile isDigit with
    | [] => some (numberOf whole)
    | 0x2E :: fraction =>
      if fraction ≠ [] ∧ fraction.all isDigit then
        some (numberOf (whole ++ fraction) / 10 ^ fraction.length)
      else none
    | _ => none

/-- A decimal. -/
def readNumber (l : Text) : Option ℚ :=
  match l with
  | 0x2D :: rest => (readDecimal rest).map (- ·)
  | _ => readDecimal l

/-- One sample. -/
def readSample (l : Text) : Option Sample := do
  let (name, rest) ← readName l
  let (labels, rest) ← readLabelSet rest
  let number ← behind [blank] rest
  let value ← readNumber number
  pure ⟨name, labels, value⟩

/-- The help of a family, with `\\` and `\n` in it escaped. -/
def readDoc : Text → Option Text
  | [] => some []
  | b :: rest =>
    if b = backslash then
      match rest with
      | [] => none
      | c :: rest => do
        if c = quote then none
        let plain ← unescape c
        let doc ← readDoc rest
        pure (plain :: doc)
    else do
      let doc ← readDoc rest
      pure (b :: doc)

/-- One line. -/
def readLine (l : Text) : Option Line :=
  match l with
  | [] => some .ignored
  | 0x23 :: rest =>
    match behind [blank, 0x48, 0x45, 0x4C, 0x50, blank] rest with
    | some rest => do
      let (name, rest) ← readName rest
      let doc ← behind [blank] rest
      let doc ← readDoc doc
      pure (.help name doc)
    | none =>
      match behind [blank, 0x54, 0x59, 0x50, 0x45, blank] rest with
      | some rest => do
        let (name, rest) ← readName rest
        let kind ← behind [blank] rest
        pure (.type name kind)
      | none => some .ignored
  | _ => (readSample l).map .sample

/-- The lines of a body: each one is ended. `front` is the line so far, from its end. -/
def splitLines (front : Text) : Text → Option (List Text)
  | [] => if front = [] then some [] else none
  | b :: rest =>
    if b = newline then (splitLines [] rest).map (front.reverse :: ·)
    else splitLines (b :: front) rest

/-- A whole body. -/
def readBody (body : Text) : Option (List Line) := do
  let lines ← splitLines [] body
  lines.mapM readLine

/-! ### Writing -/

/-- A label value with `\\`, `\"` and the line feed escaped. -/
def escape (value : Text) : Text :=
  value.flatMap fun b =>
    if b = backslash then [backslash, backslash]
    else if b = quote then [backslash, quote]
    else if b = newline then [backslash, 0x6E]
    else [b]

/-- One label. -/
def writeLabel (label : Text × Text) : Text :=
  label.1 ++ [0x3D, quote] ++ escape label.2 ++ [quote]

/-- Labels up to the closing brace. -/
def writeLabels : List (Text × Text) → Text
  | [] => []
  | [label] => writeLabel label ++ [0x7D]
  | label :: labels => writeLabel label ++ [0x2C] ++ writeLabels labels

/-- The labels of a sample, if it has any. -/
def writeLabelSet (labels : List (Text × Text)) : Text :=
  if labels = [] then [] else [0x7B] ++ writeLabels labels

/-- Digits. -/
def writeDigits (ds : List ℕ) : Text := ds.map fun d => 0x30 + d.toUInt8

/-! ### What is written is read back -/

variable {name rest value number doc kind text : Text} {labels : List (Text × Text)} {q : ℚ}

theorem behind_append (word l : Text) : behind word (word ++ l) = some l := by
  simp [behind]

theorem isName_bytes (named : isName name = true) : ∀ b ∈ name, isNameByte b = true := by
  cases name with
  | nil => exact List.forall_mem_nil _
  | cons b rest =>
    rw [isName, Bool.and_eq_true, Bool.and_eq_true, List.all_eq_true] at named
    exact List.forall_mem_cons.mpr ⟨named.1.1, named.2⟩

/-- A name ends at the first byte that is none of a name's. -/
theorem readName_append {b : UInt8} (named : isName name = true) (stop : isNameByte b = false) :
    readName (name ++ b :: rest) = some (name, b :: rest) := by
  have bytes := isName_bytes named
  have front : (name ++ b :: rest).takeWhile isNameByte = name := by
    rw [List.takeWhile_append_of_pos bytes, List.takeWhile_cons_of_neg (by simp [stop]),
      List.append_nil]
  have back : (name ++ b :: rest).dropWhile isNameByte = b :: rest := by
    rw [List.dropWhile_append_of_pos bytes, List.dropWhile_cons_of_neg (by simp [stop])]
  rw [readName, front, back, if_pos named]

/-- A byte that is neither a quote nor a backslash stands for itself. -/
theorem readQuoted_plain {b : UInt8} (other : b ≠ quote) (plain : b ≠ backslash) (l : Text) :
    readQuoted (b :: l) = (readQuoted l).map fun r => (b :: r.1, r.2) := by
  rw [readQuoted.eq_def]
  dsimp only
  rw [if_neg other, if_neg plain]
  cases readQuoted l <;> rfl

theorem readQuoted_escaped {b c : UInt8} (stands : unescape c = some b) (l : Text) :
    readQuoted (backslash :: c :: l) = (readQuoted l).map fun r => (b :: r.1, r.2) := by
  rw [readQuoted.eq_def]
  dsimp only
  rw [if_neg (by decide), if_pos rfl, stands]
  cases readQuoted l <;> rfl

theorem readQuoted_escape (value rest : Text) :
    readQuoted (escape value ++ quote :: rest) = some (value, rest) := by
  induction value with
  | nil =>
    show readQuoted (quote :: rest) = some ([], rest)
    rw [readQuoted.eq_def]
    rfl
  | cons b value ih =>
    have split_ : escape (b :: value) = (if b = backslash then [backslash, backslash]
        else if b = quote then [backslash, quote]
        else if b = newline then [backslash, 0x6E]
        else [b]) ++ escape value := rfl
    rw [split_, List.append_assoc]
    split_ifs with escaped quoted ended
    · rw [escaped]
      show readQuoted (backslash :: backslash :: (escape value ++ quote :: rest)) = _
      rw [readQuoted_escaped (show unescape backslash = some backslash by decide), ih]
      rfl
    · rw [quoted]
      show readQuoted (backslash :: quote :: (escape value ++ quote :: rest)) = _
      rw [readQuoted_escaped (show unescape quote = some quote by decide), ih]
      rfl
    · rw [ended]
      show readQuoted (backslash :: 0x6E :: (escape value ++ quote :: rest)) = _
      rw [readQuoted_escaped (show unescape 0x6E = some newline by decide), ih]
      rfl
    · show readQuoted (b :: (escape value ++ quote :: rest)) = _
      rw [readQuoted_plain quoted escaped, ih]
      rfl

theorem readLabel_write {label : Text × Text} (named : isName label.1 = true) (rest : Text) :
    readLabel (writeLabel label ++ rest) = some (label, rest) := by
  have text : writeLabel label ++ rest =
      label.1 ++ 0x3D :: quote :: (escape label.2 ++ quote :: rest) := by
    simp [writeLabel]
  rw [text, readLabel, readName_append named (by decide)]
  have sign : behind [0x3D, quote] (0x3D :: quote :: (escape label.2 ++ quote :: rest)) =
      some (escape label.2 ++ quote :: rest) := behind_append [0x3D, quote] _
  simp [sign, readQuoted_escape]

theorem readLabels_write (some_label : labels ≠ []) (named : ∀ l ∈ labels, isName l.1 = true)
    {fuel : ℕ} (enough : labels.length ≤ fuel) (rest : Text) :
    readLabels fuel (writeLabels labels ++ rest) = some (labels, rest) := by
  induction labels generalizing fuel with
  | nil => exact absurd rfl some_label
  | cons label labels ih =>
    obtain ⟨fuel, rfl⟩ : ∃ k, fuel = k + 1 := by
      rw [List.length_cons] at enough
      exact ⟨fuel - 1, by omega⟩
    have first := readLabel_write (named label List.mem_cons_self)
    cases labels with
    | nil =>
      have text : writeLabels [label] ++ rest = writeLabel label ++ 0x7D :: rest := by
        simp [writeLabels]
      simp [readLabels, text, first]
    | cons next labels =>
      have text : writeLabels (label :: next :: labels) ++ rest =
          writeLabel label ++ 0x2C :: (writeLabels (next :: labels) ++ rest) := by
        simp [writeLabels]
      have fits : (next :: labels).length ≤ fuel := by
        rw [List.length_cons] at enough
        omega
      have more := ih (List.cons_ne_nil _ _) (fun l mem => named l (List.mem_cons_of_mem _ mem)) fits
      simp [readLabels, text, first, more]

theorem length_le_writeLabels (labels : List (Text × Text)) :
    labels.length ≤ (writeLabels labels).length := by
  induction labels with
  | nil => exact Nat.le_refl 0
  | cons label labels ih =>
    cases labels with
    | nil =>
      simp only [writeLabels, List.length_append, List.length_cons, List.length_nil]
      omega
    | cons next labels =>
      simp only [writeLabels, List.length_append, List.length_cons, List.length_nil] at ih ⊢
      omega

theorem readLabelSet_write (named : ∀ l ∈ labels, isName l.1 = true) {b : UInt8}
    (other : b ≠ 0x7B) :
    readLabelSet (writeLabelSet labels ++ b :: rest) = some (labels, b :: rest) := by
  unfold writeLabelSet
  split
  · rename_i none_
    subst none_
    rw [List.nil_append]
    unfold readLabelSet
    split
    · rename_i brace
      exact absurd (List.cons.inj brace).1 other
    · rfl
  · rename_i some_label
    have enough : labels.length ≤ (writeLabels labels ++ b :: rest).length := by
      have := length_le_writeLabels labels
      rw [List.length_append]
      omega
    exact readLabels_write some_label named enough (b :: rest)

/-- A line is spelled: nothing in it ends the line, and it reads as that. -/
def Spells (text : Text) (line : Line) : Prop := newline ∉ text ∧ readLine text = some line

theorem newline_notMem_name (named : isName name = true) : newline ∉ name := fun mem =>
  absurd (isName_bytes named _ mem) (by decide)

theorem newline_notMem_escape (value : Text) : newline ∉ escape value := by
  intro mem
  obtain ⟨b, -, mem⟩ := List.mem_flatMap.mp mem
  split_ifs at mem with escaped quoted ended
  · exact absurd mem (by decide)
  · exact absurd mem (by decide)
  · exact absurd mem (by decide)
  · exact ended (List.mem_singleton.mp mem).symm

theorem newline_notMem_label {label : Text × Text} (named : isName label.1 = true) :
    newline ∉ writeLabel label := by
  have front := newline_notMem_name named
  have back := newline_notMem_escape label.2
  simp [writeLabel, front, back, show newline ≠ 0x3D by decide, show newline ≠ quote by decide]

theorem newline_notMem_labels (named : ∀ l ∈ labels, isName l.1 = true) :
    newline ∉ writeLabels labels := by
  induction labels with
  | nil => exact List.not_mem_nil
  | cons label labels ih =>
    have first := newline_notMem_label (named label List.mem_cons_self)
    cases labels with
    | nil => simp [writeLabels, first, show newline ≠ 0x7D by decide]
    | cons next labels =>
      have more := ih fun l mem => named l (List.mem_cons_of_mem _ mem)
      simp [writeLabels, first, more, show newline ≠ 0x2C by decide]

theorem spells_sample (named : isName name = true) (labelled : ∀ l ∈ labels, isName l.1 = true)
    (reads : readNumber number = some q) (one : newline ∉ number) :
    Spells (name ++ writeLabelSet labels ++ blank :: number) (.sample ⟨name, labels, q⟩) := by
  refine ⟨?_, ?_⟩
  · have front := newline_notMem_name named
    have labels := newline_notMem_labels labelled
    unfold writeLabelSet
    split <;>
      simp [front, labels, one, show newline ≠ blank by decide, show newline ≠ 0x7B by decide]
  · have sample : readSample (name ++ writeLabelSet labels ++ blank :: number) =
        some ⟨name, labels, q⟩ := by
      have set : readLabelSet (writeLabelSet labels ++ blank :: number) = some (labels, blank :: number) :=
        readLabelSet_write labelled (by decide)
      have word : behind [blank] (blank :: number) = some number := behind_append [blank] number
      have stop : ∃ b rest, isNameByte b = false ∧
          writeLabelSet labels ++ blank :: number = b :: rest := by
        unfold writeLabelSet
        split
        · exact ⟨blank, number, by decide, rfl⟩
        · exact ⟨0x7B, _, by decide, rfl⟩
      obtain ⟨b, rest, stop, front⟩ := stop
      rw [List.append_assoc, readSample, front, readName_append named stop]
      rw [front] at set
      simp [set, word, reads]
    cases name with
    | nil => exact absurd named (by decide)
    | cons b name =>
      have head : b ≠ 0x23 := by
        rintro rfl
        exact absurd (isName_bytes named _ List.mem_cons_self) (by decide)
      unfold readLine
      split
      · rename_i empty
        exact absurd empty (by simp)
      · rename_i sharp
        exact absurd (List.cons.inj sharp).1 head
      · rw [sample]
        rfl

theorem readDoc_plain (plain : backslash ∉ doc) : readDoc doc = some doc := by
  induction doc with
  | nil => rfl
  | cons b doc ih =>
    rw [List.mem_cons, not_or] at plain
    rw [readDoc.eq_def]
    dsimp only
    rw [if_neg (Ne.symm plain.1), ih plain.2]
    rfl

/-- The line that tells what a family is about. -/
def writeHelp (name doc : Text) : Text :=
  [0x23, blank, 0x48, 0x45, 0x4C, 0x50, blank] ++ name ++ [blank] ++ doc

/-- The line that tells what kind of numbers it has. -/
def writeType (name kind : Text) : Text :=
  [0x23, blank, 0x54, 0x59, 0x50, 0x45, blank] ++ name ++ [blank] ++ kind

theorem spells_help (named : isName name = true) (plain : backslash ∉ doc) (one : newline ∉ doc) :
    Spells (writeHelp name doc) (.help name doc) := by
  have front := newline_notMem_name named
  refine ⟨?_, ?_⟩
  · have marks : newline ∉ [0x23, blank, 0x48, 0x45, 0x4C, 0x50, blank] := by decide
    simp only [writeHelp, List.mem_append, not_or]
    exact ⟨⟨⟨marks, front⟩, by decide⟩, one⟩
  · have word : behind [blank, 0x48, 0x45, 0x4C, 0x50, blank]
        (blank :: 0x48 :: 0x45 :: 0x4C :: 0x50 :: blank :: (name ++ blank :: doc)) =
          some (name ++ blank :: doc) := behind_append [blank, 0x48, 0x45, 0x4C, 0x50, blank] _
    have second : behind [blank] (blank :: doc) = some doc := behind_append [blank] doc
    simp [writeHelp, readLine, word,
      readName_append named (show isNameByte blank = false by decide), second, readDoc_plain plain]

theorem spells_type (named : isName name = true) (one : newline ∉ kind) :
    Spells (writeType name kind) (.type name kind) := by
  have front := newline_notMem_name named
  refine ⟨?_, ?_⟩
  · have marks : newline ∉ [0x23, blank, 0x54, 0x59, 0x50, 0x45, blank] := by decide
    simp only [writeType, List.mem_append, not_or]
    exact ⟨⟨⟨marks, front⟩, by decide⟩, one⟩
  · have other : behind [blank, 0x48, 0x45, 0x4C, 0x50, blank]
        (blank :: 0x54 :: 0x59 :: 0x50 :: 0x45 :: blank :: (name ++ blank :: kind)) = none := by
      simp [behind]
    have word : behind [blank, 0x54, 0x59, 0x50, 0x45, blank]
        (blank :: 0x54 :: 0x59 :: 0x50 :: 0x45 :: blank :: (name ++ blank :: kind)) =
          some (name ++ blank :: kind) := behind_append [blank, 0x54, 0x59, 0x50, 0x45, blank] _
    have second : behind [blank] (blank :: kind) = some kind := behind_append [blank] kind
    simp [writeType, readLine, other, word,
      readName_append named (show isNameByte blank = false by decide), second]

theorem splitLines_line (one : newline ∉ text) (front rest : Text) :
    splitLines front (text ++ newline :: rest) =
      (splitLines [] rest).map ((front.reverse ++ text) :: ·) := by
  induction text generalizing front with
  | nil => simp [splitLines]
  | cons b text ih =>
    rw [List.mem_cons, not_or] at one
    rw [List.cons_append, splitLines, if_neg (Ne.symm one.1), ih one.2]
    simp

/-- Spelled lines, each one ended, are read back. -/
theorem readBody_spelled {texts : List Text} {lines : List Line}
    (spelled : List.Forall₂ Spells texts lines) :
    readBody (texts.flatMap (· ++ [newline])) = some lines := by
  have split_ : splitLines [] (texts.flatMap (· ++ [newline])) = some texts := by
    induction spelled with
    | nil => rfl
    | cons first _ ih =>
      rw [List.flatMap_cons, List.append_assoc, List.singleton_append, splitLines_line first.1, ih]
      rfl
  have each : texts.mapM readLine = some lines := by
    clear split_
    induction spelled with
    | nil => rfl
    | cons first _ ih =>
      rw [List.mapM_cons, first.2, ih]
      rfl
  rw [readBody, split_]
  exact each

/-! ### Numbers -/

variable {ds fs : List ℕ}

theorem digit_spec {d : ℕ} (small : d < 10) :
    isDigit (0x30 + d.toUInt8) = true ∧ ((0x30 + d.toUInt8 : UInt8) - 0x30).toNat = d ∧
      0x30 + d.toUInt8 ≠ newline ∧ (0x30 + d.toUInt8 : UInt8) ≠ 0x2D := by
  interval_cases d <;> decide

theorem isDigit_writeDigits (small : ∀ d ∈ ds, d < 10) :
    ∀ b ∈ writeDigits ds, isDigit b = true := by
  intro b mem
  obtain ⟨d, digit, rfl⟩ := List.mem_map.mp mem
  exact (digit_spec (small d digit)).1

theorem newline_notMem_digits (small : ∀ d ∈ ds, d < 10) : newline ∉ writeDigits ds := by
  intro mem
  obtain ⟨d, digit, eq⟩ := List.mem_map.mp mem
  exact (digit_spec (small d digit)).2.2.1 eq

theorem numberOf_writeDigits (small : ∀ d ∈ ds, d < 10) :
    numberOf (writeDigits ds) = Nat.ofDigits 10 ds.reverse := by
  have back : (writeDigits ds).map (fun b => (b - 0x30).toNat) = ds := by
    rw [writeDigits, List.map_map]
    exact (List.map_congr_left fun d mem => (digit_spec (small d mem)).2.1).trans (List.map_id ds)
  rw [numberOf, back]

theorem readDecimal_whole (some_digit : ds ≠ []) (small : ∀ d ∈ ds, d < 10) :
    readDecimal (writeDigits ds) = some ((Nat.ofDigits 10 ds.reverse : ℕ) : ℚ) := by
  have digits := isDigit_writeDigits small
  have whole : (writeDigits ds).takeWhile isDigit = writeDigits ds :=
    List.takeWhile_eq_self_iff.mpr digits
  have rest : (writeDigits ds).dropWhile isDigit = [] := List.dropWhile_eq_nil_iff.mpr digits
  have filled : writeDigits ds ≠ [] := by
    rwa [writeDigits, Ne, List.map_eq_nil_iff]
  rw [readDecimal, whole, rest, if_neg filled, numberOf_writeDigits small]

theorem readDecimal_point (some_digit : ds ≠ []) (some_place : fs ≠ [])
    (small : ∀ d ∈ ds ++ fs, d < 10) :
    readDecimal (writeDigits ds ++ 0x2E :: writeDigits fs) =
      some (((Nat.ofDigits 10 (ds ++ fs).reverse : ℕ) : ℚ) / 10 ^ fs.length) := by
  have digits := isDigit_writeDigits fun d mem => small d (List.mem_append_left fs mem)
  have places := isDigit_writeDigits fun d mem => small d (List.mem_append_right ds mem)
  have whole : (writeDigits ds ++ 0x2E :: writeDigits fs).takeWhile isDigit = writeDigits ds := by
    rw [List.takeWhile_append_of_pos digits, List.takeWhile_cons_of_neg (by decide),
      List.append_nil]
  have rest : (writeDigits ds ++ 0x2E :: writeDigits fs).dropWhile isDigit =
      0x2E :: writeDigits fs := by
    rw [List.dropWhile_append_of_pos digits, List.dropWhile_cons_of_neg (by decide)]
  have filled : writeDigits ds ≠ [] := by
    rwa [writeDigits, Ne, List.map_eq_nil_iff]
  have filled' : writeDigits fs ≠ [] := by
    rwa [writeDigits, Ne, List.map_eq_nil_iff]
  have joined : writeDigits ds ++ writeDigits fs = writeDigits (ds ++ fs) :=
    List.map_append.symm
  have all : (writeDigits fs).all isDigit = true := List.all_eq_true.mpr places
  have size : (writeDigits fs).length = fs.length := List.length_map _
  simp only [readDecimal, whole, rest, if_neg filled, if_pos (And.intro filled' all)]
  rw [joined, numberOf_writeDigits small, size]

/-- A decimal that starts with a digit has no sign. -/
theorem readNumber_digit (some_digit : ds ≠ []) (small : ∀ d ∈ ds, d < 10) (rest : Text) :
    readNumber (writeDigits ds ++ rest) = readDecimal (writeDigits ds ++ rest) := by
  cases ds with
  | nil => exact absurd rfl some_digit
  | cons d ds =>
    have other := (digit_spec (small d List.mem_cons_self)).2.2.2
    unfold readNumber
    split
    · rename_i minus
      exact absurd (List.cons.inj minus).1 other
    · rfl

/-! ### Families -/

/-- A family: what its two lines say, and its samples. -/
structure Family where
  name : Text
  doc : Text
  kind : Text
  samples : List Sample

/-- Its lines, in one piece. -/
def Family.lines (f : Family) : List Line :=
  .help f.name f.doc :: .type f.name f.kind :: f.samples.map .sample

/-- A body reads as families: each in one piece under its own two lines, with a sample in it and all
its samples under its name, no name twice, and no sample of one name and labels twice. -/
structure Exposes (body : Text) (families : List Family) : Prop where
  reads : readBody body = some (families.flatMap Family.lines)
  filled : ∀ f ∈ families, f.samples ≠ []
  named : ∀ f ∈ families, ∀ s ∈ f.samples, s.name = f.name
  once : (families.map Family.name).Nodup
  distinct : ((families.flatMap Family.samples).map fun s => (s.name, s.labels)).Nodup

end Exposition

end Fixbolt
