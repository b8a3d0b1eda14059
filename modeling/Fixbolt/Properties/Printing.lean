import Fixbolt.Lib.Exposition
import Fixbolt.Metrics.Encode
import Fixbolt.Properties.Decimals
import Mathlib.Algebra.Order.BigOperators.Group.List

/-!
# What a scrape prints

Every writer of a scrape is one write of all its text, and its text is lines of the text format, in so
many bytes at most.

* `Puts`: a writer does what one write does; `Prints`: its text is these lines. Both compose;
* `readNumber_text`: a value is read back exactly;
* `prints_sample`, `prints_header`: the lines of a family;
* `prints_all`: all of them, in the room `capacityFor` reserves.
-/

namespace Fixbolt

namespace Metrics

open Exposition

/-- A number in decimal. -/
def decimal (n : ℕ) : Bytes := writeDigits (numberDigits n)

/-- The labels a sample carries. -/
def Extra.labels (engine : Bytes) : Extra → List (Bytes × Bytes)
  | .none => [(ascii "engine", engine)]
  | .conn id => [(ascii "engine", engine), (ascii "conn", decimal id.toNat)]
  | .kind label => [(ascii "engine", engine), (ascii "kind", label)]
  | .reason label => [(ascii "engine", engine), (ascii "reason", label)]

/-- The number a sample's value is. -/
def Value.quantity : Value → ℚ
  | .int n => n.toNat
  | .millis ms => ms.toInt / 1000
  | .uMillis ms => ms.toNat / 1000

/-! ### One write after the other -/

/-- A writer does what one write of all its text does. -/
def Puts (f : Out → Except Overflow Out) (text : Bytes) : Prop := ∀ o, f o = o.put text

theorem Out.put_eq (o : Out) (text : Bytes) :
    o.put text = if o.bytes.length + text.length ≤ o.capacity then .ok (o.extendFromSlice text)
      else .error .overflow := by
  have fits := o.fits
  unfold Out.put
  split
  · rw [if_neg (by omega)]
  · rw [if_pos (by omega)]

/-- Bytes there is room for, behind what is there. -/
theorem Vec.extendFromSlice_eq {o : Vec} {text : Bytes}
    (room : o.bytes.length + text.length ≤ o.capacity) :
    (o.extendFromSlice text).bytes = o.bytes ++ text ∧
      (o.extendFromSlice text).capacity = o.capacity := ⟨rfl, if_pos room⟩

theorem Out.put_put (o : Out) (a b : Bytes) : (o.put a >>= fun o => o.put b) = o.put (a ++ b) := by
  rw [Out.put_eq o a, Out.put_eq o (a ++ b), List.length_append]
  by_cases first : o.bytes.length + a.length ≤ o.capacity
  · have kept := Vec.extendFromSlice_eq first
    rw [if_pos first]
    show Out.put (o.extendFromSlice a) b = _
    rw [Out.put_eq, kept.1, kept.2, List.length_append]
    by_cases second : o.bytes.length + a.length + b.length ≤ o.capacity
    · rw [if_pos second, if_pos (by omega)]
      have again : ((o.extendFromSlice a).extendFromSlice b).capacity = o.capacity := by
        rw [(Vec.extendFromSlice_eq (by rw [kept.1, kept.2, List.length_append]; exact second)).2,
          kept.2]
      have joined : (o.extendFromSlice (a ++ b)).capacity = o.capacity :=
        (Vec.extendFromSlice_eq (by rw [List.length_append]; omega)).2
      exact congrArg Except.ok
        (Vec.ext (List.append_assoc _ _ _) (again.trans joined.symm))
    · rw [if_neg second, if_neg (by omega)]
  · rw [if_neg first, if_neg (by omega)]
    rfl

theorem puts_put (text : Bytes) : Puts (Out.put · text) text := fun _ => rfl

theorem puts_nothing : Puts .ok [] := by
  intro o
  rw [Out.put_eq, if_pos (by simpa using o.fits)]
  refine congrArg Except.ok (Vec.ext (List.append_nil _).symm ?_)
  exact (Vec.extendFromSlice_eq (by simpa using o.fits)).2.symm

theorem Puts.bind {f g : Out → Except Overflow Out} {a b : Bytes} (hf : Puts f a) (hg : Puts g b) :
    Puts (fun o => f o >>= g) (a ++ b) := by
  intro o
  have rest : g = fun o => o.put b := funext hg
  show (f o >>= g) = o.put (a ++ b)
  rw [hf o, rest, Out.put_put]

theorem Puts.foldlM {α : Type} {f : Out → α → Except Overflow Out} {text : α → Bytes} {xs : List α}
    (each : ∀ x ∈ xs, Puts (f · x) (text x)) : Puts (fun o => xs.foldlM f o) (xs.flatMap text) := by
  induction xs with
  | nil => exact puts_nothing
  | cons x xs ih =>
    exact (each x List.mem_cons_self).bind (ih fun y mem => each y (List.mem_cons_of_mem x mem))

/-! ### Values -/

/-- Milliseconds as seconds, with three decimals. -/
def secondsText (ms : ℕ) : Bytes :=
  decimal (ms / 1000) ++
    0x2E :: writeDigits [ms % 1000 / 100, ms % 1000 / 10 % 10, ms % 1000 % 10]

/-- The text of a value. -/
def Value.text : Value → Bytes
  | .int n => decimal n.toNat
  | .millis ms => (if ms.toInt < 0 then [0x2D] else []) ++ secondsText ms.toInt.natAbs
  | .uMillis ms => secondsText ms.toNat

theorem puts_uint (n : UInt64) : Puts (Out.uint · n) (decimal n.toNat) := by
  intro o
  have fits : n.toNat < 10 ^ 20 := lt_trans n.toNat_lt (by decide)
  show o.put (digitLoop 20 n.toNat []) = _
  rw [digitLoop_eq 20 (by decide) fits, List.append_nil]
  rfl

theorem puts_seconds (ms : UInt64) : Puts (Out.seconds · ms) (secondsText ms.toNat) := by
  have whole := puts_uint (ms / 1000)
  have rest := puts_put [0x2E, digitByte ((ms % 1000).toNat / 100),
    digitByte ((ms % 1000).toNat / 10 % 10), digitByte ((ms % 1000).toNat % 10)]
  have both := whole.bind rest
  rw [UInt64.toNat_div, UInt64.toNat_mod] at both
  exact both

theorem natAbs_toUInt64 (ms : Int64) : ms.toInt.natAbs.toUInt64.toNat = ms.toInt.natAbs := by
  have low := ms.le_toInt
  have high := ms.toInt_lt
  have size : UInt64.size = 2 ^ 64 := rfl
  exact UInt64.toNat_ofNat_of_lt (by omega)

theorem puts_value (v : Value) : Puts (Out.value · v) v.text := by
  cases v with
  | int n => exact puts_uint n
  | uMillis ms => exact puts_seconds ms
  | millis ms =>
    have magnitude := puts_seconds ms.toInt.natAbs.toUInt64
    rw [natAbs_toUInt64] at magnitude
    by_cases negative : ms.toInt < 0
    · have both := (puts_put [0x2D]).bind magnitude
      intro o
      have := both o
      simpa only [Out.value, Value.text, if_pos negative] using this
    · intro o
      have := magnitude o
      simpa only [Out.value, Value.text, if_neg negative, List.nil_append] using this

theorem decimal_length {n k : ℕ} (pos : 0 < k) (fits : n < 10 ^ k) : (decimal n).length ≤ k := by
  rw [decimal, writeDigits, List.length_map]
  exact numberDigits_length_le pos fits

theorem newline_notMem_decimal (n : ℕ) : newline ∉ decimal n :=
  newline_notMem_digits fun _ => numberDigits_lt _

theorem secondsText_length {ms k : ℕ} (pos : 0 < k) (fits : ms / 1000 < 10 ^ k) :
    (secondsText ms).length ≤ k + 4 := by
  have whole := decimal_length pos fits
  simp only [secondsText, writeDigits, List.length_append, List.length_cons, List.length_map,
    List.length_nil]
  omega

theorem text_length (v : Value) : v.text.length ≤ VALUE_MAX := by
  cases v with
  | int n =>
    have := decimal_length (k := 20) (by decide) (lt_trans n.toNat_lt (by decide))
    exact this.trans (by decide)
  | uMillis ms =>
    have small : ms.toNat / 1000 < 10 ^ 17 := by
      have := ms.toNat_lt
      omega
    exact secondsText_length (by decide) small
  | millis ms =>
    have small : ms.toInt.natAbs / 1000 < 10 ^ 16 := by
      have := ms.le_toInt
      have := ms.toInt_lt
      omega
    have whole := secondsText_length (by decide) small
    have sign : (if ms.toInt < 0 then [0x2D] else [] : Bytes).length ≤ 1 := by
      split <;> decide
    rw [Value.text, List.length_append, VALUE_MAX]
    omega

theorem fraction_small (ms : ℕ) :
    ∀ d ∈ [ms % 1000 / 100, ms % 1000 / 10 % 10, ms % 1000 % 10], d < 10 := by
  intro d mem
  simp only [List.mem_cons, List.not_mem_nil, or_false] at mem
  omega

theorem newline_notMem_text (v : Value) : newline ∉ v.text := by
  have seconds : ∀ ms, newline ∉ secondsText ms := by
    intro ms
    rw [secondsText, List.mem_append, List.mem_cons, not_or, not_or]
    exact ⟨newline_notMem_decimal _, by decide, newline_notMem_digits (fraction_small ms)⟩
  cases v with
  | int n => exact newline_notMem_decimal _
  | uMillis ms => exact seconds _
  | millis ms =>
    rw [Value.text, List.mem_append, not_or]
    refine ⟨?_, seconds _⟩
    split <;> decide

theorem readDecimal_seconds (ms : ℕ) : readDecimal (secondsText ms) = some ((ms : ℚ) / 1000) := by
  have small : ∀ d ∈ numberDigits (ms / 1000) ++
      [ms % 1000 / 100, ms % 1000 / 10 % 10, ms % 1000 % 10], d < 10 := by
    intro d mem
    obtain mem | mem := List.mem_append.mp mem
    · exact numberDigits_lt d mem
    · exact fraction_small ms d mem
  have all : Nat.ofDigits 10 (numberDigits (ms / 1000) ++
      [ms % 1000 / 100, ms % 1000 / 10 % 10, ms % 1000 % 10]).reverse = ms := by
    rw [List.reverse_append, Nat.ofDigits_append, ofDigits_numberDigits]
    simp only [List.reverse_cons, List.reverse_nil, List.nil_append, List.cons_append,
      Nat.ofDigits_cons, Nat.ofDigits_nil, List.length_cons, List.length_nil]
    omega
  have read := readDecimal_point (numberDigits_ne_nil (ms / 1000)) (List.cons_ne_nil _ _) small
  rw [all] at read
  rw [secondsText, decimal, read]
  norm_num

/-- A value is read back exactly. -/
theorem readNumber_text (v : Value) : readNumber v.text = some v.quantity := by
  have seconds : ∀ ms, readNumber (secondsText ms) = some ((ms : ℚ) / 1000) := fun ms =>
    (readNumber_digit (numberDigits_ne_nil _) (fun _ => numberDigits_lt _) _).trans
      (readDecimal_seconds ms)
  cases v with
  | int n =>
    have plain := readNumber_digit (numberDigits_ne_nil n.toNat) (fun _ => numberDigits_lt _) []
    rw [List.append_nil] at plain
    rw [Value.text, decimal, plain,
      readDecimal_whole (numberDigits_ne_nil _) (fun _ => numberDigits_lt _),
      ofDigits_numberDigits]
    rfl
  | uMillis ms => exact seconds _
  | millis ms =>
    by_cases negative : ms.toInt < 0
    · have magnitude : (ms.toInt.natAbs : ℚ) = -ms.toInt := by
        have whole : (ms.toInt.natAbs : ℤ) = -ms.toInt := by omega
        rw [← Int.cast_natCast, whole, Int.cast_neg]
      have minus : readNumber (0x2D :: secondsText ms.toInt.natAbs) =
          (readDecimal (secondsText ms.toInt.natAbs)).map (- ·) := rfl
      rw [Value.text, if_pos negative, List.singleton_append, minus, readDecimal_seconds, magnitude]
      simp [Value.quantity, neg_div]
    · have magnitude : (ms.toInt.natAbs : ℚ) = ms.toInt := by
        have whole : (ms.toInt.natAbs : ℤ) = ms.toInt := by omega
        rw [← Int.cast_natCast, whole]
      rw [Value.text, if_neg negative, List.nil_append, seconds, magnitude]
      rfl

/-! ### Lines -/

/-- A writer writes these lines, each one ended, in so many bytes at most. -/
def Prints (f : Out → Except Overflow Out) (lines : List Line) (room : ℕ) : Prop :=
  ∃ texts, List.Forall₂ Spells texts lines ∧ Puts f (texts.flatMap (· ++ [newline])) ∧
    (texts.flatMap (· ++ [newline])).length ≤ room

theorem prints_line {f : Out → Except Overflow Out} {text : Bytes} {line : Line} {room : ℕ}
    (spells : Spells text line) (puts : Puts f (text ++ [newline])) (le : text.length + 1 ≤ room) :
    Prints f [line] room := by
  have body : [text].flatMap (· ++ [newline]) = text ++ [newline] := by simp
  refine ⟨[text], .cons spells .nil, ?_, ?_⟩
  · rwa [body]
  · rwa [body, List.length_append]

theorem prints_nothing : Prints .ok [] 0 := ⟨[], .nil, puts_nothing, Nat.le_refl 0⟩

theorem Prints.mono {f : Out → Except Overflow Out} {lines : List Line} {room more : ℕ}
    (h : Prints f lines room) (le : room ≤ more) : Prints f lines more := by
  obtain ⟨texts, spells, puts, fits⟩ := h
  exact ⟨texts, spells, puts, fits.trans le⟩

theorem Prints.bind {f g : Out → Except Overflow Out} {front back : List Line} {m n : ℕ}
    (hf : Prints f front m) (hg : Prints g back n) :
    Prints (fun o => f o >>= g) (front ++ back) (m + n) := by
  obtain ⟨first, spells, puts, fits⟩ := hf
  obtain ⟨second, spells', puts', fits'⟩ := hg
  refine ⟨first ++ second, List.rel_append spells spells', ?_, ?_⟩
  · rw [List.flatMap_append]
    exact puts.bind puts'
  · rw [List.flatMap_append, List.length_append]
    omega

theorem Prints.foldlM {α : Type} {f : Out → α → Except Overflow Out} {lines : α → List Line}
    {room : α → ℕ} {xs : List α} (each : ∀ x ∈ xs, Prints (f · x) (lines x) (room x)) :
    Prints (fun o => xs.foldlM f o) (xs.flatMap lines) ((xs.map room).sum) := by
  induction xs with
  | nil => exact prints_nothing
  | cons x xs ih =>
    exact (each x List.mem_cons_self).bind (ih fun y mem => each y (List.mem_cons_of_mem x mem))

/-- A label value that needs no escaping. -/
def Extra.Plain : Extra → Prop
  | .kind label => escape label = label
  | .reason label => escape label = label
  | _ => True

/-- What a label after the engine's takes. -/
def Extra.room : Extra → ℕ
  | .none => 0
  | .conn _ => 7 + 20 + 1
  | .kind label => 7 + label.length + 1
  | .reason label => 9 + label.length + 1

theorem puts_escaped (value : Bytes) : Puts (Out.escaped · value) (escape value) := by
  refine Puts.foldlM fun b _ => ?_
  intro o
  dsimp only
  split_ifs <;> first | rfl | simp_all [backslash, quote, newline]

theorem escape_length (value : Bytes) : (escape value).length ≤ 2 * value.length := by
  induction value with
  | nil => exact Nat.le_refl 0
  | cons b value ih =>
    have split_ : escape (b :: value) = (if b = backslash then [backslash, backslash]
        else if b = quote then [backslash, quote]
        else if b = newline then [backslash, 0x6E]
        else [b]) ++ escape value := rfl
    have one : (if b = backslash then [backslash, backslash] else if b = quote then [backslash, quote]
        else if b = newline then [backslash, 0x6E] else [b]).length ≤ 2 := by
      split_ifs <;> simp
    rw [split_, List.length_append, List.length_cons]
    omega

theorem escape_digits {ds : List ℕ} (small : ∀ d ∈ ds, d < 10) :
    escape (writeDigits ds) = writeDigits ds := by
  induction ds with
  | nil => rfl
  | cons d ds ih =>
    have plain : ∀ d < 10, (0x30 + d.toUInt8 : UInt8) ≠ backslash ∧
        (0x30 + d.toUInt8 : UInt8) ≠ quote ∧ (0x30 + d.toUInt8 : UInt8) ≠ newline := by decide
    obtain ⟨a, b, c⟩ := plain d (small d List.mem_cons_self)
    have rest := ih fun e mem => small e (List.mem_cons_of_mem d mem)
    show escape ((0x30 + d.toUInt8) :: writeDigits ds) = _
    rw [escape, List.flatMap_cons, if_neg a, if_neg b, if_neg c]
    exact congrArg (_ :: ·) rest

theorem escape_decimal (n : ℕ) : escape (decimal n) = decimal n :=
  escape_digits fun _ => numberDigits_lt _

/-- The line of a sample, without its end. -/
def sampleText (name engine : Bytes) (x : Extra) (v : Value) : Bytes :=
  name ++ writeLabelSet (x.labels engine) ++ blank :: v.text

/-- What the line of a sample puts around its labels. -/
theorem label_words : ascii "\x7bengine=\"" = 0x7B :: (ascii "engine" ++ [0x3D, quote]) ∧
    ascii ",conn=\"" = 0x2C :: (ascii "conn" ++ [0x3D, quote]) ∧
    ascii ",kind=\"" = 0x2C :: (ascii "kind" ++ [0x3D, quote]) ∧
    ascii ",reason=\"" = 0x2C :: (ascii "reason" ++ [0x3D, quote]) ∧
    ascii "\"" = [quote] ∧ ascii "\x7d " = [0x7D, blank] ∧ ascii "\n" = [newline] ∧
    ascii " " = [blank] := by decide

/-- The labels after the engine's, up to the closing brace. -/
def Extra.text : Extra → Bytes
  | .none => []
  | .conn id => 0x2C :: writeLabel (ascii "conn", decimal id.toNat)
  | .kind label => 0x2C :: writeLabel (ascii "kind", label)
  | .reason label => 0x2C :: writeLabel (ascii "reason", label)

theorem writeLabelSet_labels (engine : Bytes) (x : Extra) :
    writeLabelSet (x.labels engine) =
      0x7B :: (writeLabel (ascii "engine", engine) ++ x.text ++ [0x7D]) := by
  cases x <;> simp [Extra.labels, Extra.text, writeLabelSet, writeLabels]

theorem puts_extra {x : Extra} (plain : x.Plain) : Puts (Out.extra · x) x.text := by
  obtain ⟨-, conn, kind, reason, close, -, -, -⟩ := label_words
  intro o
  cases x with
  | none => exact puts_nothing o
  | conn id =>
    have label := (puts_put (ascii ",conn=\"")).bind <| (puts_uint id).bind <| puts_put (ascii "\"")
    refine (label o).trans (congrArg o.put ?_)
    simp [Extra.text, writeLabel, conn, close, escape_decimal]
  | kind l =>
    have label := (puts_put (ascii ",kind=\"")).bind <| (puts_put l).bind <| puts_put (ascii "\"")
    have same : escape l = l := plain
    refine (label o).trans (congrArg o.put ?_)
    simp [Extra.text, writeLabel, kind, close, same]
  | reason l =>
    have label := (puts_put (ascii ",reason=\"")).bind <| (puts_put l).bind <| puts_put (ascii "\"")
    have same : escape l = l := plain
    refine (label o).trans (congrArg o.put ?_)
    simp [Extra.text, writeLabel, reason, close, same]

theorem puts_sample {x : Extra} (plain : x.Plain) (name engine : Bytes) (v : Value) :
    Puts (fun o => Out.sample o name engine x v) (sampleText name engine x v ++ [newline]) := by
  obtain ⟨front, -, -, -, close, behind_, ended, -⟩ := label_words
  have all := (puts_put name).bind <| (puts_put (ascii "\x7bengine=\"")).bind <|
    (puts_escaped engine).bind <| (puts_put (ascii "\"")).bind <| (puts_extra plain).bind <|
    (puts_put (ascii "\x7d ")).bind <| (puts_value v).bind <| puts_put (ascii "\n")
  intro o
  refine (all o).trans (congrArg o.put ?_)
  simp [sampleText, writeLabelSet_labels, writeLabel, front, close, behind_, ended]

theorem text_room {x : Extra} (plain : x.Plain) : x.text.length ≤ x.room := by
  have words : (ascii "conn").length = 4 ∧ (ascii "kind").length = 4 ∧
      (ascii "reason").length = 6 := by decide
  cases x with
  | none => exact Nat.le_refl 0
  | conn id =>
    have digits := decimal_length (k := 20) (by decide) (lt_trans id.toNat_lt (by decide))
    simp only [Extra.text, Extra.room, writeLabel, escape_decimal, List.length_append,
      List.length_cons, List.length_nil, words.1]
    omega
  | kind l =>
    have same : escape l = l := plain
    simp only [Extra.text, Extra.room, writeLabel, same, List.length_append,
      List.length_cons, List.length_nil, words.2.1]
    omega
  | reason l =>
    have same : escape l = l := plain
    simp only [Extra.text, Extra.room, writeLabel, same, List.length_append,
      List.length_cons, List.length_nil, words.2.2]
    omega

theorem isName_labels (engine : Bytes) (x : Extra) : ∀ l ∈ x.labels engine, isName l.1 = true := by
  have words : isName (ascii "engine") = true ∧ isName (ascii "conn") = true ∧
      isName (ascii "kind") = true ∧ isName (ascii "reason") = true := by decide
  obtain ⟨engine_, conn, kind, reason⟩ := words
  cases x with
  | none => simpa [Extra.labels] using engine_
  | conn id => simpa [Extra.labels] using ⟨engine_, conn⟩
  | kind l => simpa [Extra.labels] using ⟨engine_, kind⟩
  | reason l => simpa [Extra.labels] using ⟨engine_, reason⟩

theorem sampleText_length {x : Extra} (plain : x.Plain) (name engine : Bytes) (v : Value) :
    (sampleText name engine x v).length + 1 ≤
      name.length + 1 + VALUE_MAX + 1 + (9 + 1 + 1) + x.room + 2 * engine.length := by
  have labels := text_room plain
  have value := text_length v
  have escaped := escape_length engine
  have word : (ascii "engine").length = 6 := by decide
  simp only [sampleText, writeLabelSet_labels, writeLabel, List.length_append, List.length_cons,
    List.length_nil, word]
  omega

theorem prints_sample {x : Extra} (plain : x.Plain) {name : Bytes} (named : isName name = true)
    (engine : Bytes) (v : Value) :
    Prints (fun o => Out.sample o name engine x v)
      [.sample ⟨name, x.labels engine, v.quantity⟩]
      (name.length + 1 + VALUE_MAX + 1 + (9 + 1 + 1) + x.room + 2 * engine.length) :=
  prints_line
    (spells_sample named (isName_labels engine x) (readNumber_text v) (newline_notMem_text v))
    (puts_sample plain name engine v) (sampleText_length plain name engine v)

/-! ### The table of series -/

/-- Which labels the samples of a source carry. -/
def Source.scope : Source → Scope
  | .sessionLoggedOn | .sessionNextOut | .sessionNextIn | .sessionSkew | .sessionPendingOutput
  | .sessionJournalRefused | .sessionResendBeyond => .session
  | .events => .eventKind
  | .sessionEnds => .reason
  | .scrapes | .badRequests => .exporter
  | _ => .engine

-- The literals are opened before the evaluation: taking them apart is what is slow.
theorem all_once : (ALL.map Series.name).Nodup := by
  simp only [ALL, List.map_cons, List.map_nil, series]
  repeat rw [ascii_ofList]
  decide +kernel

/-- Every series has a name, a help of one line without escapes, and the scope of its source. -/
theorem all_spec : ∀ s ∈ ALL, isName s.name = true ∧ backslash ∉ s.help ∧ newline ∉ s.help ∧
    s.scope = s.source.scope := by
  unfold ALL series
  repeat
    refine List.forall_mem_cons.mpr ⟨?_, ?_⟩
    · dsimp only
      rw [ascii_ofList, ascii_ofList]
      decide +kernel
  exact List.forall_mem_nil _

/-- The longest label of an event. -/
def maxKind : ℕ := ((EVENT_KINDS.map List.length).max?).getD 0

/-- The longest label of a reason. -/
def maxReason : ℕ := (((List.range REASONS).map fun i => (reasonLabel i).length).max?).getD 0

theorem kinds_spec : EVENT_KINDS.Nodup ∧
    ∀ l ∈ EVENT_KINDS, escape l = l ∧ l.length ≤ maxKind := by decide +kernel

theorem reasons_spec : ((List.range REASONS).map reasonLabel).Nodup ∧
    ∀ i < REASONS, escape (reasonLabel i) = reasonLabel i ∧ (reasonLabel i).length ≤ maxReason := by
  decide +kernel

/-- How many samples an engine has under a series. -/
def Scope.perEngine : Scope → ℕ
  | .exporter => 0
  | .engine => 1
  | .session => MAX_SESSIONS
  | .eventKind => EVENT_KINDS.length
  | .reason => REASONS

/-- The room of a label behind the engine's. -/
def Scope.extraRoom : Scope → ℕ
  | .exporter | .engine => 0
  | .session => 7 + 20 + 1
  | .eventKind => 7 + maxKind + 1
  | .reason => 9 + maxReason + 1

/-- What is printed of an engine that holds no more sessions than a snapshot carries. -/
structure EachSpec (samples : List (Extra × Value)) (scope : Scope) : Prop where
  few : samples.length ≤ scope.perEngine
  once : (samples.map Prod.fst).Nodup
  plain : ∀ p ∈ samples, p.1.Plain ∧ p.1.room ≤ scope.extraRoom

theorem engineSample_spec (v : Option Value) : EachSpec (engineSample v) .engine := by
  cases v with
  | none => exact ⟨Nat.zero_le 1, List.nodup_nil, fun _ mem => absurd mem List.not_mem_nil⟩
  | some v =>
    refine ⟨Nat.le_refl 1, List.nodup_singleton _, fun p mem => ?_⟩
    obtain rfl := List.mem_singleton.mp mem
    exact ⟨trivial, Nat.le_refl 0⟩

theorem sessions_sublist (sessions : List SessionView) (g : SessionView → Option Value) :
    ((sessions.filterMap fun s => (g s).map fun v => (Extra.conn s.conn, v)).map Prod.fst).Sublist
      (sessions.map fun s => Extra.conn s.conn) := by
  induction sessions with
  | nil => exact .slnil
  | cons s sessions ih =>
    cases value : g s with
    | none =>
      rw [List.filterMap_cons_none (by rw [value]; rfl)]
      exact ih.cons _
    | some v =>
      rw [List.filterMap_cons_some (b := (Extra.conn s.conn, v)) (by rw [value]; rfl)]
      exact ih.cons_cons _

theorem sessions_spec {e : EngineView} (few : e.sessions.length ≤ MAX_SESSIONS)
    (once : (e.sessions.map SessionView.conn).Nodup) (source : Source) :
    EachSpec (if e.numbers.isNone then []
      else e.sessions.filterMap fun s =>
        (sessionValue source s).map fun v => (Extra.conn s.conn, v)) .session := by
  split
  · exact ⟨Nat.zero_le _, List.nodup_nil, fun _ mem => absurd mem List.not_mem_nil⟩
  · refine ⟨(List.length_filterMap_le _ _).trans few, ?_, fun p mem => ?_⟩
    · have conns : (e.sessions.map fun s => Extra.conn s.conn).Nodup := by
        have := once.map (f := Extra.conn) fun a b eq => Extra.conn.inj eq
        rwa [List.map_map] at this
      exact conns.sublist (sessions_sublist _ _)
    · obtain ⟨s, -, printed⟩ := List.mem_filterMap.mp mem
      obtain ⟨v, -, rfl⟩ := Option.map_eq_some_iff.mp printed
      exact ⟨trivial, Nat.le_refl _⟩

theorem kinds_each (c : Counts) :
    EachSpec ((EVENT_KINDS.zip c.kinds.toList).map fun (label, n) => (Extra.kind label, Value.int n))
      .eventKind := by
  refine ⟨?_, ?_, fun p mem => ?_⟩
  · rw [List.length_map, List.length_zip]
    exact Nat.min_le_left _ _
  · have labels : (EVENT_KINDS.zip c.kinds.toList).map Prod.fst = EVENT_KINDS :=
      List.map_fst_zip (by simp)
    have once := kinds_spec.1.map (f := Extra.kind) fun a b eq => Extra.kind.inj eq
    rw [← labels, List.map_map] at once
    rwa [List.map_map]
  · obtain ⟨⟨label, n⟩, pair, rfl⟩ := List.mem_map.mp mem
    obtain ⟨same, short⟩ := kinds_spec.2 label (List.of_mem_zip pair).1
    refine ⟨same, ?_⟩
    simp only [Extra.room, Scope.extraRoom]
    omega

theorem reasons_each (c : Counts) :
    EachSpec (c.reasons.toList.zipIdx.map fun (n, i) => (Extra.reason (reasonLabel i), Value.int n))
      .reason := by
  have size : c.reasons.toList.length = REASONS := by simp
  refine ⟨?_, ?_, fun p mem => ?_⟩
  · rw [List.length_map, List.length_zipIdx, size]
    exact Nat.le_refl _
  · have places : c.reasons.toList.zipIdx.map Prod.snd = List.range REASONS := by
      rw [List.zipIdx_map_snd, size, List.range_eq_range']
    have once := reasons_spec.1.map (f := Extra.reason) fun a b eq => Extra.reason.inj eq
    rw [← places, List.map_map, List.map_map] at once
    rwa [List.map_map]
  · obtain ⟨⟨n, i⟩, pair, rfl⟩ := List.mem_map.mp mem
    have bound : i < REASONS := by
      have := List.snd_lt_of_mem_zipIdx pair
      rwa [size] at this
    obtain ⟨same, short⟩ := reasons_spec.2 i bound
    refine ⟨same, ?_⟩
    simp only [Extra.room, Scope.extraRoom]
    omega

/-- What is printed of an engine under a series: as many samples as its scope says, no label twice. -/
theorem eachSample_spec {e : EngineView} (few : e.sessions.length ≤ MAX_SESSIONS)
    (once : (e.sessions.map SessionView.conn).Nodup) (s : Series) :
    EachSpec (eachSample s e) s.source.scope := by
  have empty (scope : Scope) : EachSpec [] scope :=
    ⟨Nat.zero_le _, List.nodup_nil, fun _ mem => absurd mem List.not_mem_nil⟩
  obtain ⟨name, kind, scope, source, help⟩ := s
  cases source with
  | sessionLoggedOn | sessionNextOut | sessionNextIn | sessionSkew | sessionPendingOutput
  | sessionJournalRefused | sessionResendBeyond => exact sessions_spec few once _
  | events =>
    simp only [eachSample]
    split
    · exact kinds_each _
    · exact empty _
  | sessionEnds =>
    simp only [eachSample]
    split
    · exact reasons_each _
    · exact empty _
  | scrapes | badRequests => exact empty _
  | _ => exact engineSample_spec _

/-! ### Families -/

/-- What the exporter says of itself under a series. -/
def ExporterView.count (exporter : ExporterView) (source : Source) : UInt64 :=
  match source with
  | .scrapes => exporter.scrapes
  | _ => exporter.badRequests

/-- The samples of a series. -/
def Series.samples (engines : List EngineView) (exporter : ExporterView) (s : Series) : List Sample :=
  if s.scope = .exporter then [⟨s.name, [], (exporter.count s.source).toNat⟩]
  else engines.flatMap fun e =>
    (eachSample s e).map fun p => ⟨s.name, p.1.labels e.name, p.2.quantity⟩

/-- The family of a series. -/
def Series.family (engines : List EngineView) (exporter : ExporterView) (s : Series) : Family :=
  ⟨s.name, s.help, s.kind.asStr, s.samples engines exporter⟩

/-- Its lines: none where it has no sample. -/
def Series.lines (engines : List EngineView) (exporter : ExporterView) (s : Series) : List Line :=
  if s.samples engines exporter = [] then [] else (s.family engines exporter).lines

theorem header_words : ascii "# HELP " = [0x23, blank, 0x48, 0x45, 0x4C, 0x50, blank] ∧
    ascii "\n# TYPE " = newline :: [0x23, blank, 0x54, 0x59, 0x50, 0x45, blank] := by decide

theorem prints_header {s : Series} (mem : s ∈ ALL) :
    Prints (Out.header · s) [.help s.name s.help, .type s.name s.kind.asStr]
      (7 + s.name.length + 1 + s.help.length + 1 + 7 + s.name.length + 1 +
        s.kind.asStr.length + 1) := by
  obtain ⟨named, plain, one, -⟩ := all_spec s mem
  have kind : newline ∉ s.kind.asStr := by cases s.kind <;> decide
  obtain ⟨help, type⟩ := header_words
  obtain ⟨-, -, -, -, -, -, ended, between⟩ := label_words
  have all := (puts_put (ascii "# HELP ")).bind <| (puts_put s.name).bind <|
    (puts_put (ascii " ")).bind <| (puts_put s.help).bind <| (puts_put (ascii "\n# TYPE ")).bind <|
    (puts_put s.name).bind <| (puts_put (ascii " ")).bind <| (puts_put s.kind.asStr).bind <|
    puts_put (ascii "\n")
  refine ⟨[writeHelp s.name s.help, writeType s.name s.kind.asStr],
    .cons (spells_help named plain one) (.cons (spells_type named kind) .nil), ?_, ?_⟩
  · intro o
    refine (all o).trans (congrArg o.put ?_)
    simp [writeHelp, writeType, help, type, ended, between]
  · simp only [writeHelp, writeType, List.flatMap_cons, List.flatMap_nil, List.length_append,
      List.length_cons, List.length_nil]
    omega

theorem prints_exporter {s : Series} (mem : s ∈ ALL) (v : UInt64) :
    Prints (exporterSample · s.name v) [.sample ⟨s.name, [], v.toNat⟩]
      (s.name.length + 1 + VALUE_MAX + 1) := by
  obtain ⟨named, -⟩ := all_spec s mem
  obtain ⟨-, -, -, -, -, -, ended, between⟩ := label_words
  have all := (puts_put s.name).bind <| (puts_put (ascii " ")).bind <|
    (puts_value (.int v)).bind <| puts_put (ascii "\n")
  have bare : ∀ l ∈ ([] : List (Bytes × Bytes)), isName l.1 = true := List.forall_mem_nil _
  have spells := spells_sample named bare (readNumber_text (.int v)) (newline_notMem_text (.int v))
  refine prints_line spells ?_ ?_
  · intro o
    refine (all o).trans (congrArg o.put ?_)
    simp [writeLabelSet, ended, between]
  · have value := text_length (.int v)
    simp only [writeLabelSet, if_true, List.append_nil, List.length_append, List.length_cons]
    omega

/-- The samples of an engine under a series. -/
theorem prints_engine {s : Series} (mem : s ∈ ALL) {e : EngineView}
    (few : e.sessions.length ≤ MAX_SESSIONS) (once : (e.sessions.map SessionView.conn).Nodup) :
    Prints (fun o => (eachSample s e).foldlM
        (fun o (x, v) => Out.sample o s.name e.name x v) o)
      ((eachSample s e).map fun p => .sample ⟨s.name, p.1.labels e.name, p.2.quantity⟩)
      ((eachSample s e).length * (s.name.length + 1 + VALUE_MAX + 1 + (9 + 1 + 1) +
        s.scope.extraRoom + 2 * e.name.length)) := by
  obtain ⟨named, -, -, scope⟩ := all_spec s mem
  have spec := eachSample_spec few once s
  rw [← scope] at spec
  have all := Prints.foldlM (f := fun o (x, v) => Out.sample o s.name e.name x v)
    fun p (mem : p ∈ eachSample s e) => prints_sample (spec.plain p mem).1 named e.name p.2
  have lines : (eachSample s e).flatMap (fun p =>
      [Line.sample ⟨s.name, p.1.labels e.name, p.2.quantity⟩]) =
        (eachSample s e).map fun p => .sample ⟨s.name, p.1.labels e.name, p.2.quantity⟩ :=
    List.flatMap_pure_eq_map _ _
  rw [lines] at all
  refine all.mono ?_
  calc _ ≤ ((eachSample s e).map fun _ => s.name.length + 1 + VALUE_MAX + 1 + (9 + 1 + 1) +
        s.scope.extraRoom + 2 * e.name.length).sum :=
        List.sum_le_sum fun p mem => by
          have := (spec.plain p mem).2
          omega
    _ = _ := by simp only [List.map_const', List.sum_replicate_nat]

/-- What `capacityFor` reserves for the samples of one engine. -/
def Series.engineRoom (s : Series) (name : Bytes) : ℕ :=
  s.name.length + 1 + VALUE_MAX + 1 + (9 + 1 + 1) + s.scope.extraRoom + 2 * name.length

/-- The room of a family: its two lines and its samples. -/
theorem roomFor_eq {s : Series} (names : List Bytes) (scope : s.scope ≠ .exporter) :
    roomFor names.length (names.map fun n => 2 * n.length).sum maxKind maxReason true s =
      (7 + s.name.length + 1 + s.help.length + 1 + 7 + s.name.length + 1 +
        s.kind.asStr.length + 1) + s.scope.perEngine * (names.map s.engineRoom).sum := by
  have sum : (names.map s.engineRoom).sum = names.length *
      (s.name.length + 1 + VALUE_MAX + 1 + (9 + 1 + 1) + s.scope.extraRoom) +
        (names.map fun n => 2 * n.length).sum := by
    induction names with
    | nil => simp
    | cons n names ih =>
      rw [List.map_cons, List.sum_cons, ih, List.map_cons, List.sum_cons, List.length_cons,
        Series.engineRoom, Nat.add_mul]
      omega
  rw [sum]
  cases at_ : s.scope with
  | exporter => exact absurd at_ scope
  | engine | session | eventKind | reason =>
    simp [roomFor, at_, Scope.perEngine, Scope.extraRoom]

/-- Without event counts nothing is reserved for them. -/
theorem roomFor_without {s : Series} (engines escaped : ℕ) (scope : s.scope = .eventKind ∨ s.scope = .reason) :
    roomFor engines escaped maxKind maxReason false s =
      7 + s.name.length + 1 + s.help.length + 1 + 7 + s.name.length + 1 +
        s.kind.asStr.length + 1 := by
  obtain at_ | at_ := scope <;> simp [roomFor, at_]

/-- Elsewhere it makes no difference. -/
theorem roomFor_events {s : Series} (engines escaped : ℕ) (events : Bool)
    (scope : s.scope ≠ .eventKind ∧ s.scope ≠ .reason) :
    roomFor engines escaped maxKind maxReason events s =
      roomFor engines escaped maxKind maxReason true s := by
  cases at_ : s.scope with
  | eventKind => exact absurd at_ scope.1
  | reason => exact absurd at_ scope.2
  | exporter | engine | session => simp [roomFor, at_]

/-- What a scrape may count on: a snapshot's worth of sessions, no connection twice, and event counts
only where room was asked for them. -/
structure EngineView.Fits (e : EngineView) (events : Bool) : Prop where
  few : e.sessions.length ≤ MAX_SESSIONS
  once : (e.sessions.map SessionView.conn).Nodup
  told : e.events.isSome → events = true

theorem eachSample_untold {s : Series} {e : EngineView} (untold : e.events = none)
    (scope : s.source.scope = .eventKind ∨ s.source.scope = .reason) : eachSample s e = [] := by
  obtain ⟨name, kind, scope_, source, help⟩ := s
  cases source with
  | events | sessionEnds => simp only [eachSample, untold]
  | _ => simp [Source.scope] at scope

theorem eachSample_exporter {s : Series} {e : EngineView} (scope : s.source.scope = .exporter) :
    eachSample s e = [] := by
  obtain ⟨name, kind, scope_, source, help⟩ := s
  cases source with
  | scrapes | badRequests => rfl
  | _ => simp [Source.scope] at scope

/-- What the samples of a series take is reserved. -/
theorem samples_room {s : Series} (mem : s ∈ ALL) {engines : List EngineView} {events : Bool}
    (fit : ∀ e ∈ engines, e.Fits events) (scope : s.scope ≠ .exporter) :
    (7 + s.name.length + 1 + s.help.length + 1 + 7 + s.name.length + 1 + s.kind.asStr.length + 1) +
        (engines.map fun e => (eachSample s e).length * s.engineRoom e.name).sum ≤
      roomFor engines.length (engines.map fun e => 2 * e.name.length).sum maxKind maxReason events
        s := by
  obtain ⟨-, -, -, same⟩ := all_spec s mem
  have full := roomFor_eq (engines.map EngineView.name) scope
  rw [List.length_map, List.map_map, List.map_map] at full
  have each : (engines.map fun e => (eachSample s e).length * s.engineRoom e.name).sum ≤
      s.scope.perEngine * (engines.map (s.engineRoom ∘ EngineView.name)).sum := by
    rw [← List.sum_map_mul_left]
    refine List.sum_le_sum fun e at_ => Nat.mul_le_mul_right _ ?_
    have spec := eachSample_spec (fit e at_).few (fit e at_).once s
    rw [same]
    exact spec.few
  by_cases counted : s.scope = .eventKind ∨ s.scope = .reason
  · cases events with
    | true =>
      exact (Nat.add_le_add_left each _).trans (le_of_eq full.symm)
    | false =>
      have none_ : (engines.map fun e => (eachSample s e).length * s.engineRoom e.name).sum = 0 := by
        refine List.sum_eq_zero fun n at_ => ?_
        obtain ⟨e, mem, rfl⟩ := List.mem_map.mp at_
        have untold : e.events = none := by
          cases has : e.events with
          | none => rfl
          | some c => exact absurd ((fit e mem).told (by rw [has]; rfl)) (by decide)
        rw [eachSample_untold untold (same ▸ counted), List.length_nil, Nat.zero_mul]
      rw [none_, roomFor_without _ _ counted]
  · rw [roomFor_events _ _ events (not_or.mp counted)]
    exact (Nat.add_le_add_left each _).trans (le_of_eq full.symm)

/-- One series: its family, in the room reserved for it. -/
theorem prints_series {s : Series} (mem : s ∈ ALL) {engines : List EngineView} {events : Bool}
    (fit : ∀ e ∈ engines, e.Fits events) (exporter : ExporterView) :
    Prints (encodeSeries engines exporter · s) (s.lines engines exporter)
      (roomFor engines.length (engines.map fun e => 2 * e.name.length).sum maxKind maxReason events
        s) := by
  have header := prints_header mem
  by_cases scope : s.scope = .exporter
  · have both := header.bind (prints_exporter mem (exporter.count s.source))
    have lines : s.lines engines exporter = [.help s.name s.help, .type s.name s.kind.asStr] ++
        [.sample ⟨s.name, [], (exporter.count s.source).toNat⟩] := by
      simp [Series.lines, Series.samples, Series.family, Family.lines, scope]
    have same : (encodeSeries engines exporter · s) = fun o =>
        Out.header o s >>= (exporterSample · s.name (exporter.count s.source)) := by
      funext o
      rw [encodeSeries, if_pos scope]
      rfl
    rw [lines, same]
    refine both.mono ?_
    simp only [roomFor, scope]
    omega
  by_cases empty : (engines.all fun e => (eachSample s e).isEmpty) = true
  · have none_ : s.samples engines exporter = [] := by
      rw [Series.samples, if_neg scope, List.flatMap_eq_nil_iff]
      intro e at_
      rw [List.map_eq_nil_iff]
      exact List.isEmpty_iff.mp (List.all_eq_true.mp empty e at_)
    have same : (encodeSeries engines exporter · s) = .ok := by
      funext o
      rw [encodeSeries, if_neg scope, if_pos empty]
    rw [Series.lines, if_pos none_, same]
    exact prints_nothing.mono (Nat.zero_le _)
  · have samples := Prints.foldlM fun e (at_ : e ∈ engines) =>
      prints_engine mem (fit e at_).few (fit e at_).once
    have both := header.bind samples
    have some_ : s.samples engines exporter ≠ [] := by
      intro none_
      rw [Series.samples, if_neg scope, List.flatMap_eq_nil_iff] at none_
      refine empty (List.all_eq_true.mpr fun e at_ => List.isEmpty_iff.mpr ?_)
      exact List.map_eq_nil_iff.mp (none_ e at_)
    have lines : s.lines engines exporter = [.help s.name s.help, .type s.name s.kind.asStr] ++
        engines.flatMap fun e => (eachSample s e).map fun p =>
          .sample ⟨s.name, p.1.labels e.name, p.2.quantity⟩ := by
      rw [Series.lines, if_neg some_]
      simp [Series.samples, Series.family, Family.lines, scope, List.map_flatMap, Function.comp_def]
    have same : (encodeSeries engines exporter · s) = fun o => Out.header o s >>= fun o =>
        engines.foldlM (fun o e => (eachSample s e).foldlM
          (fun o (x, v) => Out.sample o s.name e.name x v) o) o := by
      funext o
      rw [encodeSeries, if_neg scope, if_neg empty]
    rw [lines, same]
    exact both.mono (samples_room mem fit scope)

/-- The names of the engines are counted, and twice their bytes are. -/
theorem foldl_names (names : List Bytes) (n len : ℕ) :
    names.foldl (fun (n, len) name => (n + 1, len + 2 * name.length)) (n, len) =
      (n + names.length, len + (names.map fun name => 2 * name.length).sum) := by
  induction names generalizing n len with
  | nil => rfl
  | cons name names ih =>
    rw [List.foldl_cons, ih, List.length_cons, List.map_cons, List.sum_cons]
    exact Prod.ext (by dsimp only; omega) (by dsimp only; omega)

/-- All series: their families, in the room reserved. -/
theorem prints_all {engines : List EngineView} {events : Bool}
    (fit : ∀ e ∈ engines, e.Fits events) (exporter : ExporterView) :
    Prints (fun o => ALL.foldlM (encodeSeries engines exporter) o)
      (ALL.flatMap (Series.lines engines exporter))
      (capacityFor (engines.map EngineView.name) events) := by
  have all := Prints.foldlM fun s (mem : s ∈ ALL) => prints_series mem fit exporter
  refine all.mono (le_of_eq ?_)
  rw [capacityFor, foldl_names, List.length_map, List.map_map, Nat.zero_add, Nat.zero_add,
    List.sum_eq_foldl, List.foldl_map]
  rfl

end Metrics

end Fixbolt
