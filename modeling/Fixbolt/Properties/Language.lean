import Fixbolt.Codec.Readback

/-!
# The language of the parser, and how far apart its words lie

A parser with every check on takes exactly the framed messages with as many fields as its index has
room for. No word of that language is the beginning of another one, and two words of one length
differ in two bytes or more, so that a message with one damaged byte is not taken whole.

* `parseInto_index`: what every push keeps of an index, the parser keeps;
* `language`: the parser takes a framed message, reads its fields and nothing behind it, and no
  bytes begin with two of them;
* `OneApart.append`: two lists that differ at one place differ in one of two parts;
* `damage_detected`: a message with one damaged byte is not taken whole.
-/

namespace Fixbolt

variable {D : Dictionary} {N : ℕ} {buf : Bytes} {v : Validation}

/-! ### What the index has room for -/

section Index

variable {P : List FieldEntry → Prop}
  (push : ∀ {idx idx' : List FieldEntry} {tag offset len : ℕ}, P idx →
    pushField N idx tag offset len = .ok idx' → P idx')

include push

theorem parseTrailer_index {trailerAt pos valStart : ℕ} {idx : List FieldEntry} (h : P idx) :
    P (parseTrailer N buf v trailerAt pos valStart idx).index := by
  unfold parseTrailer
  split
  · exact h
  · split
    · exact h
    · rename_i pushed
      have pushed := push h pushed
      dsimp only
      repeat' split
      all_goals exact pushed

theorem parseFields_index {trailerAt fuel pos : ℕ} {idx : List FieldEntry} (h : P idx) :
    P (parseFields D N buf v trailerAt fuel pos idx).index := by
  induction fuel generalizing pos idx with
  | zero => exact h
  | succ fuel ih =>
    unfold parseFields
    split
    · exact h
    · split
      · exact h
      · exact h
      · split
        · exact parseTrailer_index push h
        · split
          · exact h
          · split
            · exact h
            · rename_i pushed
              exact ih (push h pushed)

/-- **What every push keeps of an index, the parser keeps.** -/
theorem parseInto_index (empty : P []) : P (parseInto D N buf v).index := by
  unfold parseInto
  split
  · exact empty
  · split
    · exact empty
    · split
      · exact empty
      · rename_i pushed
        have first := push empty pushed
        unfold parseBody
        split
        · exact first
        · dsimp only
          split
          · exact first
          · split
            · exact first
            · split
              · exact first
              · rename_i pushed
                exact parseFields_index push (push first pushed)

end Index

theorem parseInto_room : (parseInto D N buf v).index.length ≤ N := by
  refine parseInto_index (P := fun idx => idx.length ≤ N) ?_ (Nat.zero_le _)
  intro idx idx' tag offset len _ pushed
  obtain ⟨_, room, rfl⟩ := pushField_ok pushed
  split
  · exact Nat.zero_le _
  · rw [List.length_append, List.length_singleton]
    omega

/-! ### The words -/

/-- Fields that lie at the same places of the same bytes are the same fields. -/
theorem entriesAt_inj {pos : ℕ} {fs gs : List WireField} {rest rest' : Bytes}
    (bytes : spell fs ++ rest = spell gs ++ rest') (places : entriesAt pos fs = entriesAt pos gs) :
    fs = gs := by
  induction fs generalizing pos gs with
  | nil =>
    cases gs with
    | nil => rfl
    | cons g gs => cases places
  | cons f fs ih =>
    cases gs with
    | nil => cases places
    | cons g gs =>
      simp only [entriesAt, List.cons.injEq] at places
      obtain ⟨here, there⟩ := places
      simp only [WireField.entry, FieldEntry.mk.injEq] at here
      obtain ⟨tag, offset, len⟩ := here
      have text : f.text.length = g.text.length := by omega
      have length : f.bytes.length = g.bytes.length := by
        rw [f.bytes_length, g.bytes_length, text, len]
      simp only [spell_cons, List.append_assoc] at bytes
      obtain ⟨same, others⟩ := List.append_inj bytes length
      unfold WireField.bytes at same
      obtain ⟨texts, values⟩ := List.append_inj same text
      have values := List.append_cancel_right (List.cons.inj values).2
      have eq : f = g := by
        obtain ⟨_, _, _, _, _⟩ := f
        obtain ⟨_, _, _, _, _⟩ := g
        obtain rfl : _ = _ := texts
        obtain rfl : _ = _ := values
        obtain rfl : _ = _ := tag
        rfl
      rw [length] at there
      rw [eq, ih others there]

/-- **The language of the parser.** With every check on, what it takes whole is a framed message
with no more fields than its index has room for, it reads the message's own fields and stops behind
it; and no bytes begin with two such messages, so that messages end to end can be read in one way
only. -/
theorem language (D : Dictionary) (cap : N ≤ u16Max) (buf : Bytes) (small : buf.length ≤ u32Size) :
    (∀ idx n, parseInto D N buf .all = ⟨idx, .ok (.complete n)⟩ ↔
      ∃ m : FramedMessage D .all, ∃ rest, buf = m.bytes ++ rest ∧ m.fields.length ≤ N ∧
        idx = entriesAt 0 m.fields ∧ n = m.bytes.length) ∧
      ∀ (m m' : FramedMessage D .all) (rest rest' : Bytes), buf = m.bytes ++ rest →
        buf = m'.bytes ++ rest' → m.fields.length ≤ N → m'.fields.length ≤ N →
          m.fields = m'.fields ∧ rest = rest' := by
  have takes (m : FramedMessage D .all) (rest : Bytes) (eq : buf = m.bytes ++ rest)
      (room : m.fields.length ≤ N) :
      parseInto D N buf .all = ⟨entriesAt 0 m.fields, .ok (.complete m.bytes.length)⟩ := by
    have near : m.bytes.length ≤ u32Size := by
      rw [eq, List.length_append] at small
      omega
    rw [eq]
    exact parseInto_complete m rest room (Nat.le_trans room cap) near
  refine ⟨fun idx n => ⟨fun taken => ?_, ?_⟩, ?_⟩
  · obtain ⟨m, rest, eq, rfl, rfl⟩ := parseInto_sound cap small taken
    have room : (parseInto D N buf .all).index.length ≤ N := parseInto_room
    rw [taken, entriesAt_length] at room
    exact ⟨m, rest, eq, room, rfl, rfl⟩
  · rintro ⟨m, rest, eq, room, rfl, rfl⟩
    exact takes m rest eq room
  · intro m m' rest rest' eq eq' room room'
    have same := (takes m rest eq room).symm.trans (takes m' rest' eq' room')
    simp only [ParseResult.mk.injEq] at same
    have fields := entriesAt_inj (eq.symm.trans eq') same.1
    have bytes : m.bytes = m'.bytes := congrArg spell fields
    exact ⟨fields, List.append_cancel_left (eq.symm.trans (eq'.trans (by rw [bytes])))⟩

/-- A Heartbeat, as short as a message can be. -/
def beat : Bytes := frame (ascii "FIX.4.4") [(35, ascii "0")]

theorem language_beat : ∀ (idx : List FieldEntry) (n : ℕ),
    parseInto noDict 8 beat .all = ⟨idx, .ok (.complete n)⟩ ↔
      ∃ m : FramedMessage noDict .all, ∃ rest, beat = m.bytes ++ rest ∧ m.fields.length ≤ 8 ∧
        idx = entriesAt 0 m.fields ∧ n = m.bytes.length :=
  (language noDict (by decide) beat (by decide)).1

/-! ### Lists that differ at one place -/

/-- Two lists that differ at one place and nowhere else. -/
def OneApart {α : Type*} (xs ys : List α) : Prop :=
  ∃ i : ℕ, xs[i]? ≠ ys[i]? ∧ ∀ k, k ≠ i → xs[k]? = ys[k]?

namespace OneApart

variable {α : Type*} {xs ys as bs cs ds : List α}

theorem symm (h : OneApart xs ys) : OneApart ys xs := by
  obtain ⟨i, differ, same⟩ := h
  exact ⟨i, differ.symm, fun k other => (same k other).symm⟩

theorem ne (h : OneApart xs ys) : xs ≠ ys := by
  rintro rfl
  obtain ⟨i, differ, _⟩ := h
  exact differ rfl

/-- **Two lists that differ at one place differ in one of two parts.** -/
theorem append (length : as.length = bs.length) (h : OneApart (as ++ cs) (bs ++ ds)) :
    (OneApart as bs ∧ cs = ds) ∨ (as = bs ∧ OneApart cs ds) := by
  obtain ⟨i, differ, same⟩ := h
  have front (k : ℕ) (within : k < as.length) : (as ++ cs)[k]? = as[k]? ∧ (bs ++ ds)[k]? = bs[k]? :=
    ⟨List.getElem?_append_left within, List.getElem?_append_left (length ▸ within)⟩
  have back (k : ℕ) : (as ++ cs)[as.length + k]? = cs[k]? ∧ (bs ++ ds)[as.length + k]? = ds[k]? := by
    refine ⟨?_, ?_⟩
    · rw [List.getElem?_append_right (Nat.le_add_right _ _), Nat.add_sub_cancel_left]
    · rw [length, List.getElem?_append_right (Nat.le_add_right _ _), Nat.add_sub_cancel_left]
  by_cases within : i < as.length
  · refine .inl ⟨⟨i, ?_, fun k other => ?_⟩, List.ext_getElem? fun k => ?_⟩
    · rwa [(front i within).1, (front i within).2] at differ
    · by_cases near : k < as.length
      · rw [← (front k near).1, ← (front k near).2]
        exact same k other
      · rw [List.getElem?_eq_none (Nat.le_of_not_lt near),
          List.getElem?_eq_none (length ▸ Nat.le_of_not_lt near)]
    · rw [← (back k).1, ← (back k).2]
      exact same _ (by omega)
  · obtain ⟨j, rfl⟩ := Nat.exists_eq_add_of_le (Nat.le_of_not_lt within)
    refine .inr ⟨List.ext_getElem? fun k => ?_, ⟨j, ?_, fun k other => ?_⟩⟩
    · by_cases near : k < as.length
      · rw [← (front k near).1, ← (front k near).2]
        exact same k (by omega)
      · rw [List.getElem?_eq_none (Nat.le_of_not_lt near),
          List.getElem?_eq_none (length ▸ Nat.le_of_not_lt near)]
    · rwa [(back j).1, (back j).2] at differ
    · rw [← (back k).1, ← (back k).2]
      exact same _ (by omega)

/-- Where two lists have different elements at a place, they are the same before and behind it. -/
theorem around {a b : α} (length : as.length = bs.length) (other : a ≠ b)
    (h : OneApart (as ++ a :: cs) (bs ++ b :: ds)) : as = bs ∧ cs = ds := by
  obtain ⟨_, same⟩ | ⟨same, apart⟩ := h.append length
  · exact absurd (List.cons.inj same).1 other
  · rw [← List.singleton_append (x := a), ← List.singleton_append (x := b)] at apart
    have one : [a].length = [b].length := rfl
    obtain ⟨_, rest⟩ | ⟨first, _⟩ := apart.append one
    · exact ⟨same, rest⟩
    · exact absurd (List.cons.inj first).1 other

end OneApart

/-! ### The checksum -/

theorem checksum_foldl (bytes : Bytes) (sum : UInt8) :
    bytes.foldl (· + ·) sum = sum + checksum bytes := by
  unfold checksum
  induction bytes generalizing sum with
  | nil => simp
  | cons b bytes ih =>
    rw [List.foldl_cons, List.foldl_cons, ih, ih (0 + b), UInt8.zero_add, UInt8.add_assoc]

theorem checksum_append (xs ys : Bytes) : checksum (xs ++ ys) = checksum xs + checksum ys := by
  rw [checksum, List.foldl_append, checksum_foldl]
  rfl

theorem checksum_cons (b : UInt8) (bytes : Bytes) : checksum (b :: bytes) = b + checksum bytes := by
  rw [← List.singleton_append, checksum_append]
  simp [checksum]

/-- The checksum tells apart two texts of one length that differ at one place. -/
theorem OneApart.checksum_ne {xs ys : Bytes} (length : xs.length = ys.length)
    (h : OneApart xs ys) : checksum xs ≠ checksum ys := by
  induction xs generalizing ys with
  | nil =>
    cases ys with
    | nil => exact absurd rfl h.ne
    | cons y ys => cases length
  | cons x xs ih =>
    cases ys with
    | nil => cases length
    | cons y ys =>
      rw [checksum_cons, checksum_cons]
      rw [← List.singleton_append (x := x), ← List.singleton_append (x := y)] at h
      have one : [x].length = [y].length := rfl
      obtain ⟨first, rfl⟩ | ⟨first, rest⟩ := h.append one
      · intro same
        rw [UInt8.add_left_inj] at same
        exact first.ne (by rw [same])
      · obtain rfl := (List.cons.inj first).1
        intro same
        rw [UInt8.add_right_inj] at same
        exact ih (Nat.succ.inj length) rest same

/-- Zeros that give way to one separator fewer than they are change the checksum. -/
theorem checksum_zeros (bytes : Bytes) (k : ℕ) :
    checksum (bytes ++ List.replicate k ZERO ++ [SOH]) ≠ checksum bytes := by
  -- A zero is even and the separator is odd, so that the sum changes its last bit.
  have even : (checksum (List.replicate k ZERO)).toNat % 2 = 0 := by
    induction k with
    | zero => rfl
    | succ k ih =>
      rw [List.replicate_succ, checksum_cons, UInt8.toNat_add]
      have : ZERO.toNat = 48 := rfl
      omega
  intro same
  rw [List.append_assoc, checksum_append, checksum_append] at same
  have zero : checksum (List.replicate k ZERO) + checksum [SOH] = 0 := by
    simpa using same
  have := congrArg UInt8.toNat zero
  rw [UInt8.toNat_add, show (checksum [SOH]).toNat = 1 from rfl, UInt8.toNat_zero] at this
  omega

/-! ### Numbers of one length -/

theorem asU32Loop_inj {xs ys : Bytes} {a b n : ℕ} (length : xs.length = ys.length)
    (hx : asU32Loop xs (some a) = .ok n) (hy : asU32Loop ys (some b) = .ok n) : a = b ∧ xs = ys := by
  induction xs generalizing ys a b with
  | nil =>
    cases ys with
    | nil =>
      cases hx
      cases hy
      exact ⟨rfl, rfl⟩
    | cons y ys => cases length
  | cons x xs ih =>
    cases ys with
    | nil => cases length
    | cons y ys =>
      obtain ⟨d, a', digit, checked, hx⟩ := asU32Loop_cons_ok.mp hx
      obtain ⟨e, b', digit', checked', hy⟩ := asU32Loop_cons_ok.mp hy
      obtain ⟨rfl, rfl⟩ := ih (Nat.succ.inj length) hx hy
      obtain ⟨small, rfl⟩ := digitOf_eq_some.mp digit
      obtain ⟨small', rfl⟩ := digitOf_eq_some.mp digit'
      unfold checkedU32 at checked checked'
      simp only [Option.ite_none_right_eq_some, Option.some.injEq] at checked checked'
      obtain rfl : a = b := by omega
      obtain rfl : d = e := by omega
      exact ⟨rfl, rfl⟩

/-- Texts of one length that read as one number are one text. -/
theorem asU32?_inj {xs ys : Bytes} {n : ℕ} (length : xs.length = ys.length)
    (hx : asU32? xs = some n) (hy : asU32? ys = some n) : xs = ys :=
  (asU32Loop_inj length (asU32?_eq_some_iff.mp hx).2 (asU32?_eq_some_iff.mp hy).2).2

theorem asU32?_zeros {text : Bytes} {n : ℕ} (reads : asU32? text = some n) (j : ℕ) :
    asU32? (List.replicate j ZERO ++ text) = some n := by
  obtain ⟨some, loop⟩ := asU32?_eq_some_iff.mp reads
  refine asU32?_eq_some_iff.mpr ⟨List.append_ne_nil_of_right_ne_nil _ some, ?_⟩
  induction j with
  | zero => exact loop
  | succ j ih =>
    rw [List.replicate_succ, List.cons_append]
    exact asU32Loop_cons_ok.mpr ⟨0, 0, rfl, rfl, ih⟩

/-! ### A damaged byte -/

/-- The bytes that the checksum of a message covers. -/
def FramedMessage.front (m : FramedMessage D v) : Bytes := spell (m.begin_ :: m.bodyLength :: m.body)

theorem FramedMessage.bytes_eq (m : FramedMessage D v) :
    m.bytes = m.front ++ (m.trailer.text ++ EQ :: (m.trailer.value ++ [SOH])) := by
  simp [bytes, fields, front, WireField.bytes]

/-- What the checksum covers ends with a separator. -/
theorem FramedMessage.front_ends (m : FramedMessage D v) : ∃ bytes, m.front = bytes ++ [SOH] := by
  have ends (f : WireField) (fs : List WireField) : ∃ bytes, spell (f :: fs) = bytes ++ [SOH] := by
    induction fs generalizing f with
    | nil => exact ⟨f.text ++ EQ :: f.value, by simp [WireField.bytes]⟩
    | cons g fs ih =>
      obtain ⟨bytes, eq⟩ := ih g
      exact ⟨f.bytes ++ bytes, by rw [spell_cons, eq, List.append_assoc]⟩
  exact ends m.begin_ (m.bodyLength :: m.body)

/-- A message's checksum is that of its front. -/
theorem FramedMessage.sum_front (m : FramedMessage D v) (checked : v.checkSum = true) :
    m.trailer.value.length = 3 ∧ asU32? m.trailer.value = some (checksum m.front).toNat := by
  have := m.sum checked
  simpa [front, List.append_assoc] using this

section Damage

variable {D' : Dictionary} {v' : Validation} {m : FramedMessage D v} {m' : FramedMessage D' v'}

/-- The fronts of two messages have one checksum when their trailers have one value. -/
theorem FramedMessage.checksum_eq (checked : v.checkSum = true) (checked' : v'.checkSum = true)
    (same : m.trailer.value = m'.trailer.value) : checksum m.front = checksum m'.front := by
  have sum := (m.sum_front checked).2
  rw [same, (m'.sum_front checked').2] at sum
  exact (UInt8.toNat_inj.mp (Option.some.inj sum)).symm

/-- Messages whose `10=` is written with as many digits are not one byte apart. -/
theorem FramedMessage.apart_of_text (checked : v.checkSum = true) (checked' : v'.checkSum = true)
    (length : m.bytes.length = m'.bytes.length)
    (text : m.trailer.text.length = m'.trailer.text.length) : ¬OneApart m.bytes m'.bytes := by
  intro apart
  obtain ⟨three, sum⟩ := m.sum_front checked
  obtain ⟨three', sum'⟩ := m'.sum_front checked'
  have texts : m.trailer.text = m'.trailer.text := by
    refine asU32?_inj text m.trailer.reads ?_
    rw [m.trailer_tag, ← m'.trailer_tag]
    exact m'.trailer.reads
  rw [m.bytes_eq, m'.bytes_eq] at apart length
  simp only [List.length_append, List.length_cons] at length
  have fronts : m.front.length = m'.front.length := by omega
  obtain ⟨front, same⟩ | ⟨front, trailer⟩ := apart.append fronts
  · rw [texts] at same
    have values := List.append_cancel_right (List.cons.inj (List.append_cancel_left same)).2
    exact front.checksum_ne fronts (checksum_eq checked checked' values)
  · rw [front] at sum
    have values := asU32?_inj (three.trans three'.symm) sum sum'
    rw [texts, values] at trailer
    exact trailer.ne rfl

/-- Nor are messages one of which has zeros in front of its `10=`. -/
theorem FramedMessage.apart_of_zeros (checked : v.checkSum = true) (checked' : v'.checkSum = true)
    (length : m.bytes.length = m'.bytes.length)
    (text : m.trailer.text.length < m'.trailer.text.length) : ¬OneApart m.bytes m'.bytes := by
  intro apart
  obtain ⟨k, longer⟩ := Nat.exists_eq_add_of_lt text
  have three := (m.sum_front checked).1
  have three' := (m'.sum_front checked').1
  have texts : m'.trailer.text = List.replicate k ZERO ++ ZERO :: m.trailer.text := by
    have padded := asU32?_zeros m.trailer.reads (k + 1)
    rw [m.trailer_tag, ← m'.trailer_tag, List.replicate_succ', List.append_assoc] at padded
    refine asU32?_inj ?_ m'.trailer.reads padded
    simp only [List.length_append, List.length_replicate, List.length_cons]
    omega
  obtain ⟨start, ends⟩ := m.front_ends
  rw [m.bytes_eq, m'.bytes_eq] at apart length
  simp only [List.length_append, List.length_cons] at length
  rw [ends, texts, List.append_assoc, List.append_assoc, ← List.append_assoc m'.front] at apart
  -- The separator in front of the shorter trailer stands against a zero of the longer one.
  have long : start.length = (m'.front ++ List.replicate k ZERO).length := by
    rw [ends] at length
    simp only [List.length_append, List.length_replicate, List.length_cons, List.length_nil]
      at length ⊢
    omega
  obtain ⟨same, rest⟩ := OneApart.around long (by decide) apart
  have values := List.append_cancel_right (List.cons.inj (List.append_cancel_left rest)).2
  have sums := checksum_eq checked checked' values
  rw [ends, same] at sums
  exact checksum_zeros _ _ sums

/-- **A message with one damaged byte is not taken whole.** Where a parser that compares the
checksum takes all of some bytes, no such parser takes all of them with one byte changed: not with
another dictionary or another room for fields, and wherever the byte stands, be it in the checksum
itself. -/
theorem damage_detected {N' : ℕ} {idx idx' : List FieldEntry} {i : ℕ} {b : UInt8}
    (cap : N ≤ u16Max) (cap' : N' ≤ u16Max) (small : buf.length ≤ u32Size)
    (checked : v.checkSum = true) (checked' : v'.checkSum = true)
    (taken : parseInto D N buf v = ⟨idx, .ok (.complete buf.length)⟩)
    (inside : i < buf.length) (changed : buf[i]? ≠ some b) :
    parseInto D' N' (buf.set i b) v' ≠ ⟨idx', .ok (.complete (buf.set i b).length)⟩ := by
  intro taken'
  have whole {xs ys : Bytes} (eq : xs = ys ++ []) : xs = ys := eq.trans (List.append_nil ys)
  obtain ⟨m, rest, eq, _, length⟩ := parseInto_sound cap small taken
  obtain rfl : rest = [] := by
    rw [eq, List.length_append] at length
    exact List.length_eq_zero_iff.mp (by omega)
  obtain ⟨m', rest, eq', _, length'⟩ :=
    parseInto_sound cap' (by rw [List.length_set]; exact small) taken'
  obtain rfl : rest = [] := by
    rw [eq', List.length_append] at length'
    exact List.length_eq_zero_iff.mp (by omega)
  have apart : OneApart m.bytes m'.bytes := by
    rw [← whole eq, ← whole eq']
    refine ⟨i, ?_, fun k other => (List.getElem?_set_ne (Ne.symm other)).symm⟩
    rw [List.getElem?_set_self inside]
    exact changed
  have lengths : m.bytes.length = m'.bytes.length := by
    rw [← whole eq, ← whole eq', List.length_set]
  obtain text | text | text := Nat.lt_trichotomy m.trailer.text.length m'.trailer.text.length
  · exact FramedMessage.apart_of_zeros checked checked' lengths text apart
  · exact FramedMessage.apart_of_text checked checked' lengths text apart
  · exact FramedMessage.apart_of_zeros checked' checked lengths.symm text apart.symm

end Damage

/-- The `5` of its `9=5` turned into a `4`. -/
theorem damage_detected_beat :
    parseInto noDict 8 (beat.set 12 0x34) .all ≠
      ⟨[], .ok (.complete (beat.set 12 0x34).length)⟩ :=
  have taken : parseInto noDict 8 beat .all =
      ⟨(parseInto noDict 8 beat .all).index, .ok (.complete beat.length)⟩ := by decide
  damage_detected (by decide) (by decide) (by decide) rfl rfl taken (by decide) (by decide)

end Fixbolt
