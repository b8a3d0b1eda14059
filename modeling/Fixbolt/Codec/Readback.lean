import Fixbolt.Codec.Framed
import Fixbolt.Codec.Encode

/-!
# Reading back what was framed

Fields that are framed the way the encoder frames them, and when the parser reads them back.

* `WireField.of`: a field with its tag written as the encoder writes it;
* `ReadsBack`: the parser takes the whole of a frame and finds the fields in it;
* `readsBack_iff`: it does if and only if every value is short enough, no field is a `10=`, and
  every field stands behind one that leads it.
-/

namespace Fixbolt

variable {D : Dictionary} {begin_ : Bytes} {fields : List (ℕ × Bytes)}

theorem renderU32_digits_ne (tag : ℕ) : wrapU32 (renderU32 tag).length ≠ 0 := by
  have short := renderU32_length tag
  have some := List.length_pos_iff.mpr (renderU32_ne_nil tag)
  rw [wrapU32, Nat.mod_eq_of_lt (by unfold u32Size; omega)]
  omega

/-- A field whose tag is written the way the encoder writes it. -/
def WireField.of (f : ℕ × Bytes) (small : f.1 < u32Size) : WireField :=
  ⟨renderU32 f.1, f.2, f.1, asU32?_renderU32 small, renderU32_digits_ne f.1⟩

@[simp] theorem WireField.of_bytes (f : ℕ × Bytes) (small : f.1 < u32Size) :
    (WireField.of f small).bytes = encodeField f.1 f.2 := by
  simp [WireField.of, WireField.bytes, encodeField]

@[simp] theorem WireField.of_pair (f : ℕ × Bytes) (small : f.1 < u32Size) :
    (WireField.of f small).pair = f := rfl

theorem WireField.of_text (f : ℕ × Bytes) (small : f.1 < u32Size) :
    (WireField.of f small).text = renderU32 f.1 := rfl

theorem encodeField_length (tag : ℕ) (value : Bytes) :
    (encodeField tag value).length ≤ value.length + 12 := by
  have := renderU32_length tag
  simp only [encodeField, List.length_append, List.length_cons, List.length_nil]
  omega

/-- Fields written the way the encoder writes them. -/
def wired (fields : List (ℕ × Bytes)) (small : ∀ f ∈ fields, f.1 < u32Size) : List WireField :=
  fields.pmap WireField.of small

theorem wired_pair (small : ∀ f ∈ fields, f.1 < u32Size) :
    (wired fields small).map WireField.pair = fields := by
  simp [wired, List.map_pmap]

theorem spell_wired (small : ∀ f ∈ fields, f.1 < u32Size) :
    spell (wired fields small) = wire fields := by
  induction fields with
  | nil => rfl
  | cons f fields ih =>
    have := ih fun g hg => small g (by simp [hg])
    simp only [wired, List.pmap, spell_cons, WireField.of_bytes, wire_cons] at this ⊢
    rw [this]

/-! ### What an index reads -/

/-- The fields an index points at, when it is laid out over them. -/
theorem fields_entriesAt {buf rest : Bytes} {pos : ℕ} {ws : List WireField}
    (h : buf.drop pos = spell ws ++ rest) :
    (entriesAt pos ws).filterMap (fun e =>
      ((⟨buf, entriesAt pos ws⟩ : MessageView).valueOf e).map fun v => (e.tag, v)) =
      ws.map WireField.pair := by
  have reads (pos : ℕ) (ws : List WireField) (rest : Bytes) (h : buf.drop pos = spell ws ++ rest) :
      (entriesAt pos ws).filterMap (fun e => (slice buf e.offset e.len).map fun v => (e.tag, v)) =
        ws.map WireField.pair := by
    induction ws generalizing pos with
    | nil => rfl
    | cons f ws ih =>
      rw [spell_cons, List.append_assoc] at h
      have value := (reads_at h).2
      have sep : buf[pos + f.text.length + 1 + f.value.length]? = some SOH :=
        getElem?_eq_some_iff_drop.mpr ⟨_, _, value, rfl⟩
      have inside := (List.getElem?_eq_some_iff.mp sep).1
      have here := (slice_of_drop value).resolve_right (by omega)
      rw [entriesAt, List.filterMap_cons, WireField.entry]
      simp only [here, Option.map_some, List.map_cons]
      rw [ih (pos + f.bytes.length) (drop_of_drop h)]
      rfl
  exact reads pos ws rest h

theorem view_fields {m : FramedMessage D .all} {rest : Bytes} :
    (⟨m.bytes ++ rest, entriesAt 0 m.fields⟩ : MessageView).fields =
      m.fields.map WireField.pair :=
  @fields_entriesAt _ rest 0 _ rfl

/-! ### Framed fields -/

/-- The value of the `10=` field of a frame. -/
def frameSum (begin_ body : Bytes) : Bytes :=
  formatChecksum (checksum (encodeField 8 begin_ ++ encodeField 9 (renderU32 body.length) ++ body))

/-- The fields of a frame. -/
def framedFields (begin_ : Bytes) (fields : List (ℕ × Bytes)) : List (ℕ × Bytes) :=
  (8, begin_) :: (9, renderU32 (wire fields).length) ::
    (fields ++ [(10, frameSum begin_ (wire fields))])

/-- The parser takes the whole of a frame and finds its fields, given an index with room for
them. -/
def ReadsBack (D : Dictionary) (bytes : Bytes) (fields : List (ℕ × Bytes)) : Prop :=
  ∀ N, fields.length ≤ N → ∃ idx, parseInto D N bytes .all = ⟨idx, .ok (.complete bytes.length)⟩ ∧
    (⟨bytes, idx⟩ : MessageView).fields = fields

theorem asU32?_threeDigits {a b c : ℕ} (ha : a < 10) (hb : b < 10) (hc : c < 10) :
    asU32? [digitByte a, digitByte b, digitByte c] = some (a * 100 + b * 10 + c) := by
  have fits {n : ℕ} (h : n < 1000) : checkedU32 n = some n := if_pos (by unfold u32Size; omega)
  refine asU32?_eq_some_iff.mpr ⟨by simp, ?_⟩
  simp only [asU32Loop, digitOf_digitByte ha, digitOf_digitByte hb, digitOf_digitByte hc,
    Option.bind_some]
  rw [fits (by omega), Option.bind_some, fits (by omega), Option.bind_some, fits (by omega)]
  simp only [asU32Loop]
  congr 1
  omega

theorem formatChecksum_reads (sum : UInt8) :
    (formatChecksum sum).length = 3 ∧ SOH ∉ formatChecksum sum ∧
      asU32? (formatChecksum sum) = some sum.toNat := by
  have small := sum.toNat_lt
  have a : sum.toNat / 100 < 10 := by omega
  have b : sum.toNat / 10 % 10 < 10 := by omega
  have c : sum.toNat % 10 < 10 := by omega
  refine ⟨rfl, ?_, ?_⟩
  · simp only [formatChecksum, List.mem_cons, List.not_mem_nil, or_false, not_or]
    exact ⟨(digitByte_ne a).1.symm, (digitByte_ne b).1.symm, (digitByte_ne c).1.symm⟩
  · rw [formatChecksum, asU32?_threeDigits a b c]
    congr 1
    omega

theorem framed_eq (begin_ : Bytes) (fields : List (ℕ × Bytes)) :
    Template.framed begin_ (wire fields) = wire (framedFields begin_ fields) := by
  simp [Template.framed, framedFields, frameSum]

theorem length_le_wire (fields : List (ℕ × Bytes)) : 3 * fields.length ≤ (wire fields).length := by
  induction fields with
  | nil => exact le_rfl
  | cons f fields ih =>
    have := List.length_pos_iff.mpr (renderU32_ne_nil f.1)
    simp only [wire_cons, encodeField, List.length_append, List.length_cons, List.length_nil]
    omega

/-- What a frame has to be for its fields to be read back. -/
structure Framable (D : Dictionary) (fields : List (ℕ × Bytes)) : Prop where
  short : ∀ f ∈ fields, f.2.length ≤ u16Max
  inner : ∀ f ∈ fields, f.1 ≠ 10
  chain : List.IsChain (Leads D) ((9, renderU32 (wire fields).length) :: fields)

/-- The message that framable fields are. -/
def framedMessage (small : ∀ f ∈ fields, f.1 < u32Size) (below : (wire fields).length < 100000)
    (plain : SOH ∉ begin_) (room : begin_.length ≤ u16Max) (h : Framable D fields) :
    FramedMessage D .all where
  begin_ := .of (8, begin_) (show 8 < u32Size by decide)
  bodyLength := .of (9, renderU32 (wire fields).length) (show 9 < u32Size by decide)
  body := wired fields small
  trailer := .of (10, frameSum begin_ (wire fields)) (show 10 < u32Size by decide)
  begin_text := (WireField.of_text _ _).trans (show renderU32 8 = [0x38] by decide)
  begin_value := plain
  bodyLength_text := (WireField.of_text _ _).trans (show renderU32 9 = [0x39] by decide)
  bodyLength_value := fun mem => (renderU32_digits _ _ mem).1 rfl
  declared := ⟨(wire fields).length, asU32?_renderU32 (by unfold u32Size; omega), fun _ => by
    rw [spell_wired]⟩
  chain := by
    refine (List.isChain_map WireField.pair).mp ?_
    rw [List.map_cons, wired_pair]
    exact h.chain
  inner f hf := by
    have : f.pair ∈ fields := by
      rw [← wired_pair small]
      exact List.mem_map_of_mem hf
    exact h.inner _ this
  trailer_tag := rfl
  trailer_value := (formatChecksum_reads _).2.1
  sum := fun _ => by
    refine ⟨(formatChecksum_reads _).1, ?_⟩
    rw [spell_wired, WireField.of_bytes, WireField.of_bytes]
    exact (formatChecksum_reads _).2.2
  short f hf := by
    have digits := renderU32_length (wire fields).length
    obtain rfl | rfl | hf : _ ∨ _ ∨ f ∈ wired fields small ++ [_] := by
      simpa only [List.mem_cons] using hf
    · exact room
    · show (renderU32 (wire fields).length).length ≤ u16Max
      unfold u16Max
      omega
    obtain hf | hf := List.mem_append.mp hf
    · have : f.pair ∈ fields := by
        rw [← wired_pair small]
        exact List.mem_map_of_mem hf
      exact h.short _ this
    · obtain rfl := List.mem_singleton.mp hf
      exact (show 3 ≤ u16Max by decide)

/-- **Framed fields are read back if and only if they are framable.** -/
theorem readsBack_iff (small : ∀ f ∈ fields, f.1 < u32Size)
    (below : (wire fields).length < 100000) (plain : SOH ∉ begin_) (room : begin_.length ≤ u16Max) :
    ReadsBack D (Template.framed begin_ (wire fields)) (framedFields begin_ fields) ↔
      Framable D fields := by
  have few := length_le_wire fields
  have length : (Template.framed begin_ (wire fields)).length ≤ u32Size := by
    have front := encodeField_length 8 begin_
    have stated := encodeField_length 9 (renderU32 (wire fields).length)
    have last := encodeField_length 10 (frameSum begin_ (wire fields))
    have digits := renderU32_length (wire fields).length
    have three := (formatChecksum_reads (checksum (encodeField 8 begin_ ++
      encodeField 9 (renderU32 (wire fields).length) ++ wire fields))).1
    unfold u16Max at room
    simp only [framed_eq, framedFields, wire_cons, wire_append, wire_nil, List.length_append,
      List.length_nil, frameSum] at last ⊢
    unfold u32Size
    omega
  constructor
  · intro h
    have few' : (framedFields begin_ fields).length = fields.length + 3 := by simp [framedFields]
    obtain ⟨idx, taken, view⟩ := h _ le_rfl
    obtain ⟨m, rest, bytes, rfl, size⟩ := parseInto_sound
      (by rw [few']; unfold u16Max; omega) length taken
    obtain rfl : rest = [] := by
      have := congrArg List.length bytes
      rw [List.length_append, size] at this
      exact List.length_eq_zero_iff.mp (by omega)
    rw [bytes, view_fields] at view
    obtain ⟨-, stated, body⟩ : m.begin_.pair = (8, begin_) ∧
        m.bodyLength.pair = (9, renderU32 (wire fields).length) ∧ m.body.map WireField.pair = fields := by
      simp only [FramedMessage.fields, framedFields, List.map_cons, List.map_append, List.map_nil,
        List.cons.injEq] at view
      exact ⟨view.1, view.2.1, (List.append_inj' view.2.2 rfl).1⟩
    refine ⟨fun f hf => ?_, fun f hf => ?_, ?_⟩
    · rw [← body] at hf
      obtain ⟨w, hw, rfl⟩ := List.mem_map.mp hf
      exact m.short w (by simp [hw])
    · rw [← body] at hf
      obtain ⟨w, hw, rfl⟩ := List.mem_map.mp hf
      exact m.inner w hw
    · rw [← stated, ← body, ← List.map_cons]
      exact (List.isChain_map WireField.pair).mpr m.chain
  · intro h N large
    have few' : (framedFields begin_ fields).length = fields.length + 3 := by simp [framedFields]
    let m := framedMessage small below plain room h
    have pairs : m.fields.map WireField.pair = framedFields begin_ fields := by
      simp [m, FramedMessage.fields, framedMessage, framedFields, wired_pair]
    have count : m.fields.length = fields.length + 3 := by
      rw [← few', ← pairs, List.length_map]
    have bytes : m.bytes = Template.framed begin_ (wire fields) := by
      rw [framed_eq]
      simp [m, FramedMessage.bytes, FramedMessage.fields, framedMessage, framedFields, spell_wired]
    have taken := parseInto_complete (N := N) m [] (by omega) (by unfold u16Max; omega)
      (by rw [bytes]; exact length)
    rw [List.append_nil, bytes] at taken
    refine ⟨_, taken, ?_⟩
    have view := @view_fields _ m []
    rw [List.append_nil, bytes, pairs] at view
    exact view

end Fixbolt
