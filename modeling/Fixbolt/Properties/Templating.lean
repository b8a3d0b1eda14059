import Fixbolt.Sbe.Encode

/-!
# A template writes what the writer writes

* `Put.whole_write`, `Put.write_middle`: a put writes all or nothing, and into the root block only;
* `new_run`, `exists_appends_finish`: what starts and closes a message does not depend on the buffer;
* `Laid`: a template is a header, a block with its presets, and the empty tail;
* `template_encodes`: `encode` writes what the writer writes with the same puts, or nothing.
-/

namespace Fixbolt.Sbe

variable {order : ByteOrder} {layout : MessageTable}

/-! ### Puts -/

theorem whole_writeUnsigned (at_ size v : ℕ) (order : ByteOrder) :
    (writeUnsigned at_ size v order).Whole := Writing.whole_put _ _ _

theorem whole_writeSigned (at_ size : ℕ) (i : Int64) (order : ByteOrder) :
    (writeSigned at_ size i order).Whole := by
  unfold writeSigned
  split
  · exact whole_writeUnsigned _ _ _ _
  · exact Writing.whole_fail _

theorem whole_writeFitting (at_ size : ℕ) (u : UInt64) (order : ByteOrder) :
    (writeFitting at_ size u order).Whole := by
  unfold writeFitting
  split
  · exact whole_writeUnsigned _ _ _ _
  · exact Writing.whole_fail _

theorem whole_writeScalar (at_ : ℕ) (p : Primitive) (v : Value) (order : ByteOrder) :
    (writeScalar at_ p v order).Whole := by
  unfold writeScalar
  split
  · exact Writing.whole_put _ _ _
  iterate 4 exact whole_writeSigned _ _ _ _
  iterate 4 exact whole_writeFitting _ _ _ _
  · split
    · exact Writing.whole_fail _
    · exact whole_writeUnsigned _ _ _ _
  · exact whole_writeUnsigned _ _ _ _
  · exact Writing.whole_fail _

theorem whole_writeInField (e : Element) (value null : Option Value) (order : ByteOrder) :
    (writeInField e value null order).Whole := by
  unfold writeInField
  dsimp only
  split
  · split
    · exact Writing.whole_fail _
    · exact (whole_writeScalar _ _ _ _).mapError _
  · refine Writing.Whole.mapError ?_ _
    split
    · split
      · exact Writing.whole_put _ _ _
      · exact Writing.whole_fail _
    · exact Writing.whole_fail _
    · exact Writing.whole_put _ _ _
    · exact Writing.whole_fail _

theorem whole_writeElement (f : FieldLayout) (e : Element) (value : Option Value)
    (order : ByteOrder) : (writeElement f e value order).Whole := by
  unfold writeElement
  dsimp only
  split
  · split
    · exact Writing.whole_pure _
    · split
      · exact Writing.whole_pure _
      · exact Writing.whole_fail _
  · exact (((whole_writeInField _ _ _ _).within _ _ _).mapError _)
  · exact (((whole_writeInField _ _ _ _).within _ _ _).mapError _)

namespace Put

/-- A put, into the root block on its own. -/
def inBlock (layout : MessageTable) (order : ByteOrder) : Put → Write Unit
  | bytes id raw =>
    match layout.field id with
    | none => .fail .unknownField
    | some field =>
      if raw.length ≠ field.len.toNat then .fail .wrongLength
      else (writeSlice field.offset.toNat raw).mapError fun _ => .fieldOutsideBlock
  | element id index value =>
    match layout.field id with
    | none => .fail .unknownField
    | some field =>
      match field.elements[index]? with
      | none => .fail .noSuchElement
      | some e => writeElement field e value order

theorem whole_inBlock (p : Put) : (p.inBlock layout order).Whole := by
  cases p with
  | bytes id raw =>
    rw [inBlock]
    split
    · exact Writing.whole_fail _
    · split
      · exact Writing.whole_fail _
      · exact (Writing.whole_put _ _ _).mapError _
  | element id index value =>
    rw [inBlock]
    split
    · exact Writing.whole_fail _
    · split
      · exact Writing.whole_fail _
      · exact whole_writeElement _ _ _ _

/-- A put that fails leaves every byte as it was. -/
theorem whole_write (p : Put) : (p.write layout order).Whole := by
  cases p with
  | bytes id raw =>
    rw [write]
    split
    · exact Writing.whole_fail _
    · unfold putBytes
      split
      · exact Writing.whole_fail _
      · exact ((Writing.whole_put _ _ _).mapError _).within _ _ _
  | element id index value =>
    rw [write]
    split
    · exact Writing.whole_fail _
    · unfold putElement
      split
      · exact Writing.whole_fail _
      · exact (whole_writeElement _ _ _ _).within _ _ _

/-- A put writes into the root block of the message, and nowhere else. -/
theorem write_middle (p : Put) (order : ByteOrder) (back : Bytes) {header block : Bytes} (before : header.length = HEADER_LEN)
    (size : block.length = layout.blockLength.toNat) :
    (p.write layout order).run (header ++ block ++ back) =
      (((p.inBlock layout order).run block).1,
        header ++ ((p.inBlock layout order).run block).2 ++ back) := by
  cases p with
  | bytes id raw =>
    rw [write, inBlock]
    cases layout.field id with
    | none => rfl
    | some field =>
      by_cases long : raw.length ≠ field.len.toNat
      · simp only [putBytes, if_pos long]
        rfl
      · simp only [putBytes, if_neg long]
        exact Writing.within_middle _ before size _
  | element id index value =>
    rw [write, inBlock]
    cases layout.field id with
    | none => rfl
    | some field =>
      dsimp only [putElement]
      cases field.elements[index]? with
      | none => rfl
      | some e => exact Writing.within_middle _ before size _

theorem inBlock_length (p : Put) (layout : MessageTable) (order : ByteOrder) (block : Bytes) :
    ((p.inBlock layout order).run block).2.length = block.length := p.whole_inBlock.sized block

end Put

/-- Puts one after another, into the root block on its own. -/
def inBlocks (layout : MessageTable) (order : ByteOrder) :
    List Put → Bytes → List (Except SbeError Unit) × Bytes
  | [], block => ([], block)
  | p :: ps, block =>
    let (answer, block) := (p.inBlock layout order).run block
    let (answers, block) := inBlocks layout order ps block
    (answer :: answers, block)

theorem inBlocks_length (ps : List Put) (block : Bytes) :
    (inBlocks layout order ps block).2.length = block.length := by
  induction ps generalizing block with
  | nil => rfl
  | cons p ps ih => exact (ih _).trans (p.inBlock_length layout order block)

theorem attempts_middle (ps : List Put) (order : ByteOrder) (back : Bytes) {header block : Bytes}
    (before : header.length = HEADER_LEN) (size : block.length = layout.blockLength.toNat) :
    (attempts layout order ps).run (header ++ block ++ back) =
      (.ok (inBlocks layout order ps block).1,
        header ++ (inBlocks layout order ps block).2 ++ back) := by
  induction ps generalizing block with
  | nil => rfl
  | cons p ps ih =>
    have first : ((p.write layout order).attempt).run (header ++ block ++ back) =
        (.ok ((p.inBlock layout order).run block).1,
          header ++ ((p.inBlock layout order).run block).2 ++ back) := by
      have wrote := p.write_middle order back before size
      show (Except.ok ((p.write layout order).run _).1, ((p.write layout order).run _).2) = _
      rw [wrote]
    have kept : ((p.inBlock layout order).run block).2.length = layout.blockLength.toNat :=
      (p.inBlock_length layout order block).trans size
    have later := ih kept
    rw [attempts, Writing.bind_ok first, Writing.bind_ok later]
    rfl

theorem inBlocks_append (layout : MessageTable) (order : ByteOrder) (ps qs : List Put)
    (block : Bytes) :
    inBlocks layout order (ps ++ qs) block =
      ((inBlocks layout order ps block).1 ++
          (inBlocks layout order qs (inBlocks layout order ps block).2).1,
        (inBlocks layout order qs (inBlocks layout order ps block).2).2) := by
  induction ps generalizing block with
  | nil => rfl
  | cons p ps ih =>
    simp only [List.cons_append, inBlocks]
    rw [ih]

/-! ### What starts a message and what closes it -/

theorem ByteOrder.bytes_length (order : ByteOrder) (size v : ℕ) :
    (order.bytes size v).length = size := by
  cases order <;> simp [ByteOrder.bytes]

/-- A header as it is on the wire. -/
def MessageHeader.bytes (h : MessageHeader) (order : ByteOrder) : Bytes :=
  order.bytes 2 h.blockLength ++ order.bytes 2 h.templateId ++ order.bytes 2 h.schemaId ++
    order.bytes 2 h.version

theorem MessageHeader.bytes_length (h : MessageHeader) (order : ByteOrder) :
    (h.bytes order).length = HEADER_LEN := by
  simp only [MessageHeader.bytes, List.length_append, order.bytes_length, HEADER_LEN]

theorem MessageHeader.encode_run (h : MessageHeader) (order : ByteOrder) (out : Bytes)
    (room : HEADER_LEN ≤ out.length) :
    (h.encode order).run out = (.ok (), h.bytes order ++ out.drop HEADER_LEN) := by
  have first := order.bytes_length 2 h.blockLength
  have second := order.bytes_length 2 h.templateId
  have third := order.bytes_length 2 h.schemaId
  have fourth := order.bytes_length 2 h.version
  unfold MessageHeader.encode MessageHeader.bytes writeUnsigned writeSlice
  generalize order.bytes 2 h.blockLength = a at *
  generalize order.bytes 2 h.templateId = b at *
  generalize order.bytes 2 h.schemaId = c at *
  generalize order.bytes 2 h.version = d at *
  unfold HEADER_LEN at room ⊢
  have long : (Writing.require SbeError.bufferTooSmall 8).run out = (.ok (), out) :=
    if_neg (Nat.not_lt.mpr room)
  have write1 := Writing.run_put_behind SbeError.bufferTooSmall [] out a (by omega)
  have write2 := Writing.run_put_behind SbeError.bufferTooSmall a (out.drop 2) b
    (by rw [List.length_drop]; omega)
  have write3 := Writing.run_put_behind SbeError.bufferTooSmall (a ++ b) (out.drop 4) c
    (by rw [List.length_drop]; omega)
  have write4 := Writing.run_put_behind SbeError.bufferTooSmall (a ++ b ++ c) (out.drop 6) d
    (by rw [List.length_drop]; omega)
  simp only [List.length_append, List.length_nil, List.nil_append, first, second, third, fourth,
    List.drop_drop] at write1 write2 write3 write4
  rw [Writing.bind_ok long, Writing.bind_ok write1, Writing.bind_ok write2, Writing.bind_ok write3,
    write4]

/-- The root block a message starts with. -/
def initial (layout : MessageTable) (order : ByteOrder) : Except SbeError Unit × Bytes :=
  (writeNulls layout.fields order).run (List.replicate layout.blockLength.toNat 0)

theorem sized_writeNulls (fields : List FieldLayout) (order : ByteOrder) :
    (writeNulls fields order).Sized := by
  refine Writing.sized_forM fun f => Writing.sized_forM fun e => ?_
  split
  · exact (whole_writeElement f e none order).sized
  · exact Writing.sized_pure _

theorem initial_length (layout : MessageTable) (order : ByteOrder) : (initial layout order).2.length = layout.blockLength.toNat := by
  rw [initial, sized_writeNulls, List.length_replicate]

theorem initBlock_run (layout : MessageTable) (order : ByteOrder) (header back : Bytes)
    {block : Bytes} (before : header.length = HEADER_LEN)
    (size : block.length = layout.blockLength.toNat) :
    (initBlock HEADER_LEN layout.blockLength.toNat layout.fields order).run
        (header ++ block ++ back) =
      ((initial layout order).1, header ++ (initial layout order).2 ++ back) := by
  have zeroed : (fill 0 layout.blockLength.toNat 0).run block =
      (.ok (), List.replicate layout.blockLength.toNat 0) := by
    unfold fill writeSlice
    rw [Writing.run_put, List.length_replicate, if_pos (by omega), List.drop_eq_nil_of_le (by omega)]
    simp
  unfold initBlock sliceMut
  rw [Writing.within_middle _ before size, Writing.bind_ok zeroed]
  rfl

variable {S : SchemaTable} {templateId : UInt16} {out : Bytes}

/-- The header of a message. -/
def headerOf (S : SchemaTable) (templateId : UInt16) (layout : MessageTable) : Bytes :=
  MessageHeader.bytes ⟨layout.blockLength.toNat, templateId.toNat, S.id.toNat, S.version.toNat⟩
    S.byteOrder

theorem headerOf_length (S : SchemaTable) (templateId : UInt16) (layout : MessageTable) :
    (headerOf S templateId layout).length = HEADER_LEN :=
  MessageHeader.bytes_length _ _

/-- **A message starts the same in every buffer that has the room.** -/
theorem new_run (message : S.message templateId = some layout) (out : Bytes)
    (room : HEADER_LEN + layout.blockLength.toNat ≤ out.length) :
    ∃ buf, (MessageWriter.new S templateId).run out =
        ((initial layout S.byteOrder).1.map fun _ =>
          (layout, HEADER_LEN + layout.blockLength.toNat), buf) ∧
      buf = headerOf S templateId layout ++ (initial layout S.byteOrder).2 ++
        out.drop (HEADER_LEN + layout.blockLength.toNat) := by
  have header := MessageHeader.encode_run
    ⟨layout.blockLength.toNat, templateId.toNat, S.id.toNat, S.version.toNat⟩ S.byteOrder
    out (by omega)
  have size : ((out.drop HEADER_LEN).take layout.blockLength.toNat).length =
      layout.blockLength.toNat := by
    rw [List.length_take, List.length_drop]
    omega
  have block := initBlock_run layout S.byteOrder (headerOf S templateId layout)
    (out.drop (HEADER_LEN + layout.blockLength.toNat)) (headerOf_length _ _ _) size
  rw [List.append_assoc, ← List.drop_drop, List.take_append_drop] at block
  refine ⟨_, ?_, rfl⟩
  unfold MessageWriter.new
  rw [message]
  dsimp only
  rw [Writing.bind_ok header]
  cases start : (initial layout S.byteOrder).1 with
  | ok _ =>
    rw [start] at block
    rw [List.drop_drop] at block
    exact Writing.bind_ok block
  | error e =>
    rw [start] at block
    rw [List.drop_drop] at block
    exact Writing.bind_error block

theorem new_unknown (message : S.message templateId = none) :
    (MessageWriter.new S templateId).run out = (.error .unknownTemplate, out) := by
  unfold MessageWriter.new
  rw [message]
  rfl

/-- Without the room it does not start. -/
theorem new_short (message : S.message templateId = some layout)
    (short : out.length < HEADER_LEN + layout.blockLength.toNat) :
    ∃ e buf, (MessageWriter.new S templateId).run out = (.error e, buf) := by
  unfold MessageWriter.new
  rw [message]
  dsimp only
  by_cases begins : HEADER_LEN ≤ out.length
  · have header := MessageHeader.encode_run
      ⟨layout.blockLength.toNat, templateId.toNat, S.id.toNat, S.version.toNat⟩ S.byteOrder out begins
    rw [Writing.bind_ok header]
    have outside : ¬ HEADER_LEN + layout.blockLength.toNat ≤
        (headerOf S templateId layout ++ out.drop HEADER_LEN).length := by
      rw [List.length_append, headerOf_length, List.length_drop]
      omega
    have failed : (initBlock HEADER_LEN layout.blockLength.toNat layout.fields S.byteOrder).run
        (headerOf S templateId layout ++ out.drop HEADER_LEN) =
          (.error .bufferTooSmall, headerOf S templateId layout ++ out.drop HEADER_LEN) := by
      unfold initBlock sliceMut
      rw [Writing.run_within, if_neg outside]
    exact ⟨_, _, Writing.bind_error failed⟩
  · have failed : (Writing.require SbeError.bufferTooSmall HEADER_LEN).run out =
        (.error .bufferTooSmall, out) := if_pos (Nat.lt_of_not_le begins)
    exact ⟨_, _, Writing.bind_error (Writing.bind_error failed)⟩

theorem exists_appends_writeLength (t : LengthType) (v : ℕ) (order : ByteOrder) :
    ∃ src, Writing.Appends (fun pos => do
      writeLength pos t v order
      return pos + t.size) src := by
  unfold writeLength
  split
  · have put := Writing.appends_put SbeError.bufferTooSmall (order.bytes t.size v)
    rw [order.bytes_length] at put
    exact ⟨_, put⟩
  · exact ⟨_, Writing.appends_fail SbeError.lengthOverflow⟩

/-- Closing a message writes the same in every buffer. -/
theorem exists_appends_finish (layout : MessageTable) (order : ByteOrder) :
    ∃ src, Writing.Appends (MessageWriter.finish layout order) src := by
  have group (g : GroupTable) : ∃ src, Writing.Appends (writeEmptyGroup g order) src := by
    obtain ⟨s, first⟩ := exists_appends_writeLength g.dimension.blockLength g.blockLength.toNat order
    obtain ⟨t, second⟩ := exists_appends_writeLength g.dimension.numInGroup 0 order
    have both := first.bind second
    simp only [bind_assoc, pure_bind, Nat.add_assoc] at both
    exact ⟨_, both⟩
  obtain ⟨s, groups⟩ := Writing.exists_appends_foldlM (g := fun pos g => writeEmptyGroup g order pos)
    group layout.groups
  obtain ⟨t, data⟩ := Writing.exists_appends_foldlM
    (g := fun pos v => writeEmptyVarData v order pos)
    (fun v => exists_appends_writeLength v.length 0 order) layout.varData
  exact ⟨_, groups.bind data⟩

/-! ### Templates -/

/-- A template is a header, the root block with its presets, and an empty tail. -/
structure Laid (S : SchemaTable) (templateId : UInt16) (t : SbeTemplate) (block tail rest : Bytes) :
    Prop where
  message : S.message templateId = some t.layout
  order : t.order = S.byteOrder
  bytes : t.bytes = headerOf S templateId t.layout ++ block ++ (tail ++ rest)
  size : block.length = t.layout.blockLength.toNat
  len : t.len = HEADER_LEN + t.layout.blockLength.toNat + tail.length
  starts : (initial t.layout S.byteOrder).1 = .ok ()
  closes : Writing.Appends (MessageWriter.finish t.layout S.byteOrder) (some tail)

variable {t : SbeTemplate} {block tail rest : Bytes} {N : ℕ}

theorem laid_new (made : SbeTemplate.new S N templateId = .ok t) :
    ∃ tail rest, Laid S templateId t (initial t.layout S.byteOrder).2 tail rest := by
  unfold SbeTemplate.new at made
  split at made
  · rename_i layout len bytes ran
    cases made
    obtain ⟨⟨layout', pos⟩, buf, start, rest⟩ := Writing.ok_of_bind ran
    obtain ⟨len', buf', closing, last⟩ := Writing.ok_of_bind rest
    cases last
    dsimp only at closing ⊢
    cases message : S.message templateId with
    | none =>
      rw [new_unknown message] at start
      cases start
    | some layout'' =>
      by_cases room : HEADER_LEN + layout''.blockLength.toNat ≤ (List.replicate N (0 : UInt8)).length
      · obtain ⟨buf'', started, laid⟩ := new_run message _ room
        rw [started] at start
        cases begun : (initial layout'' S.byteOrder).1 with
        | error e =>
          rw [begun] at start
          cases start
        | ok _ =>
          rw [begun] at start
          cases start
          obtain ⟨src, closes⟩ := exists_appends_finish layout S.byteOrder
          have front : (headerOf S templateId layout ++ (initial layout S.byteOrder).2).length =
              HEADER_LEN + layout.blockLength.toNat := by
            rw [List.length_append, headerOf_length, initial_length]
          have closed := closes (headerOf S templateId layout ++ (initial layout S.byteOrder).2)
            ((List.replicate N 0).drop (HEADER_LEN + layout.blockLength.toNat))
          rw [front, ← laid, closing] at closed
          cases src with
          | none =>
            obtain ⟨e, buf', failed⟩ := closed
            cases failed
          | some tail =>
            dsimp only at closed
            split at closed
            · cases closed
              exact ⟨tail, _, message, rfl, List.append_assoc _ _ _, initial_length _ _, rfl, begun, closes⟩
            · obtain ⟨e, buf', failed⟩ := closed
              cases failed
      · obtain ⟨e, buf', failed⟩ := new_short message (Nat.lt_of_not_le room)
        rw [failed] at start
        cases start
  · cases made

theorem Laid.set (h : Laid S templateId t block tail rest) (p : Put) :
    (t.set p).1 = ((p.inBlock t.layout S.byteOrder).run block).1 ∧
      Laid S templateId (t.set p).2 ((p.inBlock t.layout S.byteOrder).run block).2 tail rest := by
  have wrote := p.write_middle t.order (tail ++ rest) (headerOf_length S templateId t.layout) h.size
  rw [← h.bytes, h.order] at wrote
  unfold SbeTemplate.set
  rw [h.order, wrote]
  exact ⟨rfl, h.message, rfl, rfl, (p.inBlock_length _ _ block).trans h.size, h.len, h.starts, h.closes⟩

theorem Laid.sets (h : Laid S templateId t block tail rest) (ps : List Put) :
    (t.sets ps).1 = (inBlocks t.layout S.byteOrder ps block).1 ∧
      (t.sets ps).2.layout = t.layout ∧
      Laid S templateId (t.sets ps).2 (inBlocks t.layout S.byteOrder ps block).2 tail rest := by
  induction ps generalizing t block with
  | nil => exact ⟨rfl, rfl, h⟩
  | cons p ps ih =>
    obtain ⟨answer, laid⟩ := h.set p
    obtain ⟨answers, layout, laids⟩ := ih laid
    have same : (t.set p).2.layout = t.layout := rfl
    rw [same] at answers layout laids
    refine ⟨?_, layout, laids⟩
    show (t.set p).1 :: ((t.set p).2.sets ps).1 = _
    rw [answer, answers]
    rfl

/-- **By hand, in any buffer that has the room.** -/
theorem Laid.writeMessage (h : Laid S templateId t block tail rest) (puts : List Put) {buf : Bytes}
    (room : t.len ≤ buf.length) :
    (writeMessage S templateId puts).run buf =
      (.ok (t.len, (inBlocks t.layout S.byteOrder puts (initial t.layout S.byteOrder).2).1),
        headerOf S templateId t.layout ++
          (inBlocks t.layout S.byteOrder puts (initial t.layout S.byteOrder).2).2 ++
          (tail ++ buf.drop t.len)) := by
  have len := h.len
  obtain ⟨buf', start, laid⟩ := new_run h.message buf (by omega)
  rw [h.starts, laid] at start
  have puts_run := attempts_middle puts S.byteOrder
    (buf.drop (HEADER_LEN + t.layout.blockLength.toNat)) (headerOf_length S templateId t.layout)
    (initial_length t.layout S.byteOrder)
  have front : (headerOf S templateId t.layout ++
      (inBlocks t.layout S.byteOrder puts (initial t.layout S.byteOrder).2).2).length =
      HEADER_LEN + t.layout.blockLength.toNat := by
    rw [List.length_append, headerOf_length, inBlocks_length, initial_length]
  have closing := h.closes (headerOf S templateId t.layout ++
    (inBlocks t.layout S.byteOrder puts (initial t.layout S.byteOrder).2).2)
    (buf.drop (HEADER_LEN + t.layout.blockLength.toNat))
  dsimp only at closing
  rw [if_pos (by rw [List.length_drop]; omega), front, ← len, List.drop_drop, ← len,
    List.append_assoc _ tail] at closing
  unfold Sbe.writeMessage
  rw [Writing.bind_ok start, Writing.bind_ok puts_run, Writing.bind_ok closing]
  rfl

/-! ### Slots -/

/-- A slot, as the put that writes it. -/
def slotPut (slot : UInt16 × Bytes) : Put := .bytes slot.1 slot.2

/-- **The check of a slot and the put of it are one.** -/
theorem inBlock_slotPut (slot : UInt16 × Bytes) (size : block.length = t.layout.blockLength.toNat) :
    (((slotPut slot).inBlock t.layout order).run block).1 = t.checkSlot slot.1 slot.2 := by
  obtain ⟨id, raw⟩ := slot
  dsimp only [slotPut, Put.inBlock, SbeTemplate.checkSlot]
  cases t.layout.field id with
  | none => rfl
  | some f =>
    by_cases long : raw.length ≠ f.len.toNat
    · simp only [if_pos long]
      rfl
    · have exact_ : raw.length = f.len.toNat := not_not.mp long
      simp only [if_neg long, writeSlice, Writing.run_mapError, Writing.run_put]
      by_cases fits : t.layout.blockLength.toNat < f.offset.toNat + f.len.toNat
      · rw [if_neg (by omega), if_pos fits]
        rfl
      · rw [if_pos (by omega), if_neg fits]
        rfl

theorem inBlocks_slots (order : ByteOrder) (slots : List (UInt16 × Bytes))
    (size : block.length = t.layout.blockLength.toNat) :
    (inBlocks t.layout order (slots.map slotPut) block).1 =
      slots.map fun slot => t.checkSlot slot.1 slot.2 := by
  induction slots generalizing block with
  | nil => rfl
  | cons slot slots ih =>
    have kept := ((slotPut slot).inBlock_length t.layout order block).trans size
    simp only [List.map_cons, inBlocks, ih kept, inBlock_slotPut slot size]

theorem forM_checks (slots : List (UInt16 × Bytes)) :
    (∀ slot ∈ slots, t.checkSlot slot.1 slot.2 = .ok ()) ∧
        (slots.forM fun (id, bytes) => t.checkSlot id bytes) = .ok () ∨
      ∃ slot ∈ slots, ∃ e, t.checkSlot slot.1 slot.2 = .error e ∧
        (slots.forM fun (id, bytes) => t.checkSlot id bytes) = .error e := by
  induction slots with
  | nil => exact .inl ⟨by simp, rfl⟩
  | cons slot slots ih =>
    cases first : t.checkSlot slot.1 slot.2 with
    | error e =>
      refine .inr ⟨slot, List.mem_cons_self, e, first, ?_⟩
      show (t.checkSlot slot.1 slot.2 >>= fun _ => _) = _
      rw [first]
      rfl
    | ok _ =>
      have skip : ((slot :: slots).forM fun (id, bytes) => t.checkSlot id bytes) =
          slots.forM fun (id, bytes) => t.checkSlot id bytes := by
        show (t.checkSlot slot.1 slot.2 >>= fun _ => _) = _
        rw [first]
        rfl
      rw [skip]
      rcases ih with ⟨all, answered⟩ | ⟨bad, among, e, refused, answered⟩
      · refine .inl ⟨fun slot' among => ?_, answered⟩
        rcases List.mem_cons.mp among with rfl | among
        · exact first
        · exact all slot' among
      · exact .inr ⟨bad, List.mem_cons_of_mem _ among, e, refused, answered⟩

/-- Slots that were checked are written. -/
theorem forM_writes (order : ByteOrder) (slots : List (UInt16 × Bytes)) (back : Bytes)
    {header : Bytes} (checked : ∀ slot ∈ slots, t.checkSlot slot.1 slot.2 = .ok ())
    (before : header.length = HEADER_LEN) (size : block.length = t.layout.blockLength.toNat) :
    (slots.forM fun (id, bytes) => (Put.bytes id bytes).write t.layout order).run
        (header ++ block ++ back) =
      (.ok (), header ++ (inBlocks t.layout order (slots.map slotPut) block).2 ++ back) := by
  induction slots generalizing block with
  | nil => rfl
  | cons slot slots ih =>
    have wrote := (slotPut slot).write_middle order back before size
    rw [inBlock_slotPut slot size, checked slot List.mem_cons_self] at wrote
    have kept := ((slotPut slot).inBlock_length t.layout order block).trans size
    have later := ih (fun slot' among => checked slot' (List.mem_cons_of_mem _ among)) kept
    exact (Writing.bind_ok wrote).trans later

/-! ### Encoding -/

theorem Laid.encode (h : Laid S templateId t block tail rest) (slots : List (UInt16 × Bytes))
    (checked : ∀ slot ∈ slots, t.checkSlot slot.1 slot.2 = .ok ()) (room : t.len ≤ out.length)
    (answered : (slots.forM fun (id, bytes) => t.checkSlot id bytes) = .ok ()) :
    (t.encode slots).run out =
      (.ok t.len, headerOf S templateId t.layout ++
        (inBlocks t.layout S.byteOrder (slots.map slotPut) block).2 ++ (tail ++ out.drop t.len)) := by
  have front : (headerOf S templateId t.layout ++ block ++ tail).length = t.len := by
    rw [List.length_append, List.length_append, headerOf_length, h.size, h.len]
  have skeleton : t.bytes.take t.len = headerOf S templateId t.layout ++ block ++ tail := by
    rw [h.bytes, ← List.append_assoc _ tail, List.take_left' front]
  have looked : (Writing.lift (slots.forM fun (id, bytes) => t.checkSlot id bytes) :
      Write Unit).run out = (.ok (), out) := by
    rw [answered]
    rfl
  have long : (Writing.require SbeError.bufferTooSmall t.len).run out = (.ok (), out) :=
    if_neg (Nat.not_lt.mpr room)
  have copied : (writeSlice 0 (t.bytes.take t.len)).run out =
      (.ok (), headerOf S templateId t.layout ++ block ++ (tail ++ out.drop t.len)) := by
    rw [skeleton, writeSlice, Writing.run_put, front, if_pos (by omega)]
    simp only [List.take_zero, List.nil_append, Nat.zero_add, List.append_assoc]
  have written := forM_writes t.order slots (tail ++ out.drop t.len) checked
    (headerOf_length S templateId t.layout) h.size
  rw [h.order] at written
  unfold SbeTemplate.encode
  rw [Writing.bind_ok looked, Writing.bind_ok long, Writing.bind_ok copied, h.order,
    Writing.bind_ok written]
  rfl

/-- **A template writes what the writer writes, or nothing**: the writer with the presets and then
the slots. It refuses the slots the writer refuses, and a preset that fails leaves it as it was. -/
theorem template_encodes (made : SbeTemplate.new S N templateId = .ok t) (presets : List Put)
    (slots : List (UInt16 × Bytes)) (out : Bytes) :
    (∀ p e, ((t.sets presets).2.set p).1 = .error e →
      ((t.sets presets).2.set p).2 = (t.sets presets).2) ∧
    match ((t.sets presets).2.encode slots).run out with
    | (.error _, out') =>
      out' = out ∧ (out.length < (t.sets presets).2.len ∨
        ∀ buf : Bytes, (t.sets presets).2.len ≤ buf.length → ∃ answers written e,
          (writeMessage S templateId (presets ++ slots.map slotPut)).run buf =
            (.ok ((t.sets presets).2.len, (t.sets presets).1 ++ answers), written) ∧
          Except.error e ∈ answers)
    | (.ok len, out') =>
      len ≤ out.length ∧ out'.drop len = out.drop len ∧
        ∀ buf : Bytes, len ≤ buf.length → ∃ written,
          (writeMessage S templateId (presets ++ slots.map slotPut)).run buf =
            (.ok (len, (t.sets presets).1 ++ slots.map fun _ => .ok ()), written) ∧
          out'.take len = written.take len := by
  obtain ⟨tail, rest, started⟩ := laid_new made
  obtain ⟨preset, layout, laid⟩ := started.sets presets
  have len : (t.sets presets).2.len = t.len := by rw [laid.len, started.len, layout]
  constructor
  · intro p e failed
    have kept := p.whole_write.kept _ e failed
    exact congrArg (fun bytes => { (t.sets presets).2 with bytes }) kept
  -- by hand, the presets answer as they did in the template, and the slots as their checks
  have answers := inBlocks_slots S.byteOrder slots laid.size
  have puts := inBlocks_append t.layout S.byteOrder presets
    (slots.map slotPut) (initial t.layout S.byteOrder).2
  rw [layout] at answers
  rw [answers, ← preset] at puts
  have byHand (buf : Bytes) (room : t.len ≤ buf.length) :=
    started.writeMessage (presets ++ slots.map slotPut) room
  rw [puts] at byHand
  rw [len]
  rcases forM_checks (t := (t.sets presets).2) slots with
    ⟨checked, answered⟩ | ⟨bad, among, e, refused, answered⟩
  · by_cases room : t.len ≤ out.length
    · have wrote := laid.encode slots checked (by rw [len]; exact room) answered
      rw [len, layout] at wrote
      rw [wrote]
      have accepted : (slots.map fun slot => (t.sets presets).2.checkSlot slot.1 slot.2) =
          slots.map fun _ => .ok () := List.map_congr_left checked
      rw [accepted] at byHand
      have message : (headerOf S templateId t.layout ++ (inBlocks t.layout S.byteOrder
          (slots.map slotPut) (inBlocks t.layout S.byteOrder presets
            (initial t.layout S.byteOrder).2).2).2 ++ tail).length = t.len := by
        rw [List.length_append, List.length_append, headerOf_length, inBlocks_length,
          inBlocks_length, initial_length, started.len]
      refine ⟨room, ?_, fun buf room => ⟨_, byHand buf room, ?_⟩⟩
      · rw [← List.append_assoc _ tail, List.drop_left' message]
      · rw [← List.append_assoc _ tail, ← List.append_assoc _ tail, List.take_left' message,
          List.take_left' message]
    · have looked : (Writing.lift (slots.forM fun (id, bytes) =>
          (t.sets presets).2.checkSlot id bytes) : Write Unit).run out = (.ok (), out) := by
        rw [answered]
        rfl
      have short : (Writing.require SbeError.bufferTooSmall (t.sets presets).2.len).run out =
          (.error .bufferTooSmall, out) := if_pos (by rw [len]; exact Nat.lt_of_not_le room)
      unfold SbeTemplate.encode
      rw [Writing.bind_ok looked, Writing.bind_error short]
      exact ⟨rfl, .inl (Nat.lt_of_not_le room)⟩
  · have looked : (Writing.lift (slots.forM fun (id, bytes) =>
        (t.sets presets).2.checkSlot id bytes) : Write Unit).run out = (.error e, out) := by
      rw [answered]
      rfl
    unfold SbeTemplate.encode
    rw [Writing.bind_error looked]
    exact ⟨rfl, .inr fun buf room => ⟨_, _, e, byHand buf room,
      List.mem_map.mpr ⟨bad, among, refused⟩⟩⟩

/-- One `uint16` field in a block of four bytes, and an empty group. -/
def quote : SchemaTable where
  id := 7
  version := 1
  byteOrder := .little
  message id :=
    if id = 1 then
      some ⟨4, [⟨10, 0, 2, [⟨0, .uint16, 1, .optional (.uint 65535)⟩]⟩], [⟨6, ⟨.u16, .u8⟩⟩], []⟩
    else none

/-- Preset to 9, and a slot over it. -/
theorem template_encodes_quote :
    ∃ t, SbeTemplate.new quote 16 1 = .ok t ∧
      ∀ buf : Bytes, 15 ≤ buf.length → ∃ written,
        (writeMessage quote 1 [.element 10 0 (some (.uint 9)), .bytes 10 [2, 1]]).run buf =
          (.ok (15, [.ok (), .ok ()]), written) ∧
        [4, 0, 1, 0, 7, 0, 1, 0, 2, 1, 0, 0, 6, 0, 0] = written.take 15 := by
  have laid : SbeTemplate.new quote 16 1 = .ok _ := rfl
  exact ⟨_, laid, (template_encodes laid [.element 10 0 (some (.uint 9))] [(10, [2, 1])]
    (List.replicate 16 0)).2.2.2⟩

end Fixbolt.Sbe
