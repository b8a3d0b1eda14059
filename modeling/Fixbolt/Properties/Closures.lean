import Fixbolt.Properties.Walkable

/-!
# What the writer writes

Every closure leaves the writer where what it says it wrote stands in front of it, whatever it calls,
in whatever order, and whichever of its calls fail. So a message that was closed can be walked over,
and a reader finds the entries and the `varData` that were accepted, each block as the puts left it,
and nothing else.

* `BodyOn`, `EntriesOn`: what a writer stands behind is what it says it wrote;
* `entry_keeps`: an entry is written whole, or it is not there;
* `BodyCalls.keeps`, `GroupCalls.keeps`: every closure keeps that;
* `writer_walks`: a message that was closed is parsed to its end and read back.
-/

namespace Fixbolt.Sbe

open Writing

variable {order : ByteOrder} {version : ℕ}

/-! ### Pieces that are written -/

theorem lays_writeLength (order : ByteOrder) (t : LengthType) (v : ℕ) :
    Lays (fun pos => writeLength pos t v order) (v < 256 ^ t.size) (order.bytes t.size v) := by
  intro front back
  simp only [writeLength]
  by_cases fits : v < 256 ^ t.size
  · simp only [if_pos fits]
    obtain failed | ⟨-, wrote⟩ := lays_put SbeError.bufferTooSmall (order.bytes t.size v) front back
    · exact .inl failed
    · exact .inr ⟨fits, wrote⟩
  · simp only [if_neg fits]
    exact .inl ⟨.lengthOverflow, back, rfl, rfl⟩

theorem lays_writeDimension (order : ByteOrder) (g : GroupSpec) (count : ℕ) :
    Lays (fun pos => writeDimension pos g count order)
      (g.blockLength.toNat < 256 ^ g.dimension.blockLength.size ∧
        count < 256 ^ g.dimension.numInGroup.size)
      (g.dimensionBytes order count) := by
  have both := (lays_writeLength order g.dimension.blockLength g.blockLength.toNat).bind
    (lays_writeLength order g.dimension.numInGroup count)
  rwa [order.bytes_length] at both

/-- A length, and as many bytes. -/
theorem lays_varData (order : ByteOrder) (t : LengthType) (bytes : Bytes) :
    Lays (fun pos => do
      writeLength pos t bytes.length order
      writeSlice (pos + t.size) bytes) (bytes.length < 256 ^ t.size ∧ True)
      (order.bytes t.size bytes.length ++ bytes) := by
  have both := (lays_writeLength order t bytes.length).bind
    (lays_put SbeError.bufferTooSmall bytes)
  rwa [order.bytes_length] at both

/-- A block before the first put. -/
def initialBlock (len : ℕ) (fields : List FieldLayout) (order : ByteOrder) : Bytes :=
  ((writeNulls fields order).run (List.replicate len 0)).2

theorem initialBlock_length (len : ℕ) (fields : List FieldLayout) (order : ByteOrder) :
    (initialBlock len fields order).length = len := by
  rw [initialBlock, sized_writeNulls, List.length_replicate]

theorem lays_initBlock (len : ℕ) (fields : List FieldLayout) (order : ByteOrder) :
    Lays (fun pos => initBlock pos len fields order) True (initialBlock len fields order) := by
  intro front back
  by_cases room : len ≤ back.length
  · have size : (back.take len).length = len := List.length_take_of_le room
    have zeroed : (fill 0 len 0).run (back.take len) = (.ok (), List.replicate len 0) := by
      unfold fill writeSlice
      rw [run_put, if_pos (by simp [size]), List.length_replicate, Nat.zero_add,
        List.drop_of_length_le size.le]
      simp
    have whole := @within_middle _ _ _ front _ (back.drop len) _ _ SbeError.bufferTooSmall rfl size
      (fill 0 len 0 >>= fun _ => writeNulls fields order)
    rw [List.append_assoc, List.take_append_drop, bind_ok zeroed] at whole
    have kept := initialBlock_length len fields order
    unfold initialBlock at kept ⊢
    cases nulls : (writeNulls fields order).run (List.replicate len 0) with
    | mk r block =>
      rw [nulls] at whole kept
      have same : (block ++ back.drop len).length = back.length := by
        rw [List.length_append, List.length_drop, kept]
        omega
      rw [List.append_assoc] at whole
      cases r with
      | error e => exact .inl ⟨e, block ++ back.drop len, whole, same⟩
      | ok => exact .inr ⟨trivial, back.drop len, whole, same⟩
  · refine .inl ⟨.bufferTooSmall, back, if_neg ?_, rfl⟩
    rw [List.length_append]
    omega

/-! ### What a writer stands behind -/

/-- Nothing of the group is newer than the message. -/
inductive GroupSpec.Current (version : ℕ) : GroupSpec → Prop
  | mk {id : UInt16} {since : ℕ} {d : DimensionLayout} {len : UInt16} {fields : List FieldLayout}
    {groups : List GroupSpec} {varData : List VarDataSpec} : since ≤ version →
      (∀ g ∈ groups, GroupSpec.Current version g) →
      (∀ v ∈ varData, v.layout.sinceVersion ≤ version) →
      GroupSpec.Current version (.mk id since d len fields groups varData)

theorem GroupSpec.Current.since {g : GroupSpec} (h : g.Current version) :
    g.layout.sinceVersion ≤ version := by
  cases h with
  | mk since _ _ => exact since

theorem GroupSpec.Current.groups {g n : GroupSpec} (h : g.Current version) (is : n ∈ g.groups) :
    n.Current version := by
  cases h with
  | mk _ groups _ => exact groups n is

theorem GroupSpec.Current.varData {g : GroupSpec} {v : VarDataSpec} (h : g.Current version)
    (is : v ∈ g.varData) : v.layout.sinceVersion ≤ version := by
  cases h with
  | mk _ _ varData => exact varData v is

/-- A block and the part of its tail that has been written, behind `front`: the groups `ps` are the
bytes `gb`, the `varData` `qs` are the bytes `vb`. -/
structure Standing (order : ByteOrder) (version : ℕ) (groups : List GroupSpec)
    (varData : List VarDataSpec) (front : Bytes) (len size : ℕ) (w : BodyWriter) (buf : Bytes)
    (ps : List (GroupSpec × List Body)) (qs : List (VarDataSpec × Bytes)) (gb vb back : Bytes) :
    Prop where
  place : buf = front ++ (w.block ++ (gb ++ (vb ++ back)))
  whole : buf.length = size
  start : w.start = front.length
  extent : w.len = len
  block : w.block.length = len
  pos : w.pos = front.length + len + gb.length + vb.length
  strung : Strung (GroupOn order version) ps gb
  specs : ps.map (·.1) = groups.take w.nextGroup
  contents : ps.map (·.2) = w.groups
  vars : Strung (VarOn order version) qs vb
  varSpecs : qs.map (·.1) = varData.take w.nextVar
  varContents : qs.map (·.2) = w.varData
  /-- No `varData` before the last group. -/
  ordered : w.nextVar = 0 ∨ groups.length ≤ w.nextGroup

/-- What `w` says that it wrote behind `front` is there. -/
def BodyOn (order : ByteOrder) (version : ℕ) (groups : List GroupSpec) (varData : List VarDataSpec)
    (front : Bytes) (len size : ℕ) (w : BodyWriter) (buf : Bytes) : Prop :=
  ∃ ps qs gb vb back, Standing order version groups varData front len size w buf ps qs gb vb back

variable {groups : List GroupSpec} {varData : List VarDataSpec} {front : Bytes} {len size : ℕ}
  {w : BodyWriter} {buf : Bytes} {ps : List (GroupSpec × List Body)}
  {qs : List (VarDataSpec × Bytes)} {gb vb back : Bytes}

/-- A block with nothing behind it. -/
theorem bodyOn_new {block : Bytes} (groups : List GroupSpec) (varData : List VarDataSpec)
    (block_len : block.length = len) (whole : (front ++ (block ++ back)).length = size) :
    BodyOn order version groups varData front len size (.new front.length len block)
      (front ++ (block ++ back)) :=
  ⟨[], [], [], [], back, rfl, whole, rfl, rfl, block_len, rfl, .nil, rfl, rfl, .nil, rfl, rfl, .inl rfl⟩

namespace Standing

variable (h : Standing order version groups varData front len size w buf ps qs gb vb back)
include h

theorem vars_nil (none : w.nextVar = 0) : qs = [] ∧ vb = [] := by
  have specs := h.varSpecs
  rw [none, List.take_zero, List.map_eq_nil_iff] at specs
  subst specs
  refine ⟨rfl, ?_⟩
  cases h.vars
  rfl

/-- Whatever is written further on. -/
theorem moved {back' : Bytes} (same : back'.length = back.length) :
    Standing order version groups varData front len size w
      (front ++ (w.block ++ (gb ++ (vb ++ back')))) ps qs gb vb back' where
  place := rfl
  whole := by
    rw [← h.whole, h.place]
    simp only [List.length_append, same]
  start := h.start
  extent := h.extent
  block := h.block
  pos := h.pos
  strung := h.strung
  specs := h.specs
  contents := h.contents
  vars := h.vars
  varSpecs := h.varSpecs
  varContents := h.varContents
  ordered := h.ordered

/-- One more group. -/
theorem next_group {g : GroupSpec} {entries : List Body} {d back' : Bytes} {pos : ℕ}
    (none : w.nextVar = 0) (is : groups[w.nextGroup]? = some g)
    (on : GroupOn order version (g, entries) d) (at_ : pos = w.pos + d.length)
    (same : (front ++ (w.block ++ (gb ++ (d ++ back')))).length = size) :
    BodyOn order version groups varData front len size
      { w with pos, nextGroup := w.nextGroup + 1, groups := w.groups ++ [entries] }
      (front ++ (w.block ++ (gb ++ (d ++ back')))) := by
  obtain ⟨rfl, rfl⟩ := h.vars_nil none
  have there := h.pos
  rw [List.length_nil, Nat.add_zero] at there
  refine ⟨ps ++ [(g, entries)], [], gb ++ d, [], back', ?_, same, h.start, h.extent, h.block, ?_,
    h.strung.snoc on, ?_, ?_, .nil, h.varSpecs, h.varContents, .inl none⟩
  · rw [List.append_assoc]
    rfl
  · rw [List.length_append, List.length_nil]
    dsimp only
    omega
  · rw [List.map_append, h.specs, List.take_add_one, is]
    rfl
  · rw [List.map_append, h.contents]
    rfl

/-- One more `varData`. -/
theorem next_var {v : VarDataSpec} {data d back' : Bytes} {pos : ℕ}
    (past : groups.length ≤ w.nextGroup) (is : varData[w.nextVar]? = some v)
    (on : VarOn order version (v, data) d) (at_ : pos = w.pos + d.length)
    (same : (front ++ (w.block ++ (gb ++ (vb ++ (d ++ back'))))).length = size) :
    BodyOn order version groups varData front len size
      { w with pos, nextVar := w.nextVar + 1, varData := w.varData ++ [data] }
      (front ++ (w.block ++ (gb ++ (vb ++ (d ++ back'))))) := by
  have there := h.pos
  refine ⟨ps, qs ++ [(v, data)], gb, vb ++ d, back', ?_, same, h.start, h.extent, h.block, ?_,
    h.strung, h.specs, h.contents, h.vars.snoc on, ?_, ?_, .inr past⟩
  · rw [List.append_assoc]
  · rw [List.length_append]
    dsimp only
    omega
  · rw [List.map_append, h.varSpecs, List.take_add_one, is]
    rfl
  · rw [List.map_append, h.varContents]
    rfl

/-- A program that lays something down where the writer stands. -/
theorem attempt {x : ℕ → Write Unit} {good : Prop} {src : Bytes} (lays : Lays x good src) :
    (x w.pos).attempt.Answers buf fun r buf' =>
      (∃ e, r = .error e ∧ BodyOn order version groups varData front len size w buf') ∨
      r = .ok () ∧ good ∧ ∃ back',
        buf' = front ++ (w.block ++ (gb ++ (vb ++ (src ++ back')))) ∧ buf'.length = size := by
  have place : buf = front ++ (w.block ++ (gb ++ vb)) ++ back := by
    rw [h.place]
    simp only [List.append_assoc]
  have pos : w.pos = (front ++ (w.block ++ (gb ++ vb))).length := by
    rw [h.pos]
    simp only [List.length_append, h.block]
    omega
  obtain ⟨r, buf', ran, ends⟩ := lays.attempt (front ++ (w.block ++ (gb ++ vb))) back
  rw [← pos, ← place] at ran
  refine ⟨r, buf', ran, ?_⟩
  obtain ⟨e, back', rfl, rfl, same⟩ | ⟨rfl, holds, back', rfl, same⟩ := ends
  · refine .inl ⟨e, rfl, ps, qs, gb, vb, back', ?_⟩
    have moved := h.moved same
    simp only [List.append_assoc]
    exact moved
  · refine .inr ⟨rfl, holds, back', by simp only [List.append_assoc], ?_⟩
    have whole := h.whole
    rw [place] at whole
    simp only [List.length_append] at same whole ⊢
    omega

/-- What was written of the tail is the tail, when nothing of it is left. -/
theorem tail (all : groups.length ≤ w.nextGroup) (allVar : varData.length ≤ w.nextVar) :
    TailOn order version groups varData w.body (gb ++ vb) := by
  have specs := h.specs
  have varSpecs := h.varSpecs
  rw [List.take_of_length_le all] at specs
  rw [List.take_of_length_le allVar] at varSpecs
  rw [BodyWriter.body, ← h.contents, ← h.varContents]
  exact tail_on h.strung h.vars specs varSpecs

end Standing

/-! ### Empty ones -/

section Body

variable (current : ∀ g ∈ groups, g.Current version)
  (currentVar : ∀ v ∈ varData, v.layout.sinceVersion ≤ version)

include current in
theorem emptyGroups_keeps {n : ℕ}
    (h : BodyOn order version groups varData front len size w buf) (none : n = 0 ∨ w.nextVar = 0) :
    (w.emptyGroups order groups n).Answers buf fun p buf' =>
      BodyOn order version groups varData front len size p.2 buf' ∧ p.2.nextVar = w.nextVar ∧
        (p.1 = .ok () → p.2.nextGroup = w.nextGroup + n) := by
  induction n generalizing w buf with
  | zero => exact answers_pure ⟨h, rfl, fun _ => rfl⟩
  | succ n ih =>
    have none : w.nextVar = 0 := none.resolve_left (Nat.succ_ne_zero n)
    rw [BodyWriter.emptyGroups]
    cases is : groups[w.nextGroup]? with
    | none => exact answers_pure ⟨h, rfl, by rintro ⟨⟩⟩
    | some g =>
      obtain ⟨ps, qs, gb, vb, back, on⟩ := h
      obtain ⟨rfl, rfl⟩ := on.vars_nil none
      refine (on.attempt (lays_writeDimension order g 0)).bind ?_
      rintro r buf' (⟨e, rfl, on'⟩ | ⟨rfl, ⟨blockFits, countFits⟩, back', rfl, whole⟩)
      · exact answers_pure ⟨on', rfl, by rintro ⟨⟩⟩
      · have empty : GroupOn order version (g, []) (g.dimensionBytes order 0 ++ []) :=
          group_on (current g (List.mem_of_getElem? is)).since blockFits countFits .nil
        rw [List.append_nil] at empty
        have next := on.next_group none is empty (by rw [g.dimensionBytes_length]) whole
        obtain ⟨p, buf', ran, on', vars, past⟩ := ih next (.inr none)
        refine ⟨p, buf', ran, on', vars, fun ok => (past ok).trans ?_⟩
        dsimp only
        omega

include currentVar in
theorem emptyVarData_keeps {n : ℕ}
    (h : BodyOn order version groups varData front len size w buf)
    (past : groups.length ≤ w.nextGroup) :
    (w.emptyVarData order varData n).Answers buf fun p buf' =>
      BodyOn order version groups varData front len size p.2 buf' ∧ p.2.nextGroup = w.nextGroup ∧
        (p.1 = .ok () → p.2.nextVar = w.nextVar + n) := by
  induction n generalizing w buf with
  | zero => exact answers_pure ⟨h, rfl, fun _ => rfl⟩
  | succ n ih =>
    rw [BodyWriter.emptyVarData]
    cases is : varData[w.nextVar]? with
    | none => exact answers_pure ⟨h, rfl, by rintro ⟨⟩⟩
    | some v =>
      obtain ⟨ps, qs, gb, vb, back, on⟩ := h
      refine (on.attempt (lays_writeLength order v.layout.length 0)).bind ?_
      rintro r buf' (⟨e, rfl, on'⟩ | ⟨rfl, fits, back', rfl, whole⟩)
      · exact answers_pure ⟨on', rfl, by rintro ⟨⟩⟩
      · have empty : VarOn order version (v, []) (order.bytes v.layout.length.size 0 ++ []) :=
          varData_on (currentVar v (List.mem_of_getElem? is)) fits
        rw [List.append_nil] at empty
        have next := on.next_var past is empty (by rw [order.bytes_length]) whole
        obtain ⟨p, buf', ran, on', same, to_end⟩ := ih next past
        refine ⟨p, buf', ran, on', same, fun ok => (to_end ok).trans ?_⟩
        dsimp only
        omega

/-- One thing after another, when the first keeps what is there. -/
theorem answers_andThen {α : Type} {x : Write (Answer × BodyWriter)}
    {next : BodyWriter → Write (Except SbeError α × BodyWriter)}
    {post : Answer × BodyWriter → Bytes → Prop} {post' : Except SbeError α × BodyWriter → Bytes → Prop}
    (hx : x.Answers buf post)
    (failed : ∀ e w buf', post (.error e, w) buf' → post' (.error e, w) buf')
    (then_ : ∀ w buf', post (.ok (), w) buf' → (next w).Answers buf' post') :
    (BodyWriter.andThen x next).Answers buf post' := by
  refine hx.bind ?_
  rintro ⟨r, w⟩ buf' holds
  cases r with
  | error e => exact answers_pure (failed e w buf' holds)
  | ok => exact then_ w buf' holds

include current in
theorem emptyGroupsUntil_keeps {upto : ℕ}
    (h : BodyOn order version groups varData front len size w buf)
    (here : upto ≤ w.nextGroup ∨ w.nextVar = 0) :
    (w.emptyGroupsUntil order groups upto).Answers buf fun p buf' =>
      BodyOn order version groups varData front len size p.2 buf' ∧ p.2.nextVar = w.nextVar ∧
        (p.1 = .ok () → p.2.nextGroup = max w.nextGroup upto) := by
  have none : upto - w.nextGroup = 0 ∨ w.nextVar = 0 := here.imp_left Nat.sub_eq_zero_of_le
  obtain ⟨p, buf', ran, on, vars, past⟩ := emptyGroups_keeps current h none
  refine ⟨p, buf', ran, on, vars, fun ok => (past ok).trans ?_⟩
  omega

include current currentVar in
/-- **Closing a block leaves nothing out.** -/
theorem close_keeps (h : BodyOn order version groups varData front len size w buf) :
    (w.close order groups varData).Answers buf fun p buf' =>
      BodyOn order version groups varData front len size p.2 buf' ∧
        (p.1 = .ok () → groups.length ≤ p.2.nextGroup ∧ varData.length ≤ p.2.nextVar) := by
  have here : groups.length ≤ w.nextGroup ∨ w.nextVar = 0 := by
    obtain ⟨ps, qs, gb, vb, back, on⟩ := h
    exact on.ordered.symm
  refine answers_andThen (emptyGroupsUntil_keeps current h here) ?_ ?_
  · rintro e w' buf' ⟨on, -, -⟩
    exact ⟨on, by rintro ⟨⟩⟩
  · rintro w' buf' ⟨on, -, past⟩
    have all : groups.length ≤ w'.nextGroup := (le_max_right _ _).trans (past rfl).ge
    obtain ⟨p, buf'', ran, on', same, rest⟩ :=
      emptyVarData_keeps currentVar (n := varData.length - w'.nextVar) on all
    refine ⟨p, buf'', ran, on', fun ok => ⟨all.trans same.ge, ?_⟩⟩
    have done := rest ok
    dsimp only at done
    omega

/-! ### Puts -/

omit current currentVar in
/-- What a put makes of the block. -/
theorem inBlock_keeps {x : Write Unit} (sized : x.Sized)
    (h : BodyOn order version groups varData front len size w buf) :
    (w.inBlock x).Answers buf fun p buf' =>
      BodyOn order version groups varData front len size p.2 buf' := by
  obtain ⟨ps, qs, gb, vb, back, on⟩ := h
  have ran := @within_middle _ _ _ front _ (gb ++ (vb ++ back)) _ _ SbeError.bufferTooSmall rfl
    on.block x
  rw [List.append_assoc, ← on.place, ← on.extent, ← on.start] at ran
  have block : (x.run w.block).2.length = len := (sized w.block).trans on.block
  refine ⟨((sliceMut w.start w.len x).run buf |>.1, { w with block := (x.run w.block).2 }), _, rfl,
    ps, qs, gb, vb, back, ?_⟩
  have place := congrArg Prod.snd ran
  dsimp only at place
  rw [List.append_assoc] at place
  refine { on with place, whole := ?_, block }
  refine (congrArg List.length place).trans ?_
  rw [← on.whole, on.place]
  simp only [List.length_append, block, on.block]

theorem putBytes_keeps (field : FieldLayout) (bytes : Bytes)
    (h : BodyOn order version groups varData front len size w buf) :
    (w.putBytes field bytes).Answers buf fun p buf' =>
      BodyOn order version groups varData front len size p.2 buf' := by
  unfold BodyWriter.putBytes
  split
  · exact answers_pure h
  · exact inBlock_keeps ((sized_put _ _ _).mapError _) h

theorem putElement_keeps (field : FieldLayout) (index : ℕ) (value : Option Value)
    (h : BodyOn order version groups varData front len size w buf) :
    (w.putElement field index value order).Answers buf fun p buf' =>
      BodyOn order version groups varData front len size p.2 buf' := by
  unfold BodyWriter.putElement
  split
  · exact answers_pure h
  · exact inBlock_keeps (whole_writeElement _ _ _ _).sized h

include current currentVar in
theorem putVarData_keeps (id : UInt16) (bytes : Bytes)
    (h : BodyOn order version groups varData front len size w buf) :
    (w.putVarData order groups varData id bytes).Answers buf fun p buf' =>
      BodyOn order version groups varData front len size p.2 buf' := by
  unfold BodyWriter.putVarData
  cases varData.findIdx? (·.id == id) with
  | none => exact answers_pure h
  | some idx =>
    dsimp only
    by_cases passed : idx < w.nextVar
    · rw [if_pos passed]
      exact answers_pure h
    · rw [if_neg passed]
      cases is : varData[idx]? with
      | none => exact answers_pure h
      | some v =>
        dsimp only
        by_cases long : 256 ^ v.layout.length.size ≤ bytes.length
        · rw [if_pos long]
          exact answers_pure h
        · rw [if_neg long]
          have here : groups.length ≤ w.nextGroup ∨ w.nextVar = 0 := by
            obtain ⟨ps, qs, gb, vb, back, on⟩ := h
            exact on.ordered.symm
          refine answers_andThen (emptyGroupsUntil_keeps current h here) ?_ ?_
          · rintro e w' buf' ⟨on, -, -⟩
            exact on
          · rintro w₁ buf₁ ⟨on₁, vars, all⟩
            have all : groups.length ≤ w₁.nextGroup := (le_max_right _ _).trans (all rfl).ge
            refine answers_andThen (emptyVarData_keeps currentVar on₁ all) ?_ ?_
            · rintro e w' buf' ⟨on, -, -⟩
              exact on
            · rintro w₂ buf₂ ⟨⟨ps, qs, gb, vb, back, on⟩, same, next⟩
              have next : w₂.nextVar = idx := by
                have := next rfl
                dsimp only at this vars
                omega
              refine (on.attempt (lays_varData order v.layout.length bytes)).bind ?_
              rintro r buf' (⟨e, rfl, on'⟩ | ⟨rfl, ⟨fits, -⟩, back', rfl, whole⟩)
              · exact answers_pure on'
              · rw [← next] at is ⊢
                refine answers_pure (on.next_var (all.trans same.ge) is
                  (varData_on (currentVar v (List.mem_of_getElem? is)) fits) ?_ whole)
                rw [List.length_append, order.bytes_length, Nat.add_assoc]

/-! ### Entries -/

/-- The entries that `v` says it wrote are there, behind the dimension of their group, as the bytes
`b`. -/
structure Entered (order : ByteOrder) (version : ℕ) (g : GroupSpec) (countAt : ℕ) (front : Bytes)
    (size : ℕ) (v : GroupWriter) (buf b back : Bytes) : Prop where
  place : buf = front ++ (g.dimensionBytes order v.entries.length ++ (b ++ back))
  whole : buf.length = size
  count : v.count = v.entries.length
  countAt : countAt = front.length + g.dimension.blockLength.size
  pos : v.pos = front.length + g.dimension.size + b.length
  blockFits : g.blockLength.toNat < 256 ^ g.dimension.blockLength.size
  countFits : v.entries.length < 256 ^ g.dimension.numInGroup.size
  strung : Strung (EntryOn order version g) v.entries b

def EntriesOn (order : ByteOrder) (version : ℕ) (g : GroupSpec) (countAt : ℕ) (front : Bytes)
    (size : ℕ) (v : GroupWriter) (buf : Bytes) : Prop :=
  ∃ b back, Entered order version g countAt front size v buf b back

/-- The count of a group is rewritten. -/
theorem recount {g : GroupSpec} {n : ℕ} (fits : n < 256 ^ g.dimension.numInGroup.size) (count : ℕ)
    (front rest : Bytes) :
    (writeLength (front.length + g.dimension.blockLength.size) g.dimension.numInGroup n order).run
        (front ++ (g.dimensionBytes order count ++ rest)) =
      (.ok (), front ++ (g.dimensionBytes order n ++ rest)) := by
  have place : (front ++ order.bytes g.dimension.blockLength.size g.blockLength.toNat).length =
      front.length + g.dimension.blockLength.size := by
    rw [List.length_append, order.bytes_length]
  have room : (order.bytes g.dimension.numInGroup.size n).length ≤
      (order.bytes g.dimension.numInGroup.size count ++ rest).length := by
    rw [List.length_append, order.bytes_length, order.bytes_length]
    omega
  have ran := run_put_behind SbeError.bufferTooSmall
    (front ++ order.bytes g.dimension.blockLength.size g.blockLength.toNat) _ _ room
  have old := order.bytes_length g.dimension.numInGroup.size count
  rw [place, order.bytes_length, List.drop_left' old] at ran
  unfold writeLength writeUnsigned writeSlice GroupSpec.dimensionBytes
  rw [if_pos fits]
  simpa only [List.append_assoc] using ran

namespace Entered

variable {g : GroupSpec} {countAt : ℕ} {v : GroupWriter} {b : Bytes}
  (on : Entered order version g countAt front size v buf b back)
include on

/-- The writer stands behind the entries. -/
theorem behind : buf = front ++ (g.dimensionBytes order v.entries.length ++ b) ++ back ∧
    v.pos = (front ++ (g.dimensionBytes order v.entries.length ++ b)).length := by
  refine ⟨?_, ?_⟩
  · rw [on.place]
    simp only [List.append_assoc]
  · rw [on.pos, List.length_append, List.length_append, g.dimensionBytes_length, Nat.add_assoc]

theorem sized {back' : Bytes} (same : back'.length = back.length) :
    (front ++ (g.dimensionBytes order v.entries.length ++ b) ++ back').length = size := by
  have whole := on.whole
  rw [on.behind.1] at whole
  simp only [List.length_append] at same whole ⊢
  omega

/-- Whatever stands behind the entries, they are there. -/
theorem undone (back' : Bytes)
    (whole : (front ++ (g.dimensionBytes order v.entries.length ++ b) ++ back').length = size) :
    EntriesOn order version g countAt front size v
      (front ++ (g.dimensionBytes order v.entries.length ++ b) ++ back') :=
  ⟨b, back', { on with place := by simp only [List.append_assoc], whole }⟩

/-- An entry that was closed is counted. -/
theorem next {e : BodyWriter} {ps : List (GroupSpec × List Body)} {qs : List (VarDataSpec × Bytes)}
    {gb vb back' buf' : Bytes}
    (closed : Standing order version g.groups g.varData
      (front ++ (g.dimensionBytes order v.entries.length ++ b)) g.blockLength.toNat size e buf' ps qs
      gb vb back')
    (all : g.groups.length ≤ e.nextGroup) (allVar : g.varData.length ≤ e.nextVar)
    (fits : v.count + 1 < 256 ^ g.dimension.numInGroup.size) :
    (writeLength countAt g.dimension.numInGroup (v.count + 1) order).attempt.Answers buf'
      fun r buf'' => r = .ok () ∧ EntriesOn order version g countAt front size
        ⟨e.pos, v.count + 1, v.entries ++ [e.body]⟩ buf'' := by
  have entry : EntryOn order version g e.body (e.block ++ (gb ++ vb)) :=
    ⟨gb ++ vb, rfl, closed.block, closed.tail all allVar⟩
  have count : (v.entries ++ [e.body]).length = v.count + 1 := by
    rw [List.length_append, ← on.count, List.length_singleton]
  have before : buf' = front ++ (g.dimensionBytes order v.entries.length ++
      (b ++ (e.block ++ (gb ++ (vb ++ back'))))) := by
    rw [closed.place]
    simp only [List.append_assoc]
  have ran := @recount order g _ fits v.entries.length front (b ++ (e.block ++ (gb ++ (vb ++ back'))))
  rw [← on.countAt, ← before] at ran
  refine answers_attempt ?_
  rw [ran]
  refine ⟨rfl, b ++ (e.block ++ (gb ++ vb)), back', ?_, ?_, count.symm, on.countAt, ?_, on.blockFits,
    by rwa [count], on.strung.snoc entry⟩
  · rw [count]
    simp only [List.append_assoc]
  · have whole := closed.whole
    rw [before] at whole
    simp only [List.length_append, g.dimensionBytes_length] at whole ⊢
    exact whole
  · have there := closed.pos
    rw [← on.behind.2, on.pos] at there
    simp only [List.length_append, closed.block] at there ⊢
    omega

end Entered

/-- **An entry is written whole, or it is not there.** -/
theorem entry_keeps {g : GroupSpec} {countAt : ℕ} {v : GroupWriter}
    {closure : BodyWriter → Write (Answer × BodyWriter)} (current : g.Current version)
    (h : EntriesOn order version g countAt front size v buf)
    (keeps : ∀ (front : Bytes) (w : BodyWriter) (buf : Bytes),
      BodyOn order version g.groups g.varData front g.blockLength.toNat size w buf →
      (closure w).Answers buf fun p buf' =>
        BodyOn order version g.groups g.varData front g.blockLength.toNat size p.2 buf') :
    (v.entry order g countAt closure).Answers buf fun p buf' =>
      EntriesOn order version g countAt front size p.2 buf' := by
  unfold GroupWriter.entry
  dsimp only
  by_cases long : 256 ^ g.dimension.numInGroup.size ≤ v.count + 1
  · rw [if_pos long]
    exact answers_pure h
  · rw [if_neg long]
    obtain ⟨b, back, on⟩ := h
    obtain ⟨place, pos⟩ := on.behind
    have begun := (lays_initBlock g.blockLength.toNat g.fields order).attempt
      (front ++ (g.dimensionBytes order v.entries.length ++ b)) back
    rw [← pos, ← place] at begun
    refine begun.bind ?_
    rintro r buf' (⟨e, back', rfl, rfl, same⟩ | ⟨rfl, -, back', rfl, same⟩)
    · exact answers_pure (on.undone back' (on.sized same))
    · have started := @bodyOn_new order version _ _ _ _ _ g.groups g.varData
        (initialBlock_length g.blockLength.toNat g.fields order) (on.sized same)
      rw [← pos] at started
      refine (answers_andThen (keeps _ _ _ started) (fun e w' buf' on' => ?_) fun w' buf' on' =>
        close_keeps (fun n => current.groups) (fun n => current.varData) on').bind ?_
      · exact ⟨on', by rintro ⟨⟩⟩
      · rintro ⟨r, e⟩ buf' ⟨⟨ps, qs, gb, vb, back'', closed⟩, complete⟩
        cases r with
        | error err =>
          -- what the entry wrote is behind the place, whatever it is
          refine answers_pure ?_
          rw [closed.place]
          exact on.undone _ (closed.place ▸ closed.whole)
        | ok =>
          obtain ⟨all, allVar⟩ := complete rfl
          refine (on.next closed all allVar (Nat.lt_of_not_le long)).bind ?_
          rintro r buf'' ⟨rfl, entries⟩
          exact answers_pure entries

include current in
/-- **A group that was opened takes entries**, and after them the block goes on behind it. -/
theorem openGroup_keeps (id : UInt16)
    (h : BodyOn order version groups varData front len size w buf) :
    (w.openGroup order groups id).Answers buf fun p buf' =>
      (∃ e, p.1 = .error e ∧ BodyOn order version groups varData front len size p.2 buf') ∨
      ∃ g countAt before, p.1 = .ok (g, countAt) ∧ g.Current version ∧
        EntriesOn order version g countAt before size ⟨p.2.pos, 0, []⟩ buf' ∧
        ∀ v buf'', EntriesOn order version g countAt before size v buf'' →
          BodyOn order version groups varData front len size
            { p.2 with pos := v.pos, groups := p.2.groups ++ [v.entries] } buf'' := by
  unfold BodyWriter.openGroup
  cases groups.findIdx? (·.id == id) with
  | none => exact answers_pure (.inl ⟨_, rfl, h⟩)
  | some idx =>
    dsimp only
    by_cases late : idx < w.nextGroup ∨ 0 < w.nextVar
    · rw [if_pos late]
      exact answers_pure (.inl ⟨_, rfl, h⟩)
    · rw [if_neg late]
      have here : idx ≤ w.nextGroup ∨ w.nextVar = 0 := .inr (by omega)
      refine answers_andThen (emptyGroupsUntil_keeps current h here) ?_ ?_
      · rintro e w' buf' ⟨on, -, -⟩
        exact .inl ⟨e, rfl, on⟩
      · rintro w₁ buf₁ ⟨on₁, vars, upto⟩
        have none : w₁.nextVar = 0 := by
          dsimp only at vars
          omega
        have at_idx : w₁.nextGroup = idx := by
          have := upto rfl
          dsimp only at this
          omega
        cases is : groups[idx]? with
        | none => exact answers_pure (.inl ⟨_, rfl, on₁⟩)
        | some g =>
          obtain ⟨ps, qs, gb, vb, back, on⟩ := on₁
          obtain ⟨rfl, rfl⟩ := on.vars_nil none
          have group := current g (List.mem_of_getElem? is)
          have there := on.pos
          rw [List.length_nil, Nat.add_zero] at there
          refine (on.attempt (lays_writeDimension order g 0)).bind ?_
          rintro r buf' (⟨e, rfl, on'⟩ | ⟨rfl, ⟨blockFits, countFits⟩, back', rfl, whole⟩)
          · exact answers_pure (.inl ⟨e, rfl, on'⟩)
          · refine answers_pure (.inr ⟨g, _, front ++ (w₁.block ++ gb), rfl, group, ?_, ?_⟩)
            · refine ⟨[], back', ?_, whole, rfl, ?_, ?_, blockFits, countFits, .nil⟩
              · simp only [List.append_assoc, List.nil_append]
                rfl
              · dsimp only at there
                simp only [List.length_append, on.block]
                omega
              · dsimp only
                rw [there, List.length_append, List.length_append, on.block, List.length_nil]
                omega
            · rintro v buf'' ⟨b, back'', in_⟩
              have entries := group_on group.since in_.blockFits in_.countFits in_.strung
              have size : (front ++ (w₁.block ++ (gb ++
                  (g.dimensionBytes order v.entries.length ++ b ++ back'')))).length = size := by
                rw [← in_.whole, in_.place]
                simp only [List.append_assoc]
              have end_ : v.pos = w₁.pos + (g.dimensionBytes order v.entries.length ++ b).length := by
                rw [in_.pos, there]
                simp only [List.length_append, on.block, g.dimensionBytes_length]
                omega
              have next := on.next_group none (at_idx ▸ is) entries end_ size
              rw [in_.place]
              simp only [List.append_assoc] at next ⊢
              rw [at_idx] at next
              exact next

end Body

/-! ### Every closure -/

mutual

/-- **Whatever a closure calls on the writer of a block, what the writer says it wrote is there.** -/
theorem BodyCalls.keeps : ∀ (calls : BodyCalls) {groups : List GroupSpec}
    {varData : List VarDataSpec} {front : Bytes} {len size : ℕ} {w : BodyWriter} {buf : Bytes},
    (∀ g ∈ groups, g.Current version) → (∀ v ∈ varData, v.layout.sinceVersion ≤ version) →
    BodyOn order version groups varData front len size w buf →
    (calls.run order groups varData w).Answers buf fun p buf' =>
      BodyOn order version groups varData front len size p.2 buf'
  | .answer r, _, _, _, _, _, _, _, _, _, h => answers_pure h
  | .putBytes field bytes next, _, _, _, _, _, _, _, current, currentVar, h => by
    rw [BodyCalls.run]
    refine (putBytes_keeps field bytes h).bind ?_
    rintro ⟨r, w'⟩ buf' on
    exact (next r).keeps current currentVar on
  | .putElement field index value next, _, _, _, _, _, _, _, current, currentVar, h => by
    rw [BodyCalls.run]
    refine (putElement_keeps field index value h).bind ?_
    rintro ⟨r, w'⟩ buf' on
    exact (next r).keeps current currentVar on
  | .group id entries next, _, _, _, _, _, _, _, current, currentVar, h => by
    rw [BodyCalls.run]
    refine (openGroup_keeps current id h).bind ?_
    rintro ⟨opened, w'⟩ buf' (⟨e, rfl, on⟩ | ⟨g, countAt, before, rfl, group, inside, closes⟩)
    · exact (next (.error e)).keeps current currentVar on
    · refine (entries.keeps group inside).bind ?_
      rintro ⟨r, v⟩ buf'' on
      exact (next r).keeps current currentVar (closes v buf'' on)
  | .varData id bytes next, _, _, _, _, _, _, _, current, currentVar, h => by
    rw [BodyCalls.run]
    refine (putVarData_keeps current currentVar id bytes h).bind ?_
    rintro ⟨r, w'⟩ buf' on
    exact (next r).keeps current currentVar on

theorem GroupCalls.keeps : ∀ (calls : GroupCalls) {g : GroupSpec} {countAt : ℕ} {front : Bytes}
    {size : ℕ} {v : GroupWriter} {buf : Bytes}, g.Current version →
    EntriesOn order version g countAt front size v buf →
    (calls.run order g countAt v).Answers buf fun p buf' =>
      EntriesOn order version g countAt front size p.2 buf'
  | .answer r, _, _, _, _, _, _, _, h => answers_pure h
  | .entry body next, g, _, _, _, _, _, current, h => by
    rw [GroupCalls.run]
    refine (entry_keeps current h fun front w buf on =>
      body.keeps (fun n => current.groups) (fun n => current.varData) on).bind ?_
    rintro ⟨r, v'⟩ buf' on
    exact (next r).keeps current on

end

/-! ### The whole message -/

/-- Nothing of the message is newer than its version. -/
structure MessageSpec.Current (version : ℕ) (m : MessageSpec) : Prop where
  groups : ∀ g ∈ m.groups, g.Current version
  varData : ∀ v ∈ m.varData, v.layout.sinceVersion ≤ version

theorem readU16_behind (front : Bytes) (at_ : ℕ) {back : Bytes} {v : ℕ} (before : front.length = at_)
    (fits : v < 256 ^ 2) (small : (front ++ (order.bytes 2 v ++ back)).length < usizeSize) :
    readU16 (front ++ (order.bytes 2 v ++ back)) at_ order = .ok v := by
  subst before
  exact readUnsigned_behind fits small

/-- A header that was written is decoded, and its block length is read again. -/
theorem decode_bytes {h : MessageHeader} {rest : Bytes} (blockLength : h.blockLength < 256 ^ 2)
    (templateId : h.templateId < 256 ^ 2) (schemaId : h.schemaId < 256 ^ 2)
    (version : h.version < 256 ^ 2) (small : (h.bytes order ++ rest).length < usizeSize) :
    MessageHeader.decode (h.bytes order ++ rest) order = .ok h ∧
      readU16 (h.bytes order ++ rest) 0 order = .ok h.blockLength := by
  have size (v : ℕ) := order.bytes_length 2 v
  unfold MessageHeader.bytes at small ⊢
  simp only [List.append_assoc] at small ⊢
  have first := readU16_behind [] 0 rfl blockLength small
  have second := readU16_behind _ 2 (size h.blockLength) templateId small
  have third := readU16_behind (order.bytes 2 h.blockLength ++ order.bytes 2 h.templateId) 4
    (by simp only [List.length_append, size]) schemaId
    (by simpa only [List.append_assoc] using small)
  have fourth := readU16_behind (order.bytes 2 h.blockLength ++
    (order.bytes 2 h.templateId ++ order.bytes 2 h.schemaId)) 6
    (by simp only [List.length_append, size]) version
    (by simpa only [List.append_assoc] using small)
  simp only [List.append_assoc, List.nil_append] at first third fourth
  refine ⟨?_, first⟩
  rw [MessageHeader.decode, first, second, third, fourth]
  rfl

section Steps

variable {S : Schema} (layout : MessageLayout) {m block : Bytes} {h : MessageHeader} {c : Cursor}
  (decoded : MessageHeader.decode m S.byteOrder = .ok h)
  (found : slice m HEADER_LEN h.blockLength = .ok block)
  (past : checkedUsize (HEADER_LEN + h.blockLength) = .ok (HEADER_LEN + h.blockLength))
include decoded found past

/-- The steps of a parser. -/
theorem measure_steps
    (walked : Cursor.skipTail layout.groups layout.varData
      ⟨m, HEADER_LEN + h.blockLength, S.byteOrder, h.version⟩ = .ok c) :
    measure S layout m = .ok c := by
  rw [measure_eq, decoded]
  simp only [bind, Except.bind, found, past, walked]

/-- The steps of a reader. -/
theorem readBody_steps (again : readU16 m 0 S.byteOrder = .ok h.blockLength)
    {tail : List (List Body) × List Bytes}
    (read : Cursor.readTail layout.groups layout.varData
      ⟨m, HEADER_LEN + h.blockLength, S.byteOrder, h.version⟩ = .ok (tail, c)) :
    readBody S layout m = .ok (.mk block tail.1 tail.2) := by
  unfold readBody SbeView.new SbeView.root SbeView.tail SbeView.rootEnd SbeView.blockLength
  rw [decoded]
  simp only [bind, Except.bind, pure, Except.pure, found, again, past, read]

end Steps

section Message

/-- What a reader reads of a message's table. -/
abbrev MessageSpec.layout (m : MessageSpec) : MessageLayout :=
  ⟨GroupSpec.layouts m.groups, m.varData.map (·.layout)⟩

variable {S : SchemaSpec} {templateId : UInt16} {layout : MessageSpec} {block gb vb : Bytes}

/-- The bytes of a message: a header, a block, and what is behind it. -/
def messageBytes (S : SchemaSpec) (templateId : UInt16) (layout : MessageSpec)
    (block tail : Bytes) : Bytes :=
  headerOf S.table templateId layout.table ++ (block ++ tail)

/-- **A message whose block and tail can be read is read**, and its end is found. -/
theorem message_on (message : S.message templateId = some layout) (body : Body) {tail : Bytes}
    (size : body.block.length = layout.blockLength.toNat)
    (on : TailOn S.byteOrder S.version.toNat layout.groups layout.varData body tail) (rest : Bytes)
    (small : (messageBytes S templateId layout body.block tail ++ rest).length < usizeSize) :
    (∀ scratch, (parse S.schema (messageBytes S templateId layout body.block tail ++ rest)
      scratch).2 = .ok (.complete (messageBytes S templateId layout body.block tail).length)) ∧
    ∃ known, S.schema.message templateId.toNat = some known ∧
      readBody S.schema known (messageBytes S templateId layout body.block tail ++ rest) =
        .ok body := by
  have long := headerOf_length S.table templateId layout.table
  have known : S.schema.message templateId.toNat =
      some layout.layout := by
    have same : templateId.toNat.toUInt16 = templateId := UInt16.ofNat_toNat
    show (S.message templateId.toNat.toUInt16).map _ = _
    rw [same, message]
    rfl
  unfold messageBytes at small ⊢
  simp only [List.append_assoc] at small ⊢
  obtain ⟨decoded, again⟩ :
      MessageHeader.decode (headerOf S.table templateId layout.table ++
        (body.block ++ (tail ++ rest))) S.byteOrder =
          .ok ⟨layout.blockLength.toNat, templateId.toNat, S.id.toNat, S.version.toNat⟩ ∧
      readU16 (headerOf S.table templateId layout.table ++ (body.block ++ (tail ++ rest))) 0
        S.byteOrder = .ok layout.blockLength.toNat :=
    decode_bytes layout.blockLength.toNat_lt templateId.toNat_lt S.id.toNat_lt S.version.toNat_lt
      small
  have found := slice_behind small
  rw [long, size] at found
  have past : checkedUsize (HEADER_LEN + layout.blockLength.toNat) =
      .ok (HEADER_LEN + layout.blockLength.toNat) := by
    refine checkedUsize_eq_ok_iff.mpr ⟨?_, rfl⟩
    simp only [List.length_append, long, size] at small
    omega
  -- behind the header and the block
  have place : (⟨headerOf S.table templateId layout.table ++ (body.block ++ (tail ++ rest)),
      HEADER_LEN + layout.blockLength.toNat, S.byteOrder, S.version.toNat⟩ : Cursor) =
      behind S.byteOrder S.version.toNat
        (headerOf S.table templateId layout.table ++ body.block) (tail ++ rest) := by
    simp only [behind, List.append_assoc, List.length_append, long, size]
  have inside : (headerOf S.table templateId layout.table ++ body.block ++
      (tail ++ rest)).length < usizeSize := by
    rwa [List.append_assoc]
  have walked := on.skips _ rest inside
  have read := on.reads _ rest inside
  rw [← place] at walked read
  refine ⟨fun scratch => ?_, _, known, ?_⟩
  · have measured := measure_steps (S := S.schema) layout.layout decoded found past walked
    have eight : HEADER_LEN ≤ (headerOf S.table templateId layout.table ++
        (body.block ++ (tail ++ rest))).length := by
      rw [List.length_append, long]
      omega
    have ours : ¬ S.id.toNat ≠ S.schema.id := not_not.mpr rfl
    rw [parse_eq S.schema scratch eight decoded, if_neg ours]
    dsimp only
    rw [known]
    dsimp only
    rw [measured]
    simp only [List.length_append, Nat.add_assoc]
  · have whole := readBody_steps (S := S.schema) layout.layout decoded found past again read
    cases body
    exact whole

/-- A message that was started. -/
theorem new_keeps (message : S.message templateId = some layout) {out buf : Bytes}
    {started : MessageTable × ℕ}
    (began : (MessageWriter.new S.table templateId).run out = (.ok started, buf)) :
    BodyOn S.byteOrder S.version.toNat layout.groups layout.varData
      (headerOf S.table templateId layout.table) layout.blockLength.toNat out.length
      (.new HEADER_LEN layout.blockLength.toNat
        (initialBlock layout.blockLength.toNat layout.fields S.byteOrder)) buf := by
  have table : S.table.message templateId = some layout.table := by
    show (S.message templateId).map _ = _
    rw [message]
    rfl
  have long := headerOf_length S.table templateId layout.table
  have block := initialBlock_length layout.blockLength.toNat layout.fields S.byteOrder
  have room : HEADER_LEN + layout.blockLength.toNat ≤ out.length := by
    by_contra short
    obtain ⟨e, buf', failed⟩ := new_short table (Nat.lt_of_not_le short)
    rw [failed] at began
    cases began
  obtain ⟨buf', ran, placed⟩ := new_run table out room
  rw [ran] at began
  have same : buf' = buf := congrArg Prod.snd began
  have place : buf = headerOf S.table templateId layout.table ++
      (initialBlock layout.blockLength.toNat layout.fields S.byteOrder ++
        out.drop (HEADER_LEN + layout.blockLength.toNat)) := by
    rw [← same, placed, List.append_assoc]
    rfl
  rw [place, ← long]
  refine bodyOn_new layout.groups layout.varData block ?_
  rw [List.length_append, List.length_append, long, block, List.length_drop]
  omega

/-- **Whatever a caller's closures do, a message that was closed is walked to its end and read back
as what the calls wrote**, also with other bytes behind it. -/
theorem writer_walks {calls : BodyCalls} {out out' : Bytes} {len : ℕ} {body : Body}
    (current : ∀ layout, S.message templateId = some layout → layout.Current S.version.toNat)
    (wrote : (writeBody S templateId calls).run out = (.ok (len, body), out')) (rest : Bytes)
    (small : (out'.take len ++ rest).length < usizeSize) :
    out'.length = out.length ∧ len ≤ out'.length ∧
      (∀ scratch, (parse S.schema (out'.take len ++ rest) scratch).2 = .ok (.complete len)) ∧
      ∃ layout, S.schema.message templateId.toNat = some layout ∧
        readBody S.schema layout (out'.take len ++ rest) = .ok body := by
  unfold writeBody at wrote
  cases message : S.message templateId with
  | none =>
    rw [message] at wrote
    cases wrote
  | some layout =>
    rw [message] at wrote
    obtain ⟨started, buf, began, wrote⟩ := ok_of_bind wrote
    obtain ⟨groups, varData⟩ := current layout message
    obtain ⟨⟨r, w⟩, buf', ran, ⟨ps, qs, gb, vb, back, on⟩, complete⟩ :=
      answers_andThen (calls.keeps groups varData (new_keeps message began))
        (fun e w buf on => ⟨on, by rintro ⟨⟩⟩) fun w buf on => close_keeps groups varData on
    obtain ⟨answer, mid, closed, wrote⟩ := ok_of_bind wrote
    have same := ran.symm.trans closed
    cases same
    cases r with
    | error e => cases wrote
    | ok =>
      cases wrote
      obtain ⟨all, allVar⟩ := complete rfl
      have long := headerOf_length S.table templateId layout.table
      have message_bytes : out' =
          messageBytes S templateId layout w.block (gb ++ vb) ++ back := by
        rw [on.place]
        simp only [messageBytes, List.append_assoc]
      have stops : w.pos = (messageBytes S templateId layout w.block (gb ++ vb)).length := by
        rw [on.pos]
        simp only [messageBytes, List.length_append, on.block, Nat.add_assoc]
      have taken : out'.take w.pos = messageBytes S templateId layout w.block (gb ++ vb) := by
        rw [message_bytes, List.take_left' stops.symm]
      rw [taken] at small ⊢
      have read := message_on message w.body on.block (on.tail all allVar) rest small
      refine ⟨on.whole, ?_, ?_, read.2⟩
      · rw [message_bytes, List.length_append]
        omega
      · rw [stops]
        exact read.1

end Message

/-- A message of one group with a group inside it, and of `varData` in both places. -/
def book : SchemaSpec where
  id := 7
  version := 1
  byteOrder := .little
  message id :=
    if id = 1 then
      some ⟨1, [], [.mk 20 0 ⟨.u16, .u8⟩ 1 [⟨21, 0, 1, [⟨0, .uint8, 1, .optional (.uint 255)⟩]⟩]
        [.mk 30 1 ⟨.u8, .u8⟩ 0 [] [] []] [⟨40, ⟨.u8, 0⟩⟩]], [⟨50, ⟨.u16, 0⟩⟩]⟩
    else none

/-- Three entries, of which the second fails after it wrote something. -/
def bookCalls : BodyCalls :=
  .group 20
    (.entry
      (.group 30 (.entry (.answer (.ok ())) .answer) fun _ => .varData 40 [1, 2] .answer) fun _ =>
      .entry (.varData 40 [3] fun _ => .answer (.error .badValue)) fun _ =>
      .entry (.answer (.ok ())) .answer)
    fun _ => .varData 50 [9] .answer

/-- What is left of them. -/
def bookBody : Body :=
  .mk [0] [[.mk [255] [[.mk [] [] []]] [[1, 2]], .mk [255] [[]] [[]]]] [[9]]

theorem book_current (layout : MessageSpec) (is : book.message 1 = some layout) :
    layout.Current book.version.toNat := by
  cases is
  refine ⟨?_, by decide⟩
  rintro g (_ | ⟨_, ⟨⟩⟩)
  refine .mk (by decide) ?_ (by decide)
  rintro g (_ | ⟨_, ⟨⟩⟩)
  exact .mk (by decide) (by rintro g ⟨⟩) (by rintro v ⟨⟩)

/-- Where they are: the header, the block, the group with its two entries, and the `varData`. -/
def bookBytes : Bytes :=
  [1, 0, 1, 0, 7, 0, 1, 0, 0, 1, 0, 2, 255, 0, 1, 2, 1, 2, 255, 0, 0, 0, 1, 0, 9]

theorem writer_walks_book :
    (writeBody book 1 bookCalls).run (List.replicate 28 0) =
        (.ok (25, bookBody), bookBytes ++ [0, 0, 0]) ∧
      (∀ scratch, (parse book.schema (bookBytes ++ [8]) scratch).2 = .ok (.complete 25)) ∧
      ∃ layout, readBody book.schema layout (bookBytes ++ [8]) = .ok bookBody := by
  have wrote : (writeBody book 1 bookCalls).run (List.replicate 28 0) =
      (.ok (25, bookBody), bookBytes ++ [0, 0, 0]) := by
    unfold writeBody bookCalls
    simp only [BodyCalls.run, GroupCalls.run, GroupWriter.entry]
    rfl
  obtain ⟨-, -, ends, layout, -, read⟩ := writer_walks book_current wrote [8] (by decide)
  exact ⟨wrote, ends, layout, read⟩

end Fixbolt.Sbe
