import Fixbolt.Properties.Deferral
import Fixbolt.Properties.Language

/-!
# What the validator accepts

The validator reads a message in four passes, puts the values of group members off until the counts
are known, and keeps the counters it passed in an array. The grammar of a message knows none of
this: it says what each field, the order of the fields and every group have to be.

* `countersOk_iff`: the walk over the groups reaches each group down to the bound on nesting;
* `Cached.stays`: a value that was put off is still among those of the last pass;
* `accepts_grammar`: a message is accepted exactly when the grammar holds of it.
-/

namespace Fixbolt

section Grammar

variable (D : Tables) (view : MessageView) (msgType : Bytes) (checks : DictionaryChecks)

/-- The groups of a message with their counters: one that a field of the message counts, at depth 0,
and those inside the entries of a group, one deeper. -/
inductive GroupAt : ℕ → ℕ → GroupIter → Prop
  | root {i counter : ℕ} {value : Bytes} {group : GroupIter} :
      (i, counter, value) ∈ view.readable → (D.groupDelimiter msgType counter).isSome →
      view.group D.toDictionary msgType counter = some group → GroupAt 0 counter group
  | nested {depth parent member : ℕ} {around group : GroupIter} {entry : GroupEntry} :
      GroupAt depth parent around → entry ∈ groupEntries D.toDictionary view msgType around →
      member ∈ D.groupMembers msgType parent → (D.groupDelimiter msgType member).isSome →
      entry.group D.toDictionary view msgType member = some group → GroupAt (depth + 1) member group

/-- What the dictionary asks of one field. -/
structure Fitting (tag : ℕ) (value : Bytes) : Prop where
  defined : D.isDefinedTagFor msgType tag = true
  present : value = [] → D.fieldType tag = some .data
  allowed : checks.allowUnknownMsgFields = false → D.allows msgType tag = true
  listed : D.enumAllows tag value ≠ some false
  typed : ∀ type, D.fieldType tag = some type → type.accepts value = true

/-- No header field behind a body field, unless the checks forgive one of them. The checksum is
neither. -/
def InOrder (f g : ℕ × ℕ × Bytes) : Prop :=
  skipped checks f.2.1 = false → skipped checks g.2.1 = false → D.isHeader g.2.1 = true →
    D.isHeader f.2.1 = true ∨ f.2.1 = 10

/-- The grammar of a message. The fields that the checks forgive still count as fields that a
message holds, and still open groups. -/
structure Grammar : Prop where
  fields : ∀ f ∈ view.readable, skipped checks f.2.1 = false →
    Fitting D msgType checks f.2.1 f.2.2
  headed : view.readable.Pairwise (InOrder D checks)
  once : ∀ f ∈ view.readable, ∀ g ∈ view.readable, f.1 < g.1 → f.2.1 = g.2.1 →
    skipped checks g.2.1 = false → inAGroup D view msgType g.2.1 = true
  required : ∀ tag ∈ D.requiredHeader ++ D.required msgType, ∃ f ∈ view.readable, f.2.1 = tag
  counted : ∀ {depth counter : ℕ} {group : GroupIter}, GroupAt D view msgType depth counter group →
    depth < maxGroupNesting → group.declared = some group.counted

end Grammar

variable {D : Tables} {view : MessageView} {msgType : Bytes} {checks : DictionaryChecks}

/-! ### The fields of a view -/

theorem mem_readable {i tag : ℕ} {value : Bytes} :
    (i, tag, value) ∈ view.readable ↔ view.fieldAt i = some (tag, value) := by
  unfold MessageView.readable
  rw [List.mem_filterMap]
  constructor
  · rintro ⟨j, _, found⟩
    obtain ⟨f, at_, eq⟩ := Option.map_eq_some_iff.mp found
    cases eq
    exact at_
  · intro found
    refine ⟨i, List.mem_range.mpr ?_, by rw [found]; rfl⟩
    unfold MessageView.fieldAt at found
    obtain ⟨e, at_, _⟩ := Option.bind_eq_some_iff.mp found
    exact (List.getElem?_eq_some_iff.mp at_).1

/-- Every place of the index has its field. -/
def Whole (view : MessageView) : Prop := ∀ i < view.len, (view.fieldAt i).isSome

theorem Whole.field (whole : Whole view) {i : ℕ} {e : FieldEntry} (at_ : view.entries[i]? = some e) :
    ∃ value, view.fieldAt i = some (e.tag, value) ∧ view.valueOf e = some value := by
  have within : i < view.len := (List.getElem?_eq_some_iff.mp at_).1
  have read := whole i within
  unfold MessageView.fieldAt at read ⊢
  rw [at_] at read ⊢
  cases found : view.valueOf e with
  | none =>
    simp [found] at read
  | some value => exact ⟨value, by simp [found], rfl⟩

theorem fieldAt_tag {i tag : ℕ} {value : Bytes} (found : view.fieldAt i = some (tag, value)) :
    ∃ e, view.entries[i]? = some e ∧ e.tag = tag := by
  unfold MessageView.fieldAt at found
  obtain ⟨e, at_, read⟩ := Option.bind_eq_some_iff.mp found
  obtain ⟨_, _, eq⟩ := Option.map_eq_some_iff.mp read
  cases eq
  exact ⟨e, at_, rfl⟩

/-- **Every place of the index of a parsed message has its field.** -/
theorem Whole.of_parsed {D : Dictionary} {N n : ℕ} {buf : Bytes} {v : Validation}
    {idx : List FieldEntry} (cap : N ≤ u16Max) (small : buf.length ≤ u32Size)
    (taken : parseInto D N buf v = ⟨idx, .ok (.complete n)⟩) : Whole ⟨buf, idx⟩ := by
  obtain ⟨m, rest, rfl, rfl, _⟩ := parseInto_sound cap small taken
  have reads := @fields_entriesAt (m.bytes ++ rest) rest 0 m.fields rfl
  have all := List.filterMap_length_eq_length.mp
    (show _ = (entriesAt 0 m.fields).length by rw [reads, entriesAt_length, List.length_map])
  intro i within
  have at_ := List.getElem?_eq_getElem (l := entriesAt 0 m.fields) within
  unfold MessageView.fieldAt
  rw [at_]
  exact all _ (List.getElem_mem within)

/-- A tag repeats at a place when a field before it has the tag. -/
theorem repeats_iff (whole : Whole view) {tag i : ℕ} :
    repeats view tag i = true ↔ ∃ f ∈ view.readable, f.1 < i ∧ f.2.1 = tag := by
  unfold repeats
  rw [Option.any_eq_true_iff_get]
  constructor
  · rintro ⟨found, before⟩
    obtain ⟨j, first⟩ := Option.isSome_iff_exists.mp found
    simp only [first, Option.get_some, Bool.and_eq_true, decide_eq_true_eq] at before
    obtain ⟨within, same, _⟩ := List.findIdx?_eq_some_iff_getElem.mp first
    obtain ⟨value, read, _⟩ := whole.field (List.getElem?_eq_getElem within)
    rw [beq_iff_eq.mp same] at read
    exact ⟨(j, tag, value), mem_readable.mpr read, before.1, rfl⟩
  · rintro ⟨⟨k, _, value⟩, mem, before, rfl⟩
    obtain ⟨e, at_, same⟩ := fieldAt_tag (mem_readable.mp mem)
    obtain ⟨within, eq⟩ := List.getElem?_eq_some_iff.mp at_
    cases first : view.entries.findIdx? (·.tag == _) with
    | none =>
      have none := List.findIdx?_eq_none_iff.mp first e (eq ▸ List.getElem_mem within)
      simp [same] at none
    | some j =>
      obtain ⟨inside, _, least⟩ := List.findIdx?_eq_some_iff_getElem.mp first
      have le : j ≤ k := by
        by_contra lt
        have := least k (Nat.lt_of_not_le lt)
        simp [eq, same] at this
      refine ⟨rfl, ?_⟩
      simp [whole j inside, Nat.lt_of_le_of_lt le before]

theorem get_isSome_iff (whole : Whole view) {tag : ℕ} :
    (view.get tag).isSome ↔ ∃ f ∈ view.readable, f.2.1 = tag := by
  unfold MessageView.get
  constructor
  · intro found
    obtain ⟨value, read⟩ := Option.isSome_iff_exists.mp found
    obtain ⟨e, first, read⟩ := Option.bind_eq_some_iff.mp read
    obtain ⟨i, at_⟩ := List.getElem?_of_mem (List.mem_of_find?_eq_some first)
    obtain ⟨v, field, _⟩ := whole.field at_
    have same := List.find?_some first
    exact ⟨(i, e.tag, v), mem_readable.mpr field, by simpa using same⟩
  · rintro ⟨⟨i, _, value⟩, mem, rfl⟩
    obtain ⟨e, at_, same⟩ := fieldAt_tag (mem_readable.mp mem)
    cases first : view.entries.find? (·.tag == _) with
    | none =>
      have none := List.find?_eq_none.mp first e (List.mem_of_getElem? at_)
      simp [same] at none
    | some d =>
      obtain ⟨j, at_⟩ := List.getElem?_of_mem (List.mem_of_find?_eq_some first)
      obtain ⟨v, _, read⟩ := whole.field at_
      simp [read]

/-! ### The groups -/

theorem badNestedCount_eq_none {levels parent : ℕ} {entry : GroupEntry} :
    badNestedCount D view msgType (levels + 1) entry parent = none ↔
      ∀ member ∈ D.groupMembers msgType parent, (D.groupDelimiter msgType member).isSome →
        ∀ group, entry.group D.toDictionary view msgType member = some group →
          group.declared = some group.counted ∧
            ∀ child ∈ groupEntries D.toDictionary view msgType group,
              badNestedCount D view msgType levels child member = none := by
  rw [badNestedCount, List.findSome?_eq_none_iff]
  refine forall₂_congr fun member _ => ?_
  cases delimiter : D.groupDelimiter msgType member with
  | none => simp
  | some d =>
    cases opened : entry.group D.toDictionary view msgType member with
    | none => simp
    | some group =>
      by_cases counted : group.declared = some group.counted
      · simp [counted, List.findSome?_eq_none_iff]
      · simp [counted]

theorem badGroupCount_eq_none :
    badGroupCount D view msgType = none ↔
      ∀ f ∈ view.readable, (D.groupDelimiter msgType f.2.1).isSome →
        ∀ group, view.group D.toDictionary msgType f.2.1 = some group →
          group.declared = some group.counted ∧
            ∀ entry ∈ groupEntries D.toDictionary view msgType group,
              badNestedCount D view msgType (maxGroupNesting - 1) entry f.2.1 = none := by
  rw [badGroupCount, List.findSome?_eq_none_iff]
  refine forall₂_congr fun f _ => ?_
  obtain ⟨i, counter, value⟩ := f
  cases delimiter : D.groupDelimiter msgType counter with
  | none => simp [delimiter]
  | some d =>
    cases opened : view.group D.toDictionary msgType counter with
    | none => simp [delimiter, opened]
    | some group =>
      by_cases counted : group.declared = some group.counted
      · simp [delimiter, opened, counted, List.findSome?_eq_none_iff]
      · simp [delimiter, opened, counted]

/-- The walk comes to every group above the bound, with the levels that are left there. -/
theorem GroupAt.walked (good : badGroupCount D view msgType = none) {depth counter : ℕ}
    {group : GroupIter} (h : GroupAt D view msgType depth counter group) :
    depth < maxGroupNesting →
      group.declared = some group.counted ∧
        ∀ entry ∈ groupEntries D.toDictionary view msgType group,
          badNestedCount D view msgType (maxGroupNesting - 1 - depth) entry counter = none := by
  induction h with
  | root mem delimiter opened =>
    intro _
    exact badGroupCount_eq_none.mp good _ mem delimiter _ opened
  | @nested depth parent member around group entry _ mem member delimiter opened ih =>
    intro deep
    obtain ⟨_, entries⟩ := ih (Nat.lt_of_succ_lt deep)
    have levels : maxGroupNesting - 1 - depth = maxGroupNesting - 1 - (depth + 1) + 1 := by omega
    have inner := entries entry mem
    rw [levels] at inner
    exact badNestedCount_eq_none.mp inner _ member delimiter _ opened

/-- Where every group above the bound is counted right, no entry holds a bad count. -/
theorem GroupAt.nested_none
    (counted : ∀ {depth counter : ℕ} {group : GroupIter},
      GroupAt D view msgType depth counter group → depth < maxGroupNesting →
        group.declared = some group.counted)
    (levels : ℕ) {depth counter : ℕ} {group : GroupIter}
    (h : GroupAt D view msgType depth counter group) (left : depth + levels < maxGroupNesting) :
    ∀ entry ∈ groupEntries D.toDictionary view msgType group,
      badNestedCount D view msgType levels entry counter = none := by
  induction levels generalizing depth counter group with
  | zero =>
    intro entry _
    rfl
  | succ levels ih =>
    intro entry mem
    rw [badNestedCount_eq_none]
    intro member isMember delimiter inner opened
    have deeper := h.nested mem isMember delimiter opened
    exact ⟨counted deeper (by omega), ih deeper (by omega)⟩

/-- **The walk over the groups reaches each group down to the bound on nesting.** -/
theorem countersOk_iff :
    badGroupCount D view msgType = none ↔
      ∀ {depth counter : ℕ} {group : GroupIter}, GroupAt D view msgType depth counter group →
        depth < maxGroupNesting → group.declared = some group.counted := by
  constructor
  · intro good depth counter group h deep
    exact (h.walked good deep).1
  · intro counted
    rw [badGroupCount_eq_none]
    rintro ⟨i, counter, value⟩ mem delimiter group opened
    have root : GroupAt D view msgType 0 counter group := .root mem delimiter opened
    exact ⟨counted root (by decide), root.nested_none counted _ (by decide)⟩

/-! ### One field -/

theorem valueFault_eq_none {tag : ℕ} {value : Bytes} :
    valueFault D tag value = none ↔
      D.enumAllows tag value ≠ some false ∧
        ∀ type, D.fieldType tag = some type → type.accepts value = true := by
  unfold valueFault
  by_cases listed : D.enumAllows tag value = some false
  · simp [listed]
  · cases typed : D.fieldType tag with
    | none => simp [listed]
    | some type => simp [listed]

/-- What the scan asks of a field before it comes to its value. -/
structure Regular (D : Tables) (view : MessageView) (msgType : Bytes) (checks : DictionaryChecks)
    (f : ℕ × ℕ × Bytes) : Prop where
  defined : D.isDefinedTagFor msgType f.2.1 = true
  present : f.2.2 = [] → D.fieldType f.2.1 = some .data
  allowed : checks.allowUnknownMsgFields = false → D.allows msgType f.2.1 = true
  once : repeats view f.2.1 f.1 = true → inAGroup D view msgType f.2.1 = true

theorem fieldFaultUnless_eq_none {waits inBody : Bool} {i tag : ℕ} {value : Bytes} :
    fieldFaultUnless D view msgType checks waits inBody i tag value = none ↔
      (D.isHeader tag = true → inBody = false) ∧ Regular D view msgType checks (i, tag, value) ∧
        (waits = true ∨ valueFault D tag value = none) := by
  have plain : Regular D view msgType checks (i, tag, value) ↔
      D.isDefinedTagFor msgType tag = true ∧ (value = [] → D.fieldType tag = some .data) ∧
        (checks.allowUnknownMsgFields = false → D.allows msgType tag = true) ∧
        (repeats view tag i = true → inAGroup D view msgType tag = true) :=
    ⟨fun h => ⟨h.defined, h.present, h.allowed, h.once⟩, by
      rintro ⟨defined, present, allowed, once⟩
      exact ⟨defined, present, allowed, once⟩⟩
  rw [plain]
  unfold fieldFaultUnless
  split_ifs <;> simp_all

/-! ### The values that were put off -/

variable {passed rest : List (ℕ × ℕ × Bytes)} {seen later : SeenCounters} {room : ℕ}

/-- An array that another one grew into: it lost no counter, and never has room again. -/
structure SeenCounters.Grows (seen later : SeenCounters) : Prop where
  kept : ∀ tag ∈ seen.tags, tag ∈ later.tags
  full : seen.full = true → later.full = true

theorem SeenCounters.Grows.refl : seen.Grows seen := ⟨fun _ mem => mem, id⟩

theorem SeenCounters.Grows.trans {last : SeenCounters} (h : seen.Grows later)
    (h' : later.Grows last) : seen.Grows last :=
  ⟨fun tag mem => h'.kept tag (h.kept tag mem), fun full => h'.full (h.full full)⟩

theorem SeenCounters.grows_recordIn {tag : ℕ} : seen.Grows (seen.recordIn room tag) := by
  unfold SeenCounters.recordIn
  split_ifs
  · exact .refl
  · exact ⟨fun _ mem => List.mem_append_left _ mem, id⟩
  · exact ⟨fun _ mem => mem, fun _ => rfl⟩

/-- What an array holds are counters that the scan passed. -/
structure Noted (D : Tables) (msgType : Bytes) (checks : DictionaryChecks)
    (passed : List (ℕ × ℕ × Bytes)) (seen : SeenCounters) : Prop where
  sound : ∀ counter ∈ seen.tags, counter ∈ countersOf D msgType checks passed
  full : seen.full = true → seen.tags ≠ []

namespace Noted

theorem new : Noted D msgType checks [] .new where
  sound := List.forall_mem_nil _
  full h := by cases h

theorem pass {field : ℕ × ℕ × Bytes} (h : Noted D msgType checks passed seen) :
    Noted D msgType checks (passed ++ [field]) seen where
  sound counter mem := by
    have before := mem_countersOf.mp (h.sound counter mem)
    obtain ⟨⟨f, earlier, same⟩, isCounter⟩ := before
    exact mem_countersOf.mpr ⟨⟨f, List.mem_append_left _ earlier, same⟩, isCounter⟩
  full := h.full

theorem note {i tag : ℕ} {value : Bytes} (room_pos : 0 < room)
    (h : Noted D msgType checks passed seen) (counter : isCounter D msgType checks tag = true) :
    Noted D msgType checks (passed ++ [(i, tag, value)]) (seen.recordIn room tag) := by
  have passes : Noted D msgType checks (passed ++ [(i, tag, value)]) seen := h.pass
  have earlier := passes.sound
  have last : tag ∈ countersOf D msgType checks (passed ++ [(i, tag, value)]) :=
    mem_countersOf.mpr ⟨⟨_, List.mem_append_right _ (List.mem_singleton_self _), rfl⟩, counter⟩
  unfold SeenCounters.recordIn
  split_ifs with held space
  · exact ⟨earlier, h.full⟩
  · refine ⟨?_, fun _ => List.append_ne_nil_of_right_ne_nil _ (List.cons_ne_nil _ _)⟩
    intro c mem
    obtain mem | mem := List.mem_append.mp mem
    · exact earlier c mem
    · rw [List.mem_singleton.mp mem]
      exact last
  · refine ⟨earlier, fun _ empty => ?_⟩
    have none : seen.tags.length = 0 := by rw [show seen.tags = [] from empty]; rfl
    omega

/-- **A value that was put off is still among those of the last pass**: what an array answers at a
place, a later one answers behind the message. -/
theorem stays {tag upto : ℕ} (h : Noted D msgType checks view.readable later)
    (grown : seen.Grows later)
    (waits : (cache D view msgType checks room).waits seen tag upto = true) :
    (cache D view msgType checks room).waits later tag view.len = true := by
  rw [cache_waits, Bool.and_eq_true, Bool.not_eq_true', SeenCounters.isEmpty,
    List.isEmpty_eq_false_iff] at waits ⊢
  obtain ⟨some, waits⟩ := waits
  have nonempty : later.tags ≠ [] := by
    obtain ⟨counter, mem⟩ := List.exists_mem_of_ne_nil _ some
    exact List.ne_nil_of_mem (grown.kept counter mem)
  refine ⟨nonempty, ?_⟩
  have whole : inAGroupBefore D view msgType tag view.len checks = _ :=
    inAGroupBefore_eq (List.append_nil view.readable).symm (fun _ mem => readable_lt mem)
      (List.forall_mem_nil _)
  unfold SeenCounters.defers at waits ⊢
  cases full : seen.full with
  | true =>
    rw [full, if_pos rfl] at waits
    rw [grown.full full, if_pos rfl]
    -- The walk to the end finds what the walk up to the place found.
    unfold inAGroupBefore memberOf at waits ⊢
    obtain ⟨counter, mem, member⟩ := List.any_eq_true.mp waits
    obtain ⟨⟨i, c, value⟩, field, found⟩ := List.mem_filterMap.mp mem
    refine List.any_eq_true.mpr ⟨counter, List.mem_filterMap.mpr ⟨_, field, ?_⟩, member⟩
    simp only [Option.ite_none_right_eq_some, Bool.and_eq_true, decide_eq_true_eq] at found ⊢
    exact ⟨⟨readable_lt field, found.1.2⟩, found.2⟩
  | false =>
    rw [full, if_neg Bool.false_ne_true] at waits
    obtain ⟨counter, mem, member⟩ := List.any_eq_true.mp waits
    have held := grown.kept counter mem
    split
    · rw [whole]
      exact List.any_eq_true.mpr ⟨counter, h.sound counter held, member⟩
    · exact List.any_eq_true.mpr ⟨counter, held, member⟩

end Noted

/-! ### The scan -/

/-- **A scan that finds no fault** has put off no value but those that its last array puts off. -/
theorem scan_sound (room_pos : 0 < room) {fields : List (ℕ × ℕ × Bytes)} {inBody : Bool}
    (split : view.readable = passed ++ fields) (h : Noted D msgType checks passed seen)
    (found : scanBy D view msgType checks (cache D view msgType checks room) fields inBody seen =
      (none, later)) :
    seen.Grows later ∧ Noted D msgType checks view.readable later ∧
      (∀ f ∈ fields, skipped checks f.2.1 = false → Regular D view msgType checks f ∧
        ((cache D view msgType checks room).waits later f.2.1 view.len = true ∨
          valueFault D f.2.1 f.2.2 = none)) ∧
      (inBody = true → ∀ f ∈ fields, skipped checks f.2.1 = false → D.isHeader f.2.1 = false) ∧
      fields.Pairwise (InOrder D checks) := by
  induction fields generalizing passed inBody seen with
  | nil =>
    cases found
    rw [List.append_nil] at split
    exact ⟨.refl, split ▸ h, List.forall_mem_nil _, fun _ => List.forall_mem_nil _, .nil⟩
  | cons field rest ih =>
    obtain ⟨i, tag, value⟩ := field
    have next : view.readable = (passed ++ [(i, tag, value)]) ++ rest := by
      rw [split, List.append_assoc]
      rfl
    unfold scanBy at found
    by_cases skip : skipped checks tag = true
    · rw [if_pos skip] at found
      obtain ⟨grown, noted, fine, ordered, pairs⟩ := ih next h.pass found
      refine ⟨grown, noted, ?_, fun body => ?_, List.pairwise_cons.mpr ⟨fun g _ kept => ?_, pairs⟩⟩
      · exact List.forall_mem_cons.mpr ⟨fun kept => by simp [skip] at kept, fine⟩
      · exact List.forall_mem_cons.mpr ⟨fun kept => by simp [skip] at kept, ordered body⟩
      · simp [skip] at kept
    · rw [if_neg skip] at found
      cases fault : fieldFaultUnless D view msgType checks
        ((cache D view msgType checks room).waits seen tag i) inBody i tag value with
      | some f =>
        rw [fault] at found
        cases found
      | none =>
        rw [fault] at found
        obtain ⟨headed, plain, asked⟩ := fieldFaultUnless_eq_none.mp fault
        have moved : ∃ next, seen.Grows next ∧
            Noted D msgType checks (passed ++ [(i, tag, value)]) next ∧
            next = if counts D msgType tag then seen.recordIn room tag else seen := by
          by_cases counter : counts D msgType tag = true
          · refine ⟨_, SeenCounters.grows_recordIn, h.note room_pos ?_, (if_pos counter).symm⟩
            rw [counts, Bool.and_eq_true] at counter
            rw [isCounter, counter.2, Bool.eq_false_iff.mpr skip]
            rfl
          · exact ⟨_, .refl, h.pass, (if_neg counter).symm⟩
        obtain ⟨between, grown, noted, same⟩ := moved
        change scanBy D view msgType checks (cache D view msgType checks room) rest _
          (if counts D msgType tag then seen.recordIn room tag else seen) = _ at found
        rw [← same] at found
        obtain ⟨grown', noted, fine, ordered, pairs⟩ := ih next noted found
        have grows := grown.trans grown'
        refine ⟨grows, noted, List.forall_mem_cons.mpr ⟨fun _ => ⟨plain, ?_⟩, fine⟩, fun body => ?_,
          List.pairwise_cons.mpr ⟨fun g mem _ kept header => ?_, pairs⟩⟩
        · obtain waits | right := asked
          · exact .inl (noted.stays grows waits)
          · exact .inr right
        · refine List.forall_mem_cons.mpr ⟨fun _ => ?_, ordered (by rw [body]; rfl)⟩
          cases header : D.isHeader tag with
          | false => rfl
          | true => simp [headed header] at body
        · -- A body field takes the scan into the body, where no header field stands.
          by_contra other
          obtain ⟨notHeader, not10⟩ := not_or.mp other
          have := ordered (by simp [notHeader, not10]) g mem kept
          rw [header] at this
          cases this

/-- **A scan finds no fault** in fields that are right and in order. -/
theorem scan_complete {fields : List (ℕ × ℕ × Bytes)} {inBody : Bool}
    (fine : ∀ f ∈ fields, skipped checks f.2.1 = false →
      Regular D view msgType checks f ∧ valueFault D f.2.1 f.2.2 = none)
    (ordered : inBody = true → ∀ f ∈ fields, skipped checks f.2.1 = false →
      D.isHeader f.2.1 = false)
    (pairs : fields.Pairwise (InOrder D checks)) :
    (scanBy D view msgType checks (cache D view msgType checks room) fields inBody seen).1 =
      none := by
  induction fields generalizing inBody seen with
  | nil => rfl
  | cons field rest ih =>
    obtain ⟨i, tag, value⟩ := field
    obtain ⟨first, others⟩ := List.forall_mem_cons.mp fine
    obtain ⟨behind, pairs⟩ := List.pairwise_cons.mp pairs
    unfold scanBy
    by_cases skip : skipped checks tag = true
    · rw [if_pos skip]
      exact ih others (fun body f mem => ordered body f (List.mem_cons_of_mem _ mem)) pairs
    · have kept : skipped checks tag = false := Bool.eq_false_iff.mpr skip
      obtain ⟨plain, right⟩ := first kept
      have clean : fieldFaultUnless D view msgType checks
          ((cache D view msgType checks room).waits seen tag i) inBody i tag value = none := by
        refine fieldFaultUnless_eq_none.mpr ⟨fun header => ?_, plain, .inr right⟩
        by_contra body
        have := ordered (Bool.eq_true_of_not_eq_false body) _ List.mem_cons_self kept
        rw [header] at this
        cases this
      rw [if_neg skip, clean]
      refine ih others (fun body f mem keptf => ?_) pairs
      rw [Bool.or_eq_true] at body
      obtain body | body := body
      · exact ordered body f (List.mem_cons_of_mem _ mem) keptf
      · by_contra header
        have := behind f mem kept keptf (Bool.eq_true_of_not_eq_false header)
        simp only [Bool.and_eq_true, Bool.not_eq_true', bne_iff_ne] at body
        obtain header | ten := this
        · rw [body.1] at header
          cases header
        · exact body.2 ten

/-! ### The four passes -/

theorem missingRequired_eq_none (whole : Whole view) :
    missingRequired D view msgType = none ↔
      ∀ tag ∈ D.requiredHeader ++ D.required msgType, ∃ f ∈ view.readable, f.2.1 = tag := by
  rw [missingRequired, List.findSome?_eq_none_iff]
  refine forall₂_congr fun tag _ => ?_
  rw [← get_isSome_iff whole]
  cases view.get tag <;> simp

theorem scanWaiting_eq_none {seen : SeenCounters} :
    scanWaiting D view checks (cache D view msgType checks room) seen = none ↔
      ∀ f ∈ view.readable, skipped checks f.2.1 = false →
        (cache D view msgType checks room).waits seen f.2.1 view.len = true →
          valueFault D f.2.1 f.2.2 = none := by
  rw [scanWaiting, List.findSome?_eq_none_iff]
  refine forall₂_congr fun f _ => ?_
  obtain ⟨i, tag, value⟩ := f
  dsimp only
  split_ifs with skip waits
  · simp [skip]
  · simp [skip, waits]
  · simp [waits]

/-- **A message is accepted exactly when the grammar holds of it.** Whatever the tables say, in
whatever order the fields stand and however many counters there are, the validator has nothing to
say of a message exactly when each field that the checks look at is right, no header field stands
behind a body field, no tag repeats outside the groups, every required field is there and every
group down to the bound on nesting has as many entries as its counter says. -/
theorem accepts_grammar (D : Tables) (view : MessageView) (whole : Whole view) (msgType : Bytes)
    (checks : DictionaryChecks) :
    validateWith D view msgType checks = none ↔ Grammar D view msgType checks := by
  rw [validateWith, Option.map_eq_none_iff, validateFault_eq]
  cases scan : scanBy D view msgType checks (cache D view msgType checks SeenCounters.seen)
    view.readable false .new with
  | mk fault later =>
    have passes : validateBy D view msgType checks (cache D view msgType checks SeenCounters.seen) =
        (fault <|> missingRequired D view msgType <|> badGroupCount D view msgType <|>
          scanWaiting D view checks (cache D view msgType checks SeenCounters.seen) later) := by
      unfold validateBy
      rw [show (cache D view msgType checks SeenCounters.seen).start = .new from rfl, scan]
    rw [passes]
    simp only [Option.orElse_eq_orElse, Option.orElse_eq_or, Option.or_eq_none_iff]
    constructor
    · rintro ⟨rfl, missing, counts, waiting⟩
      obtain ⟨_, _, fine, _, pairs⟩ := scan_sound (by decide) rfl .new scan
      refine ⟨fun f mem kept => ?_, pairs, fun f memf g memg before same kept => ?_,
        (missingRequired_eq_none whole).mp missing, countersOk_iff.mp counts⟩
      · obtain ⟨plain, value⟩ := fine f mem kept
        have right := value.elim (scanWaiting_eq_none.mp waiting f mem kept) id
        obtain ⟨listed, typed⟩ := valueFault_eq_none.mp right
        exact ⟨plain.defined, plain.present, plain.allowed, listed, typed⟩
      · exact (fine g memg kept).1.once ((repeats_iff whole).mpr ⟨f, memf, before, same⟩)
    · intro grammar
      have right : ∀ f ∈ view.readable, skipped checks f.2.1 = false →
          Regular D view msgType checks f ∧ valueFault D f.2.1 f.2.2 = none := by
        intro f mem kept
        have fits := grammar.fields f mem kept
        refine ⟨⟨fits.defined, fits.present, fits.allowed, fun again => ?_⟩,
          valueFault_eq_none.mpr ⟨fits.listed, fits.typed⟩⟩
        obtain ⟨g, memg, before, same⟩ := (repeats_iff whole).mp again
        exact grammar.once g memg f mem before same kept
      have clean : (scanBy D view msgType checks (cache D view msgType checks SeenCounters.seen)
          view.readable false .new).1 = none :=
        scan_complete right (fun h => by cases h) grammar.headed
      rw [scan] at clean
      exact ⟨clean, (missingRequired_eq_none whole).mpr grammar.required,
        countersOk_iff.mpr grammar.counted,
        scanWaiting_eq_none.mpr fun f mem kept _ => (right f mem kept).2⟩

/-- An order with a party, and what a parser makes of it. -/
def partyOrder : Bytes :=
  frame (ascii "FIX.4.4")
    [(35, ascii "D"), (49, ascii "S"), (56, ascii "T"), (34, ascii "2"),
      (52, ascii "19700102-00:00:00"), (11, ascii "A"), (453, ascii "1"), (448, ascii "P"),
      (447, ascii "D"), (452, ascii "1"), (54, ascii "1"), (60, ascii "19700102-00:00:00"),
      (40, ascii "1")]

@[inherit_doc partyOrder] def partyIndex : List FieldEntry :=
  (parseInto fix44.toDictionary 64 partyOrder .all).index

theorem partyOrder_taken : parseInto fix44.toDictionary 64 partyOrder .all =
    ⟨partyIndex, .ok (.complete partyOrder.length)⟩ := by decide +kernel

theorem accepts_grammar_order :
    Grammar fix44 ⟨partyOrder, partyIndex⟩ (ascii "D") ⟨true, false⟩ :=
  (accepts_grammar fix44 ⟨partyOrder, partyIndex⟩
    (Whole.of_parsed (by decide) (by decide) partyOrder_taken) (ascii "D") ⟨true, false⟩).mp
    (by decide +kernel)

end Fixbolt
