import Fixbolt.Session.Validate

/-!
# The counter cache moves the cost and never the answer

Whether a member's value waits for the count of its group is asked of an array of the counters
that the scan has passed, and of the message itself once the array is full. A `Deferral` is a way
to ask it: `cache` with room for so many counters, and `walk`, which keeps nothing.

* `validateFault_eq`: the session's checks are those of the cache with room for 32;
* `Cached.waits_eq`: what an array holds answers as the walk does, up to the field it is asked at;
* `cache_moves_cost`: a cache of any room finds the fault that the walk finds.
-/

namespace Fixbolt

/-! ### Ways to ask -/

/-- A way to tell whether a field waits: what is remembered of the counters passed, and the
question, of a tag at a place. -/
structure Deferral (σ : Type) where
  start : σ
  note : σ → ℕ → σ
  waits : σ → ℕ → ℕ → Bool

/-- Note one counter in an array with room for `room`. -/
def SeenCounters.recordIn (room : ℕ) (s : SeenCounters) (tag : ℕ) : SeenCounters :=
  if s.tags.contains tag then s
  else if s.tags.length < room then { s with tags := s.tags ++ [tag] }
  else { s with full := true }

section Ways

variable (D : Tables) (view : MessageView) (msgType : Bytes) (checks : DictionaryChecks)

/-- Remember the counters in an array. -/
def cache (room : ℕ) : Deferral SeenCounters where
  start := .new
  note := SeenCounters.recordIn room
  waits s tag upto := !s.isEmpty && s.defers D view msgType tag upto checks

/-- Remember nothing and walk the message. -/
def walk : Deferral Unit where
  start := ()
  note s _ := s
  waits _ tag upto := inAGroupBefore D view msgType tag upto checks

/-- What is wrong with one field, whose value is asked for later if it waits. -/
def fieldFaultUnless (waits : Bool) (inBody : Bool) (i tag : ℕ) (value : Bytes) : Option Fault :=
  if D.isHeader tag && inBody then some (.tagSpecifiedOutOfRequiredOrder, tagText tag)
  else if !D.isDefinedTagFor msgType tag then some (.invalidTagNumber, tagText tag)
  else if value.isEmpty && D.fieldType tag != some .data then
    some (.tagSpecifiedWithoutValue, tagText tag)
  else if !checks.allowUnknownMsgFields && !D.allows msgType tag then
    some (.tagNotDefinedForThisMessageType, tagText tag)
  else if repeats view tag i && !inAGroup D view msgType tag then
    some (.tagAppearsMoreThanOnce, tagText tag)
  else if waits then none
  else valueFault D tag value

/-- Is this the counter of a group that the message type declares, as the scan tells it? -/
def counts (tag : ℕ) : Bool :=
  decide (D.fieldType tag = some .numInGroup) && (D.groupDelimiter msgType tag).isSome

variable {σ : Type} (M : Deferral σ)

/-- The wire-order scan. -/
def scanBy : List (ℕ × ℕ × Bytes) → Bool → σ → Option Fault × σ
  | [], _, s => (none, s)
  | (i, tag, value) :: rest, inBody, s =>
    if skipped checks tag then scanBy rest inBody s
    else
      match fieldFaultUnless D view msgType checks (M.waits s tag i) inBody i tag value with
      | some fault => (some fault, s)
      | none =>
        scanBy rest (inBody || (!D.isHeader tag && tag != 10))
          (if counts D msgType tag then M.note s tag else s)

/-- The values that waited. -/
def scanWaiting (s : σ) : Option Fault :=
  view.readable.findSome? fun (_, tag, value) =>
    if skipped checks tag then none
    else if M.waits s tag view.len then valueFault D tag value
    else none

/-- Every check of the dictionary, in order. -/
def validateBy : Option Fault :=
  let (fault, s) := scanBy D view msgType checks M view.readable false M.start
  fault <|> missingRequired D view msgType <|> badGroupCount D view msgType <|>
    scanWaiting D view checks M s

end Ways

/-! ### The session's checks are those of a cache -/

variable {D : Tables} {view : MessageView} {msgType : Bytes} {checks : DictionaryChecks}

theorem cache_waits {room : ℕ} {seen : SeenCounters} {tag upto : ℕ} :
    (cache D view msgType checks room).waits seen tag upto =
      (!seen.isEmpty && seen.defers D view msgType tag upto checks) := rfl

theorem fieldFault_eq {inBody : Bool} {seen : SeenCounters} {i tag : ℕ} {value : Bytes} :
    fieldFault D view msgType checks inBody seen i tag value =
      fieldFaultUnless D view msgType checks
        ((cache D view msgType checks SeenCounters.seen).waits seen tag i) inBody i tag value := by
  have waits : (if seen.isEmpty || !seen.defers D view msgType tag i checks then
        valueFault D tag value else none) =
      if (cache D view msgType checks SeenCounters.seen).waits seen tag i then none
      else valueFault D tag value := by
    rw [cache_waits]
    cases seen.isEmpty <;> cases seen.defers D view msgType tag i checks <;> rfl
  unfold fieldFault fieldFaultUnless
  rw [waits]

theorem scanFieldsFrom_eq {fields : List (ℕ × ℕ × Bytes)} {inBody : Bool} {seen : SeenCounters} :
    scanFieldsFrom D view msgType checks fields inBody seen =
      scanBy D view msgType checks (cache D view msgType checks SeenCounters.seen) fields inBody
        seen := by
  induction fields generalizing inBody seen with
  | nil => rfl
  | cons field rest ih =>
    obtain ⟨i, tag, value⟩ := field
    rw [scanFieldsFrom, scanBy, fieldFault_eq]
    split
    · exact ih
    · cases fieldFaultUnless D view msgType checks
        ((cache D view msgType checks SeenCounters.seen).waits seen tag i) inBody i tag value with
      | some fault => rfl
      | none =>
        have kept : (if D.fieldType tag = some .numInGroup ∧ (D.groupDelimiter msgType tag).isSome
              then seen.record tag else seen) =
            if counts D msgType tag then
              (cache D view msgType checks SeenCounters.seen).note seen tag else seen := by
          simp only [counts, Bool.and_eq_true, decide_eq_true_eq]
          rfl
        simp only [ih, kept]

theorem scanGroupMembers_eq {seen : SeenCounters} :
    scanGroupMembers D view msgType checks seen =
      scanWaiting D view checks (cache D view msgType checks SeenCounters.seen) seen := by
  unfold scanGroupMembers scanWaiting
  simp only [cache_waits]
  by_cases empty : seen.isEmpty = true
  · rw [if_pos empty, eq_comm, List.findSome?_eq_none_iff]
    simp [empty]
  · simp [empty]

/-- **The session's checks are those of a cache with room for 32.** -/
theorem validateFault_eq :
    validateFault D view msgType checks =
      validateBy D view msgType checks (cache D view msgType checks SeenCounters.seen) := by
  unfold validateFault validateBy scanFields
  rw [scanFieldsFrom_eq]
  simp only [scanGroupMembers_eq]
  rfl

/-! ### What an array holds -/

/-- Is this a counter that a scan does not skip? -/
def isCounter (D : Tables) (msgType : Bytes) (checks : DictionaryChecks) (tag : ℕ) : Bool :=
  !skipped checks tag && (D.groupDelimiter msgType tag).isSome

/-- The counters among some fields that a scan does not skip. -/
def countersOf (D : Tables) (msgType : Bytes) (checks : DictionaryChecks)
    (fields : List (ℕ × ℕ × Bytes)) : List ℕ :=
  (fields.map (·.2.1)).filter (isCounter D msgType checks)

/-- An array that was kept over some fields: it holds counters of theirs, all of them while there
was room. -/
structure Cached (D : Tables) (msgType : Bytes) (checks : DictionaryChecks)
    (passed : List (ℕ × ℕ × Bytes)) (seen : SeenCounters) : Prop where
  sound : ∀ counter ∈ seen.tags, counter ∈ countersOf D msgType checks passed
  complete : seen.full = false → ∀ counter ∈ countersOf D msgType checks passed, counter ∈ seen.tags
  full : seen.full = true → seen.tags ≠ []

/-- The places of the fields of a view rise. -/
theorem readable_pairwise (view : MessageView) : view.readable.Pairwise (·.1 < ·.1) := by
  refine List.Pairwise.filterMap _ ?_ List.pairwise_lt_range
  intro i j lt x hx y hy
  obtain ⟨_, _, rfl⟩ := Option.map_eq_some_iff.mp hx
  obtain ⟨_, _, rfl⟩ := Option.map_eq_some_iff.mp hy
  exact lt

theorem readable_lt {field : ℕ × ℕ × Bytes} (mem : field ∈ view.readable) : field.1 < view.len := by
  obtain ⟨i, within, found⟩ := List.mem_filterMap.mp mem
  obtain ⟨_, _, rfl⟩ := Option.map_eq_some_iff.mp found
  exact List.mem_range.mp within

theorem mem_countersOf {fields : List (ℕ × ℕ × Bytes)} {counter : ℕ} :
    counter ∈ countersOf D msgType checks fields ↔
      (∃ field ∈ fields, field.2.1 = counter) ∧ isCounter D msgType checks counter = true := by
  unfold countersOf
  rw [List.mem_filter, List.mem_map]

/-- What the walk up to a place finds, it finds among the counters passed before it. -/
theorem inAGroupBefore_eq {passed rest : List (ℕ × ℕ × Bytes)} {tag upto : ℕ}
    (split : view.readable = passed ++ rest) (before : ∀ field ∈ passed, field.1 < upto)
    (after : ∀ field ∈ rest, upto ≤ field.1) :
    inAGroupBefore D view msgType tag upto checks =
      (countersOf D msgType checks passed).any
        fun counter => (D.groupMembers msgType counter).contains tag := by
  rw [Bool.eq_iff_iff]
  unfold inAGroupBefore memberOf
  rw [List.any_eq_true, List.any_eq_true]
  constructor
  · rintro ⟨counter, mem, member⟩
    obtain ⟨⟨i, tag, value⟩, field, found⟩ := List.mem_filterMap.mp mem
    simp only [Option.ite_none_right_eq_some, Bool.and_eq_true, decide_eq_true_eq,
      Option.some.injEq] at found
    obtain ⟨⟨near, kept⟩, rfl⟩ := found
    rw [Bool.and_eq_true] at member
    have early : (i, tag, value) ∈ passed := by
      rw [split] at field
      obtain early | late := List.mem_append.mp field
      · exact early
      · exact absurd (after _ late) (Nat.not_le.mpr near)
    refine ⟨tag, mem_countersOf.mpr ⟨⟨_, early, rfl⟩, ?_⟩, member.2⟩
    rw [isCounter, kept, member.1]
    rfl
  · rintro ⟨counter, mem, member⟩
    obtain ⟨⟨⟨i, tag, value⟩, field, rfl⟩, counter⟩ := mem_countersOf.mp mem
    unfold isCounter at counter
    rw [Bool.and_eq_true] at counter
    have near : i < upto := before _ field
    refine ⟨tag, List.mem_filterMap.mpr ⟨(i, tag, value), ?_, ?_⟩, ?_⟩
    · rw [split]
      exact List.mem_append_left _ field
    · simp [near, counter.1]
    · rw [counter.2, member]
      rfl

namespace Cached

variable {passed : List (ℕ × ℕ × Bytes)} {seen : SeenCounters} {i tag : ℕ} {value : Bytes}

/-- **An array answers as the walk does**, up to the field it is asked at. -/
theorem waits_eq {rest : List (ℕ × ℕ × Bytes)}
    (h : Cached D msgType checks passed seen) (tag room upto : ℕ) (split : view.readable = passed ++ rest)
    (before : ∀ field ∈ passed, field.1 < upto) (after : ∀ field ∈ rest, upto ≤ field.1) :
    (cache D view msgType checks room).waits seen tag upto =
      (walk D view msgType checks).waits () tag upto := by
  rw [cache_waits]
  show _ = inAGroupBefore D view msgType tag upto checks
  unfold SeenCounters.defers SeenCounters.isEmpty
  cases full : seen.full with
  | true =>
    have some := h.full full
    simp [some]
  | false =>
    rw [inAGroupBefore_eq split before after, Bool.eq_iff_iff]
    simp only [Bool.and_eq_true, Bool.not_eq_true', Bool.false_eq_true, if_false,
      List.any_eq_true]
    constructor
    · rintro ⟨_, counter, mem, member⟩
      exact ⟨counter, h.sound counter mem, member⟩
    · rintro ⟨counter, mem, member⟩
      have held := h.complete full counter mem
      exact ⟨List.isEmpty_eq_false_iff.mpr (List.ne_nil_of_mem held), counter, held, member⟩

theorem new : Cached D msgType checks [] .new where
  sound := List.forall_mem_nil _
  complete _ := List.forall_mem_nil _
  full := nofun

theorem countersOf_append : countersOf D msgType checks (passed ++ [(i, tag, value)]) =
    countersOf D msgType checks passed ++ [tag].filter (isCounter D msgType checks) := by
  unfold countersOf
  rw [List.map_append, List.filter_append]
  rfl

/-- A field that is no counter, or is skipped. -/
theorem pass (h : Cached D msgType checks passed seen)
    (none : isCounter D msgType checks tag = false) :
    Cached D msgType checks (passed ++ [(i, tag, value)]) seen := by
  have same : countersOf D msgType checks (passed ++ [(i, tag, value)]) =
      countersOf D msgType checks passed := by
    rw [countersOf_append, List.filter_singleton, none]
    exact List.append_nil _
  exact ⟨same ▸ h.sound, same ▸ h.complete, h.full⟩

/-- A counter that the array notes. -/
theorem note {room : ℕ} (room_pos : 0 < room) (h : Cached D msgType checks passed seen)
    (counter : isCounter D msgType checks tag = true) :
    Cached D msgType checks (passed ++ [(i, tag, value)]) (seen.recordIn room tag) := by
  have more : countersOf D msgType checks (passed ++ [(i, tag, value)]) =
      countersOf D msgType checks passed ++ [tag] := by
    rw [countersOf_append, List.filter_singleton, counter]
    rfl
  unfold SeenCounters.recordIn
  split
  · rename_i held
    have held := List.contains_iff_mem.mp held
    refine ⟨?_, ?_, h.full⟩
    · intro c mem
      rw [more]
      exact List.mem_append_left _ (h.sound c mem)
    · intro room c mem
      rw [more, List.mem_append, List.mem_singleton] at mem
      obtain mem | rfl := mem
      · exact h.complete room c mem
      · exact held
  · split
    · refine ⟨?_, ?_, fun _ => List.append_ne_nil_of_right_ne_nil _ (List.cons_ne_nil _ _)⟩
      · intro c mem
        rw [more]
        obtain mem | mem := List.mem_append.mp mem
        · exact List.mem_append_left _ (h.sound c mem)
        · exact List.mem_append_right _ mem
      · intro room c mem
        rw [more] at mem
        obtain mem | mem := List.mem_append.mp mem
        · exact List.mem_append_left _ (h.complete room c mem)
        · exact List.mem_append_right _ mem
    · rename_i full
      refine ⟨?_, nofun, fun _ empty => ?_⟩
      · intro c mem
        rw [more]
        exact List.mem_append_left _ (h.sound c mem)
      · have : seen.tags.length = 0 := by rw [show seen.tags = [] from empty]; rfl
        omega

end Cached

/-! ### The two scans -/

section Scans

variable {room : ℕ}

/-- **One scan after another field**: the cache and the walk find the same fault, and where they
find none the array has been kept over the whole message. -/
theorem scanBy_eq (room_pos : 0 < room)
    (declared : ∀ counter, (D.groupDelimiter msgType counter).isSome →
      D.fieldType counter = some .numInGroup)
    {passed fields : List (ℕ × ℕ × Bytes)} {inBody : Bool} {seen : SeenCounters}
    (split : view.readable = passed ++ fields) (h : Cached D msgType checks passed seen) :
    (scanBy D view msgType checks (cache D view msgType checks room) fields inBody seen).1 =
        (scanBy D view msgType checks (walk D view msgType checks) fields inBody ()).1 ∧
      ((scanBy D view msgType checks (cache D view msgType checks room) fields inBody seen).1 =
          none →
        Cached D msgType checks view.readable
          (scanBy D view msgType checks (cache D view msgType checks room) fields inBody
            seen).2) := by
  induction fields generalizing passed inBody seen with
  | nil =>
    refine ⟨rfl, fun _ => ?_⟩
    rw [split, List.append_nil]
    exact h
  | cons field rest ih =>
    obtain ⟨i, tag, value⟩ := field
    have order := readable_pairwise view
    rw [split] at order
    obtain ⟨_, later, before⟩ := List.pairwise_append.mp order
    have waits := h.waits_eq tag room i split
      (fun field mem => before field mem _ List.mem_cons_self)
      (fun field mem => by
        obtain rfl | mem := List.mem_cons.mp mem
        · exact le_rfl
        · exact Nat.le_of_lt ((List.pairwise_cons.mp later).1 field mem))
    have next : view.readable = (passed ++ [(i, tag, value)]) ++ rest := by
      rw [split, List.append_assoc]
      rfl
    unfold scanBy
    by_cases skip : skipped checks tag = true
    · rw [if_pos skip, if_pos skip]
      exact ih next (h.pass (by simp [isCounter, skip]))
    · rw [if_neg skip, if_neg skip, waits]
      cases fieldFaultUnless D view msgType checks ((walk D view msgType checks).waits () tag i)
        inBody i tag value with
      | some fault => exact ⟨rfl, nofun⟩
      | none =>
        -- A counter is noted exactly where the walk would find one.
        have agree : counts D msgType tag = isCounter D msgType checks tag := by
          unfold counts isCounter
          rw [Bool.eq_false_iff.mpr skip]
          cases some : (D.groupDelimiter msgType tag).isSome with
          | false => simp
          | true => simp [declared tag some]
        dsimp only
        rw [agree]
        cases counter : isCounter D msgType checks tag with
        | false => exact ih next (h.pass counter)
        | true => exact ih next (h.note room_pos counter)

/-- The values that waited are the same. -/
theorem scanWaiting_eq (room : ℕ) {seen : SeenCounters} (h : Cached D msgType checks view.readable seen) :
    scanWaiting D view checks (cache D view msgType checks room) seen =
      scanWaiting D view checks (walk D view msgType checks) () := by
  unfold scanWaiting
  have waits (tag : ℕ) := h.waits_eq tag room view.len
    (List.append_nil _).symm (fun _ mem => readable_lt mem) (List.forall_mem_nil _)
  simp only [waits]

/-- **The counter cache moves the cost and never the answer.** Where every group counter is declared
a `NUMINGROUP`, a cache with room for one counter or more finds in any message the fault that
walking it finds, the text and the tag it names; and the session's checks are those of such a
cache. -/
theorem cache_moves_cost (D : Tables) (room_pos : 0 < room)
    (declared : ∀ msgType counter, (D.groupDelimiter msgType counter).isSome →
      D.fieldType counter = some .numInGroup)
    (view : MessageView) (msgType : Bytes) (checks : DictionaryChecks) :
    validateBy D view msgType checks (cache D view msgType checks room) =
        validateBy D view msgType checks (walk D view msgType checks) ∧
      validateWith D view msgType checks =
        (validateBy D view msgType checks (walk D view msgType checks)).map (·.1) := by
  have same (room : ℕ) (room_pos : 0 < room) :
      validateBy D view msgType checks (cache D view msgType checks room) =
        validateBy D view msgType checks (walk D view msgType checks) := by
    obtain ⟨fault, kept⟩ := @scanBy_eq D view msgType checks room room_pos (declared msgType)
      [] view.readable false .new rfl .new
    show ((scanBy D view msgType checks (cache D view msgType checks room) view.readable false
        .new).1 <|> _) = ((scanBy D view msgType checks (walk D view msgType checks) view.readable
        false ()).1 <|> _)
    rw [← fault]
    cases found : (scanBy D view msgType checks (cache D view msgType checks room) view.readable
        false .new).1 with
    | some fault => rfl
    | none =>
      have waiting := scanWaiting_eq room (kept found)
      show (missingRequired D view msgType <|> badGroupCount D view msgType <|>
        scanWaiting D view checks (cache D view msgType checks room) (scanBy D view msgType checks
          (cache D view msgType checks room) view.readable false .new).2) = _
      rw [waiting]
      rfl
  refine ⟨same room room_pos, ?_⟩
  rw [validateWith, validateFault_eq, same _ (by decide)]

/-- Every group counter of the excerpt is a `NUMINGROUP`. -/
theorem fix44_declared (msgType : Bytes) (counter : ℕ) :
    (fix44.groupDelimiter msgType counter).isSome → fix44.fieldType counter = some .numInGroup := by
  intro declared
  have known : counter ∈ [627, 384, 453, 802, 78, 539, 804] := by
    by_contra other
    have members : Fix44.groupMembers msgType counter = [] := by
      simp only [List.mem_cons, List.not_mem_nil, or_false, not_or] at other
      obtain ⟨header, a, b, c, d, e, f⟩ := other
      simp [Fix44.groupMembers, Fix44.groups, header, Ne.symm a, Ne.symm b, Ne.symm c, Ne.symm d,
        Ne.symm e, Ne.symm f]
    have none : fix44.groupDelimiter msgType counter = none := by
      show (Fix44.groupMembers msgType counter).head? = none
      rw [members]
      rfl
    rw [none] at declared
    cases declared
  have typed : ∀ counter ∈ [627, 384, 453, 802, 78, 539, 804],
      fix44.fieldType counter = some .numInGroup := by decide
  exact typed counter known

/-- Two groups of an order, one counter more than the array of the next theorem takes. -/
def twoGroups : MessageView :=
  ⟨ascii "1A01B", [⟨453, 0, 1⟩, ⟨448, 1, 1⟩, ⟨78, 2, 1⟩, ⟨453, 3, 1⟩, ⟨448, 4, 1⟩]⟩

theorem cache_moves_cost_full :
    validateBy fix44 twoGroups (ascii "D") ⟨true, false⟩
          (cache fix44 twoGroups (ascii "D") ⟨true, false⟩ 1) =
        validateBy fix44 twoGroups (ascii "D") ⟨true, false⟩
          (walk fix44 twoGroups (ascii "D") ⟨true, false⟩) ∧
      validateWith fix44 twoGroups (ascii "D") ⟨true, false⟩ =
        (validateBy fix44 twoGroups (ascii "D") ⟨true, false⟩
          (walk fix44 twoGroups (ascii "D") ⟨true, false⟩)).map (·.1) :=
  cache_moves_cost fix44 Nat.one_pos fix44_declared twoGroups (ascii "D") ⟨true, false⟩

end Scans

end Fixbolt
