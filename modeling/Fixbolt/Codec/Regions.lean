import Fixbolt.Codec.Group

/-!
# What the scans of a group find

The two loops of the scan call each other. `GroupScan` is what they find, without their steps counted:
a run of entries, or what is left of one entry, with no more than `levels` groups open around it
below. The loops find what `GroupScan` says as soon as they may take a step for each field left
(`GroupScan.regionLoop_eq`, `GroupScan.entryLoop_eq`), and there always is something to find (`scan_exists`).

* `GroupScan.narrow`: a narrower limit that is not passed changes nothing;
* `GroupScan.windows`: the entries that iterating finds are the ones that were counted, and they tile
  the run.
-/

namespace Fixbolt

/-- Which of the two loops. -/
inductive ScanLoop where
  /-- A run of entries. -/
  | run
  /-- The fields of an entry behind those already read. -/
  | fields
deriving DecidableEq, Repr

/-- What a loop finds from place `i` on: where it stops, and how many entries there were. -/
inductive GroupScan (D : Dictionary) (entries : List FieldEntry) (msgType : Bytes) (limit : ℕ) :
    ℕ → ScanLoop → ℕ → List ℕ → ℕ → ℕ → ℕ → Prop
  /-- The run is at its end. -/
  | runEnd {levels delimiter : ℕ} {members : List ℕ} {i : ℕ}
      (ends : ¬ (i < limit ∧ tagAt entries i = some delimiter)) :
      GroupScan D entries msgType limit levels .run delimiter members i i 0
  /-- One more entry. -/
  | entry {levels delimiter : ℕ} {members : List ℕ} {i e stop n : ℕ} (within : i < limit)
      (first : tagAt entries i = some delimiter)
      (fields : GroupScan D entries msgType limit levels .fields delimiter members (i + 1) e 0)
      (rest : GroupScan D entries msgType limit levels .run delimiter members e stop n) :
      GroupScan D entries msgType limit levels .run delimiter members i stop (n + 1)
  /-- The entry is at its end. -/
  | fieldsEnd {levels delimiter : ℕ} {members : List ℕ} {i : ℕ}
      (ends : ∀ tag, i < limit → tagAt entries i = some tag → tag = delimiter ∨ tag ∉ members) :
      GroupScan D entries msgType limit levels .fields delimiter members i i 0
  /-- One more field, of no group or as deep as groups are followed. -/
  | field {levels delimiter : ℕ} {members : List ℕ} {i tag stop : ℕ} (within : i < limit)
      (here : tagAt entries i = some tag) (other : tag ≠ delimiter) (member : tag ∈ members)
      (flat : levels = 0 ∨ D.groupDelimiter msgType tag = none)
      (rest : GroupScan D entries msgType limit levels .fields delimiter members (i + 1) stop 0) :
      GroupScan D entries msgType limit levels .fields delimiter members i stop 0
  /-- The counter of a nested group, and the group. -/
  | nested {levels delimiter : ℕ} {members : List ℕ} {i tag d mid stop n : ℕ} (within : i < limit)
      (here : tagAt entries i = some tag) (other : tag ≠ delimiter) (member : tag ∈ members)
      (opens : D.groupDelimiter msgType tag = some d)
      (inner : GroupScan D entries msgType limit levels .run d (D.groupMembers msgType tag) (i + 1) mid n)
      (rest : GroupScan D entries msgType limit (levels + 1) .fields delimiter members mid stop 0) :
      GroupScan D entries msgType limit (levels + 1) .fields delimiter members i stop 0

section Scans

variable {D : Dictionary} {entries : List FieldEntry} {msgType : Bytes}
  {limit levels delimiter i stop n : ℕ} {part : ScanLoop} {members : List ℕ}

theorem tagAt_lt {tag : ℕ} (here : tagAt entries i = some tag) : i < entries.length := by
  obtain ⟨e, found, _⟩ := Option.map_eq_some_iff.mp here
  exact (List.getElem?_eq_some_iff.mp found).1

namespace GroupScan

theorem le (h : GroupScan D entries msgType limit levels part delimiter members i stop n) : i ≤ stop := by
  induction h with
  | runEnd => exact le_rfl
  | entry _ _ _ _ fields rest => omega
  | fieldsEnd => exact le_rfl
  | field _ _ _ _ _ _ rest => omega
  | nested _ _ _ _ _ _ _ inner rest => omega

/-- A scan stays within its limit. -/
theorem stop_le (h : GroupScan D entries msgType limit levels part delimiter members i stop n)
    (start : i ≤ limit) : stop ≤ limit := by
  induction h with
  | runEnd => exact start
  | entry within _ _ _ fields rest => exact rest (fields within)
  | fieldsEnd => exact start
  | field within _ _ _ _ _ rest => exact rest within
  | nested within _ _ _ _ _ _ inner rest => exact rest (inner within)

/-- A scan stays within the index. -/
theorem stop_le_length (h : GroupScan D entries msgType limit levels part delimiter members i stop n)
    (start : i ≤ entries.length) : stop ≤ entries.length := by
  induction h with
  | runEnd => exact start
  | entry _ first _ _ fields rest => exact rest (fields (tagAt_lt first))
  | fieldsEnd => exact start
  | field _ here _ _ _ _ rest => exact rest (tagAt_lt here)
  | nested _ here _ _ _ _ _ inner rest => exact rest (inner (tagAt_lt here))

/-- Every entry takes a place. -/
theorem count_le (h : GroupScan D entries msgType limit levels part delimiter members i stop n) :
    n ≤ stop - i := by
  induction h with
  | runEnd => exact Nat.zero_le _
  | entry _ _ fields rest _ count =>
    have := fields.le
    have := rest.le
    omega
  | fieldsEnd => exact Nat.zero_le _
  | field => exact Nat.zero_le _
  | nested => exact Nat.zero_le _

/-- **A narrower limit that is not passed changes nothing.** -/
theorem narrow {limit' : ℕ}
    (h : GroupScan D entries msgType limit levels part delimiter members i stop n)
    (narrower : limit' ≤ limit) (within : stop ≤ limit') :
    GroupScan D entries msgType limit' levels part delimiter members i stop n := by
  induction h with
  | runEnd ends => exact .runEnd fun h => ends ⟨h.1.trans_le narrower, h.2⟩
  | entry _ first fields rest ih_fields ih_rest =>
    have := fields.le
    have := rest.le
    exact .entry (by omega) first (ih_fields (by omega)) (ih_rest within)
  | fieldsEnd ends => exact .fieldsEnd fun tag lt => ends tag (lt.trans_le narrower)
  | field _ here other member flat rest ih =>
    have := rest.le
    exact .field (by omega) here other member flat (ih within)
  | nested _ here other member opens inner rest ih_inner ih_rest =>
    have := inner.le
    have := rest.le
    exact .nested (by omega) here other member opens (ih_inner (by omega)) (ih_rest within)

end GroupScan

/-- **There is something to find**, from every place. -/
theorem scan_exists (D : Dictionary) (entries : List FieldEntry) (msgType : Bytes)
    (limit levels : ℕ) (part : ScanLoop) (delimiter : ℕ) (members : List ℕ) (i : ℕ) :
    ∃ stop n, GroupScan D entries msgType limit levels part delimiter members i stop n ∧
      (part = .fields → n = 0) := by
  generalize left : entries.length - i = k
  induction k using Nat.strongRecOn generalizing i part levels delimiter members with
  | ind k ih =>
    cases part with
    | run =>
      by_cases more : i < limit ∧ tagAt entries i = some delimiter
      · have := tagAt_lt more.2
        obtain ⟨e, m, fields, none⟩ := ih _ (by omega) levels .fields delimiter members (i + 1) rfl
        obtain rfl := none rfl
        have := fields.le
        obtain ⟨stop, n, rest, _⟩ := ih _ (by omega) levels .run delimiter members e rfl
        exact ⟨stop, n + 1, .entry more.1 more.2 fields rest, nofun⟩
      · exact ⟨i, 0, .runEnd more, nofun⟩
    | fields =>
      by_cases more : ∃ tag, i < limit ∧ tagAt entries i = some tag ∧ tag ≠ delimiter ∧
          tag ∈ members
      · obtain ⟨tag, within, here, other, member⟩ := more
        have := tagAt_lt here
        -- The field after this one, or after the group that it counts.
        obtain flat | ⟨below, d, rfl, opens⟩ : (levels = 0 ∨ D.groupDelimiter msgType tag = none) ∨
            ∃ below d, levels = below + 1 ∧ D.groupDelimiter msgType tag = some d := by
          cases levels with
          | zero => exact .inl (.inl rfl)
          | succ below =>
            cases opens : D.groupDelimiter msgType tag with
            | none => exact .inl (.inr rfl)
            | some d => exact .inr ⟨below, d, rfl, rfl⟩
        · obtain ⟨stop, n, rest, none⟩ :=
            ih _ (by omega) levels .fields delimiter members (i + 1) rfl
          obtain rfl := none rfl
          exact ⟨stop, 0, .field within here other member flat rest, fun _ => rfl⟩
        · obtain ⟨mid, m, inner, _⟩ :=
            ih _ (by omega) below .run d (D.groupMembers msgType tag) (i + 1) rfl
          have := inner.le
          obtain ⟨stop, n, rest, none⟩ :=
            ih _ (by omega) (below + 1) .fields delimiter members mid rfl
          obtain rfl := none rfl
          exact ⟨stop, 0, .nested within here other member opens inner rest, fun _ => rfl⟩
      · refine ⟨i, 0, .fieldsEnd fun tag lt here => ?_, fun _ => rfl⟩
        by_contra both
        rw [not_or, not_not] at both
        exact more ⟨tag, lt, here, both.1, both.2⟩

/-! ### The loops -/

/-- What a loop computes, of the levels left below the bound. -/
theorem GroupScan.loop_eq (h : GroupScan D entries msgType limit levels part delimiter members i stop n)
    (deep : levels ≤ maxDepth) (fuel : ℕ) (enough : entries.length - i ≤ fuel) :
    match part with
    | .run => ∀ counted ≤ u16Max,
        regionLoop D entries msgType limit fuel delimiter members (maxDepth - levels) i counted =
          (stop, min (counted + n) u16Max)
    | .fields =>
        entryLoop D entries msgType limit fuel delimiter members (maxDepth - levels) i = stop := by
  induction h generalizing fuel with
  | runEnd ends =>
    intro counted small
    cases fuel with
    | zero => rw [regionLoop, Nat.add_zero, Nat.min_eq_left small]
    | succ fuel => rw [regionLoop, if_neg ends, Nat.add_zero, Nat.min_eq_left small]
  | @entry levels delimiter members i e stop n within first fields rest ih_fields ih_rest =>
    intro counted small
    have := tagAt_lt first
    obtain ⟨fuel, rfl⟩ : ∃ k, fuel = k + 1 := ⟨fuel - 1, by omega⟩
    have := fields.le
    have entry := ih_fields deep fuel (by omega)
    have rest := ih_rest deep fuel (by omega) (min (counted + 1) u16Max)
      (Nat.min_le_right _ _)
    have saturated : min (min (counted + 1) u16Max + n) u16Max = min (counted + (n + 1)) u16Max := by
      generalize u16Max = most
      omega
    dsimp only at entry rest
    rw [regionLoop, if_pos ⟨within, first⟩, entry, rest, saturated]
  | @fieldsEnd levels delimiter members i ends =>
    dsimp only
    cases fuel with
    | zero => rw [entryLoop]
    | succ fuel =>
      rw [entryLoop]
      split
      · rename_i within
        split
        · rfl
        · rename_i tag here
          rw [if_pos]
          simpa using ends tag within here
      · rfl
  | @field levels delimiter members i tag stop within here other member flat rest ih =>
    have := tagAt_lt here
    obtain ⟨fuel, rfl⟩ : ∃ k, fuel = k + 1 := ⟨fuel - 1, by omega⟩
    have later := ih deep fuel (by omega)
    dsimp only at later ⊢
    rw [entryLoop, if_pos within, here]
    dsimp only
    rw [if_neg (by simp [other, member])]
    obtain rfl | none := flat
    · rw [if_neg (show ¬ maxDepth - 0 < maxDepth from Nat.lt_irrefl _), later]
    · simp only [none, ite_self, later]
  | @nested levels delimiter members i tag d mid stop n within here other member opens inner rest
      ih_inner ih_rest =>
    have := tagAt_lt here
    have := inner.le
    obtain ⟨fuel, rfl⟩ : ∃ k, fuel = k + 1 := ⟨fuel - 1, by omega⟩
    have below : maxDepth - (levels + 1) + 1 = maxDepth - levels := by omega
    have group := ih_inner (by omega) fuel (by omega) 0 (Nat.zero_le _)
    have later := ih_rest deep fuel (by omega)
    dsimp only at group later ⊢
    rw [entryLoop, if_pos within, here]
    dsimp only
    rw [if_neg (by simp [other, member]), if_pos (by omega), opens]
    dsimp only
    rw [below, group, later]

theorem GroupScan.regionLoop_eq
    (h : GroupScan D entries msgType limit levels .run delimiter members i stop n)
    (deep : levels ≤ maxDepth) {fuel counted : ℕ} (enough : entries.length - i ≤ fuel)
    (small : counted ≤ u16Max) :
    regionLoop D entries msgType limit fuel delimiter members (maxDepth - levels) i counted =
      (stop, min (counted + n) u16Max) :=
  h.loop_eq deep fuel enough counted small

theorem GroupScan.entryLoop_eq
    (h : GroupScan D entries msgType limit levels .fields delimiter members i stop n)
    (deep : levels ≤ maxDepth) {fuel : ℕ} (enough : entries.length - i ≤ fuel) :
    entryLoop D entries msgType limit fuel delimiter members (maxDepth - levels) i = stop :=
  h.loop_eq deep fuel enough

/-! ### The entries of a group -/

/-- Windows one behind the other, from `i` up to `stop`. -/
def Adjoining : ℕ → List GroupEntry → ℕ → Prop
  | i, [], stop => i = stop
  | i, e :: es, stop => e.start = i ∧ e.start < e.stop ∧ Adjoining e.stop es stop

/-- **Iterating finds the entries that were counted**, each up to where the next one begins. -/
theorem GroupScan.windows {view : MessageView} (g : GroupIter) (fuel : ℕ)
    (h : GroupScan D view.entries msgType limit maxDepth .run g.delimiter g.members i g.stop n)
    (within : g.stop ≤ limit) (enough : n ≤ fuel) :
    (groupEntriesFrom D view msgType g fuel i).length = n ∧
      Adjoining i (groupEntriesFrom D view msgType g fuel i) g.stop ∧
      ∀ e ∈ groupEntriesFrom D view msgType g fuel i,
        tagAt view.entries e.start = some g.delimiter := by
  induction n generalizing i fuel with
  | zero =>
    cases h with
    | runEnd ends =>
      have none : groupEntriesFrom D view msgType g fuel g.stop = [] := by
        cases fuel with
        | zero => rfl
        | succ fuel => rw [groupEntriesFrom, if_neg fun h => absurd h.1 (Nat.lt_irrefl _)]
      rw [none]
      exact ⟨rfl, rfl, List.forall_mem_nil _⟩
  | succ n ih =>
    cases h with
    | @entry _ _ _ _ e _ _ inside first fields rest =>
      have := fields.le
      have := rest.le
      obtain ⟨fuel, rfl⟩ : ∃ k, fuel = k + 1 := ⟨fuel - 1, by omega⟩
      -- The entry is read against the end of the run, which it does not pass.
      have stop : entryEnd D view.entries msgType g.delimiter g.members i g.stop 0 = e :=
        (fields.narrow within rest.le).entryLoop_eq le_rfl (by unfold scanFuel; omega)
      rw [groupEntriesFrom, if_pos ⟨by omega, first⟩]
      dsimp only
      rw [stop]
      obtain ⟨count, tiled, starts⟩ := ih fuel rest (by omega)
      refine ⟨by rw [List.length_cons, count], ⟨rfl, by dsimp only; omega, tiled⟩, ?_⟩
      exact List.forall_mem_cons.mpr ⟨first, starts⟩

namespace Adjoining

variable {es : List GroupEntry}

theorem le (h : Adjoining i es stop) : i ≤ stop := by
  induction es generalizing i with
  | nil => exact Nat.le_of_eq h
  | cons e es ih =>
    obtain ⟨rfl, lt, rest⟩ := h
    exact (Nat.le_of_lt lt).trans (ih rest)

/-- The windows lie in the region. -/
theorem bounds (h : Adjoining i es stop) : ∀ e ∈ es, i ≤ e.start ∧ e.start < e.stop ∧
    e.stop ≤ stop := by
  induction es generalizing i with
  | nil => exact List.forall_mem_nil _
  | cons e es ih =>
    obtain ⟨rfl, lt, rest⟩ := h
    refine List.forall_mem_cons.mpr ⟨⟨le_rfl, lt, rest.le⟩, fun e' mem => ?_⟩
    obtain ⟨start, lt', end_⟩ := ih rest e' mem
    exact ⟨by omega, lt', end_⟩

/-- The windows are disjoint. -/
theorem disjoint (h : Adjoining i es stop) : es.Pairwise fun e e' => e.stop ≤ e'.start := by
  induction es generalizing i with
  | nil => exact .nil
  | cons e es ih =>
    obtain ⟨_, _, rest⟩ := h
    exact .cons (fun e' mem => (rest.bounds e' mem).1) (ih rest)

/-- The windows cover the region. -/
theorem cover (h : Adjoining i es stop) {k : ℕ} (ge : i ≤ k) (lt : k < stop) :
    ∃ e ∈ es, e.start ≤ k ∧ k < e.stop := by
  induction es generalizing i with
  | nil =>
    obtain rfl : i = stop := h
    omega
  | cons e es ih =>
    obtain ⟨rfl, _, rest⟩ := h
    by_cases near : k < e.stop
    · exact ⟨e, List.mem_cons_self, ge, near⟩
    · obtain ⟨e', mem, found⟩ := ih rest (by omega)
      exact ⟨e', List.mem_cons_of_mem _ mem, found⟩

end Adjoining

end Scans

end Fixbolt
