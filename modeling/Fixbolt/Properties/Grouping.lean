import Fixbolt.Codec.Frame
import Fixbolt.Codec.Parse
import Fixbolt.Codec.Regions
import Fixbolt.Dict.Tables

/-!
# Reading a group is self-consistent

The entries of a group are counted once, when it is opened, and found again one at a time, against
a narrower limit. Whatever the message and the dictionary say, both agree.

* `parseInto_length`: an index never holds more places than its positions can name;
* `findCounter_some`, `findCounter_steps`: where the search for a counter stops, and that it does;
* `openGroup_reads`: what an opened group says of itself is so;
* `group_reads`: the same of every group of a parsed message and of its entries.
-/

namespace Fixbolt

/-! ### The places of an index -/

variable {D : Dictionary} {N : ℕ} {buf : Bytes} {v : Validation}

theorem pushField_length {idx idx' : List FieldEntry} {tag offset len : ℕ}
    (h : pushField N idx tag offset len = .ok idx') (short : idx.length ≤ u16Max) :
    idx'.length ≤ u16Max := by
  obtain ⟨_, _, rfl⟩ := pushField_ok h
  split
  · exact Nat.zero_le _
  · rw [List.length_append, List.length_singleton]
    omega

theorem parseTrailer_length {trailerAt pos valStart : ℕ} {idx : List FieldEntry}
    (short : idx.length ≤ u16Max) :
    (parseTrailer N buf v trailerAt pos valStart idx).index.length ≤ u16Max := by
  unfold parseTrailer
  split
  · exact short
  · split
    · exact short
    · rename_i pushed
      have pushed := pushField_length pushed short
      dsimp only
      repeat' split
      all_goals exact pushed

theorem parseFields_length {trailerAt fuel pos : ℕ} {idx : List FieldEntry}
    (short : idx.length ≤ u16Max) :
    (parseFields D N buf v trailerAt fuel pos idx).index.length ≤ u16Max := by
  induction fuel generalizing pos idx with
  | zero => exact short
  | succ fuel ih =>
    unfold parseFields
    split
    · exact short
    · split
      · exact short
      · exact short
      · split
        · exact parseTrailer_length short
        · split
          · exact short
          · split
            · exact short
            · rename_i pushed
              exact ih (pushField_length pushed short)

theorem parseBody_length {soh : ℕ} {idx : List FieldEntry} (short : idx.length ≤ u16Max) :
    (parseBody D N buf v soh idx).index.length ≤ u16Max := by
  unfold parseBody
  split
  · exact short
  · dsimp only
    split
    · exact short
    · split
      · exact short
      · split
        · exact short
        · rename_i pushed
          exact parseFields_length (pushField_length pushed short)

/-- **An index holds no more fields than its positions can name.** -/
theorem parseInto_length : (parseInto D N buf v).index.length ≤ u16Max := by
  have empty : ([] : List FieldEntry).length ≤ u16Max := Nat.zero_le _
  unfold parseInto
  split
  · exact empty
  · split
    · exact empty
    · split
      · exact empty
      · rename_i pushed
        exact parseBody_length (pushField_length pushed empty)

/-! ### The search for a counter -/

variable {entries : List FieldEntry} {view : MessageView} {msgType : Bytes}
  {counter limit i : ℕ} {topLevel : Bool}

/-- What is found from a place at some depth, and what the loop makes of it. -/
theorem regionEnd_scan (D : Dictionary) (entries : List FieldEntry) (msgType : Bytes)
    (delimiter : ℕ) (members : List ℕ) (i limit : ℕ) {depth : ℕ} (deep : depth ≤ maxDepth) :
    ∃ stop n,
      GroupScan D entries msgType limit (maxDepth - depth) .run delimiter members i stop n ∧
        regionEnd D entries msgType delimiter members i limit depth = (stop, min n u16Max) := by
  obtain ⟨stop, n, found, _⟩ :=
    scan_exists D entries msgType limit (maxDepth - depth) .run delimiter members i
  refine ⟨stop, n, found, ?_⟩
  have loop : regionLoop D entries msgType limit (scanFuel entries.length) delimiter members
      (maxDepth - (maxDepth - depth)) i 0 = (stop, min (0 + n) u16Max) :=
    found.regionLoop_eq (Nat.sub_le _ _) (by unfold scanFuel; omega) (Nat.zero_le _)
  rw [Nat.sub_sub_self deep, Nat.zero_add] at loop
  exact loop

/-- The next place that the search for a counter looks at. -/
def afterField (D : Dictionary) (entries : List FieldEntry) (msgType : Bytes) (limit : ℕ)
    (topLevel : Bool) (i tag : ℕ) : ℕ :=
  if topLevel then
    match D.groupDelimiter msgType tag with
    | some d => (regionEnd D entries msgType d (D.groupMembers msgType tag) (i + 1) limit 1).1
    | none => i + 1
  else i + 1

theorem findCounter_succ {fuel : ℕ} :
    findCounter D entries msgType counter limit topLevel (fuel + 1) i =
      if limit ≤ i then none
      else match tagAt entries i with
        | none => none
        | some tag =>
          if tag = counter then some i
          else findCounter D entries msgType counter limit topLevel fuel
            (afterField D entries msgType limit topLevel i tag) := rfl

/-- The search goes on. -/
theorem lt_afterField (D : Dictionary) (entries : List FieldEntry) (msgType : Bytes) (limit : ℕ)
    (topLevel : Bool) (i tag : ℕ) : i < afterField D entries msgType limit topLevel i tag := by
  unfold afterField
  split
  · split
    · rename_i d opens
      obtain ⟨stop, n, found, loop⟩ := regionEnd_scan D entries msgType d
        (D.groupMembers msgType tag) (i + 1) limit (show 1 ≤ maxDepth by decide)
      rw [loop]
      exact found.le
    · exact Nat.lt_succ_self i
  · exact Nat.lt_succ_self i

/-- A counter that is found stands where it was looked for. -/
theorem findCounter_some {fuel p : ℕ}
    (h : findCounter D entries msgType counter limit topLevel fuel i = some p) :
    i ≤ p ∧ p < limit ∧ tagAt entries p = some counter := by
  induction fuel generalizing i with
  | zero => cases h
  | succ fuel ih =>
    rw [findCounter_succ] at h
    split at h
    · cases h
    · rename_i within
      split at h
      · cases h
      · rename_i tag here
        split at h
        · rename_i same
          cases h
          exact ⟨le_rfl, Nat.lt_of_not_le within, same ▸ here⟩
        · have next := lt_afterField D entries msgType limit topLevel i tag
          obtain ⟨ge, found⟩ := ih h
          exact ⟨by omega, found⟩

theorem findCounter_more {fuel : ℕ} (enough : limit - i ≤ fuel) :
    findCounter D entries msgType counter limit topLevel (fuel + 1) i =
      findCounter D entries msgType counter limit topLevel fuel i := by
  induction fuel generalizing i with
  | zero =>
    rw [findCounter_succ, if_pos (by omega)]
    rfl
  | succ fuel ih =>
    rw [findCounter_succ, findCounter_succ]
    by_cases past : limit ≤ i
    · rw [if_pos past, if_pos past]
    · rw [if_neg past, if_neg past]
      cases tagAt entries i with
      | none => rfl
      | some tag =>
        have next := lt_afterField D entries msgType limit topLevel i tag
        dsimp only
        rw [ih (by omega)]

/-- **The search ends** within as many steps as there are places: more of them change nothing. -/
theorem findCounter_steps {fuel : ℕ} (enough : limit - i ≤ fuel) :
    findCounter D entries msgType counter limit topLevel fuel i =
      findCounter D entries msgType counter limit topLevel (limit - i) i := by
  induction fuel, enough using Nat.le_induction with
  | base => rfl
  | succ fuel enough ih => rw [findCounter_more enough, ih]

/-! ### An opened group -/

/-- What a group says of itself that was opened for a counter in `[from_, limit)`. -/
structure ReadsGroup (D : Dictionary) (view : MessageView) (msgType : Bytes)
    (counter from_ limit : ℕ) (g : GroupIter) : Prop where
  delimiter : D.groupDelimiter msgType counter = some g.delimiter
  members : g.members = D.groupMembers msgType counter
  /-- The region starts right after the counter. -/
  place : from_ < g.pos ∧ g.pos ≤ limit ∧ tagAt view.entries (g.pos - 1) = some counter
  /-- It is a run of entries, with no more than `maxDepth` groups open around any field. -/
  region : GroupScan D view.entries msgType limit maxDepth .run g.delimiter g.members g.pos g.stop
    g.counted
  /-- Its places are places of the message and of what is around it. -/
  within : g.stop ≤ limit ∧ g.stop ≤ view.len ∧ g.stop ≤ u16Max ∧ g.counted ≤ u16Max
  /-- Iterating yields as many entries as were counted. -/
  counted : (groupEntries D view msgType g).length = g.counted
  /-- However often it is asked for one more. -/
  steps : ∀ fuel, g.counted ≤ fuel →
    (groupEntriesFrom D view msgType g fuel g.pos).length = g.counted
  /-- They are windows one behind the other that make up the region. -/
  adjoining : Adjoining g.pos (groupEntries D view msgType g) g.stop
  starts : ∀ e ∈ groupEntries D view msgType g, tagAt view.entries e.start = some g.delimiter
  inside : ∀ e ∈ groupEntries D view msgType g, from_ < e.start ∧ e.start < e.stop ∧ e.stop ≤ limit
  disjoint : (groupEntries D view msgType g).Pairwise fun e e' => e.stop ≤ e'.start
  cover : ∀ k, g.pos ≤ k → k < g.stop →
    ∃ e ∈ groupEntries D view msgType g, e.start ≤ k ∧ k < e.stop

theorem openGroup_reads {from_ : ℕ} {g : GroupIter} (short : view.len ≤ u16Max)
    (h : openGroup D view msgType counter from_ limit topLevel = some g) :
    ReadsGroup D view msgType counter from_ limit g := by
  unfold openGroup at h
  split at h
  · cases h
  · rename_i delimiter opens
    dsimp only at h
    split at h
    · cases h
    · rename_i pos found
      obtain ⟨ge, lt, here⟩ := findCounter_some found
      obtain ⟨stop, n, region, loop⟩ := regionEnd_scan D view.entries msgType delimiter
        (D.groupMembers msgType counter) (pos + 1) limit (Nat.zero_le maxDepth)
      have place := tagAt_lt here
      have last := region.stop_le lt
      have last' : stop ≤ view.len := region.stop_le_length place
      have count := region.count_le
      have exact_ : min n u16Max = n := Nat.min_eq_left (by omega)
      rw [loop, exact_] at h
      have few : n ≤ u16Max := by omega
      cases h
      obtain ⟨counted, adjoining, starts⟩ := region.windows
        ⟨delimiter, D.groupMembers msgType counter, _, n, stop, pos + 1⟩ (view.len + 1) last (by omega)
      exact
        { delimiter := opens
          members := rfl
          place := ⟨by dsimp only; omega, lt, here⟩
          region
          within := ⟨last, last', last'.trans short, few⟩
          counted, adjoining, starts
          steps := fun fuel enough => (region.windows
            ⟨delimiter, D.groupMembers msgType counter, _, n, stop, pos + 1⟩ fuel last enough).1
          inside := fun e mem => by
            obtain ⟨first, lt, stop⟩ := adjoining.bounds e mem
            exact ⟨Nat.lt_of_lt_of_le (Nat.lt_succ_of_le ge) first, lt, stop.trans last⟩
          disjoint := adjoining.disjoint
          cover := fun k ge lt => adjoining.cover ge lt }

/-- The loops end: more steps than there are places change nothing. -/
structure LoopsEnd (D : Dictionary) (view : MessageView) (msgType : Bytes) : Prop where
  region : ∀ delimiter members from_ limit depth fuel, depth ≤ maxDepth → view.len ≤ fuel →
    regionLoop D view.entries msgType limit fuel delimiter members depth from_ 0 =
      regionEnd D view.entries msgType delimiter members from_ limit depth
  entry : ∀ delimiter members from_ limit depth fuel, depth ≤ maxDepth → view.len ≤ fuel →
    entryLoop D view.entries msgType limit fuel delimiter members depth (from_ + 1) =
      entryEnd D view.entries msgType delimiter members from_ limit depth
  search : ∀ counter from_ limit topLevel fuel, limit ≤ fuel →
    findCounter D view.entries msgType counter limit topLevel fuel from_ =
      findCounter D view.entries msgType counter limit topLevel (limit + 1) from_

theorem loops_end (D : Dictionary) (view : MessageView) (msgType : Bytes) :
    LoopsEnd D view msgType where
  region delimiter members from_ limit depth fuel deep enough := by
    obtain ⟨stop, n, found, _⟩ :=
      scan_exists D view.entries msgType limit (maxDepth - depth) .run delimiter members from_
    have loop {fuel : ℕ} (enough : view.entries.length - from_ ≤ fuel) :=
      found.regionLoop_eq (Nat.sub_le _ _) enough (Nat.zero_le _)
    rw [Nat.sub_sub_self deep] at loop
    unfold regionEnd
    rw [loop (by unfold MessageView.len at enough; omega), loop (by unfold scanFuel; omega)]
  entry delimiter members from_ limit depth fuel deep enough := by
    obtain ⟨stop, n, found, _⟩ := scan_exists D view.entries msgType limit (maxDepth - depth)
      .fields delimiter members (from_ + 1)
    have loop {fuel : ℕ} (enough : view.entries.length - (from_ + 1) ≤ fuel) :=
      found.entryLoop_eq (Nat.sub_le _ _) enough
    rw [Nat.sub_sub_self deep] at loop
    unfold entryEnd
    rw [loop (by unfold MessageView.len at enough; omega), loop (by unfold scanFuel; omega)]
  search counter from_ limit topLevel fuel enough := by
    have steps (fuel : ℕ) (enough : limit ≤ fuel) :
        findCounter D view.entries msgType counter limit topLevel fuel from_ =
          findCounter D view.entries msgType counter limit topLevel (limit - from_) from_ :=
      findCounter_steps ((Nat.sub_le _ _).trans enough)
    rw [steps fuel enough, steps (limit + 1) (Nat.le_succ limit)]

/-- **Group reading is self-consistent.** Of a message parsed by one dictionary and read by another
that says whatever it likes, a group that is opened, of the message or of a window into it, yields
as many entries as it counted, one behind the other from its counter on, each beginning with the
delimiter and within what is around it; and every loop on the way ends. -/
theorem group_reads (D D' : Dictionary) (N : ℕ) (buf : Bytes) (v : Validation) (msgType : Bytes)
    (counter : ℕ) :
    let view : MessageView := ⟨buf, (parseInto D' N buf v).index⟩
    LoopsEnd D view msgType ∧
      (∀ g, view.group D msgType counter = some g →
        ReadsGroup D view msgType counter 0 view.len g) ∧
      ∀ e g, GroupEntry.group D view e msgType counter = some g →
        ReadsGroup D view msgType counter e.start e.stop g := by
  intro view
  have short : view.len ≤ u16Max := parseInto_length
  exact ⟨loops_end D view msgType, fun g h => openGroup_reads short h,
    fun e g h => openGroup_reads short h⟩

/-- An order with two parties, the first with a nested group. -/
def parties : Bytes :=
  frame (ascii "FIX.4.4") [(35, ascii "D"), (453, ascii "2"), (448, ascii "A"), (802, ascii "1"),
    (523, ascii "X"), (448, ascii "B"), (11, ascii "order")]

/-- The order as it is parsed. -/
def partiesView : MessageView :=
  ⟨parties, (parseInto fix44.toDictionary 64 parties .all).index⟩

theorem group_reads_parties : ∃ g,
    partiesView.group fix44.toDictionary (ascii "D") 453 = some g ∧ g.counted = 2 ∧
      ReadsGroup fix44.toDictionary partiesView (ascii "D") 453 0 partiesView.len g := by
  have opened : (partiesView.group fix44.toDictionary (ascii "D") 453).map (·.counted) =
      some 2 := by decide +kernel
  obtain ⟨g, found, two⟩ := Option.map_eq_some_iff.mp opened
  obtain ⟨_, reads, _⟩ := group_reads fix44.toDictionary fix44.toDictionary 64 parties .all
    (ascii "D") 453
  exact ⟨g, found, two, reads g found⟩

end Fixbolt
