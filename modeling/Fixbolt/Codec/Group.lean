import Fixbolt.Codec.Template

/-!
# Repeating groups, read off the flat index

A group ends at the first tag that is not one of its members, and the members of a nested group
are not members of the group around it, so a scan steps over nested regions. The loops of the
source advance over the index; here the first argument bounds how many steps are left, and
`scanFuel` is more than an index has places for.
-/

namespace Fixbolt

variable (D : Dictionary)

/-- Steps that are enough for any scan over an index of `n` fields. -/
def scanFuel (n : ℕ) : ℕ := 2 * n + 2

/-- The tag at a place of an index. -/
def tagAt (entries : List FieldEntry) (i : ℕ) : Option ℕ := entries[i]?.map (·.tag)

mutual

/-- End of a run of entries starting at `i`, and how many there were. -/
def regionLoop (entries : List FieldEntry) (msgType : Bytes) (limit : ℕ) :
    ℕ → ℕ → List ℕ → ℕ → ℕ → ℕ → ℕ × ℕ
  | 0, _, _, _, i, counted => (i, counted)
  | fuel + 1, delimiter, members, depth, i, counted =>
    if i < limit ∧ tagAt entries i = some delimiter then
      regionLoop entries msgType limit fuel delimiter members depth
        (entryLoop entries msgType limit fuel delimiter members depth (i + 1))
        (min (counted + 1) u16Max)
    else (i, counted)

/-- End of an entry whose fields from `i` on are still to be read. -/
def entryLoop (entries : List FieldEntry) (msgType : Bytes) (limit : ℕ) :
    ℕ → ℕ → List ℕ → ℕ → ℕ → ℕ
  | 0, _, _, _, i => i
  | fuel + 1, delimiter, members, depth, i =>
    if i < limit then
      match tagAt entries i with
      | none => i
      | some tag =>
        if tag = delimiter ∨ !members.contains tag then i
        else
          entryLoop entries msgType limit fuel delimiter members depth
            (if depth < maxDepth then
              match D.groupDelimiter msgType tag with
              | some d =>
                (regionLoop entries msgType limit fuel d (D.groupMembers msgType tag) (depth + 1)
                  (i + 1) 0).1
              | none => i + 1
            else i + 1)
    else i

end

/-- End of a run of entries, and how many there were. -/
def regionEnd (entries : List FieldEntry) (msgType : Bytes) (delimiter : ℕ) (members : List ℕ)
    (from_ limit depth : ℕ) : ℕ × ℕ :=
  regionLoop D entries msgType limit (scanFuel entries.length) delimiter members depth from_ 0

/-- End of the single entry that starts at `from_`. -/
def entryEnd (entries : List FieldEntry) (msgType : Bytes) (delimiter : ℕ) (members : List ℕ)
    (from_ limit depth : ℕ) : ℕ :=
  entryLoop D entries msgType limit (scanFuel entries.length) delimiter members depth (from_ + 1)

/-- One entry of a repeating group: a window into the index. -/
structure GroupEntry where
  start : ℕ
  stop : ℕ
deriving DecidableEq, Repr

/-- Entries of one repeating group, at one level. -/
structure GroupIter where
  delimiter : ℕ
  members : List ℕ
  declared : Option ℕ
  counted : ℕ
  stop : ℕ
  pos : ℕ
deriving DecidableEq, Repr

/-- Where the counter of a group stands in `[i, limit)`. A search at the top level steps over
every group region it meets. -/
def findCounter (entries : List FieldEntry) (msgType : Bytes) (counter limit : ℕ)
    (topLevel : Bool) : ℕ → ℕ → Option ℕ
  | 0, _ => none
  | fuel + 1, i =>
    if limit ≤ i then none
    else match tagAt entries i with
      | none => none
      | some tag =>
        if tag = counter then some i
        else
          findCounter entries msgType counter limit topLevel fuel
            (if topLevel then
              match D.groupDelimiter msgType tag with
              | some d =>
                (regionEnd D entries msgType d (D.groupMembers msgType tag) (i + 1) limit 1).1
              | none => i + 1
            else i + 1)

/-- Find a counter in `[from_, limit)` and scan the group it opens. -/
def openGroup (view : MessageView) (msgType : Bytes) (counter from_ limit : ℕ) (topLevel : Bool) :
    Option GroupIter :=
  match D.groupDelimiter msgType counter with
  | none => none
  | some delimiter =>
    let members := D.groupMembers msgType counter
    match findCounter D view.entries msgType counter limit topLevel (limit + 1) from_ with
    | none => none
    | some pos =>
      let region := regionEnd D view.entries msgType delimiter members (pos + 1) limit 0
      some
        { delimiter, members
          declared := (view.fieldAt pos).bind fun f => asU32? f.2
          counted := region.2, stop := region.1, pos := pos + 1 }

/-- The entries of a group, from place `pos` on. -/
def groupEntriesFrom (view : MessageView) (msgType : Bytes) (g : GroupIter) :
    ℕ → ℕ → List GroupEntry
  | 0, _ => []
  | fuel + 1, pos =>
    if pos < g.stop ∧ tagAt view.entries pos = some g.delimiter then
      let stop := entryEnd D view.entries msgType g.delimiter g.members pos g.stop 0
      ⟨pos, stop⟩ :: groupEntriesFrom view msgType g fuel stop
    else []

/-- The entries of a group. -/
def groupEntries (view : MessageView) (msgType : Bytes) (g : GroupIter) : List GroupEntry :=
  groupEntriesFrom D view msgType g (view.len + 1) g.pos

/-- A top-level group of a message. -/
def MessageView.group (view : MessageView) (msgType : Bytes) (counter : ℕ) : Option GroupIter :=
  openGroup D view msgType counter 0 view.len true

/-- A group nested inside an entry. -/
def GroupEntry.group (view : MessageView) (e : GroupEntry) (msgType : Bytes) (counter : ℕ) :
    Option GroupIter :=
  openGroup D view msgType counter e.start e.stop false

end Fixbolt
