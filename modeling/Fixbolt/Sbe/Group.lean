import Fixbolt.Codec.Parse
import Fixbolt.Sbe.Wire

/-!
# Walking what follows a fixed block

A block is followed by its groups and then by its `varData`, and nested groups lie depth first
inside each entry. A cursor moves forward over them: `group` opens a group, `Group.finish` walks what
is left of it, `varData` reads one element. `parse` is the walk over a whole message.

The walk over the nested groups and the `varData` of a layout is a parameter (`tail`) of what a group
does with its entries; `Cursor.skipTail` ties the knot over the tree of layouts.
-/

namespace Fixbolt.Sbe

/-- A position in a message after a fixed block. -/
structure Cursor where
  buf : Bytes
  pos : ℕ
  order : ByteOrder
  version : ℕ
deriving DecidableEq, Repr

/-- One repeating group being walked, entry by entry. -/
structure Group where
  /-- At the next entry's block, or, while `tailPending`, at the tail of the entry last returned. -/
  cur : Cursor
  layout : GroupLayout
  blockLength : ℕ
  count : ℕ
  remaining : ℕ
  tailPending : Bool
  present : Bool

/-- One entry of a group: its fixed block, and a cursor behind it. -/
structure Entry where
  block : Bytes
  tail : Cursor

namespace Cursor

/-- Opens group `layout` at the cursor. -/
def group (c : Cursor) (layout : GroupLayout) : Except SbeError Group :=
  if c.version < layout.sinceVersion then
    .ok ⟨c, layout, 0, 0, 0, false, false⟩
  else do
    let d := layout.dimension
    let blockLength ← readLength c.buf c.pos d.blockLength c.order
    let behind ← checkedUsize (c.pos + d.blockLength.size)
    let count ← readLength c.buf behind d.numInGroup c.order
    let pos ← checkedUsize (c.pos + d.size)
    return ⟨{ c with pos := pos }, layout, blockLength, count, count, false, true⟩

/-- Reads `varData` `layout` at the cursor; `none`, and the cursor unmoved, when the message is older
than the element. -/
def varData (c : Cursor) (layout : VarDataLayout) : Except SbeError (Option Bytes × Cursor) :=
  if c.version < layout.sinceVersion then .ok (none, c)
  else do
    let len ← readLength c.buf c.pos layout.length c.order
    let start ← checkedUsize (c.pos + layout.length.size)
    let data ← slice c.buf start len
    return (some data, { c with pos := start + len })

/-- Walks past `varData` elements. -/
def skipVarData (c : Cursor) : List VarDataLayout → Except SbeError Cursor
  | [] => .ok c
  | v :: vs => do
    let (_, c) ← c.varData v
    c.skipVarData vs

end Cursor

namespace Group

variable (tail : Cursor → Except SbeError Cursor)

/-- Has an entry anything on the wire after its block? -/
def hasTail (g : Group) : Bool :=
  g.layout.groups.any (fun n => n.sinceVersion ≤ g.cur.version) ||
    g.layout.varData.any (fun v => v.sinceVersion ≤ g.cur.version)

def skipPendingTail (g : Group) : Except SbeError Group :=
  if g.tailPending then do
    let cur ← tail g.cur
    return { g with cur := cur, tailPending := false }
  else .ok g

/-- The next entry, or `none` after the last. -/
def nextEntry (g : Group) : Except SbeError (Option Entry × Group) := do
  let g ← g.skipPendingTail tail
  if g.remaining = 0 then return (none, g)
  else do
    let bytes ← slice g.cur.buf g.cur.pos g.blockLength
    let cur := { g.cur with pos := g.cur.pos + g.blockLength }
    let g := { g with cur := cur, remaining := g.remaining - 1 }
    return (some ⟨bytes, cur⟩, { g with tailPending := g.hasTail })

/-- What `nextEntry` leaves of the group, also when it fails. -/
def afterNext (g : Group) : Group :=
  match g.skipPendingTail tail with
  | .error _ => g
  | .ok g =>
    if g.remaining = 0 then g
    else match slice g.cur.buf g.cur.pos g.blockLength with
      | .error _ => g
      | .ok _ =>
        let cur := { g.cur with pos := g.cur.pos + g.blockLength }
        { g with cur := cur, remaining := g.remaining - 1, tailPending := g.hasTail }

/-- `while self.next_entry()?.is_some() {}`; each entry is one less that remains, so `fuel` above
`remaining` never runs out. -/
def drain : ℕ → Group → Except SbeError Group
  | 0, g => .ok g
  | fuel + 1, g => do
    let (entry, g) ← g.nextEntry tail
    if entry.isSome then drain fuel g else return g

/-- Walks past every entry not yet read. -/
def finish (g : Group) : Except SbeError Cursor := do
  let g ← g.skipPendingTail tail
  if g.hasTail then do
    let g ← g.drain tail (g.remaining + 1)
    let g ← g.skipPendingTail tail
    return g.cur
  else do
    -- entries of a fixed size, skipped in one step
    let skip ← checkedUsize (g.blockLength * g.remaining)
    let _ ← slice g.cur.buf g.cur.pos skip
    return { g.cur with pos := g.cur.pos + skip }

end Group

mutual

/-- Walks past group `layout` without reading it. -/
def Cursor.skipGroup : GroupLayout → Cursor → Except SbeError Cursor
  | .mk since dimension groups varData, c => do
    let g ← c.group (.mk since dimension groups varData)
    g.finish fun c => do
      let c ← Cursor.skipGroups groups c
      c.skipVarData varData

/-- Walks past groups, in schema order. -/
def Cursor.skipGroups : List GroupLayout → Cursor → Except SbeError Cursor
  | [], c => .ok c
  | g :: gs, c => do
    let c ← Cursor.skipGroup g c
    Cursor.skipGroups gs c

end

/-- Walks past the nested groups and `varData` of a block. -/
def Cursor.skipTail (groups : List GroupLayout) (varData : List VarDataLayout) (c : Cursor) :
    Except SbeError Cursor := do
  let c ← Cursor.skipGroups groups c
  c.skipVarData varData

/-- One SBE message, borrowed from the caller's buffer. -/
structure SbeView where
  buf : Bytes
  blockOffset : ℕ
  templateId : ℕ
  schemaId : ℕ
  version : ℕ
deriving DecidableEq, Repr

namespace SbeView

/-- Decodes the header at the start of `buf`, which must hold the root block too. -/
def new (buf : Bytes) (order : ByteOrder) : Except SbeError SbeView := do
  let h ← MessageHeader.decode buf order
  let _ ← slice buf HEADER_LEN h.blockLength
  return ⟨buf, HEADER_LEN, h.templateId, h.schemaId, h.version⟩

/-- The header's `blockLength`. -/
def blockLength (v : SbeView) (order : ByteOrder) : Except SbeError ℕ := readU16 v.buf 0 order

/-- Offset of the first byte after the root block. -/
def rootEnd (v : SbeView) (order : ByteOrder) : Except SbeError ℕ := do
  let len ← v.blockLength order
  checkedUsize (v.blockOffset + len)

/-- A cursor at the first byte after the root block. -/
def tail (v : SbeView) (S : Schema) : Except SbeError Cursor := do
  let pos ← v.rootEnd S.byteOrder
  return ⟨v.buf, pos, S.byteOrder, v.version⟩

end SbeView

/-- Reads the header at the front of `buf` into `scratch` and measures the whole message. -/
def parse (S : Schema) (buf : Bytes) (scratch : MessageHeader) :
    MessageHeader × Except SbeError Parsed :=
  if buf.length < HEADER_LEN then (scratch, .ok .incomplete)
  else match MessageHeader.decode buf S.byteOrder with
    | .error e => (scratch, .error e)
    | .ok h =>
      if h.schemaId ≠ S.id then (h, .error .wrongSchema)
      else match S.message h.templateId with
        | none => (h, .error .unknownTemplate)
        | some layout =>
          let end_ := do
            let view ← SbeView.new buf S.byteOrder
            let tail ← view.tail S
            tail.skipTail layout.groups layout.varData
          match end_ with
          | .ok c => (h, .ok (.complete c.pos))
          | .error .truncated => (h, .ok .incomplete)
          | .error e => (h, .error e)

end Fixbolt.Sbe
