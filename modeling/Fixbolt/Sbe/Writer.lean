import Fixbolt.Sbe.Encode
import Fixbolt.Sbe.Group

/-!
# Writing groups and `varData`

`MessageWriter`, `GroupWriter` and `EntryWriter` with all that they write. The source runs a closure
of the caller on the writer of a group or of an entry; a closure is here the tree of the calls it
makes, each with what it does next, given what the call answered.

A call that fails answers an error and leaves the writer where it got to, so what a call makes of the
writer is answered beside its result. A writer also says what the accepted calls add up to, of which
the source keeps only the bytes.
-/

namespace Fixbolt.Sbe

/-! ### Tables -/

/-- A `<data>` with its schema id. -/
structure VarDataSpec where
  id : UInt16
  layout : VarDataLayout

/-- A `<group>` with all that a writer reads of it. -/
inductive GroupSpec where
  | mk (id : UInt16) (sinceVersion : ℕ) (dimension : DimensionLayout) (blockLength : UInt16)
    (fields : List FieldLayout) (groups : List GroupSpec) (varData : List VarDataSpec)

namespace GroupSpec

def id : GroupSpec → UInt16
  | mk id _ _ _ _ _ _ => id

def dimension : GroupSpec → DimensionLayout
  | mk _ _ d _ _ _ _ => d

def blockLength : GroupSpec → UInt16
  | mk _ _ _ len _ _ _ => len

def fields : GroupSpec → List FieldLayout
  | mk _ _ _ _ fs _ _ => fs

def groups : GroupSpec → List GroupSpec
  | mk _ _ _ _ _ gs _ => gs

def varData : GroupSpec → List VarDataSpec
  | mk _ _ _ _ _ _ vs => vs

mutual

/-- What a reader reads of a group's table. -/
def layout : GroupSpec → GroupLayout
  | mk _ since d _ _ gs vs => .mk since d (layouts gs) (vs.map (·.layout))

def layouts : List GroupSpec → List GroupLayout
  | [] => []
  | g :: gs => g.layout :: layouts gs

end

end GroupSpec

/-- A `<message>` with all that a writer reads of it. -/
structure MessageSpec where
  blockLength : UInt16
  fields : List FieldLayout
  groups : List GroupSpec
  varData : List VarDataSpec

/-- What is read of it before the first call. -/
def MessageSpec.table (m : MessageSpec) : MessageTable :=
  ⟨m.blockLength, m.fields, m.groups.map fun g => ⟨g.blockLength, g.dimension⟩,
    m.varData.map (·.layout)⟩

/-- A compiled schema. -/
structure SchemaSpec where
  id : UInt16
  version : UInt16
  byteOrder : ByteOrder
  message : UInt16 → Option MessageSpec

/-- The schema to start a message with. -/
def SchemaSpec.table (S : SchemaSpec) : SchemaTable :=
  ⟨S.id, S.version, S.byteOrder, fun t => (S.message t).map (·.table)⟩

/-- The schema that a reader reads. -/
def SchemaSpec.schema (S : SchemaSpec) : Schema where
  id := S.id.toNat
  byteOrder := S.byteOrder
  message t := (S.message t.toUInt16).map fun m =>
    ⟨GroupSpec.layouts m.groups, m.varData.map (·.layout)⟩

/-! ### What is written -/

/-- A block with the entries of each of its groups and with its `varData`. -/
inductive Body where
  | mk (block : Bytes) (groups : List (List Body)) (varData : List Bytes)

namespace Body

def block : Body → Bytes
  | mk b _ _ => b

def groups : Body → List (List Body)
  | mk _ gs _ => gs

def varData : Body → List Bytes
  | mk _ _ vs => vs

end Body

/-- What a call answers. -/
abbrev Answer := Except SbeError Unit

mutual

/-- The calls on the writer of a message or of an entry. -/
inductive BodyCalls where
  /-- No further call: the closure answers. -/
  | answer (r : Answer)
  | putBytes (field : FieldLayout) (bytes : Bytes) (next : Answer → BodyCalls)
  | putElement (field : FieldLayout) (index : ℕ) (value : Option Value) (next : Answer → BodyCalls)
  | group (id : UInt16) (entries : GroupCalls) (next : Answer → BodyCalls)
  | varData (id : UInt16) (bytes : Bytes) (next : Answer → BodyCalls)

/-- The calls on the writer of a group. -/
inductive GroupCalls where
  | answer (r : Answer)
  | entry (body : BodyCalls) (next : Answer → GroupCalls)

end

/-! ### The tail of a block -/

/-- A block that is being written, and its tail. -/
structure BodyWriter where
  start : ℕ
  len : ℕ
  pos : ℕ
  nextGroup : ℕ
  nextVar : ℕ
  /-- What the block is, the groups and the `varData` behind it. -/
  block : Bytes
  groups : List (List Body)
  varData : List Bytes

/-- Writes group `g`'s dimension. -/
def writeDimension (at_ : ℕ) (g : GroupSpec) (count : ℕ) (order : ByteOrder) : Write Unit := do
  writeLength at_ g.dimension.blockLength g.blockLength.toNat order
  writeLength (at_ + g.dimension.blockLength.size) g.dimension.numInGroup count order

namespace BodyWriter

/-- A block of `len` bytes at `start` with nothing behind it. -/
def new (start len : ℕ) (block : Bytes) : BodyWriter := ⟨start, len, start + len, 0, 0, block, [], []⟩

/-- What has been written. -/
def body (w : BodyWriter) : Body := .mk w.block w.groups w.varData

/-- Writes into the block. -/
def inBlock (w : BodyWriter) (x : Write Unit) : Write (Answer × BodyWriter) := do
  let r ← (sliceMut w.start w.len x).attempt
  return (r, { w with block := (x.run w.block).2 })

def putBytes (w : BodyWriter) (field : FieldLayout) (bytes : Bytes) : Write (Answer × BodyWriter) :=
  if bytes.length ≠ field.len.toNat then pure (.error .wrongLength, w)
  else w.inBlock ((writeSlice field.offset.toNat bytes).mapError fun _ => .fieldOutsideBlock)

def putElement (w : BodyWriter) (field : FieldLayout) (index : ℕ) (value : Option Value)
    (order : ByteOrder) : Write (Answer × BodyWriter) :=
  match field.elements[index]? with
  | none => pure (.error .noSuchElement, w)
  | some e => w.inBlock (writeElement field e value order)

variable (order : ByteOrder) (groups : List GroupSpec) (varData : List VarDataSpec)

/-- Writes an empty group for every group not yet written. The first argument is how many there are
before the one to stop at. -/
def emptyGroups : ℕ → BodyWriter → Write (Answer × BodyWriter)
  | 0, w => pure (.ok (), w)
  | left + 1, w =>
    match groups[w.nextGroup]? with
    | none => pure (.error .unknownField, w)
    | some g => do
      let r ← (writeDimension w.pos g 0 order).attempt
      match r with
      | .error e => pure (.error e, w)
      | .ok () =>
        emptyGroups left
          { w with
            pos := w.pos + g.dimension.size, nextGroup := w.nextGroup + 1
            groups := w.groups ++ [[]] }

/-- Writes an empty `varData` for every one not yet written. -/
def emptyVarData : ℕ → BodyWriter → Write (Answer × BodyWriter)
  | 0, w => pure (.ok (), w)
  | left + 1, w =>
    match varData[w.nextVar]? with
    | none => pure (.error .unknownField, w)
    | some v => do
      let r ← (writeLength w.pos v.layout.length 0 order).attempt
      match r with
      | .error e => pure (.error e, w)
      | .ok () =>
        emptyVarData left
          { w with
            pos := w.pos + v.layout.length.size, nextVar := w.nextVar + 1
            varData := w.varData ++ [[]] }

/-- Empty groups up to `upto`. -/
def emptyGroupsUntil (upto : ℕ) (w : BodyWriter) : Write (Answer × BodyWriter) :=
  w.emptyGroups order groups (upto - w.nextGroup)

/-- Empty `varData` up to `upto`. -/
def emptyVarDataUntil (upto : ℕ) (w : BodyWriter) : Write (Answer × BodyWriter) :=
  w.emptyVarData order varData (upto - w.nextVar)

/-- One thing after another, while they answer without an error. -/
def andThen {α : Type} (x : Write (Answer × BodyWriter))
    (next : BodyWriter → Write (Except SbeError α × BodyWriter)) :
    Write (Except SbeError α × BodyWriter) := do
  let (r, w) ← x
  match r with
  | .error e => pure (.error e, w)
  | .ok () => next w

/-- Writes the dimension of group `id`, without entries for now, after closing every earlier group.
Answers the group and where its count is. -/
def openGroup (id : UInt16) (w : BodyWriter) : Write (Except SbeError (GroupSpec × ℕ) × BodyWriter) :=
  match groups.findIdx? (·.id == id) with
  | none => pure (.error .unknownField, w)
  | some idx =>
    if idx < w.nextGroup ∨ 0 < w.nextVar then pure (.error .outOfOrder, w)
    else andThen (w.emptyGroupsUntil order groups idx) fun w =>
      match groups[idx]? with
      | none => pure (.error .unknownField, w)
      | some g => do
        let r ← (writeDimension w.pos g 0 order).attempt
        match r with
        | .error e => pure (.error e, w)
        | .ok () =>
          pure (.ok (g, w.pos + g.dimension.blockLength.size),
            { w with pos := w.pos + g.dimension.size, nextGroup := idx + 1 })

/-- Writes `varData` `id`, after every group and every earlier `varData`. -/
def putVarData (id : UInt16) (bytes : Bytes) (w : BodyWriter) : Write (Answer × BodyWriter) :=
  match varData.findIdx? (·.id == id) with
  | none => pure (.error .unknownField, w)
  | some idx =>
    if idx < w.nextVar then pure (.error .outOfOrder, w)
    else match varData[idx]? with
      | none => pure (.error .unknownField, w)
      | some v =>
        if 256 ^ v.layout.length.size ≤ bytes.length then pure (.error .lengthOverflow, w)
        else andThen (w.emptyGroupsUntil order groups groups.length) fun w =>
          andThen (w.emptyVarDataUntil order varData idx) fun w => do
            let start := w.pos + v.layout.length.size
            let r ← (do
              writeLength w.pos v.layout.length bytes.length order
              writeSlice start bytes : Write Unit).attempt
            match r with
            | .error e => pure (.error e, w)
            | .ok () =>
              pure (.ok (),
                { w with
                  pos := start + bytes.length, nextVar := idx + 1
                  varData := w.varData ++ [bytes] })

/-- Writes everything not yet written, empty. -/
def close (w : BodyWriter) : Write (Answer × BodyWriter) :=
  andThen (w.emptyGroupsUntil order groups groups.length) fun w =>
    w.emptyVarDataUntil order varData varData.length

end BodyWriter

/-! ### Groups and entries -/

/-- A group that is being written; its layout and the place of its count do not change. -/
structure GroupWriter where
  pos : ℕ
  count : ℕ
  /-- The entries that were accepted. -/
  entries : List Body

/-- Appends one entry: its initial block, what `closure` makes of it, its tail closed, and the count
rewritten. After an error the entry is undone. -/
def GroupWriter.entry (order : ByteOrder) (g : GroupSpec) (countAt : ℕ)
    (closure : BodyWriter → Write (Answer × BodyWriter)) (w : GroupWriter) :
    Write (Answer × GroupWriter) :=
  let next := w.count + 1
  if 256 ^ g.dimension.numInGroup.size ≤ next then pure (.error .lengthOverflow, w)
  else do
    let len := g.blockLength.toNat
    let begun ← (initBlock w.pos len g.fields order).attempt
    match begun with
    | .error e => pure (.error e, w)
    | .ok () => do
      let initial := ((writeNulls g.fields order).run (List.replicate len 0)).2
      let (r, e) ← BodyWriter.andThen (closure (.new w.pos len initial))
        (·.close order g.groups g.varData)
      match r with
      | .error err => pure (.error err, w)
      | .ok () => do
        let counted ← (writeLength countAt g.dimension.numInGroup next order).attempt
        match counted with
        | .error err => pure (.error err, w)
        | .ok () => pure (.ok (), ⟨e.pos, next, w.entries ++ [e.body]⟩)

mutual

/-- The calls of a closure on a block and its tail. -/
def BodyCalls.run (order : ByteOrder) (groups : List GroupSpec) (varData : List VarDataSpec) :
    BodyCalls → BodyWriter → Write (Answer × BodyWriter)
  | .answer r, w => pure (r, w)
  | .putBytes field bytes next, w => do
    let (r, w) ← w.putBytes field bytes
    (next r).run order groups varData w
  | .putElement field index value next, w => do
    let (r, w) ← w.putElement field index value order
    (next r).run order groups varData w
  | .group id entries next, w => do
    let (opened, w) ← w.openGroup order groups id
    match opened with
    | .error e => (next (.error e)).run order groups varData w
    | .ok (g, countAt) => do
      let (r, v) ← entries.run order g countAt ⟨w.pos, 0, []⟩
      (next r).run order groups varData
        { w with pos := v.pos, groups := w.groups ++ [v.entries] }
  | .varData id bytes next, w => do
    let (r, w) ← w.putVarData order groups varData id bytes
    (next r).run order groups varData w

/-- The calls of a closure on a group. -/
def GroupCalls.run (order : ByteOrder) (g : GroupSpec) (countAt : ℕ) :
    GroupCalls → GroupWriter → Write (Answer × GroupWriter)
  | .answer r, w => pure (r, w)
  | .entry body next, w => do
    let (r, w) ← w.entry order g countAt (body.run order g.groups g.varData)
    (next r).run order g countAt w

end

/-- A message with groups and `varData`: started, the calls one after another, and closed. Answers
its length and what was written. A caller that answers an error gives the message up. -/
def writeBody (S : SchemaSpec) (templateId : UInt16) (calls : BodyCalls) : Write (ℕ × Body) :=
  match S.message templateId with
  | none => .fail .unknownTemplate
  | some layout => do
    let _ ← MessageWriter.new S.table templateId
    let len := layout.blockLength.toNat
    let initial := ((writeNulls layout.fields S.byteOrder).run (List.replicate len 0)).2
    let (r, w) ← BodyWriter.andThen
      (calls.run S.byteOrder layout.groups layout.varData (.new HEADER_LEN len initial))
      (·.close S.byteOrder layout.groups layout.varData)
    match r with
    | .error e => .fail e
    | .ok () => return (w.pos, w.body)

/-! ### Reading it back -/

/-- A reader that goes over a group with `nextEntry`, and over each entry's tail on a copy of the
cursor. The first argument bounds the turns. -/
def Group.readEntries (skip : Cursor → Except SbeError Cursor)
    (readTail : Cursor → Except SbeError ((List (List Body) × List Bytes) × Cursor)) :
    ℕ → Group → Except SbeError (List Body × Group)
  | 0, g => .ok ([], g)
  | turns + 1, g => do
    let (entry, g) ← g.nextEntry skip
    match entry with
    | none => .ok ([], g)
    | some e => do
      let (tail, _) ← readTail e.tail
      let (entries, g) ← g.readEntries skip readTail turns
      .ok (.mk e.block tail.1 tail.2 :: entries, g)

/-- A reader of `varData` in schema order. -/
def Cursor.readVarData : List VarDataLayout → Cursor → Except SbeError (List Bytes × Cursor)
  | [], c => .ok ([], c)
  | v :: vs, c => do
    let (data, c) ← c.varData v
    let (others, c) ← Cursor.readVarData vs c
    .ok (data.getD [] :: others, c)

mutual

/-- A reader of a group: opened, its entries read, and finished. -/
def Cursor.readGroup : GroupLayout → Cursor → Except SbeError (List Body × Cursor)
  | .mk since dimension groups varData, c => do
    let g ← c.group (.mk since dimension groups varData)
    let skip := Cursor.skipTail groups varData
    let (entries, g) ← g.readEntries skip
      (fun c => do
        let (gs, c) ← Cursor.readGroups groups c
        let (vs, c) ← c.readVarData varData
        .ok ((gs, vs), c))
      (g.remaining + 1)
    let c ← g.finish skip
    .ok (entries, c)

/-- A reader of groups in schema order. -/
def Cursor.readGroups : List GroupLayout → Cursor → Except SbeError (List (List Body) × Cursor)
  | [], c => .ok ([], c)
  | g :: gs, c => do
    let (entries, c) ← Cursor.readGroup g c
    let (others, c) ← Cursor.readGroups gs c
    .ok (entries :: others, c)

end

/-- A reader of groups, then of `varData`. -/
def Cursor.readTail (groups : List GroupLayout) (varData : List VarDataLayout) (c : Cursor) :
    Except SbeError ((List (List Body) × List Bytes) × Cursor) := do
  let (gs, c) ← Cursor.readGroups groups c
  let (vs, c) ← c.readVarData varData
  .ok ((gs, vs), c)

/-- The root block, as long as the header says. -/
def SbeView.root (v : SbeView) (order : ByteOrder) : Except SbeError Bytes := do
  let len ← v.blockLength order
  slice v.buf v.blockOffset len

/-- A reader of a whole message. -/
def readBody (S : Schema) (layout : MessageLayout) (buf : Bytes) : Except SbeError Body := do
  let view ← SbeView.new buf S.byteOrder
  let block ← view.root S.byteOrder
  let cursor ← view.tail S
  let ((groups, varData), _) ← cursor.readTail layout.groups layout.varData
  .ok (.mk block groups varData)

end Fixbolt.Sbe
