import Fixbolt.Lib.Writing
import Fixbolt.Sbe.Wire

/-!
# Writing SBE messages

`MessageWriter` writes a header and a root block, and closes the message: every group and `varData`
that was not written is written empty. `SbeTemplate` is a skeleton laid out once, with presets, that
is copied and patched with slots for each message.

The tables here have what a writer reads of them: the fields inside a block, their elements, and the
block lengths. Groups and `varData` that carry something are left out, as a template has none.

A floating value is its bits.
-/

namespace Fixbolt.Sbe

/-- A program over the bytes of a message. -/
abbrev Write := Writing UInt8 SbeError

/-- `v` in `size` bytes. -/
def ByteOrder.bytes : ByteOrder → ℕ → ℕ → Bytes
  | little, size, v => toLe size v
  | big, size, v => (toLe size v).reverse

/-- Copies `src` to `at_`, or `bufferTooSmall` with nothing written. -/
def writeSlice (at_ : ℕ) (src : Bytes) : Write Unit := .put .bufferTooSmall at_ src

/-- Fills `len` bytes at `at_` with `byte`. -/
def fill (at_ len : ℕ) (byte : UInt8) : Write Unit := writeSlice at_ (List.replicate len byte)

/-- Writes an unsigned `v` of `size` bytes at `at_`. -/
def writeUnsigned (at_ size v : ℕ) (order : ByteOrder) : Write Unit :=
  writeSlice at_ (order.bytes size v)

/-- `len` bytes at `at_`, mutably. -/
def sliceMut {α : Type} (at_ len : ℕ) (x : Write α) : Write α := x.within .bufferTooSmall at_ len

/-- Writes a length or count `v` of width `t`, or `lengthOverflow` when it does not fit. -/
def writeLength (at_ : ℕ) (t : LengthType) (v : ℕ) (order : ByteOrder) : Write Unit :=
  if v < 256 ^ t.size then writeUnsigned at_ t.size v order else .fail .lengthOverflow

/-- Writes the header into the first bytes. -/
def MessageHeader.encode (h : MessageHeader) (order : ByteOrder) : Write Unit := do
  .require .bufferTooSmall HEADER_LEN
  writeUnsigned 0 2 h.blockLength order
  writeUnsigned 2 2 h.templateId order
  writeUnsigned 4 2 h.schemaId order
  writeUnsigned 6 2 h.version order

/-! ### Tables -/

/-- An SBE primitive type. -/
inductive Primitive where
  | char
  | int8
  | int16
  | int32
  | int64
  | uint8
  | uint16
  | uint32
  | uint64
  | float
  | double
deriving DecidableEq, Repr

/-- Size of one value on the wire, in bytes. -/
def Primitive.size : Primitive → ℕ
  | char | int8 | uint8 => 1
  | int16 | uint16 => 2
  | int32 | uint32 | float => 4
  | int64 | uint64 | double => 8

/-- A value, widened. -/
inductive Value where
  | char (c : UInt8)
  | int (i : Int64)
  | uint (u : UInt64)
  | float (bits : UInt64)
  | array (bytes : Bytes)
deriving DecidableEq

/-! #### Floating values by their bits -/

/-- The bits of a double without its sign. -/
def magnitude (bits : UInt64) : UInt64 := bits &&& 0x7FFFFFFFFFFFFFFF

def isNan (bits : UInt64) : Bool := 0x7FF0000000000000 < magnitude bits

def isFinite (bits : UInt64) : Bool := magnitude bits < 0x7FF0000000000000

/-- `==` on doubles: NaN is nothing's equal, and the two zeros are equal. -/
def floatEq (a b : UInt64) : Bool :=
  !isNan a && !isNan b && (a == b || (magnitude a == 0 && magnitude b == 0))

/-- The greatest finite `f32`, as a double. -/
def F32_MAX : UInt64 := 0x47EFFFFFE0000000

/-- `m / 2 ^ shift`, to the nearest, ties to even. -/
def roundHalfEven (m shift : ℕ) : ℕ :=
  let q := m / 2 ^ shift
  let r := m % 2 ^ shift
  if 2 ^ shift < 2 * r ∨ (2 ^ shift = 2 * r ∧ q % 2 = 1) then q + 1 else q

/-- `f as f32`, in bits. -/
def asF32 (bits : UInt64) : ℕ :=
  let sign := bits.toNat / 2 ^ 63 * 2 ^ 31
  let fraction := bits.toNat % 2 ^ 52
  let exponent := bits.toNat / 2 ^ 52 % 2 ^ 11
  if exponent = 2047 then
    -- a NaN stays one, and is quiet
    sign + 0x7F800000 + if fraction = 0 then 0 else (fraction / 2 ^ 29) ||| 0x400000
  else
    let m := if exponent = 0 then fraction else 2 ^ 52 + fraction
    let e := max exponent 1
    let binade := e - 897
    sign + min (binade * 2 ^ 23 + roundHalfEven m (binade + 926 - e)) 0x7F800000

/-- `==` on values. -/
def Value.eq : Value → Value → Bool
  | float a, float b => floatEq a b
  | v, w => v == w

/-- Whether and how an element is present on the wire. -/
inductive Presence where
  | required
  | optional (null : Value)
  | constant (v : Value)

/-- One leaf of a field's encoding. -/
structure Element where
  offset : UInt16
  primitive : Primitive
  length : UInt16
  presence : Presence

/-- Bytes an element occupies on the wire. -/
def Element.wireLen (e : Element) : ℕ :=
  match e.presence with
  | .constant _ => 0
  | .required | .optional _ => e.primitive.size * e.length.toNat

/-- A `<field>` of a message. -/
structure FieldLayout where
  id : UInt16
  offset : UInt16
  len : UInt16
  elements : List Element

/-- What a writer reads of a group it writes empty. -/
structure GroupTable where
  blockLength : UInt16
  dimension : DimensionLayout

/-- A `<message>` to write. -/
structure MessageTable where
  blockLength : UInt16
  fields : List FieldLayout
  groups : List GroupTable
  varData : List VarDataLayout

/-- The root field with a schema id. -/
def MessageTable.field (m : MessageTable) (id : UInt16) : Option FieldLayout :=
  m.fields.find? fun f => f.id == id

/-- A compiled schema to write with. -/
structure SchemaTable where
  id : UInt16
  version : UInt16
  byteOrder : ByteOrder
  message : UInt16 → Option MessageTable

/-! ### Elements -/

/-- Writes a signed `i` of `size` bytes, or `badValue` when it does not fit. -/
def writeSigned (at_ size : ℕ) (i : Int64) (order : ByteOrder) : Write Unit :=
  if -(2 ^ (8 * size - 1)) ≤ i.toInt ∧ i.toInt < 2 ^ (8 * size - 1) then
    writeUnsigned at_ size (i.toInt % 2 ^ (8 * size)).toNat order
  else .fail .badValue

/-- Writes an unsigned `u` of `size` bytes, or `badValue` when it does not fit. -/
def writeFitting (at_ size : ℕ) (u : UInt64) (order : ByteOrder) : Write Unit :=
  if u.toNat < 256 ^ size then writeUnsigned at_ size u.toNat order else .fail .badValue

/-- Writes one scalar `v` of primitive `p` at `at_`. -/
def writeScalar (at_ : ℕ) (p : Primitive) (v : Value) (order : ByteOrder) : Write Unit :=
  match p, v with
  | .char, .char c => writeSlice at_ [c]
  | .int8, .int i => writeSigned at_ 1 i order
  | .int16, .int i => writeSigned at_ 2 i order
  | .int32, .int i => writeSigned at_ 4 i order
  | .int64, .int i => writeSigned at_ 8 i order
  | .uint8, .uint u => writeFitting at_ 1 u order
  | .uint16, .uint u => writeFitting at_ 2 u order
  | .uint32, .uint u => writeFitting at_ 4 u order
  | .uint64, .uint u => writeFitting at_ 8 u order
  | .float, .float f =>
    if isFinite f ∧ F32_MAX < magnitude f then .fail .badValue
    else writeUnsigned at_ 4 (asF32 f) order
  | .double, .float f => writeUnsigned at_ 8 f.toNat order
  | _, _ => .fail .badValue

/-- What runs out of room inside a block is outside it. -/
def outside : SbeError → SbeError
  | .bufferTooSmall => .fieldOutsideBlock
  | other => other

/-- Writes an element into its field's bytes: `none` is its null value. -/
def writeInField (e : Element) (value null : Option Value) (order : ByteOrder) : Write Unit :=
  let at_ := e.offset.toNat
  if e.length = 1 then
    match value.or null with
    | none => .fail .badValue
    | some v => (writeScalar at_ e.primitive v order).mapError outside
  else
    let n := e.wireLen
    let written : Write Unit :=
      match value, null with
      | some (.array b), _ => if b.length = n then writeSlice at_ b else .fail .badValue
      | some _, _ => .fail .badValue
      -- A char array is null when every byte is the null char.
      | none, some (.char c) => fill at_ n c
      | none, _ => .fail .badValue
    written.mapError outside

/-- Writes element `e` of field `f` into a block. -/
def writeElement (f : FieldLayout) (e : Element) (value : Option Value) (order : ByteOrder) :
    Write Unit :=
  let inField (null : Option Value) : Write Unit :=
    (sliceMut f.offset.toNat f.len.toNat (writeInField e value null order)).mapError outside
  match e.presence with
  | .constant c =>
    match value with
    | none => pure ()
    | some v => if v.eq c then pure () else .fail .badValue
  | .required => inField none
  | .optional null => inField (some null)

/-- The optional elements of a block, each set to its null value. -/
def writeNulls (fields : List FieldLayout) (order : ByteOrder) : Write Unit :=
  fields.forM fun f => f.elements.forM fun e =>
    match e.presence with
    | .optional _ => writeElement f e none order
    | _ => pure ()

/-- Zeroes the block at `start`, then sets every optional element to null. -/
def initBlock (start len : ℕ) (fields : List FieldLayout) (order : ByteOrder) : Write Unit :=
  sliceMut start len do
    fill 0 len 0
    writeNulls fields order

/-! ### The writer -/

/-- A root field's raw bytes. -/
def putBytes (blockLength : UInt16) (field : FieldLayout) (bytes : Bytes) : Write Unit :=
  if bytes.length ≠ field.len.toNat then .fail .wrongLength
  else sliceMut HEADER_LEN blockLength.toNat
    ((writeSlice field.offset.toNat bytes).mapError fun _ => .fieldOutsideBlock)

/-- Element `index` of a root field. -/
def putElement (blockLength : UInt16) (field : FieldLayout) (index : ℕ) (value : Option Value)
    (order : ByteOrder) : Write Unit :=
  match field.elements[index]? with
  | none => .fail .noSuchElement
  | some e => sliceMut HEADER_LEN blockLength.toNat (writeElement field e value order)

/-- Writes a group's dimension at `pos` with no entries, and answers where it ends. -/
def writeEmptyGroup (g : GroupTable) (order : ByteOrder) (pos : ℕ) : Write ℕ := do
  writeLength pos g.dimension.blockLength g.blockLength.toNat order
  writeLength (pos + g.dimension.blockLength.size) g.dimension.numInGroup 0 order
  return pos + g.dimension.size

/-- Writes a `varData` of no bytes at `pos`, and answers where it ends. -/
def writeEmptyVarData (v : VarDataLayout) (order : ByteOrder) (pos : ℕ) : Write ℕ := do
  writeLength pos v.length 0 order
  return pos + v.length.size

namespace MessageWriter

/-- Starts a message: the header and the initial root block. Answers the layout and where it ends. -/
def new (S : SchemaTable) (templateId : UInt16) : Write (MessageTable × ℕ) := do
  match S.message templateId with
  | none => .fail .unknownTemplate
  | some layout =>
    let header : MessageHeader :=
      ⟨layout.blockLength.toNat, templateId.toNat, S.id.toNat, S.version.toNat⟩
    header.encode S.byteOrder
    let len := layout.blockLength.toNat
    initBlock HEADER_LEN len layout.fields S.byteOrder
    return (layout, HEADER_LEN + len)

/-- Writes every group and `varData` empty, and answers the length of the message. -/
def finish (layout : MessageTable) (order : ByteOrder) (pos : ℕ) : Write ℕ := do
  let pos ← layout.groups.foldlM (fun pos g => writeEmptyGroup g order pos) pos
  layout.varData.foldlM (fun pos v => writeEmptyVarData v order pos) pos

end MessageWriter

/-- One put of a caller: the field is named by its schema id. -/
inductive Put where
  | bytes (id : UInt16) (bytes : Bytes)
  | element (id : UInt16) (index : ℕ) (value : Option Value)

/-- The put, into the root block of a message. -/
def Put.write (layout : MessageTable) (order : ByteOrder) : Put → Write Unit
  | bytes id raw =>
    match layout.field id with
    | none => .fail .unknownField
    | some field => putBytes layout.blockLength field raw
  | element id index value =>
    match layout.field id with
    | none => .fail .unknownField
    | some field => putElement layout.blockLength field index value order

/-- Puts one after another, with what each answers. -/
def attempts (layout : MessageTable) (order : ByteOrder) :
    List Put → Write (List (Except SbeError Unit))
  | [] => pure []
  | p :: ps => do
    let answer ← (p.write layout order).attempt
    let answers ← attempts layout order ps
    return answer :: answers

/-- A message written by hand: started, the puts one after another, and closed. -/
def writeMessage (S : SchemaTable) (templateId : UInt16) (puts : List Put) :
    Write (ℕ × List (Except SbeError Unit)) := do
  let (layout, pos) ← MessageWriter.new S templateId
  let answers ← attempts layout S.byteOrder puts
  let len ← MessageWriter.finish layout S.byteOrder pos
  return (len, answers)

/-! ### The flat template -/

/-- A message laid out once. -/
structure SbeTemplate where
  bytes : Bytes
  len : ℕ
  layout : MessageTable
  order : ByteOrder

namespace SbeTemplate

/-- A message started and closed. -/
def layOut (S : SchemaTable) (templateId : UInt16) : Write (MessageTable × ℕ) := do
  let (layout, pos) ← MessageWriter.new S templateId
  let len ← MessageWriter.finish layout S.byteOrder pos
  return (layout, len)

/-- Lays out a message in `N` bytes. -/
def new (S : SchemaTable) (N : ℕ) (templateId : UInt16) : Except SbeError SbeTemplate :=
  match (layOut S templateId).run (List.replicate N 0) with
  | (.ok (layout, len), bytes) => .ok ⟨bytes, len, layout, S.byteOrder⟩
  | (.error e, _) => .error e

/-- `set_bytes` and `set_element`: what they answer, and the template after them. -/
def set (t : SbeTemplate) (p : Put) : Except SbeError Unit × SbeTemplate :=
  let (r, bytes) := (p.write t.layout t.order).run t.bytes
  (r, { t with bytes })

/-- Presets one after another. -/
def sets (t : SbeTemplate) : List Put → List (Except SbeError Unit) × SbeTemplate
  | [] => ([], t)
  | p :: ps =>
    let (answer, t) := t.set p
    let (answers, t) := t.sets ps
    (answer :: answers, t)

/-- Is this slot one that can be written? -/
def checkSlot (t : SbeTemplate) (id : UInt16) (bytes : Bytes) : Except SbeError Unit :=
  match t.layout.field id with
  | none => .error .unknownField
  | some f =>
    if bytes.length ≠ f.len.toNat then .error .wrongLength
    else if t.layout.blockLength.toNat < f.offset.toNat + f.len.toNat then .error .fieldOutsideBlock
    else .ok ()

/-- Copies the skeleton to the front and writes each slot's bytes; answers the length. Every slot is
checked before anything is written. -/
def encode (t : SbeTemplate) (slots : List (UInt16 × Bytes)) : Write ℕ := do
  .lift (slots.forM fun (id, bytes) => t.checkSlot id bytes)
  .require .bufferTooSmall t.len
  writeSlice 0 (t.bytes.take t.len)
  slots.forM fun (id, bytes) => (Put.bytes id bytes).write t.layout t.order
  return t.len

end SbeTemplate

end Fixbolt.Sbe
