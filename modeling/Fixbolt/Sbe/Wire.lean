import Fixbolt.Codec.Index
import Fixbolt.Lib.LittleEndian

/-!
# The SBE wire and the tables of a schema

Bounds-checked reads in either byte order, the message header, and the layout tables a schema
compiles to. A read answers `SbeError.truncated` where the bytes run out, also where the place it
was asked for is past what a `usize` counts.

Of the tables only what the walk over a message reads is here: names, ids and the fields inside a
block say nothing about where a message ends.
-/

namespace Fixbolt.Sbe

/-- Why an SBE read or write did not complete. -/
inductive SbeError where
  | truncated
  | fieldOutsideBlock
  | wrongSchema
  | unknownTemplate
  | noSuchElement
  | bufferTooSmall
  | unknownField
  | wrongLength
  | badValue
  | lengthOverflow
  | outOfOrder
deriving DecidableEq, Repr

/-- The byte order a schema declares. -/
inductive ByteOrder where
  | little
  | big
deriving DecidableEq, Repr

/-- `usize` arithmetic that is checked. -/
def checkedUsize (n : ℕ) : Except SbeError ℕ := if n < usizeSize then .ok n else .error .truncated

/-- `len` bytes at `at_`. -/
def slice (buf : Bytes) (at_ len : ℕ) : Except SbeError Bytes := do
  let end_ ← checkedUsize (at_ + len)
  if end_ ≤ buf.length then pure ((buf.drop at_).take len) else throw .truncated

/-- The number that bytes are in a byte order. -/
def ByteOrder.number : ByteOrder → Bytes → ℕ
  | little, bytes => ofLe bytes
  | big, bytes => ofLe bytes.reverse

/-- The unsigned number of `size` bytes at `at_`. -/
def readUnsigned (buf : Bytes) (at_ size : ℕ) (order : ByteOrder) : Except SbeError ℕ :=
  (slice buf at_ size).map order.number

def readU8 (buf : Bytes) (at_ : ℕ) : Except SbeError ℕ :=
  match buf[at_]? with
  | some b => .ok b.toNat
  | none => .error .truncated

def readU16 (buf : Bytes) (at_ : ℕ) (order : ByteOrder) : Except SbeError ℕ :=
  readUnsigned buf at_ 2 order

def readU32 (buf : Bytes) (at_ : ℕ) (order : ByteOrder) : Except SbeError ℕ :=
  readUnsigned buf at_ 4 order

/-- Length of the message header on the wire. -/
def HEADER_LEN : ℕ := 8

/-- A decoded message header. -/
structure MessageHeader where
  blockLength : ℕ
  templateId : ℕ
  schemaId : ℕ
  version : ℕ
deriving DecidableEq, Repr

/-- The header in the first bytes of `buf`. -/
def MessageHeader.decode (buf : Bytes) (order : ByteOrder) : Except SbeError MessageHeader := do
  return {
    blockLength := ← readU16 buf 0 order
    templateId := ← readU16 buf 2 order
    schemaId := ← readU16 buf 4 order
    version := ← readU16 buf 6 order }

/-- Width of an unsigned length or count on the wire. -/
inductive LengthType where
  | u8
  | u16
  | u32
deriving DecidableEq, Repr

/-- Size on the wire, in bytes. -/
def LengthType.size : LengthType → ℕ
  | u8 => 1
  | u16 => 2
  | u32 => 4

/-- Reads a length or count of width `t`. -/
def readLength (buf : Bytes) (at_ : ℕ) (t : LengthType) (order : ByteOrder) : Except SbeError ℕ :=
  match t with
  | .u8 => readU8 buf at_
  | .u16 => readU16 buf at_ order
  | .u32 => readU32 buf at_ order

/-- The group dimension composite: `blockLength`, then `numInGroup`. -/
structure DimensionLayout where
  blockLength : LengthType
  numInGroup : LengthType
deriving DecidableEq, Repr

/-- Bytes the dimension occupies on the wire. -/
def DimensionLayout.size (d : DimensionLayout) : ℕ := d.blockLength.size + d.numInGroup.size

/-- A `<data>` element: a length prefix, then that many bytes. -/
structure VarDataLayout where
  length : LengthType
  sinceVersion : ℕ
deriving DecidableEq, Repr

/-- A `<group>`: its dimension, then per entry a block of fixed fields, the entry's nested groups
and its `varData`. -/
inductive GroupLayout where
  | mk (sinceVersion : ℕ) (dimension : DimensionLayout) (groups : List GroupLayout)
    (varData : List VarDataLayout)

namespace GroupLayout

def sinceVersion : GroupLayout → ℕ
  | mk since _ _ _ => since

def dimension : GroupLayout → DimensionLayout
  | mk _ d _ _ => d

def groups : GroupLayout → List GroupLayout
  | mk _ _ gs _ => gs

def varData : GroupLayout → List VarDataLayout
  | mk _ _ _ vs => vs

end GroupLayout

/-- A `<message>`: the root block's fields, then groups, then `varData`. -/
structure MessageLayout where
  groups : List GroupLayout
  varData : List VarDataLayout

/-- A compiled schema: its identity, its byte order and its messages. -/
structure Schema where
  id : ℕ
  byteOrder : ByteOrder
  message : ℕ → Option MessageLayout

end Fixbolt.Sbe
