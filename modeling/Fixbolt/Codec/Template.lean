import Fixbolt.Codec.Parse

/-!
# Outbound messages as a pre-sorted parts list

A `TemplateBuilder` collects fields and holes, `build` sorts them into wire order once and checks
the DATA rule, and `Template.encodeWith` fills the holes.

The scratch buffers of the source are byte lists here, with the room they take counted against
their capacity `S` wherever the source checks it. An index past a fixed buffer, which the source
does not check, is the error `EncodeError.indexOutOfBounds`.
-/

namespace Fixbolt

/-- Why a message could not be laid out or written. -/
inductive EncodeError where
  | outputTooSmall
  | bodyTooLong
  | tooManyParts
  | scratchFull
  | reservedTag (tag : ℕ)
  | unknownGroup (counter : ℕ)
  | notAGroupMember (tag : ℕ)
  | missingDelimiter (counter : ℕ)
  | msgTypeMissing
  | groupTooDeep
  | dataWithoutLength (tag : ℕ)
  /-- Not an error of the source: a subscript of the source out of its bounds. -/
  | indexOutOfBounds
deriving DecidableEq, Repr

/-- What is written at one place of a template. -/
inductive Part where
  /-- A run of encoded `tag=value` fields. -/
  | static (bytes : Bytes)
  /-- A hole, filled at send time or skipped. -/
  | slot (tag : ℕ)
  /-- A repeating group, filled at send time or skipped. -/
  | group (counter : ℕ)
  /-- The length field of a DATA slot. -/
  | dataLen (tag dataTag : ℕ)
deriving DecidableEq, Repr

/-- What an entry of a builder is. -/
inductive Kind where
  | static
  | slot
  | group
  | dataLen (dataTag : ℕ)
deriving DecidableEq, Repr

/-- One entry of a builder: for a static field, `bytes` is `tag=value` and its separator. -/
structure Entry where
  tag : ℕ
  bytes : Bytes
  kind : Kind
deriving DecidableEq, Repr

/-- A message skeleton with holes in it; `msgType` is the value of its static `35=`. -/
structure Template where
  beginString : Bytes
  msgType : Bytes
  parts : List Part
deriving DecidableEq, Repr

/-- One entry of a repeating group being written. -/
inductive GroupEntryData where
  | mk (fields : List (ℕ × Bytes)) (groups : List (ℕ × List GroupEntryData))

/-- A repeating group being written: its counter tag and its entries. -/
abbrev GroupData := ℕ × List GroupEntryData

/-- How deep groups may nest. -/
def maxDepth : ℕ := 8

/-- `tag=value` and its separator. -/
def encodeField (tag : ℕ) (value : Bytes) : Bytes := renderU32 tag ++ EQ :: value ++ [SOH]

/-! ### Collecting fields -/

/-- Collects fields: the bytes of scratch taken so far, the entries, and the first error. -/
structure TemplateBuilder where
  beginString : Bytes
  used : ℕ
  entries : List Entry
  err : Option EncodeError
deriving DecidableEq, Repr

/-- `8`, `9` and `10` are the frame and not fields. -/
def reserved (tag : ℕ) : Bool := tag == 8 || tag == 9 || tag == 10

namespace TemplateBuilder

variable (P S : ℕ)

/-- Take `n` more bytes of scratch. -/
def write (used n : ℕ) : Except EncodeError ℕ :=
  if S < used + n then .error .scratchFull
  else if u16Max < n then .error .scratchFull
  else .ok (used + n)

/-- Start a template for a `BeginString`. -/
def new (beginString : Bytes) : TemplateBuilder :=
  match write S 0 beginString.length with
  | .ok used => ⟨beginString, used, [], none⟩
  | .error e => ⟨[], 0, [], some e⟩

/-- Add one entry, at most `P` of them. -/
def entry (b : TemplateBuilder) (used : ℕ) (e : Entry) : Except EncodeError TemplateBuilder :=
  if P ≤ b.entries.length then .error .tooManyParts
  else .ok { b with used := used, entries := b.entries ++ [e] }

/-- The scratch a field takes, tag, value and separator written one after the other. -/
def writeField (used tag : ℕ) (value : Bytes) : Except EncodeError ℕ := do
  let used ← write S used ((renderU32 tag).length + 1)
  let used ← write S used value.length
  write S used 1

/-- The fallible half of `field`. -/
def pushField (b : TemplateBuilder) (tag : ℕ) (value : Bytes) :
    Except EncodeError TemplateBuilder :=
  if reserved tag then .error (.reservedTag tag)
  else do
    let used ← writeField S b.used tag value
    b.entry P used ⟨tag, encodeField tag value, .static⟩

/-- The fallible half of `slot` and of `group`. -/
def pushHole (b : TemplateBuilder) (tag : ℕ) (kind : Kind) : Except EncodeError TemplateBuilder :=
  if reserved tag then .error (.reservedTag tag)
  else b.entry P b.used ⟨tag, [], kind⟩

/-- Keep the first error. -/
def orErr (b : TemplateBuilder) : Except EncodeError TemplateBuilder → TemplateBuilder
  | .ok b' => b'
  | .error e => { b with err := some (b.err.getD e) }

/-- A field whose value never changes. -/
def field (b : TemplateBuilder) (tag : ℕ) (value : Bytes) : TemplateBuilder :=
  b.orErr (b.pushField P S tag value)

/-- A field supplied at send time. -/
def slot (b : TemplateBuilder) (tag : ℕ) : TemplateBuilder := b.orErr (b.pushHole P tag .slot)

/-- A repeating group hole. -/
def group (b : TemplateBuilder) (counter : ℕ) : TemplateBuilder :=
  b.orErr (b.pushHole P counter .group)

end TemplateBuilder

/-! ### Sorting into wire order -/

/-- Where a field sorts: `MsgType`, then header tags ascending, then body tags ascending, and a
DATA field one place behind its length field. -/
def sortKey (D : Dictionary) (tag : ℕ) : ℕ × ℕ × ℕ :=
  let rank := if tag = 35 then 0 else if D.isHeader tag then 1 else 2
  let place := if tag = 35 then 0 else tag
  match D.dataLengthTag tag with
  | some lenTag => if rank = 2 then (rank, lenTag, 1) else (rank, place, 0)
  | none => (rank, place, 0)

/-- Lexicographic order of sort keys. -/
def keyLt (a b : ℕ × ℕ × ℕ) : Bool :=
  a.1 < b.1 || a.1 == b.1 && (a.2.1 < b.2.1 || a.2.1 == b.2.1 && a.2.2 < b.2.2)

/-- Put an entry behind every entry whose key is not above its own: the source swaps it down
from the end of the sorted part. -/
def insertEntry (D : Dictionary) (e : Entry) : List Entry → List Entry
  | [] => [e]
  | x :: xs =>
    if keyLt (sortKey D e.tag) (sortKey D x.tag) then e :: x :: xs
    else x :: insertEntry D e xs

/-- The insertion sort of `build`. -/
def sortEntries (D : Dictionary) (es : List Entry) : List Entry :=
  es.foldl (fun sorted e => insertEntry D e sorted) []

/-! ### The DATA rule -/

/-- Bytes a `tag=` prefix occupies. -/
def tagPrefixLen (tag : ℕ) : ℕ := (renderU32 tag).length + 1

/-- The DATA rule for the `i`-th entry: its length field must be there, and is rewritten. -/
def fixLength (D : Dictionary) (S : ℕ) (used : ℕ) (es : List Entry) (i : ℕ) :
    Except EncodeError (ℕ × List Entry) :=
  match es[i]? with
  | none => .ok (used, es)
  | some e =>
    match D.dataLengthTag e.tag with
    | none => .ok (used, es)
    | some lenTag =>
      match es.findIdx? (·.tag == lenTag) with
      | none => .error (.dataWithoutLength e.tag)
      | some j =>
        match e.kind with
        | .static =>
          let text := renderU32 (e.bytes.length - (tagPrefixLen e.tag + 1))
          match TemplateBuilder.writeField S used lenTag text with
          | .error _ => .error .scratchFull
          | .ok used' =>
            .ok (used', es.modify j fun x =>
              { x with bytes := encodeField lenTag text, kind := .static })
        | _ => .ok (used, es.modify j fun x => { x with kind := .dataLen e.tag })

/-- The DATA rule, entry after entry. -/
def fixLengths (D : Dictionary) (S : ℕ) (used : ℕ) (es : List Entry) :
    Except EncodeError (ℕ × List Entry) :=
  (List.range es.length).foldlM (fun acc i => fixLength D S acc.1 acc.2 i) (used, es)

/-! ### Laying out the parts -/

/-- The template under construction: static bytes taken, parts so far, `MsgType`, and whether a
group was seen. -/
structure Layout where
  used : ℕ
  parts : List Part
  msgType : Bytes
  hasGroup : Bool
deriving DecidableEq, Repr

/-- Append a static run, merging it with a static run in front of it. -/
def appendStatic (P : ℕ) (parts : List Part) (bytes : Bytes) : Except EncodeError (List Part) :=
  match parts.getLast? with
  | some (.static before) => .ok (parts.dropLast ++ [.static (before ++ bytes)])
  | _ => if P ≤ parts.length then .error .tooManyParts else .ok (parts ++ [.static bytes])

/-- Append a hole. -/
def appendHole (P : ℕ) (parts : List Part) (part : Part) : Except EncodeError (List Part) :=
  if P ≤ parts.length then .error .tooManyParts else .ok (parts ++ [part])

/-- Lay out one entry. -/
def layEntry (P S : ℕ) (l : Layout) (e : Entry) : Except EncodeError Layout :=
  match e.kind with
  | .static =>
    if S < l.used + e.bytes.length then .error .scratchFull
    else do
      let parts ← appendStatic P l.parts e.bytes
      let msgType := if e.tag = 35 then (e.bytes.drop 3).take (e.bytes.length - 4) else l.msgType
      .ok { l with used := l.used + e.bytes.length, parts := parts, msgType := msgType }
  | .group => do
    let parts ← appendHole P l.parts (.group e.tag)
    .ok { l with parts := parts, hasGroup := true }
  | .dataLen dataTag => do
    let parts ← appendHole P l.parts (.dataLen e.tag dataTag)
    .ok { l with parts := parts }
  | .slot => do
    let parts ← appendHole P l.parts (.slot e.tag)
    .ok { l with parts := parts }

/-- Sort into wire order and freeze. -/
def TemplateBuilder.build (D : Dictionary) (P S : ℕ) (b : TemplateBuilder) :
    Except EncodeError Template :=
  match b.err with
  | some e => .error e
  | none =>
    if S < b.beginString.length then .error .scratchFull
    else do
      let (_, es) ← fixLengths D S b.used (sortEntries D b.entries)
      let l ← es.foldlM (layEntry P S) ⟨b.beginString.length, [], [], false⟩
      if l.hasGroup && l.msgType.isEmpty then .error .msgTypeMissing
      else if 255 < l.parts.length then .error .tooManyParts
      else .ok ⟨b.beginString, l.msgType, l.parts⟩

/-! ### Writing a message -/

/-- The value supplied for a tag. -/
def slotValue (slots : List (ℕ × Bytes)) (tag : ℕ) : Option Bytes :=
  (slots.find? fun s => s.1 == tag).map (·.2)

/-- Write bytes behind `w`, the bytes written so far, into an output of `room` bytes. -/
def putBytes (room : ℕ) (w : Bytes) (bytes : Bytes) : Except EncodeError Bytes :=
  if room < w.length + bytes.length then .error .outputTooSmall else .ok (w ++ bytes)

/-- Write one field behind `w`. -/
def put (room : ℕ) (w : Bytes) (tag : ℕ) (value : Bytes) : Except EncodeError Bytes :=
  putBytes room w (encodeField tag value)

/-- The DATA member this tag is the length of, if the group has one. -/
def dataOwner (D : Dictionary) (order : List ℕ) (tag : ℕ) : Option ℕ :=
  order.find? fun t => D.dataLengthTag t == some tag

/-- What is wrong with an entry before a byte of it is written. -/
def entryFault (D : Dictionary) (order : List ℕ) (counter : ℕ) (fields : List (ℕ × Bytes))
    (groups : List (ℕ × List GroupEntryData)) : Option EncodeError :=
  match fields.find? fun f => !order.contains f.1 with
  | some f => some (.notAGroupMember f.1)
  | none =>
    match groups.find? fun g => !order.contains g.1 with
    | some g => some (.notAGroupMember g.1)
    | none =>
      match order.head? with
      | none => some (.unknownGroup counter)
      | some delimiter =>
        if !fields.any (fun f => f.1 == delimiter) then some (.missingDelimiter counter)
        else
          match fields.find? fun f =>
              match D.dataLengthTag f.1 with
              | some lenTag => !order.contains lenTag
              | none => false with
          | some f => some (.dataWithoutLength f.1)
          | none => none

/-- Write one entry of a group, in the dictionary's order; `sub` writes a nested group. -/
def putEntry (D : Dictionary) (room : ℕ) (sub : Bytes → GroupData → Except EncodeError Bytes)
    (counter : ℕ) (order : List ℕ) (w : Bytes) : GroupEntryData → Except EncodeError Bytes
  | .mk fields groups =>
    match entryFault D order counter fields groups with
    | some e => .error e
    | none => order.foldlM (fun w tag =>
        match slotValue fields tag with
        | some v =>
          match (dataOwner D order tag).bind (slotValue fields) with
          | some data => put room w tag (renderU32 data.length)
          | none => put room w tag v
        | none =>
          match groups.find? fun g => g.1 == tag with
          | some g => sub w g
          | none => .ok w) w

/-- Write a group: its counter and its entries. The first argument counts the levels still
allowed. -/
def putGroup (D : Dictionary) (room : ℕ) (msgType : Bytes) :
    ℕ → Bytes → GroupData → Except EncodeError Bytes
  | 0, _, _ => .error .groupTooDeep
  | levels + 1, w, g =>
    let order := D.groupOrder msgType g.1
    if order.isEmpty then .error (.unknownGroup g.1)
    else do
      let w ← put room w g.1 (renderU32 g.2.length)
      g.2.foldlM (putEntry D room (putGroup D room msgType levels) g.1 order) w

namespace Template

/-- Bytes kept in front of the body for `8=`, `9=` and their separators. -/
def reserve (t : Template) : ℕ := 2 + t.beginString.length + 1 + 2 + 5 + 1

/-- Write one part behind the body written so far. -/
def putPart (t : Template) (D : Dictionary) (room : ℕ) (slots : List (ℕ × Bytes))
    (groups : List GroupData) (w : Bytes) : Part → Except EncodeError Bytes
  | .static bytes => putBytes room w bytes
  | .dataLen tag dataTag =>
    match slotValue slots dataTag with
    | some value => put room w tag (renderU32 value.length)
    | none => .ok w
  | .slot tag =>
    match slotValue slots tag with
    | some value => put room w tag value
    | none => .ok w
  | .group counter =>
    match groups.find? fun g => g.1 == counter with
    | some g => putGroup D room t.msgType maxDepth w g
    | none => .ok w

/-- The `8=` and `9=` fields in front of a body of `n` bytes. -/
def framePrefix (t : Template) (n : ℕ) : Bytes :=
  ascii "8=" ++ t.beginString ++ [SOH] ++ ascii "9=" ++ renderU32 n ++ [SOH]

/-- The `10=` field behind `bytes`. -/
def trailer (bytes : Bytes) : Bytes := ascii "10=" ++ formatChecksum (checksum bytes) ++ [SOH]

/-- The size of the buffer the source lays the frame prefix out in. -/
def prefixSize : ℕ := 43

/-- Write one message into an output of `room` bytes: where it begins, and its bytes. -/
def encodeWith (t : Template) (D : Dictionary) (room : ℕ) (slots : List (ℕ × Bytes))
    (groups : List GroupData) : Except EncodeError (ℕ × Bytes) := do
  let body ← t.parts.foldlM (t.putPart D (room - t.reserve) slots groups) []
  if 100000 ≤ body.length then .error .bodyTooLong
  else if prefixSize < 2 + t.beginString.length then .error .outputTooSmall
  else
    let front := t.framePrefix body.length
    if prefixSize < front.length then .error .indexOutOfBounds
    else if room < t.reserve then .error .outputTooSmall
    else
      let message := front ++ body
      if room < t.reserve + body.length + 7 then .error .outputTooSmall
      else .ok (t.reserve - front.length, message ++ trailer message)

end Template

end Fixbolt
