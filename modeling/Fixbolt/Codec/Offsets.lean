import Fixbolt.Codec.Template
import Fixbolt.Lib.Trapping

/-!
# A template by its offsets

`Codec/Template` has byte lists where the source has offsets into fixed arrays. Here are the offsets:
`u16` places and lengths in a scratch of `S` bytes, and a prefix in an array of 43 bytes. Where the
source adds, subtracts or indexes without a check, the model traps.

An index into the entries or the parts is one into a list that has no more of them than the array.
What is written to the output is the bytes up to the place the source has reached. Group data is
written as in `Codec/Template`.
-/

namespace Fixbolt.Offsets

/-- What the source does not check. -/
inductive Trap where
  | overflow
  | outOfBounds
deriving DecidableEq, Repr

/-- `a + b` in a `u16`. -/
def addU16 (a b : ℕ) : Except Trap ℕ := if a + b ≤ u16Max then .ok (a + b) else .error .overflow

/-- `a - b` in an unsigned integer. -/
def sub (a b : ℕ) : Except Trap ℕ := if b ≤ a then .ok (a - b) else .error .overflow

/-- `n as u16`. -/
def asU16 (n : ℕ) : ℕ := n % (u16Max + 1)

/-- `l[i]`. -/
def index {α : Type} (l : List α) (i : ℕ) : Except Trap α :=
  match l[i]? with
  | some a => .ok a
  | none => .error .outOfBounds

/-! ### Arrays of bytes -/

/-- An array of `n` bytes. -/
structure Block (n : ℕ) where
  bytes : Bytes
  size : bytes.length = n

namespace Block

variable {n : ℕ}

def zeros (n : ℕ) : Block n := ⟨List.replicate n 0, List.length_replicate⟩

/-- `src` copied to `at_`, when it fits. -/
def copy (b : Block n) (at_ : ℕ) (src : Bytes) : Option (Block n) :=
  if fits : at_ + src.length ≤ n then
    some ⟨b.bytes.take at_ ++ src ++ b.bytes.drop (at_ + src.length), by
      have := b.size
      simp only [List.length_append, List.length_take, List.length_drop]
      omega⟩
  else none

/-- `b[at_..at_ + len]`. -/
def slice (b : Block n) (at_ len : ℕ) : Except Trap Bytes :=
  if at_ + len ≤ n then .ok ((b.bytes.drop at_).take len) else .error .outOfBounds

end Block

/-! ### The builder -/

/-- One entry of a builder: for a static field, where its bytes are. -/
structure Entry where
  tag : ℕ
  at_ : ℕ
  len : ℕ
  kind : Kind

/-- What is written at one place of a template. -/
inductive Part where
  | static (at_ len : ℕ)
  | slot (tag : ℕ)
  | group (counter : ℕ)
  | dataLen (tag dataTag : ℕ)

/-- A message skeleton with holes in it. -/
structure Template (S : ℕ) where
  scratch : Block S
  beginAt : ℕ
  beginLen : ℕ
  mtAt : ℕ
  mtLen : ℕ
  parts : List Part
  len : ℕ

/-- Collects fields. -/
structure TemplateBuilder (S : ℕ) where
  scratch : Block S
  used : ℕ
  beginAt : ℕ
  beginLen : ℕ
  entries : List Entry
  err : Option EncodeError

/-- A program over a builder. -/
abbrev Build (S : ℕ) := Trapping Trap (TemplateBuilder S) EncodeError

/-- `o`, or an error. -/
def orFail {σ α : Type} (e : EncodeError) : Option α → Trapping Trap σ EncodeError α
  | some a => pure a
  | none => .fail e

namespace TemplateBuilder

variable {S : ℕ}

/-- Bytes into the scratch. -/
def write (bytes : Bytes) : Build S Unit := do
  let b ← .get
  let scratch ← orFail .scratchFull (b.scratch.copy b.used bytes)
  .modify fun b => { b with scratch }
  if u16Max < bytes.length then .fail .scratchFull
  else do
    let used ← .checked (addU16 b.used bytes.length)
    .modify fun b => { b with used }

/-- `tag=` into the scratch. -/
def writeTag (tag : ℕ) : Build S Unit := do
  let b ← .get
  let s := renderU32 tag
  let scratch ← orFail .scratchFull (b.scratch.copy b.used (s ++ [EQ]))
  .modify fun b => { b with scratch }
  let used ← .checked (addU16 b.used (asU16 (s.length + 1)))
  .modify fun b => { b with used }

/-- `tag=value` and its separator into the scratch. -/
def writeField (tag : ℕ) (value : Bytes) : Build S Unit := do
  writeTag tag
  write value
  write [SOH]

/-- Where what is written lands, and how long it is. -/
def landed (x : Build S Unit) : Build S (ℕ × ℕ) := do
  let b ← .get
  x
  let b' ← .get
  let len ← .checked (sub b'.used b.used)
  return (b.used, len)

def stash (bytes : Bytes) : Build S (ℕ × ℕ) := landed (write bytes)

def stashField (tag : ℕ) (value : Bytes) : Build S (ℕ × ℕ) := landed (writeField tag value)

/-- One more entry, at most `P` of them. -/
def entry (P : ℕ) (e : Entry) : Build S Unit := do
  let b ← .get
  if b.entries.length < P then .modify fun b => { b with entries := b.entries ++ [e] }
  else .fail .tooManyParts

/-- The fallible half of `field`. -/
def pushField (P tag : ℕ) (value : Bytes) : Build S Unit :=
  if reserved tag then .fail (.reservedTag tag)
  else do
    let (at_, len) ← stashField tag value
    entry P ⟨tag, at_, len, .static⟩

/-- The fallible half of `slot` and of `group`. -/
def pushHole (P tag : ℕ) (kind : Kind) : Build S Unit :=
  if reserved tag then .fail (.reservedTag tag) else entry P ⟨tag, 0, 0, kind⟩

/-- Keep the first error. -/
def orErr (e : EncodeError) (b : TemplateBuilder S) : TemplateBuilder S :=
  { b with err := some (b.err.getD e) }

/-- A field whose value never changes. -/
def field (P tag : ℕ) (value : Bytes) : Build S Unit := (pushField P tag value).recover orErr

/-- A field supplied at send time. -/
def slot (P tag : ℕ) : Build S Unit := (pushHole P tag .slot).recover orErr

/-- A repeating group hole. -/
def group (P counter : ℕ) : Build S Unit := (pushHole P counter .group).recover orErr

/-- Start a template for a `BeginString`. -/
def new (S : ℕ) (beginString : Bytes) : Except Trap (TemplateBuilder S) :=
  match (stash beginString).run ⟨.zeros S, 0, 0, 0, [], none⟩ with
  | .ok (.ok (beginAt, beginLen), b) => .ok { b with beginAt, beginLen }
  | .ok (.error _, b) => .ok { b with err := some .scratchFull }
  | .error t => .error t

/-! ### Sorting into wire order -/

/-- Swap the entry at this place down to where its key belongs. -/
def swapDown (D : Dictionary) : ℕ → List Entry → Except Trap (List Entry)
  | 0, es => .ok es
  | j + 1, es => do
    let before ← index es j
    let e ← index es (j + 1)
    if keyLt (sortKey D e.tag) (sortKey D before.tag) then
      swapDown D j ((es.set j e).set (j + 1) before)
    else return es

/-- The insertion sort of `build`. -/
def sortEntries (D : Dictionary) (es : List Entry) : Except Trap (List Entry) :=
  (List.range' 1 (es.length - 1)).foldlM (fun es i => swapDown D i es) es

/-! ### The DATA rule -/

/-- The DATA rule for entry `i`: its length field must be there, and is rewritten. -/
def fixLength (D : Dictionary) (i : ℕ) : Build S Unit := do
  let b ← .get
  let e ← .checked (index b.entries i)
  match D.dataLengthTag e.tag with
  | none => pure ()
  | some lenTag =>
    match b.entries.findIdx? (·.tag == lenTag) with
    | none => .fail (.dataWithoutLength e.tag)
    | some j =>
      match e.kind with
      | .static => do
        let n ← .checked (sub e.len (tagPrefixLen e.tag + 1))
        let (at_, len) ← (stashField lenTag (renderU32 n)).mapError fun _ => .scratchFull
        .modify fun b =>
          { b with entries := b.entries.modify j fun x => { x with at_, len, kind := .static } }
      | _ => .modify fun b =>
        { b with entries := b.entries.modify j fun x => { x with kind := .dataLen e.tag } }

/-! ### Laying out the parts -/

/-- The template under construction. -/
structure Layout (S : ℕ) where
  scratch : Block S
  used : ℕ
  mtAt : ℕ
  mtLen : ℕ
  parts : List Part
  hasGroup : Bool

/-- One more part, at most `P` of them. -/
def pushPart (P : ℕ) (parts : List Part) (part : Part) : Build S (List Part) :=
  if parts.length < P then pure (parts ++ [part]) else .fail .tooManyParts

/-- A static run at `used`, merged with the one right in front of it. -/
def pushStatic (P : ℕ) (parts : List Part) (used len : ℕ) : Build S (List Part) :=
  match parts.getLast? with
  | some (.static at_ before) =>
    if at_ + before = used then do
      let merged ← .checked (addU16 before len)
      return parts.dropLast ++ [.static at_ merged]
    else pushPart P parts (.static (asU16 used) len)
  | _ => pushPart P parts (.static (asU16 used) len)

/-- Where the value of `35=` lies: between `35=` and the separator. -/
def msgTypeAt (l : Layout S) (e : Entry) : Build S (ℕ × ℕ) :=
  if e.tag = 35 then do
    let mtLen ← .checked (sub e.len 4)
    return (asU16 (l.used + 3), mtLen)
  else pure (l.mtAt, l.mtLen)

/-- Lay out entry `i`. -/
def layEntry (P : ℕ) (l : Layout S) (i : ℕ) : Build S (Layout S) := do
  let b ← .get
  let e ← .checked (index b.entries i)
  match e.kind with
  | .static => do
    let src ← .checked (b.scratch.slice e.at_ e.len)
    let (mtAt, mtLen) ← msgTypeAt l e
    let scratch ← orFail .scratchFull (l.scratch.copy l.used src)
    let parts ← pushStatic P l.parts l.used e.len
    return { l with scratch, used := l.used + src.length, mtAt, mtLen, parts }
  | .group => do
    let parts ← pushPart P l.parts (.group e.tag)
    return { l with parts, hasGroup := true }
  | .dataLen dataTag => do
    let parts ← pushPart P l.parts (.dataLen e.tag dataTag)
    return { l with parts }
  | .slot => do
    let parts ← pushPart P l.parts (.slot e.tag)
    return { l with parts }

/-- The empty template, with its `BeginString`. -/
def startLayout (b : TemplateBuilder S) : Build S (Layout S) :=
  if S < b.beginLen then .fail .scratchFull
  else do
    let begin_ ← .checked (b.scratch.slice b.beginAt b.beginLen)
    let scratch ← orFail .scratchFull ((Block.zeros S).copy 0 begin_)
    return ⟨scratch, b.beginLen, 0, 0, [], false⟩

/-- Sort into wire order and freeze. -/
def build (D : Dictionary) (P : ℕ) : Build S (Template S) := do
  let b ← .get
  match b.err with
  | some e => .fail e
  | none => do
    let entries ← .checked (sortEntries D b.entries)
    .modify fun b => { b with entries }
    let start ← startLayout b
    (List.range entries.length).forM (fixLength D)
    let l ← (List.range entries.length).foldlM (layEntry P) start
    if l.hasGroup ∧ l.mtLen = 0 then .fail .msgTypeMissing
    else if 255 < l.parts.length then .fail .tooManyParts
    else return ⟨l.scratch, 0, b.beginLen, l.mtAt, l.mtLen, l.parts, l.parts.length⟩

end TemplateBuilder

/-! ### Writing a message -/

/-- A program that writes a message. -/
abbrev Send := Trapping Trap Unit EncodeError

namespace Template

variable {S : ℕ} (t : Template S)

/-- Bytes kept in front of the body. -/
def reserve : ℕ := 2 + t.beginLen + 1 + 2 + 5 + 1

variable (D : Dictionary) (room : ℕ) (slots : List (ℕ × Bytes)) (groups : List GroupData)

/-- Write one part behind `w`. -/
def putPart (w : Bytes) : Part → Send Bytes
  | .static at_ len => do
    let src ← .checked (t.scratch.slice at_ len)
    .lift (putBytes room w src)
  | .dataLen tag dataTag =>
    match slotValue slots dataTag with
    | some value =>
      if u32Max < value.length then .fail .bodyTooLong
      else .lift (put room w tag (renderU32 value.length))
    | none => pure w
  | .slot tag =>
    match slotValue slots tag with
    | some value => .lift (put room w tag value)
    | none => pure w
  | .group counter =>
    match groups.find? fun g => g.1 == counter with
    | some g => do
      let mt ← .checked (t.scratch.slice t.mtAt t.mtLen)
      .lift (putGroup D room mt maxDepth w g)
    | none => pure w

/-- Write part `i` behind `w`. -/
def putAt (w : Bytes) (i : ℕ) : Send Bytes := do
  let part ← .checked (index t.parts i)
  t.putPart D room slots groups w part

/-- `src` into the array of the prefix, unchecked. -/
def poke (pre : Block Template.prefixSize) (at_ : ℕ) (src : Bytes) :
    Send (Block Template.prefixSize) :=
  .checked ((pre.copy at_ src).elim (.error .outOfBounds) .ok)

/-- The `8=` and `9=` fields in front of a body of `n` bytes, and how long they are. -/
def framePrefix (n : ℕ) : Send (Block Template.prefixSize × ℕ) := do
  let pre ← poke (.zeros _) 0 (ascii "8=")
  if Template.prefixSize < 2 + t.beginLen then .fail .outputTooSmall
  else do
    let begin_ ← .checked (t.scratch.slice t.beginAt t.beginLen)
    let pre ← poke pre 2 begin_
    let p := 2 + t.beginLen
    let pre ← poke pre p (SOH :: ascii "9=")
    let p := p + 3
    let digits := renderU32 n
    let pre ← poke pre p digits
    let p := p + digits.length
    let pre ← poke pre p [SOH]
    return (pre, p + 1)

/-- Write one message into an output of `room` bytes: where it begins, and its bytes. -/
def encodeWith : Send (ℕ × Bytes) := do
  let k := t.reserve
  let w ← (List.range t.len).foldlM (t.putAt D room slots groups) (List.replicate k 0)
  let n ← .checked (sub w.length k)
  if 100000 ≤ n then .fail .bodyTooLong
  else do
    let (pre, p) ← t.framePrefix n
    let start ← .checked (sub k p)
    if room < k then .fail .outputTooSmall
    else do
      let front ← .checked (pre.slice 0 p)
      if room < w.length then .checked (.error .outOfBounds)
      else do
        let message := front ++ w.drop k
        if room < w.length + 7 then .fail .outputTooSmall
        else return (start, message ++ Template.trailer message)

end Template

/-! ### Runs -/

/-- One call of a program that builds templates and writes messages with them. -/
inductive Op where
  | field (tag : ℕ) (value : Bytes)
  | slot (tag : ℕ)
  | group (counter : ℕ)
  | build (D : Dictionary)
  | encode (i : ℕ) (D : Dictionary) (room : ℕ) (slots : List (ℕ × Bytes)) (groups : List GroupData)

/-- A builder and the templates made with it. -/
structure Desk (S : ℕ) where
  builder : TemplateBuilder S
  made : List (Template S)

namespace Desk

variable {S : ℕ} (P : ℕ)

/-- A call that changes the builder only. -/
def change (d : Desk S) (x : Build S Unit) : Except Trap (Desk S) :=
  (x.run d.builder).map fun (_, builder) => { d with builder }

/-- One call. -/
def step (d : Desk S) : Op → Except Trap (Desk S)
  | .field tag value => d.change (TemplateBuilder.field P tag value)
  | .slot tag => d.change (TemplateBuilder.slot P tag)
  | .group counter => d.change (TemplateBuilder.group P counter)
  | .build D =>
    ((TemplateBuilder.build D P).run d.builder).map fun
      | (.ok t, builder) => ⟨builder, d.made ++ [t]⟩
      | (.error _, builder) => { d with builder }
  | .encode i D room slots groups =>
    match d.made[i]? with
    | none => .ok d
    | some t => ((t.encodeWith D room slots groups).run ()).map fun _ => d

/-- One call after another. -/
def run (d : Desk S) : List Op → Except Trap (Desk S)
  | [] => .ok d
  | op :: ops => do
    let d ← d.step P op
    d.run ops

end Desk

/-- A whole run, from the `BeginString` on. -/
def session (P S : ℕ) (beginString : Bytes) (ops : List Op) : Except Trap (Desk S) := do
  let builder ← TemplateBuilder.new S beginString
  Desk.run P ⟨builder, []⟩ ops

end Fixbolt.Offsets
