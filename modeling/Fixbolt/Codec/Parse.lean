import Fixbolt.Codec.Index

/-!
# Reading a frame out of a byte buffer

`parseInto` is the parser of the source. It fills an index as it goes, so after
`ParseError.badTag` the index holds every field read before the bad one.

The loop of the source runs while the cursor is inside the buffer. Here it takes the number of
bytes ahead of the cursor as its measure: at `0` the cursor is past the end, which is the
`Incomplete` of the source.
-/

namespace Fixbolt

/-- The outcome of a successful read. -/
inductive Parsed where
  /-- A whole message was read: these many bytes belong to it. -/
  | complete (consumed : ℕ)
  /-- Not enough bytes yet. -/
  | incomplete
deriving DecidableEq, Repr

/-- Which frame-level checks to run. -/
structure Validation where
  bodyLength : Bool
  checkSum : Bool
deriving DecidableEq, Repr

/-- Check everything. -/
def Validation.all : Validation := ⟨true, true⟩

/-- Check nothing at the frame level. -/
def Validation.none : Validation := ⟨false, false⟩

/-- What a parse leaves behind: the index and the result. -/
structure ParseResult where
  index : List FieldEntry
  outcome : Except ParseError Parsed
deriving DecidableEq, Repr

/-- Sum of `bytes`, modulo 256. -/
def checksum (bytes : Bytes) : UInt8 := bytes.foldl (· + ·) 0

/-- A checksum as the wire has it: exactly three digits. -/
def formatChecksum (sum : UInt8) : Bytes :=
  [digitByte (sum.toNat / 100), digitByte (sum.toNat / 10 % 10), digitByte (sum.toNat % 10)]

/-- Position of the first separator at or after `from_`. -/
def findSoh (buf : Bytes) (from_ : ℕ) : Option ℕ :=
  ((buf.drop from_).findIdx? (· == SOH)).map (· + from_)

/-- The loop of `readTag`, over the bytes from `pos` on. -/
def readTagLoop (from_ : ℕ) : Bytes → ℕ → ℕ → ℕ → Except ParseError (Option (ℕ × ℕ))
  | [], _, _, _ => .ok none
  | b :: rest, pos, n, digits =>
    if b = EQ then
      if digits = 0 then .error (.badTag (wrapU32 from_)) else .ok (some (n, pos + 1))
    else
      match digitOf b with
      | none => .error (.badTag (wrapU32 from_))
      | some d =>
        match checkedU32 (n * 10 + d) with
        | none => .error (.badTag (wrapU32 from_))
        | some n' => readTagLoop from_ rest (pos + 1) n' (wrapU32 (digits + 1))

/-- Read a tag and the offset of its value's first byte; `none` means the buffer ran out. -/
def readTag (buf : Bytes) (from_ : ℕ) : Except ParseError (Option (ℕ × ℕ)) :=
  readTagLoop from_ (buf.drop from_) from_ 0 0

/-- The tag text that begins at `at_`, up to but not including its `=`. -/
def tagTextAt (buf : Bytes) (at_ : ℕ) : Option Bytes :=
  ((buf.drop at_).findIdx? (· == EQ)).map fun n => (buf.drop at_).take n

variable (D : Dictionary) (N : ℕ)

/-- How long the value at `valStart` is, or what the parse ends with. A DATA value takes its
length from the field in front of it. -/
def valueLength (buf : Bytes) (trailerAt : ℕ) (idx : List FieldEntry) (tag valStart : ℕ) :
    Except (Except ParseError Parsed) ℕ :=
  match D.dataLengthTag tag with
  | some lenTag =>
    match idx.getLast? with
    | none => .error (.error (.missingLengthField tag))
    | some prev =>
      if prev.tag ≠ lenTag then .error (.error (.missingLengthField tag))
      else match (slice buf prev.offset prev.len).bind asU32? with
        | none => .error (.error (.missingLengthField tag))
        | some n =>
          if trailerAt < valStart + n then .error (.error (.lengthOutOfBounds tag))
          else match buf[valStart + n]? with
            | none => .error (.ok .incomplete)
            | some b => if b = SOH then .ok n else .error (.error (.lengthOutOfBounds tag))
  | none =>
    match findSoh buf valStart with
    | none => .error (.ok .incomplete)
    | some soh => .ok (soh - valStart)

/-- The `10=` field, whose tag begins at `pos` and whose value begins at `valStart`. -/
def parseTrailer (buf : Bytes) (v : Validation) (trailerAt pos valStart : ℕ)
    (idx : List FieldEntry) : ParseResult :=
  match findSoh buf valStart with
  | none => ⟨idx, .ok .incomplete⟩
  | some soh =>
    match pushField N idx 10 valStart (soh - valStart) with
    | .error e => ⟨idx, .error e⟩
    | .ok idx' =>
      if v.bodyLength && pos != trailerAt then ⟨idx', .error .badBodyLength⟩
      else if v.checkSum then
        let digits := (buf.drop valStart).take (soh - valStart)
        if digits.length ≠ 3 then ⟨idx', .error .badCheckSum⟩
        else match asU32? digits with
          | none => ⟨idx', .error .badCheckSum⟩
          | some want =>
            if want ≠ (checksum (buf.take pos)).toNat then ⟨idx', .error .badCheckSum⟩
            else ⟨idx', .ok (.complete (soh + 1))⟩
      else ⟨idx', .ok (.complete (soh + 1))⟩

/-- The field loop of the parser. -/
def parseFields (buf : Bytes) (v : Validation) (trailerAt : ℕ) :
    ℕ → ℕ → List FieldEntry → ParseResult
  | 0, _, idx => ⟨idx, .ok .incomplete⟩
  | fuel + 1, pos, idx =>
    if buf.length ≤ pos then ⟨idx, .ok .incomplete⟩
    else match readTag buf pos with
      | .error e => ⟨idx, .error e⟩
      | .ok none => ⟨idx, .ok .incomplete⟩
      | .ok (some (tag, valStart)) =>
        if tag = 10 then parseTrailer N buf v trailerAt pos valStart idx
        else match valueLength D buf trailerAt idx tag valStart with
          | .error stop => ⟨idx, stop⟩
          | .ok len =>
            match pushField N idx tag valStart len with
            | .error e => ⟨idx, .error e⟩
            | .ok idx' => parseFields buf v trailerAt fuel (valStart + len + 1) idx'

/-- `tag` and `=` at `pos`: `none` when they are there, else what the parse ends with. -/
def expectFrameTag (buf : Bytes) (pos : ℕ) (tag : UInt8) : Option (Except ParseError Parsed) :=
  match buf[pos]? with
  | none => some (.ok .incomplete)
  | some b =>
    if b ≠ tag then some (.error .badFrameStart)
    else match buf[pos + 1]? with
      | none => some (.ok .incomplete)
      | some b => if b ≠ EQ then some (.error .badFrameStart) else none

/-- Everything after `8=`, whose separator is at `soh1`. -/
def parseBody (buf : Bytes) (v : Validation) (soh1 : ℕ) (idx : List FieldEntry) : ParseResult :=
  match expectFrameTag buf (soh1 + 1) 0x39 with
  | some stop => ⟨idx, stop⟩
  | none =>
    let val9 := soh1 + 3
    match findSoh buf val9 with
    | none => ⟨idx, .ok .incomplete⟩
    | some soh2 =>
      match asU32? ((buf.drop val9).take (soh2 - val9)) with
      | none => ⟨idx, .error .badBodyLength⟩
      | some declaredBody =>
        match pushField N idx 9 val9 (soh2 - val9) with
        | .error e => ⟨idx, .error e⟩
        | .ok idx' =>
          parseFields D N buf v (soh2 + 1 + declaredBody) (buf.length - (soh2 + 1)) (soh2 + 1) idx'

/-- Read one message from the front of `buf`. -/
def parseInto (buf : Bytes) (v : Validation) : ParseResult :=
  match expectFrameTag buf 0 0x38 with
  | some stop => ⟨[], stop⟩
  | none =>
    match findSoh buf 2 with
    | none => ⟨[], .ok .incomplete⟩
    | some soh1 =>
      match pushField N [] 8 2 (soh1 - 2) with
      | .error e => ⟨[], .error e⟩
      | .ok idx => parseBody D N buf v soh1 idx

end Fixbolt
