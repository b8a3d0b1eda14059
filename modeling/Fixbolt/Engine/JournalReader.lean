import Fixbolt.Engine.FileJournal

/-!
# Reading a journal file from outside the process that wrote it

A `Reader` finds where the whole records of a file end, and `Records` hands them out one after
another. Neither is the loop that a journal recovers with: both go by places in the file, and read
the length, the checksum and the torn tail by rules of their own.
-/

namespace Fixbolt

/-- One record in a journal file, the four shapes the format has. -/
inductive JournalRecord where
  /-- A message this session sent. -/
  | message (seq : ℕ) (bytes : Bytes)
  /-- The highest inbound number at that point. -/
  | inboundMark (seq : ℕ)
  /-- When the session was last known to be alive. -/
  | activityMark (atMs : ℕ)
  /-- The highest outbound number spent at that point. -/
  | outboundMark (seq : ℕ)
deriving DecidableEq, Repr

/-- `len` bytes of a file from a place on. -/
def bytesAt (bytes : Bytes) (at_ len : ℕ) : Bytes := (bytes.drop at_).take len

/-- A journal file, read from outside. -/
structure Reader where
  bytes : Bytes
  torn : ℕ
  format : Format
  corrupt : ℕ
deriving DecidableEq, Repr

namespace Reader

/-- How many bytes precede the first record. -/
def headerLen : Format → ℕ
  | .v1 => headerV1.length
  | .v0 => 0

/-- The loop of `open_`: the place where the whole records end, and whether a damaged one does. Each
step passes eight bytes at least, so `fuel` above the file's length never runs out. -/
def openLoop (format : Format) (bytes : Bytes) : ℕ → ℕ → ℕ × ℕ
  | 0, at_ => (at_, 0)
  | fuel + 1, at_ =>
    if at_ + recordHeader ≤ bytes.length then
      let len := ofLe (bytesAt bytes (at_ + recordSeq) recordLen)
      let end_ := at_ + recordHeader + len
      let whole := if format = .v1 then end_ + recordCrc else end_
      if bytes.length < whole then (at_, 0)
      else if format = .v1 ∧
          ofLe (bytesAt bytes end_ recordCrc) ≠ (crc32 (bytesAt bytes at_ (end_ - at_))).toNat then
        (at_, 1)
      else openLoop format bytes fuel whole
    else (at_, 0)

/-- Read the whole file. -/
def open_ (bytes : Bytes) : Reader :=
  let format := if bytes.take headerV1.length = headerV1 then .v1 else .v0
  let (at_, corrupt) := openLoop format bytes (bytes.length + 1) (headerLen format)
  ⟨bytes, bytes.length - at_, format, corrupt⟩

end Reader

/-- The whole records of a file from a place on. -/
structure Records where
  bytes : Bytes
  at_ : ℕ
  format : Format
deriving DecidableEq, Repr

namespace Records

/-- The next record. -/
def next (r : Records) : Option (JournalRecord × Records) :=
  if r.bytes.length < r.at_ + recordHeader then none
  else
    let seq := ofLe (bytesAt r.bytes r.at_ recordSeq)
    let len := ofLe (bytesAt r.bytes (r.at_ + recordSeq) recordLen)
    let end_ := r.at_ + recordHeader + len
    let whole := if r.format = .v1 then end_ + recordCrc else end_
    if r.bytes.length < whole then none
    else if r.format = .v1 ∧ ofLe (bytesAt r.bytes end_ recordCrc) ≠
        (crc32 (bytesAt r.bytes r.at_ (end_ - r.at_))).toNat then none
    else
      let payload := bytesAt r.bytes (r.at_ + recordHeader) len
      let record :=
        if seq = activityMark.toNat ∧ len = activityLen then .activityMark (ofLe payload)
        else if seq = activityMark.toNat ∧ len = outboundLen then .outboundMark (ofLe payload)
        else if len = inboundMark then .inboundMark seq
        else .message seq payload
      some (record, { r with at_ := whole })

/-- What iterating yields. -/
def collect : ℕ → Records → List JournalRecord
  | 0, _ => []
  | fuel + 1, r =>
    match r.next with
    | none => []
    | some (record, r) => record :: collect fuel r

end Records

/-- Every whole record, in the order they were written. -/
def Reader.records (r : Reader) : List JournalRecord :=
  Records.collect (r.bytes.length + 1) ⟨r.bytes, headerLen r.format, r.format⟩

end Fixbolt
