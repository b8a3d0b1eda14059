import Fixbolt.Engine.Journal
import Fixbolt.Engine.Redact
import Fixbolt.Engine.Ring
import Fixbolt.Lib.RecordLog

/-!
# A journal that survives a restart

`FileJournal` keeps a `MemJournal` and appends what changes it to a file: a message, or one of three
marks, as a number, a length and a payload, and in a file of version 1 a checksum behind them.
`FileJournal.open_` reads a file back. Under `Durability.async` records go to a writer's ring and are
appended in turn; under `Durability.fsync` they are appended at once.

The file is its bytes. Locking, flushing and the errors of writing are left out.
-/

namespace Fixbolt

/-- When a journal considers a message written. -/
inductive Durability where
  | async
  | fsync
deriving DecidableEq, Repr

/-- Which format a file is in. -/
inductive Format where
  /-- No header, no checksums. -/
  | v0
  /-- A header, and a checksum behind every payload. -/
  | v1
deriving DecidableEq, Repr

def recordSeq : ℕ := 4

def recordLen : ℕ := 4

def recordHeader : ℕ := recordSeq + recordLen

/-- What a file of version 1 starts with. -/
def headerV1 : Bytes := [0x46, 0x58, 0x42, 0x4A, 0x01]

def recordCrc : ℕ := 4

/-- A bit of the table's remainders. -/
def crcBit (c : UInt32) : UInt32 :=
  if c &&& 1 = 1 then (0xEDB88320 : UInt32) ^^^ (c >>> 1) else c >>> 1

/-- The table of remainders. -/
def crcTable (i : UInt8) : UInt32 :=
  crcBit (crcBit (crcBit (crcBit (crcBit (crcBit (crcBit (crcBit i.toUInt32)))))))

/-- One byte more of a checksum. -/
def crcByte (crc : UInt32) (b : UInt8) : UInt32 :=
  crcTable ((crc ^^^ b.toUInt32) &&& 0xFF).toUInt8 ^^^ (crc >>> 8)

/-- CRC32 of the bytes. -/
def crc32 (bytes : Bytes) : UInt32 := bytes.foldl crcByte 0xFFFFFFFF ^^^ 0xFFFFFFFF

/-- A record's length that says it is an inbound mark. -/
def inboundMark : ℕ := 0

/-- A record's number that says it is a mark of the session. -/
def activityMark : UInt32 := 0

def activityLen : ℕ := 8

def outboundLen : ℕ := 4

/-- What a record of the file holds. -/
structure Record where
  seq : UInt32
  payload : Bytes
deriving DecidableEq, Repr

namespace Record

/-- A record, before its checksum. -/
def bytes (e : Record) : Bytes :=
  toLe recordSeq e.seq.toNat ++ (toLe recordLen e.payload.length ++ e.payload)

/-- The record `markOut` writes. -/
def outbound (seq : UInt32) : Record := ⟨activityMark, toLe outboundLen seq.toNat⟩

/-- The record `markIn` writes. -/
def inbound (seq : UInt32) : Record := ⟨seq, []⟩

/-- The record `markActive` writes. -/
def activity (atMs : UInt64) : Record := ⟨activityMark, toLe activityLen atMs.toNat⟩

/-- The number of a message that carries a secret. -/
def carriesSecretAt (e : Record) : Option UInt32 :=
  if e.seq ≠ activityMark ∧ ¬ e.payload.isEmpty ∧ carriesSecret e.payload then some e.seq else none

/-- What the writer writes of a record. -/
def redacted (e : Record) : Record :=
  match e.carriesSecretAt with
  | some seq => outbound seq
  | none => e

/-- A record as a file of this format has it. -/
def onDisk (format : Format) (e : Record) : Bytes :=
  match format with
  | .v0 => e.bytes
  | .v1 => e.bytes ++ toLe recordCrc (crc32 e.bytes).toNat

/-- The record in front of a file's bytes. -/
def take (format : Format) (bytes : Bytes) : Taken UInt8 Record :=
  if bytes.length < recordHeader then .torn
  else
    let seq := UInt32.ofNat (ofLe (bytes.take recordSeq))
    let len := ofLe ((bytes.drop recordSeq).take recordLen)
    let end_ := recordHeader + len
    let whole := if format = .v1 then end_ + recordCrc else end_
    if bytes.length < whole then .torn
    else if format = .v1 ∧ ofLe ((bytes.drop end_).take recordCrc) ≠ (crc32 (bytes.take end_)).toNat
    then .corrupt
    else .record ⟨seq, (bytes.drop recordHeader).take len⟩ (bytes.drop whole)

end Record

/-- What reading a file gives back. -/
structure Recovered (n len : ℕ) where
  mem : MemJournal n len
  lastActive : Option ℕ

namespace Recovered

variable {n len : ℕ}

/-- What nothing gives back. -/
def none : Recovered n len := ⟨.new n len, .none⟩

/-- One record more. -/
def apply (r : Recovered n len) (e : Record) : Recovered n len :=
  if e.seq = activityMark ∧ e.payload.length = activityLen then
    { r with lastActive := some (ofLe e.payload) }
  else if e.seq = activityMark ∧ e.payload.length = outboundLen then
    { r with mem := Journal.markOut r.mem (ofLe e.payload) }
  else if e.payload.length = inboundMark then
    { r with mem := Journal.markIn r.mem e.seq.toNat }
  else { r with mem := (r.mem.put e.seq.toNat e.payload).1 }

end Recovered

/-- A journal, its file and the records its writer was handed and has not written. -/
structure FileJournal (n len : ℕ) where
  mem : MemJournal n len
  how : Durability
  format : Format
  file : Bytes
  toWriter : List Record
  /-- Bytes at the end of the file that were no whole record when it was opened. -/
  torn : ℕ
  /-- Whether those were a damaged record. -/
  corrupt : ℕ
  lastActive : Option ℕ
  /-- Records the writer's ring had no room for. -/
  unwritten : ℕ
  /-- The records appended to the file since it was opened. -/
  written : List Record

namespace FileJournal

variable {n len : ℕ}

/-- How many bytes the writer's ring holds. -/
def ringCapacity : ℕ := 2 ^ 20

/-- Has the writer's ring room for a record? -/
def room (j : FileJournal n len) (e : Record) : Bool :=
  ringHeader + e.bytes.length + (j.toWriter.map fun e => ringHeader + e.bytes.length).sum ≤
    ringCapacity

/-- The loop of `open_`, from a place in the file on; with what is left there, and whether it is a
damaged record. -/
def recoverLoop (format : Format) :
    ℕ → Bytes → Recovered n len → Recovered n len × Bytes × Bool
  | 0, bytes, r => (r, bytes, false)
  | fuel + 1, bytes, r =>
    match Record.take format bytes with
    | .torn => (r, bytes, false)
    | .corrupt => (r, bytes, true)
    | .record e rest => recoverLoop format fuel rest (r.apply e)

/-- Open a file: read it back, in the format its first bytes say it is in, and give a new one its
header. -/
def open_ (existing : Bytes) (how : Durability) : FileJournal n len :=
  let hasHeader := existing.take headerV1.length = headerV1
  let format := if existing.isEmpty ∨ hasHeader then .v1 else .v0
  let start := if format = .v1 ∧ ¬ existing.isEmpty then headerV1.length else 0
  let (r, left, damaged) := recoverLoop format (existing.length + 1) (existing.drop start) .none
  { mem := r.mem
    how := how
    format := format
    file := if existing.isEmpty then headerV1 else existing
    toWriter := []
    torn := left.length
    corrupt := if damaged then 1 else 0
    lastActive := r.lastActive
    unwritten := 0
    written := [] }

/-- Append a record to the file. -/
def append (j : FileJournal n len) (e : Record) : FileJournal n len :=
  { j with file := j.file ++ e.onDisk j.format, written := j.written ++ [e] }

/-- Hand a record to the writer, or append it. -/
def log (j : FileJournal n len) (e : Record) : FileJournal n len :=
  match j.how with
  | .async =>
    if j.room e then { j with toWriter := j.toWriter ++ [e] }
    else { j with unwritten := j.unwritten + 1 }
  | .fsync => j.append e

def put (j : FileJournal n len) (seq : UInt32) (bytes : Bytes) : FileJournal n len × Bool :=
  let (mem, kept) := j.mem.put seq.toNat bytes
  if kept then
    -- Under `async` it is the writer that looks for a secret.
    let secret := j.how = .fsync ∧ carriesSecret bytes
    ({ j with mem := mem }.log (if secret then .outbound seq else ⟨seq, bytes⟩), true)
  else (j, false)

def markIn (j : FileJournal n len) (seq : UInt32) : FileJournal n len :=
  { j with mem := Journal.markIn j.mem seq.toNat }.log (.inbound seq)

def markOut (j : FileJournal n len) (seq : UInt32) : FileJournal n len :=
  if j.mem.highestOut.any fun h => seq.toNat ≤ h then j
  else { j with mem := Journal.markOut j.mem seq.toNat }.log (.outbound seq)

def markActive (j : FileJournal n len) (atMs : UInt64) : FileJournal n len :=
  { j with lastActive := some atMs.toNat }.log (.activity atMs)

def get (j : FileJournal n len) (seq : ℕ) : Option Bytes := j.mem.get seq

def oldest (j : FileJournal n len) : Option ℕ := j.mem.oldest

def highest (j : FileJournal n len) : Option ℕ := j.mem.highest

def highestIn (j : FileJournal n len) : Option ℕ := j.mem.highestIn

def highestOut (j : FileJournal n len) : Option ℕ := j.mem.highestOut

/-- The writer appends the next record it was handed. -/
def write (j : FileJournal n len) : FileJournal n len :=
  match j.toWriter with
  | [] => j
  | e :: rest => { j with toWriter := rest }.append e.redacted

/-- Stop the writer and wait for it: what it was handed is written. -/
def close (j : FileJournal n len) : FileJournal n len :=
  (j.toWriter.map Record.redacted).foldl append { j with toWriter := [] }

/-- What a session asks of its journal, and the writer's turn. -/
inductive Op where
  | put (seq : UInt32) (bytes : Bytes)
  | markIn (seq : UInt32)
  | markOut (seq : UInt32)
  | markActive (atMs : UInt64)
  | write
deriving DecidableEq, Repr

def step (j : FileJournal n len) : Op → FileJournal n len
  | .put seq bytes => (j.put seq bytes).1
  | .markIn seq => j.markIn seq
  | .markOut seq => j.markOut seq
  | .markActive atMs => j.markActive atMs
  | .write => j.write

def runs (j : FileJournal n len) (ops : List Op) : FileJournal n len := ops.foldl step j

end FileJournal

/-- A file, and the journal of the process that has it open. The records that are wholly in the file
go with it, in their order. -/
inductive Store (n len : ℕ) where
  | down (file : Bytes) (complete : List Record)
  | up (j : FileJournal n len) (before : List Record)

namespace Store

variable {n len : ℕ}

/-- What happens to a file. -/
inductive Act where
  | open_ (how : Durability)
  | op (o : FileJournal.Op)
  | close
  /-- The process dies while `o` appends a record, of which `k` bytes are in the file. -/
  | crash (o : FileJournal.Op) (k : ℕ)
  /-- The process dies while it writes the header of a new file. -/
  | crashOpening (k : ℕ)
deriving DecidableEq, Repr

def step : Store n len → Act → Option (Store n len)
  | .down file complete, .open_ how => some (.up (.open_ file how) complete)
  | .up j before, .op o => some (.up (j.step o) before)
  | .up j before, .close => some (.down j.close.file (before ++ j.close.written))
  | .up j before, .crash o k =>
    if k = 0 ∨ j.file.length + k < (j.step o).file.length then
      some (.down ((j.step o).file.take (j.file.length + k)) (before ++ j.written))
    else none
  | .down file complete, .crashOpening k =>
    if file.isEmpty ∧ k < headerV1.length then some (.down (headerV1.take k) complete) else none
  | _, _ => none

def runs (s : Store n len) (as : List Act) : Option (Store n len) := as.foldlM step s

end Store

end Fixbolt
