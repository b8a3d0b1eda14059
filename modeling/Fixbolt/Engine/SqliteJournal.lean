import Fixbolt.Engine.FileJournal
import Mathlib.Data.List.DropRight

/-!
# A journal whose durable copy is a database

`SqliteJournal` keeps a `MemJournal` and pushes what changes it on a ring, as the records a
`FileJournal` appends. A writer pops them into batches, each of which is one transaction: the
messages inserted as they come, the marks kept beside them and written when the batch ends.
`SqliteJournal.open_` reads back the marks and the last messages of the table.

A database is its two tables, the messages in the order of their key. A transaction is seen as a
whole when it is committed and not at all before. Whose session a database is, its lock and the
version of its schema are left out.
-/

namespace Fixbolt

/-- How many bytes of records the ring holds, and how many records a transaction has at most. -/
structure SqliteOptions where
  ringBytes : ℕ := 4194304
  batchMax : ℕ := 4096
deriving DecidableEq, Repr

/-- The tables of a database: the messages by their number, and the row of the session. -/
structure Database where
  messages : List (ℕ × Bytes)
  highestIn : Option ℕ
  highestOut : Option ℕ
  lastActiveMs : Option ℕ
deriving DecidableEq, Repr

namespace Database

/-- The tables as they are created. -/
def created : Database := ⟨[], none, none, none⟩

end Database

/-- `INSERT OR REPLACE INTO messages`. -/
def insertOrReplace (messages : List (ℕ × Bytes)) (seq : ℕ) (body : Bytes) : List (ℕ × Bytes) :=
  messages.filter (·.1 < seq) ++ (seq, body) :: messages.filter (seq < ·.1)

/-- The messages with the highest numbers, lowest first: `ORDER BY seq DESC LIMIT n`, turned
round. -/
def lastMessages (messages : List (ℕ × Bytes)) (n : ℕ) : List (ℕ × Bytes) := messages.rtake n

/-- The marks the database holds, as the writer last committed them. -/
structure SqliteJournal.Marks where
  highestIn : Option ℕ
  highestOut : Option ℕ
  lastActive : Option ℕ
deriving DecidableEq, Repr

/-- One transaction's worth of records. `table` is the messages as the transaction sees them. -/
structure SqliteJournal.Batch where
  records : ℕ
  table : List (ℕ × Bytes)
  maxIn : Option ℕ
  maxOut : Option ℕ
  active : Option ℕ
deriving DecidableEq, Repr

namespace SqliteJournal.Batch

/-- No transaction. -/
def none : Batch := ⟨0, [], .none, .none, .none⟩

/-- A record more; the first one begins the transaction. -/
def add (b : Batch) (db : Database) (e : Record) : Batch :=
  let table := if b.records = 0 then db.messages else b.table
  let b := { b with records := b.records + 1, table := table }
  if e.seq = activityMark then
    if e.payload.length = activityLen then { b with active := some (ofLe e.payload) }
    else if e.payload.length = outboundLen then
      { b with maxOut := raise b.maxOut (ofLe e.payload) }
    else b
  else if e.payload.length = inboundMark then { b with maxIn := raise b.maxIn e.seq.toNat }
  -- A message that carries a secret only spends its number.
  else if carriesSecret e.payload then { b with maxOut := raise b.maxOut e.seq.toNat }
  else
    { b with
      maxOut := raise b.maxOut e.seq.toNat
      table := insertOrReplace b.table e.seq.toNat e.payload }

/-- The marks once the batch is committed. -/
def next (b : Batch) (marks : Marks) : Marks where
  highestIn := b.maxIn.elim marks.highestIn fun m => raise marks.highestIn m
  highestOut := b.maxOut.elim marks.highestOut fun m => raise marks.highestOut m
  lastActive := b.active.or marks.lastActive

/-- The database once the batch is committed. -/
def commit (b : Batch) (marks : Marks) : Database where
  messages := b.table
  highestIn := (b.next marks).highestIn
  highestOut := (b.next marks).highestOut
  lastActiveMs := (b.next marks).lastActive.filter (· ≤ i64Max)

end SqliteJournal.Batch

/-- A journal, what its writer was handed and has not popped, its open batch and its database. -/
structure SqliteJournal (n len : ℕ) where
  mem : MemJournal n len
  lastActive : Option ℕ
  opts : SqliteOptions
  toWriter : List Record
  batch : SqliteJournal.Batch
  marks : SqliteJournal.Marks
  db : Database
  /-- Records committed since the journal was opened. -/
  committed : ℕ
  /-- Records of batches the database refused. -/
  failed : ℕ
  /-- Records the ring had no room for. -/
  ringFull : ℕ

/-- The ring journal that answers for a database. -/
def Database.load (db : Database) (n len : ℕ) : MemJournal n len :=
  let mem := (lastMessages db.messages n).foldl (fun mem m => (mem.put m.1 m.2).1) (.new n len)
  let mem := db.highestIn.elim mem fun seq => Journal.markIn mem seq
  db.highestOut.elim mem fun seq => Journal.markOut mem seq

namespace SqliteJournal

variable {n len : ℕ}

/-- Open a database and read back what a restart needs. -/
def open_ (db : Database) (opts : SqliteOptions) : SqliteJournal n len where
  mem := db.load n len
  lastActive := db.lastActiveMs
  opts := opts
  toWriter := []
  batch := .none
  marks := ⟨db.highestIn, db.highestOut, db.lastActiveMs⟩
  db := db
  committed := 0
  failed := 0
  ringFull := 0

/-- Has the ring room for a record? -/
def room (j : SqliteJournal n len) (e : Record) : Bool :=
  ringHeader + e.bytes.length + (j.toWriter.map fun e => ringHeader + e.bytes.length).sum ≤
    2 ^ Nat.clog 2 j.opts.ringBytes

/-- One record onto the ring, or one more that did not get there. -/
def push (j : SqliteJournal n len) (e : Record) : SqliteJournal n len :=
  if j.room e then { j with toWriter := j.toWriter ++ [e] }
  else { j with ringFull := j.ringFull + 1 }

def put (j : SqliteJournal n len) (seq : UInt32) (bytes : Bytes) : SqliteJournal n len × Bool :=
  let (mem, kept) := j.mem.put seq.toNat bytes
  if kept then ({ j with mem := mem }.push ⟨seq, bytes⟩, true) else (j, false)

def markIn (j : SqliteJournal n len) (seq : UInt32) : SqliteJournal n len :=
  { j with mem := Journal.markIn j.mem seq.toNat }.push (.inbound seq)

/-- A number already known pushes nothing. -/
def markOut (j : SqliteJournal n len) (seq : UInt32) : SqliteJournal n len :=
  if j.mem.highestOut.any fun h => seq.toNat ≤ h then j
  else { j with mem := Journal.markOut j.mem seq.toNat }.push (.outbound seq)

def markActive (j : SqliteJournal n len) (atMs : UInt64) : SqliteJournal n len :=
  { j with lastActive := some atMs.toNat }.push (.activity atMs)

def get (j : SqliteJournal n len) (seq : ℕ) : Option Bytes := j.mem.get seq

def oldest (j : SqliteJournal n len) : Option ℕ := j.mem.oldest

def highestIn (j : SqliteJournal n len) : Option ℕ := j.mem.highestIn

def highestOut (j : SqliteJournal n len) : Option ℕ := j.mem.highestOut

/-- Records that are not in the database although they were accepted. -/
def unwritten (j : SqliteJournal n len) : ℕ := j.ringFull + j.failed

/-- End the open batch: it is committed, or rolled back and counted when the database refuses it. -/
def endBatch (j : SqliteJournal n len) (taken : Bool) : SqliteJournal n len :=
  if j.batch.records = 0 then j
  else if taken then
    { j with
      db := j.batch.commit j.marks
      marks := j.batch.next j.marks
      committed := j.committed + j.batch.records
      batch := .none }
  else { j with failed := j.failed + j.batch.records, batch := .none }

/-- The writer's turn: the next record into the batch, which ends when it is full or the ring has run
dry. `taken` is what the database does with a batch that ends. -/
def write (j : SqliteJournal n len) (taken : Bool) : SqliteJournal n len :=
  match j.toWriter with
  | [] => j.endBatch taken
  | e :: rest =>
    let j := { j with toWriter := rest, batch := j.batch.add j.db e }
    if max j.opts.batchMax 1 ≤ j.batch.records then j.endBatch taken else j

/-- Stop the writer and wait for it: everything it was handed is committed. -/
def close (j : SqliteJournal n len) : SqliteJournal n len :=
  (j.toWriter.foldl (fun j _ => j.write true) j).endBatch true

/-- What a session asks of its journal. -/
inductive Call where
  | put (seq : UInt32) (bytes : Bytes)
  | markIn (seq : UInt32)
  | markOut (seq : UInt32)
  | markActive (atMs : UInt64)
deriving DecidableEq, Repr

def call (j : SqliteJournal n len) : Call → SqliteJournal n len
  | .put seq bytes => (j.put seq bytes).1
  | .markIn seq => j.markIn seq
  | .markOut seq => j.markOut seq
  | .markActive atMs => j.markActive atMs

def calls (j : SqliteJournal n len) (cs : List Call) : SqliteJournal n len := cs.foldl call j

end SqliteJournal

/-- A database, and the journal of the process that has it open; with what the database was when it
was opened, and what the journal was asked since. -/
inductive SqliteStore (n len : ℕ) where
  | down (db : Database)
  | up (opened : Database) (asked : List SqliteJournal.Call) (j : SqliteJournal n len)

namespace SqliteStore

variable {n len : ℕ}

/-- What happens to a database. -/
inductive Act where
  | open_ (opts : SqliteOptions)
  | call (c : SqliteJournal.Call)
  /-- The writer's turn. -/
  | write (taken : Bool)
  | close
  /-- The process dies. -/
  | kill
deriving DecidableEq, Repr

def step : SqliteStore n len → Act → Option (SqliteStore n len)
  | .down db, .open_ opts => some (.up db [] (.open_ db opts))
  | .up opened asked j, .call c => some (.up opened (asked ++ [c]) (j.call c))
  | .up opened asked j, .write taken => some (.up opened asked (j.write taken))
  | .up _ _ j, .close => some (.down j.close.db)
  | .up _ _ j, .kill => some (.down j.db)
  | _, _ => none

def runs (s : SqliteStore n len) (as : List Act) : Option (SqliteStore n len) := as.foldlM step s

end SqliteStore

end Fixbolt
