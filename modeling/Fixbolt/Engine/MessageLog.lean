import Fixbolt.Codec.Decimal
import Fixbolt.Codec.TimestampCache
import Fixbolt.Engine.Redact
import Fixbolt.Engine.Ring
import Fixbolt.Session.Clock

/-!
# A log of every message

The engine hands each message it saw or sent to a ring, with the way it was going, the instant, the
shard and the connection. A writer's thread takes them out, masks the secrets, escapes what would
break a line and appends one line each to a file. A record the ring has no room for, and one the
writer cannot take, is counted.

The threads take turns one access at a time. The ring is a queue here: its push takes effect where
the tail is stored or the room was looked at, its pop where the head is stored.
-/

namespace Fixbolt

/-- The byte `\`. -/
def BACKSLASH : UInt8 := 0x5C

/-- The byte that ends a line. -/
def LF : UInt8 := 0x0A

def CR : UInt8 := 0x0D

/-! ### Escaping -/

/-- Put the escape of some bytes behind `out`. -/
def escapeInto (bytes out : Bytes) : Bytes :=
  bytes.foldl (fun out b =>
    if b = BACKSLASH then out ++ [BACKSLASH, BACKSLASH]
    else if b = LF then out ++ [BACKSLASH, 0x6E]
    else if b = CR then out ++ [BACKSLASH, 0x72]
    else out ++ [b]) out

/-- The bytes an escape was made of. What is no escape is kept as it is. -/
def unescape : Bytes → Bytes
  | [] => []
  | [b] => [b]
  | b :: c :: rest =>
    if b = BACKSLASH then
      if c = BACKSLASH then BACKSLASH :: unescape rest
      else if c = 0x6E then LF :: unescape rest
      else if c = 0x72 then CR :: unescape rest
      else BACKSLASH :: c :: unescape rest
    else b :: unescape (c :: rest)

/-! ### Text from any bytes -/

/-- What stands for bytes that are no character. -/
def replacement : Bytes := [0xEF, 0xBF, 0xBD]

/-- How many bytes a character takes that begins with this one; 0 when none does. -/
def utf8CharWidth (first : UInt8) : ℕ :=
  if first < 0x80 then 1
  else if first < 0xC2 then 0
  else if first < 0xE0 then 2
  else if first < 0xF0 then 3
  else if first < 0xF5 then 4
  else 0

def continues (b : UInt8) : Bool := 0x80 ≤ b ∧ b < 0xC0

/-- May `second` follow `first` in a character of several bytes? -/
def secondByte (first second : UInt8) : Bool :=
  if first = 0xE0 then 0xA0 ≤ second ∧ second < 0xC0
  else if first = 0xED then 0x80 ≤ second ∧ second < 0xA0
  else if first = 0xF0 then 0x90 ≤ second ∧ second < 0xC0
  else if first = 0xF4 then 0x80 ≤ second ∧ second < 0x90
  else continues second

/-- How many of the bytes behind `first` go on with its character. -/
def following (first : UInt8) : Bytes → ℕ
  | [] => 0
  | second :: rest =>
    if secondByte first second then
      1 + ((rest.take (utf8CharWidth first - 2)).takeWhile continues).length
    else 0

/-- `String::from_utf8_lossy`: each longest beginning of a character that is not finished, and each
byte that begins none, is replaced. -/
def fromUtf8Lossy : ℕ → Bytes → Bytes
  | 0, _ | _, [] => []
  | fuel + 1, b :: rest =>
    match utf8CharWidth b with
    | 0 => replacement ++ fromUtf8Lossy fuel rest
    | 1 => b :: fromUtf8Lossy fuel rest
    | width + 2 =>
      let n := following b rest
      (if n = width + 1 then b :: rest.take n else replacement) ++ fromUtf8Lossy fuel (rest.drop n)

/-! ### Records -/

/-- Which way a message was going. -/
inductive Direction where
  | in_
  | out
  /-- No message: a connection was accepted, and the bytes are its peer's address. -/
  | open_
deriving DecidableEq, Repr

namespace Direction

def tag : Direction → UInt8
  | in_ => 0
  | out => 1
  | open_ => 2

def fromTag (tag : UInt8) : Option Direction :=
  if tag = 0 then some in_ else if tag = 1 then some out else if tag = 2 then some open_ else none

def label : Direction → Bytes
  | in_ => ascii "IN "
  | out => ascii "OUT"
  | open_ => ascii "OPN"

end Direction

/-- What is handed to the log at once. -/
structure LogRecord where
  dir : Direction
  atMs : UInt64
  shard : UInt16
  conn : UInt64
  bytes : Bytes
deriving DecidableEq, Repr

namespace FileLog

/-- The longest message a log carries. -/
def MAX_RECORD : ℕ := 4096

def REC_HEADER : ℕ := 19

/-- What the writer's buffer holds. -/
def WRITER_BUF : ℕ := REC_HEADER + MAX_RECORD

/-- The tag that means stop. -/
def STOP : UInt8 := 0xFF

/-- A record as it is pushed. -/
def encode (r : LogRecord) : Bytes :=
  r.dir.tag :: (toLe 8 r.atMs.toNat ++ toLe 2 r.shard.toNat ++ toLe 8 r.conn.toNat ++ r.bytes)

/-- A record as the writer reads it: none when it has no header or no known tag. -/
def decode (buf : Bytes) : Option LogRecord :=
  if buf.length < REC_HEADER then none
  else
    (Direction.fromTag (buf.headD 0)).map fun dir =>
      { dir
        atMs := (ofLe ((buf.drop 1).take 8)).toUInt64
        shard := (ofLe ((buf.drop 9).take 2)).toUInt16
        conn := (ofLe ((buf.drop 11).take 8)).toUInt64
        bytes := buf.drop REC_HEADER }

/-- A number, in at most the twenty digits of a `u64`. -/
def pushNum (n : ℕ) : Bytes := digitLoop 20 n []

/-- Milliseconds between year zero and the Unix epoch. -/
def MILLIS_YEAR_ZERO_TO_EPOCH : ℕ := daysYearZeroToEpoch * 86400000

/-- An instant of the engine's clock in milliseconds since the Unix epoch. -/
def unixMillis (atMs : UInt64) : ℕ := atMs.toNat - MILLIS_YEAR_ZERO_TO_EPOCH

/-- What the writer remembers between lines. -/
structure Pen where
  clock : TimestampCache
  /-- The peers of the connections that were opened. -/
  peers : UInt16 × UInt64 → Option Bytes

namespace Pen

def new : Pen := ⟨.withPrecision .millis, fun _ => none⟩

/-- The line of a record, and what the writer remembers after it. -/
def line (pen : Pen) (r : LogRecord) : Pen × Bytes :=
  let payload := if r.dir = .open_ then r.bytes else (mask r.bytes).1
  let (clock, stamp) := pen.clock.format (unixMillis r.atMs) 0
  if r.dir = .open_ then
    let peer := fromUtf8Lossy payload.length payload
    ({ clock, peers := Function.update pen.peers (r.shard, r.conn) (some peer) },
      ascii "# conn=" ++ pushNum r.conn.toNat ++ ascii " shard=" ++ pushNum r.shard.toNat ++
        ascii " peer=" ++ peer ++ ascii " opened at " ++ stamp ++ [LF])
  else
    let front := stamp ++ ascii " " ++ r.dir.label ++ ascii " shard=" ++ pushNum r.shard.toNat ++
      ascii " conn=" ++ pushNum r.conn.toNat ++ ascii " "
    let named := match pen.peers (r.shard, r.conn) with
      | some peer => front ++ ascii "peer=" ++ peer ++ ascii " "
      | none => front
    ({ pen with clock }, escapeInto payload named ++ [LF])

/-- The lines of some records, one after another. -/
def lines (pen : Pen) : List LogRecord → List Bytes
  | [] => []
  | r :: rs => (pen.line r).2 :: (pen.line r).1.lines rs

/-- What the writer remembers after some records. -/
def after (pen : Pen) (rs : List LogRecord) : Pen := rs.foldl (fun pen r => (pen.line r).1) pen

end Pen

/-! ### The two threads -/

/-- Where the engine's thread is with the log. -/
inductive LoggerPc where
  | between
  /-- `record` found no room: about to count. -/
  | counting
  /-- `close` pushes `STOP` until there is room. -/
  | stopping
  /-- `close` waits for the writer. -/
  | joining
  | closed
deriving DecidableEq, Repr

/-- Where the writer's thread is. -/
inductive ScribePc where
  /-- About to pop. -/
  | looping (pen : Pen)
  /-- Something was popped: no bytes when it was longer than the buffer. -/
  | handling (pen : Pen) (popped : Bytes)
  | stopped

end FileLog

open FileLog in
/-- A log with its two threads. -/
structure FileLog where
  /-- How many bytes the ring holds. -/
  capacity : ℕ
  ring : Fifo Bytes
  engine : LoggerPc
  writer : ScribePc
  lost : ℕ
  /-- What was appended to the file. -/
  file : Bytes
  /-- What was handed over, ever. -/
  handed : List LogRecord

namespace FileLog

/-- What happens next. -/
inductive Act where
  /-- `record` is called. -/
  | record (r : LogRecord)
  /-- `close` is called. -/
  | close
  /-- The engine's next step inside `record` or `close`. -/
  | engine
  /-- The writer's next step. Where it writes a line, an error may come after some bytes of it. -/
  | writer (error : Option ℕ)
deriving DecidableEq, Repr

/-- A log just opened. -/
def opened (capacity : ℕ) : FileLog := ⟨capacity, .empty, .between, .looping .new, 0, [], []⟩

/-- Is there room in the ring? -/
def room (l : FileLog) (bytes : Bytes) : Bool :=
  bytes.length < u32Size ∧
    ringHeader + bytes.length + (l.ring.pending.map fun b => ringHeader + b.length).sum ≤ l.capacity

/-- The engine's next step inside `record` or `close`. -/
def engineStep (l : FileLog) : Option FileLog :=
  match l.engine with
  | .counting => some { l with lost := l.lost + 1, engine := .between }
  | .stopping =>
    if l.room [STOP] then some { l with ring := l.ring.push [STOP], engine := .joining } else some l
  | .joining =>
    match l.writer with
    | .stopped => some { l with engine := .closed }
    | _ => none
  | .between | .closed => none

/-- The writer's next step. -/
def writerStep (l : FileLog) (error : Option ℕ) : Option FileLog :=
  match l.writer with
  | .looping pen =>
    match l.ring.pop? with
    | some (bytes, ring) =>
      some { l with ring, writer := .handling pen (if bytes.length ≤ WRITER_BUF then bytes else []) }
    | none => some l
  | .handling pen popped =>
    if popped = [STOP] then some { l with writer := .stopped }
    else
      match decode popped with
      | none => some { l with lost := l.lost + 1, writer := .looping pen }
      | some r =>
        let (pen, line) := pen.line r
        match error with
        | none => some { l with file := l.file ++ line, writer := .looping pen }
        -- The writer counts the record it could not write, and gives up.
        | some k =>
          some { l with
            file := l.file ++ line.take (min k (line.length - 1))
            lost := l.lost + 1
            writer := .stopped }
  | .stopped => none

/-- One step, when it is the next of its thread. -/
def step (l : FileLog) : Act → Option FileLog
  | .record r =>
    match l.engine with
    | .between =>
      if l.room (encode r) then
        some { l with ring := l.ring.push (encode r), handed := l.handed ++ [r] }
      else some { l with engine := .counting, handed := l.handed ++ [r] }
    -- There is no ring to push to any more.
    | .closed => some { l with handed := l.handed ++ [r] }
    | _ => none
  | .close =>
    match l.engine with
    | .between => some { l with engine := .stopping }
    | .closed => some l
    | _ => none
  | .engine => l.engineStep
  | .writer error => l.writerStep error

def runs (l : FileLog) (as : List Act) : Option FileLog := as.foldlM step l

end FileLog

end Fixbolt
