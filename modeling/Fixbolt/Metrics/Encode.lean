import Fixbolt.Codec.Decimal
import Fixbolt.Metrics.Series

/-!
# The text a scrape prints

`encode` prints every series for every engine into a buffer reserved once; `Out.put` refuses rather
than grows it. `capacityFor` is how much is reserved, worked out from the table of series. A `usize`
is a natural number here: what is counted is the bytes of texts that are in memory.

* `eachSample`: what is printed of one engine under one series, in order;
* `Out.sample`, `Out.header`: one line of a sample, the two lines in front of a family.
-/

namespace Fixbolt

namespace Metrics

/-- The longest value `Out.value` prints: `-9223372036854775.808`. -/
def VALUE_MAX : ℕ := 21

/-- How many sessions a snapshot carries. -/
def MAX_SESSIONS : ℕ := 64

/-- One session, as the encoder needs it. -/
structure SessionView where
  conn : UInt64
  loggedOn : Bool
  nextOut : UInt32
  nextIn : UInt32
  skewMs : Option Int64
  pendingOutput : Bool
  journalRefused : UInt32
  resendBeyond : UInt32

/-- The engine-wide numbers a snapshot carries. `ring` and `presession` are used and capacity. -/
structure Numbers where
  healthy : Bool
  connections : UInt64
  loggedOn : UInt64
  truncated : Bool
  refused : UInt64
  unframeable : UInt64
  sourcesMissing : UInt64
  logLost : UInt64
  ring : Option (UInt64 × UInt64)
  presession : Option (UInt64 × UInt64)

/-- Event counts, by `kind` and by `reason`. -/
structure Counts where
  kinds : Vector UInt64 EVENT_KINDS.length
  reasons : Vector UInt64 REASONS

/-- One engine, as a scrape prints it. -/
structure EngineView where
  name : Bytes
  published : UInt64
  eventsLost : UInt64
  /-- Milliseconds since `published` was last seen to move. -/
  ageMs : Option UInt64
  /-- `none` until the engine has published a snapshot. -/
  numbers : Option Numbers
  sessions : List SessionView
  /-- `none` unless the exporter owns the event stream. -/
  events : Option Counts

/-- The exporter's own two counters. -/
structure ExporterView where
  scrapes : UInt64
  badRequests : UInt64

/-- The reserved buffer was too small. -/
inductive Overflow where
  | overflow
deriving DecidableEq

/-- A value, as one sample prints it. -/
inductive Value where
  | int (n : UInt64)
  /-- Milliseconds, signed, printed as seconds. -/
  | millis (ms : Int64)
  /-- Milliseconds, unsigned, printed as seconds. -/
  | uMillis (ms : UInt64)

/-- The labels after `engine`, if any. -/
inductive Extra where
  | none
  | conn (id : UInt64)
  | kind (label : Bytes)
  | reason (label : Bytes)
deriving DecidableEq

/-- One or zero. -/
def int (b : Bool) : Value := .int (if b then 1 else 0)

/-- A sample of the engine itself, if there is a value. -/
def engineSample (v : Option Value) : List (Extra × Value) := (v.map fun v => (.none, v)).toList

/-- What a series prints of one session. -/
def sessionValue (source : Source) (s : SessionView) : Option Value :=
  match source with
  | .sessionLoggedOn => some (int s.loggedOn)
  | .sessionNextOut => some (.int s.nextOut.toUInt64)
  | .sessionNextIn => some (.int s.nextIn.toUInt64)
  | .sessionSkew => s.skewMs.map .millis
  | .sessionPendingOutput => some (int s.pendingOutput)
  | .sessionJournalRefused => some (.int s.journalRefused.toUInt64)
  | _ => some (.int s.resendBeyond.toUInt64)

/-- Every sample a series has for an engine, in order: what `f` is called with. -/
def eachSample (series : Series) (e : EngineView) : List (Extra × Value) :=
  match series.source with
  | .snapshotAvailable => engineSample (some (int e.numbers.isSome))
  | .snapshotAge => engineSample (e.ageMs.map .uMillis)
  | .published => engineSample (some (.int e.published))
  | .eventsLost => engineSample (some (.int e.eventsLost))
  | .healthy => engineSample (e.numbers.map fun n => int n.healthy)
  | .connections => engineSample (e.numbers.map fun n => .int n.connections)
  | .sessionsLoggedOn => engineSample (e.numbers.map fun n => .int n.loggedOn)
  | .truncated => engineSample (e.numbers.map fun n => int n.truncated)
  | .refused => engineSample (e.numbers.map fun n => .int n.refused)
  | .unframeable => engineSample (e.numbers.map fun n => .int n.unframeable)
  | .sourcesMissing => engineSample (e.numbers.map fun n => .int n.sourcesMissing)
  | .logLost => engineSample (e.numbers.map fun n => .int n.logLost)
  | .ringUsed => engineSample ((e.numbers.bind (·.ring)).map fun r => .int r.1)
  | .ringCapacity => engineSample ((e.numbers.bind (·.ring)).map fun r => .int r.2)
  | .presessionUsed => engineSample ((e.numbers.bind (·.presession)).map fun r => .int r.1)
  | .presessionCapacity => engineSample ((e.numbers.bind (·.presession)).map fun r => .int r.2)
  | .sessionLoggedOn | .sessionNextOut | .sessionNextIn | .sessionSkew | .sessionPendingOutput
  | .sessionJournalRefused | .sessionResendBeyond =>
    if e.numbers.isNone then []
    else e.sessions.filterMap fun s =>
      (sessionValue series.source s).map fun v => (.conn s.conn, v)
  | .events =>
    match e.events with
    | some c => (EVENT_KINDS.zip c.kinds.toList).map fun (label, n) => (.kind label, .int n)
    | none => []
  | .sessionEnds =>
    match e.events with
    | some c => c.reasons.toList.zipIdx.map fun (n, i) => (.reason (reasonLabel i), .int n)
    | none => []
  -- Not per engine; printed once, by `encode`.
  | .scrapes | .badRequests => []

/-! ### The buffer -/

/-- A `Vec<u8>`: what is in it, and what it has room for. -/
@[ext] structure Vec where
  bytes : Bytes
  capacity : ℕ
  fits : bytes.length ≤ capacity
deriving DecidableEq

namespace Vec

/-- An empty one with room reserved. -/
def withCapacity (capacity : ℕ) : Vec := ⟨[], capacity, Nat.zero_le _⟩

/-- Its bytes dropped, its room kept. -/
def clear (v : Vec) : Vec := ⟨[], v.capacity, Nat.zero_le _⟩

/-- Bytes behind what is in it. Without the room for them it grows. -/
def extendFromSlice (v : Vec) (bytes : Bytes) : Vec where
  bytes := v.bytes ++ bytes
  capacity :=
    if v.bytes.length + bytes.length ≤ v.capacity then v.capacity
    else max (max (2 * v.capacity) (v.bytes.length + bytes.length)) 8
  fits := by
    rw [List.length_append]
    split <;> omega

end Vec

/-- A writer over a reserved buffer that refuses to grow it. -/
abbrev Out := Vec

namespace Out

/-- Write bytes, or refuse. -/
def put (o : Out) (bytes : Bytes) : Except Overflow Out :=
  if o.capacity - o.bytes.length < bytes.length then .error .overflow
  else .ok (o.extendFromSlice bytes)

/-- The two lines in front of a family. -/
def header (o : Out) (s : Series) : Except Overflow Out := do
  let o ← o.put (ascii "# HELP ")
  let o ← put o s.name
  let o ← put o (ascii " ")
  let o ← put o s.help
  let o ← put o (ascii "\n# TYPE ")
  let o ← put o s.name
  let o ← put o (ascii " ")
  let o ← put o s.kind.asStr
  put o (ascii "\n")

/-- A label value, with `\`, `"` and the line feed escaped. -/
def escaped (o : Out) (s : Bytes) : Except Overflow Out :=
  s.foldlM
    (fun o b =>
      if b = 0x5C then put o [0x5C, 0x5C]
      else if b = 0x22 then put o [0x5C, 0x22]
      else if b = 0x0A then put o [0x5C, 0x6E]
      else put o [b])
    o

/-- A number, its digits filled in from the last of 20 places. -/
def uint (o : Out) (n : UInt64) : Except Overflow Out := put o (digitLoop 20 n.toNat [])

/-- `ms` as seconds with exactly three decimals. -/
def seconds (o : Out) (ms : UInt64) : Except Overflow Out := do
  let o ← uint o (ms / 1000)
  let frac := (ms % 1000).toNat
  put o [0x2E, digitByte (frac / 100), digitByte (frac / 10 % 10), digitByte (frac % 10)]

/-- The value of a sample. -/
def value (o : Out) (v : Value) : Except Overflow Out :=
  match v with
  | .int n => uint o n
  | .millis ms =>
    if ms.toInt < 0 then do
      let o ← put o [0x2D]
      seconds o ms.toInt.natAbs.toUInt64
    else seconds o ms.toInt.natAbs.toUInt64
  | .uMillis ms => seconds o ms

/-- The label after `engine`, if any. -/
def extra (o : Out) (x : Extra) : Except Overflow Out :=
  match x with
  | .none => .ok o
  | .conn id => do
    let o ← put o (ascii ",conn=\"")
    let o ← uint o id
    put o (ascii "\"")
  | .kind k => do
    let o ← put o (ascii ",kind=\"")
    let o ← put o k
    put o (ascii "\"")
  | .reason r => do
    let o ← put o (ascii ",reason=\"")
    let o ← put o r
    put o (ascii "\"")

/-- The line of a sample. -/
def sample (o : Out) (name engine : Bytes) (x : Extra) (v : Value) : Except Overflow Out := do
  let o ← put o name
  let o ← put o (ascii "\x7bengine=\"")
  let o ← escaped o engine
  let o ← put o (ascii "\"")
  let o ← extra o x
  let o ← put o (ascii "\x7d ")
  let o ← value o v
  put o (ascii "\n")

end Out

/-- A sample of the exporter itself, without labels. -/
def exporterSample (o : Out) (name : Bytes) (v : UInt64) : Except Overflow Out := do
  let o ← o.put name
  let o ← Out.put o (ascii " ")
  let o ← Out.value o (.int v)
  Out.put o (ascii "\n")

/-- One series of `encode`. A family with no sample anywhere is left out whole. -/
def encodeSeries (engines : List EngineView) (exporter : ExporterView) (o : Out) (series : Series) :
    Except Overflow Out :=
  if series.scope = .exporter then do
    let v := match series.source with
      | .scrapes => exporter.scrapes
      | _ => exporter.badRequests
    let o ← Out.header o series
    exporterSample o series.name v
  else if engines.all fun e => (eachSample series e).isEmpty then .ok o
  else do
    let o ← Out.header o series
    engines.foldlM
      (fun o e => (eachSample series e).foldlM
        (fun o (extra, v) => Out.sample o series.name e.name extra v) o)
      o

/-- Print every series for every engine into `out`, which is cleared first. -/
def encode (out : Vec) (engines : List EngineView) (exporter : ExporterView) :
    Except Overflow Vec :=
  ALL.foldlM (encodeSeries engines exporter) out.clear

/-! ### The room -/

/-- What `capacityFor` adds for one series. -/
def roomFor (engines escapedNames maxKind maxReason : ℕ) (events : Bool) (s : Series) : ℕ :=
  let name := s.name.length
  -- "# HELP <name> <help>\n# TYPE <name> <type>\n"
  let header := 7 + name + 1 + s.help.length + 1 + 7 + name + 1 + s.kind.asStr.length + 1
  -- "<name>" and " <value>\n"
  let tail := name + 1 + VALUE_MAX + 1
  let engineLabel := 9 + 1 + 1
  let each (perEngine extra : ℕ) :=
    perEngine * (engines * (tail + engineLabel + extra) + escapedNames)
  match s.scope with
  | .exporter => header + tail
  | .engine => header + each 1 0
  | .session => header + each MAX_SESSIONS (7 + 20 + 1)
  | .eventKind =>
    header + if events then each EVENT_KINDS.length (7 + maxKind + 1) else each 0 0
  | .reason => header + if events then each REASONS (9 + maxReason + 1) else each 0 0

/-- An upper bound on what `encode` can write for engines named `names`. -/
def capacityFor (names : List Bytes) (events : Bool) : ℕ :=
  let maxKind := ((EVENT_KINDS.map List.length).max?).getD 0
  let maxReason := (((List.range REASONS).map fun i => (reasonLabel i).length).max?).getD 0
  let (engines, escapedNames) := names.foldl
    (fun (n, len) name => (n + 1, len + 2 * name.length)) (0, 0)
  ALL.foldl (fun total s => total + roomFor engines escapedNames maxKind maxReason events s) 0

end Metrics

end Fixbolt
