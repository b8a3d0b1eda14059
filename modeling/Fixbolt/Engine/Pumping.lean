import Fixbolt.Engine.Framer
import Fixbolt.Engine.Presession
import Fixbolt.Lib.Sweep
import Fixbolt.Session.Config

/-!
# In front of the engine

Sockets that have not said who they are wait in a `PendingSet`, each until its Logon has arrived or
its time is over. One that has settled goes to the engine with every byte read off it, or is parked
while its recovery is not ready. Both share one ceiling.

A `Presession` is what the serving loop holds, with what became of every socket. A step is one round
of one of its loops: a socket accepted, one slot of `PendingSet::turn`, one settled socket taken, one
parked connection asked about. The transports, the clock, the registry and the recovery answer as
they like. What the engine does with its connections between two rounds is left out, and a round's
counts are added up.
-/

namespace Fixbolt

/-- A transport: which one it is, and every byte that was read from it. -/
structure Socket where
  id : ℕ
  taken : Bytes
deriving DecidableEq, Repr

/-- What a read answered. -/
inductive Recv where
  | ready (got : Bytes)
  | idle
  /-- The peer left, or the socket failed. Had TLS refused the handshake? -/
  | ended (refused : Bool)
deriving DecidableEq, Repr

/-- The two hard limits. -/
structure Limits where
  pending : ℕ
  logonMs : ℕ
  pending_pos : 0 < pending
  logon_pos : 0 < logonMs

/-- The configuration that serves an identity, given its whole Logon. -/
abbrev Registry := Identity → Bytes → Option Config

/-- One socket that has not said who it is. -/
structure Pending (PRE : ℕ) where
  socket : Socket
  rx : Framer PRE
  deadlineMs : ℕ
  /-- The length of the Logon at the front, and the configuration that serves it. -/
  settled : Option (ℕ × Config)

/-- What one socket became. -/
inductive Became where
  | waiting
  | settled
  | timedOut
  | notLogon
  | unknown
  | gone
  | unframeable
  | tlsRefused
deriving DecidableEq, Repr

namespace Pending

variable {PRE : ℕ}

/-- Decide what a socket has become, once it was read from. -/
def judge (registry : Registry) (nowMs : ℕ) (slot : Pending PRE) : Became × Pending PRE :=
  match slot.rx.cut with
  | .message n =>
    let msg := slot.rx.bytes n
    if isLogon msg = false then (.notLogon, slot)
    else match (identityOf msg).bind fun id => registry id msg with
      | none => (.unknown, slot)
      | some cfg => (.settled, { slot with settled := some (n, cfg) })
  | .garbage _ => (.unframeable, slot)
  | .need => if slot.deadlineMs ≤ nowMs then (.timedOut, slot) else (.waiting, slot)

/-- Read what is there, then decide. No read brings more than there is room for. -/
def advance (registry : Registry) (nowMs : ℕ) (recv : Recv) (slot : Pending PRE) :
    Became × Pending PRE :=
  if slot.rx.spare = 0 then slot.judge registry nowMs
  else match recv with
    | .ready got =>
      let got := got.take slot.rx.spare
      judge registry nowMs { slot with
        socket := ⟨slot.socket.id, slot.socket.taken ++ got⟩
        rx := slot.rx.filled got }
    | .idle => slot.judge registry nowMs
    | .ended refused => (if refused then .tlsRefused else .gone, slot)

end Pending

/-- What turns did, counted. -/
structure Progress where
  settled : ℕ
  timedOut : ℕ
  notLogon : ℕ
  unknown : ℕ
  gone : ℕ
  unframeable : ℕ
  tlsRefused : ℕ
deriving DecidableEq, Repr

namespace Progress

def zero : Progress := ⟨0, 0, 0, 0, 0, 0, 0⟩

/-- One socket more. -/
def note (p : Progress) : Became → Progress
  | .waiting => p
  | .settled => { p with settled := p.settled + 1 }
  | .timedOut => { p with timedOut := p.timedOut + 1 }
  | .notLogon => { p with notLogon := p.notLogon + 1 }
  | .unknown => { p with unknown := p.unknown + 1 }
  | .gone => { p with gone := p.gone + 1 }
  | .unframeable => { p with unframeable := p.unframeable + 1 }
  | .tlsRefused => { p with tlsRefused := p.tlsRefused + 1 }

/-- How many became this. -/
def count (p : Progress) : Became → ℕ
  | .waiting => 0
  | .settled => p.settled
  | .timedOut => p.timedOut
  | .notLogon => p.notLogon
  | .unknown => p.unknown
  | .gone => p.gone
  | .unframeable => p.unframeable
  | .tlsRefused => p.tlsRefused

end Progress

/-- A connection whose recovery was not ready. -/
structure Parked (PRE : ℕ) where
  item : Pending PRE
  cfg : Config
  untilMs : ℕ
  /-- When `ready` was last asked. -/
  askedMs : ℕ

/-- How a socket left the stage. -/
inductive Way where
  /-- To the engine, with these bytes. -/
  | handed (bytes : Bytes) (cfg : Config)
  /-- A turn let go of it. -/
  | dropped (why : Became)
  /-- It was parked past its limit. -/
  | expired
  /-- The set had no slot for it. -/
  | refused
  /-- The parking had no slot for it. -/
  | unparked
  /-- It was taken without a configuration. -/
  | unconfigured
  /-- The engine had no room for its bytes. -/
  | tooLong
deriving DecidableEq, Repr

/-- Where the serving loop is. -/
inductive Pump where
  | accepting
  /-- In `PendingSet::turn`, before its slot `i`. -/
  | turning (nowMs i : ℕ)
  /-- Taking what settled. -/
  | settling (nowMs : ℕ)
  /-- In `Parking::next_ready`, before its slot `i`. -/
  | asking (nowMs i : ℕ)
deriving DecidableEq, Repr

/-- The pre-session part of a serving loop whose engine's buffers hold `PRE` bytes. -/
structure Presession (PRE : ℕ) (limits : Limits) where
  /-- The slots the parking has, at least as many as were asked for. -/
  capacity : ℕ
  enough : limits.pending ≤ capacity
  set : List (Pending PRE)
  parked : List (Parked PRE)
  pump : Pump
  /-- The sum of what the turns counted. -/
  progress : Progress
  admitted : ℕ
  left : List (Socket × Way)
  /-- Every question whether a recovery is ready: of which socket, and in which millisecond. -/
  asked : List (ℕ × ℕ)

namespace Presession

variable {PRE : ℕ} {limits : Limits}

/-- A loop that has accepted nothing. -/
def opened (PRE : ℕ) (limits : Limits) (capacity : ℕ) (enough : limits.pending ≤ capacity) :
    Presession PRE limits :=
  ⟨capacity, enough, [], [], .accepting, .zero, 0, [], []⟩

def saturatingAdd (a b : ℕ) : ℕ := min (a + b) (2 ^ 64 - 1)

/-- `PendingSet::admit`, for a socket just accepted. -/
def admitSocket (s : Presession PRE limits) (nowMs : ℕ) : Presession PRE limits :=
  let socket : Socket := ⟨s.admitted, []⟩
  if limits.pending ≤ s.set.length then
    { s with admitted := s.admitted + 1, left := s.left ++ [(socket, .refused)] }
  else
    { s with
      admitted := s.admitted + 1
      set := s.set ++ [⟨socket, .new PRE, saturatingAdd nowMs limits.logonMs, none⟩] }

/-- One round of `PendingSet::turn`. -/
def look (s : Presession PRE limits) (registry : Registry) (nowMs i : ℕ) (recv : Recv) :
    Presession PRE limits :=
  match s.set[i]? with
  | none => { s with pump := .settling nowMs }
  | some slot =>
    if slot.settled.isSome then { s with pump := .turning nowMs (i + 1) }
    else
      let (became, slot) := slot.advance registry nowMs recv
      let s := { s with progress := s.progress.note became }
      match became with
      | .waiting | .settled => { s with set := s.set.set i slot, pump := .turning nowMs (i + 1) }
      | _ => { s with
          set := swapRemove s.set i
          left := s.left ++ [(slot.socket, .dropped became)]
          pump := .turning nowMs i }

/-- `admit_settled`: the engine takes bytes that fit its buffer. -/
def hand (s : Presession PRE limits) (pending : Pending PRE) (cfg : Config) : Presession PRE limits :=
  let bytes := pending.rx.buf
  { s with left := s.left ++
      [(pending.socket, if PRE < bytes.length then .tooLong else .handed bytes cfg)] }

/-- `Parking::limit_ms`. -/
def limitMs (cfg : Config) (fallbackMs : ℕ) : ℕ :=
  if cfg.logonTimeoutMs = 0 then fallbackMs else cfg.logonTimeoutMs

/-- `Parking::park`. -/
def park (s : Presession PRE limits) (item : Pending PRE) (cfg : Config) (nowMs limitMs : ℕ) :
    Presession PRE limits :=
  if s.capacity ≤ s.parked.length then
    { s with left := s.left ++ [(item.socket, .unparked)] }
  else { s with parked := s.parked ++ [⟨item, cfg, saturatingAdd nowMs limitMs, nowMs⟩] }

/-- `Parking::expire`. -/
def expire (s : Presession PRE limits) (nowMs : ℕ) : Presession PRE limits :=
  { s with
    parked := s.parked.filter fun p => decide (nowMs < p.untilMs)
    left := s.left ++ (s.parked.filter fun p => decide (p.untilMs ≤ nowMs)).map fun p =>
      (p.item.socket, .expired) }

/-- The first socket that has settled is taken, and goes to the engine or is parked. When there is
none, what is parked past its limit is dropped. -/
def settle (s : Presession PRE limits) (nowMs : ℕ) (ready : Bool) : Presession PRE limits :=
  match s.set.findIdx? (·.settled.isSome) with
  | none => { s.expire nowMs with pump := .asking nowMs 0 }
  | some i =>
    match s.set[i]? with
    | none => s
    | some pending =>
      let s := { s with set := swapRemove s.set i }
      match pending.settled with
      | none => { s with left := s.left ++ [(pending.socket, .unconfigured)] }
      | some (_, cfg) =>
        let s := { s with asked := s.asked ++ [(pending.socket.id, nowMs)] }
        if ready then s.hand pending cfg
        else s.park pending cfg nowMs (limitMs cfg limits.logonMs)

/-- One round of `Parking::next_ready`. -/
def ask (s : Presession PRE limits) (nowMs i : ℕ) (ready : Bool) : Presession PRE limits :=
  match s.parked[i]? with
  | none => { s with pump := .accepting }
  | some p =>
    if nowMs ≤ p.askedMs then { s with pump := .asking nowMs (i + 1) }
    else
      let s := { s with asked := s.asked ++ [(p.item.socket.id, nowMs)] }
      if ready then
        -- It is taken out, and the others are asked about from the first on.
        { s with parked := swapRemove s.parked i, pump := .asking nowMs 0 }.hand p.item p.cfg
      else
        { s with
          parked := s.parked.set i { p with askedMs := nowMs }
          pump := .asking nowMs (i + 1) }

/-- What happens next. -/
inductive Act where
  /-- The listener has a socket, and there is a slot for it. -/
  | accept (nowMs : ℕ)
  /-- The clock is read, and a turn begins. -/
  | turn (nowMs : ℕ)
  /-- A round of the turn; the answer is to its read, if it reads. -/
  | look (recv : Recv)
  /-- A round of the loop around `settled`; the answer is the recovery's, if it is asked. -/
  | settle (ready : Bool)
  /-- A round of `next_ready`; the answer is the recovery's, if it is asked. -/
  | ask (ready : Bool)
deriving DecidableEq, Repr

/-- One step, when the loop is there. -/
def step (s : Presession PRE limits) (registry : Registry) : Act → Option (Presession PRE limits)
  | .accept nowMs =>
    match s.pump with
    | .accepting =>
      if s.set.length + s.parked.length < limits.pending then some (s.admitSocket nowMs) else none
    | _ => none
  | .turn nowMs =>
    match s.pump with
    | .accepting => some { s with pump := .turning nowMs 0 }
    | _ => none
  | .look recv =>
    match s.pump with
    | .turning nowMs i => some (s.look registry nowMs i recv)
    | _ => none
  | .settle ready =>
    match s.pump with
    | .settling nowMs => some (s.settle nowMs ready)
    | _ => none
  | .ask ready =>
    match s.pump with
    | .asking nowMs i => some (s.ask nowMs i ready)
    | _ => none

def runs (s : Presession PRE limits) (registry : Registry) (as : List Act) :
    Option (Presession PRE limits) :=
  as.foldlM (fun s a => s.step registry a) s

end Presession

end Fixbolt
