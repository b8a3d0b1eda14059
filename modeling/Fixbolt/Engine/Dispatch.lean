import Fixbolt.Engine.Ring

/-!
# The rings to an application on another thread

`RingDispatch` is the engine's end of two rings and `RingApp` the application's. `deliver` sends a
message with its connection and header through the one, `pump` hands it to the handler and sends the
reply with its connection through the other, and `collect` gives the reply to the engine. Each end
reads into a buffer of `M` bytes, the longest message either direction carries.

A step is one access of a ring by the thread whose turn it is, or what that thread does in between.
-/

namespace Fixbolt

/-- How many bytes of the stamp an application is given. -/
def stampLen : ℕ := 21

def connLen : ℕ := 8

def seqLen : ℕ := 4

def hasLastLen : ℕ := 1

def lastProcessedLen : ℕ := 4

def outConn : ℕ := 0

def outSeq : ℕ := outConn + connLen

def outHasLast : ℕ := outSeq + seqLen

def outLastProcessed : ℕ := outHasLast + hasLastLen

def outStamp : ℕ := outLastProcessed + lastProcessedLen

def outHeader : ℕ := outStamp + stampLen

def backHeader : ℕ := 8

/-- A message for the application, with its connection and header. -/
structure Delivery where
  conn : UInt64
  seq : UInt32
  stamp : Bytes
  lastProcessed : Option UInt32
  msg : Bytes
deriving DecidableEq, Repr

namespace Delivery

/-- The stamp in its place, with zeros behind it. -/
def stampField (stamp : Bytes) : Bytes :=
  stamp.take stampLen ++ List.replicate (stampLen - stamp.length) 0

/-- The header of a record going out to the application. -/
def fixed (d : Delivery) : Bytes :=
  toLe connLen d.conn.toNat ++ (toLe seqLen d.seq.toNat ++
    ([if d.lastProcessed.isSome then 1 else 0] ++
      (toLe lastProcessedLen (d.lastProcessed.getD 0).toNat ++ stampField d.stamp)))

/-- A record going out to the application. -/
def record (d : Delivery) : Bytes := d.fixed ++ d.msg

/-- What the application reads out of a record. -/
def read (got : Bytes) : Delivery where
  conn := .ofNat (ofLe ((got.drop outConn).take connLen))
  seq := .ofNat (ofLe ((got.drop outSeq).take seqLen))
  lastProcessed :=
    if got[outHasLast]? = some 0 then none
    else some (.ofNat (ofLe ((got.drop outLastProcessed).take lastProcessedLen)))
  stamp := (got.drop outStamp).take stampLen
  msg := got.drop outHeader

end Delivery

/-- A record coming back: the connection, and the reply. -/
def reply (conn : UInt64) (bytes : Bytes) : Bytes := toLe backHeader conn.toNat ++ bytes

/-- What the engine's thread is doing with its end. -/
inductive RingDispatch where
  | idle
  /-- In `deliver`, pushing. -/
  | delivering (d : Delivery)
  /-- In the loop of `collect`. -/
  | collecting
deriving DecidableEq, Repr

/-- What the application's thread is doing with its end. -/
inductive RingApp where
  /-- Not in `pump`, which handled so many the last time. -/
  | idle (done : ℕ)
  /-- In the loop of `pump`. -/
  | pumping (done : ℕ)
  /-- The handler has the message. -/
  | handling (done : ℕ) (d : Delivery)
  /-- Pushing the reply. -/
  | replying (done : ℕ) (d : Delivery) (bytes : Bytes)
deriving DecidableEq, Repr

/-- What a handler answers: the bytes of its reply, when their range is one of its buffer. -/
inductive Answer where
  | silent
  | beyond
  | bytes (bytes : Bytes)
deriving DecidableEq, Repr

/-- Both ends, their counts, and what has gone through: the messages `deliver` did not refuse, those
the handler was given, the replies the ring took and those the engine collected. -/
structure Exchange where
  toApp : Ring
  fromApp : Ring
  engine : RingDispatch
  refused : ℕ
  refusedSince : Bool
  dropped : ℕ
  app : RingApp
  appDropped : ℕ
  taken : List Delivery
  handed : List Delivery
  replied : List (Delivery × Bytes)
  emitted : List (UInt64 × Bytes)

namespace Exchange

/-- Two rings of these capacities, and nothing on them. -/
def start (toApp fromApp : ℕ) : Exchange where
  toApp := .pair toApp
  fromApp := .pair fromApp
  engine := .idle
  refused := 0
  refusedSince := false
  dropped := 0
  app := .idle 0
  appDropped := 0
  taken := []
  handed := []
  replied := []
  emitted := []

/-- What happens next. -/
inductive Act where
  | deliver (d : Delivery)
  | collect
  | takeRefusal
  /-- The engine's thread goes on with its call. -/
  | engine
  | pump
  /-- The handler returns. -/
  | answer (answer : Answer)
  /-- The application's thread goes on with its call. -/
  | app
deriving DecidableEq, Repr

/-- The message is turned away. -/
def refuse (x : Exchange) : Exchange := { x with refused := x.refused + 1, refusedSince := true }

/-- `deliver`, as far as whether there is room. -/
def deliver (M : ℕ) (x : Exchange) (d : Delivery) : Option Exchange :=
  if M < d.msg.length then some x.refuse
  else
    (x.toApp.step (.offer d.record)).map fun ring =>
      if ring.producer = .idle then x.refuse
      else { x with toApp := ring, engine := .delivering d }

/-- What `collect` does with what it popped. -/
def collected (x : Exchange) (ring : Ring) : Ring.Popping → Exchange
  | .more => { x with fromApp := ring }
  | .empty => { x with fromApp := ring, engine := .idle }
  | .record bytes =>
    if bytes.length < backHeader then { x with fromApp := ring, dropped := x.dropped + 1 }
    else { x with
      fromApp := ring
      emitted := x.emitted ++
        [(.ofNat (ofLe (bytes.take backHeader)), bytes.drop backHeader)] }

/-- The next access of the engine's thread. -/
def engineStep (M : ℕ) (x : Exchange) : Option Exchange :=
  match x.engine with
  | .idle => none
  | .delivering d =>
    x.toApp.pushing.map fun (ring, last) =>
      if last then { x with toApp := ring, engine := .idle, taken := x.taken ++ [d] }
      else { x with toApp := ring }
  | .collecting => (x.fromApp.popping M).map fun (ring, popping) => x.collected ring popping

/-- What `pump` does with what it popped. -/
def pumped (x : Exchange) (done : ℕ) (ring : Ring) : Ring.Popping → Exchange
  | .more => { x with toApp := ring }
  | .empty => { x with toApp := ring, app := .idle done }
  | .record bytes =>
    if bytes.length < outHeader then { x with toApp := ring, appDropped := x.appDropped + 1 }
    else { x with
      toApp := ring
      app := .handling (done + 1) (.read bytes)
      handed := x.handed ++ [.read bytes] }

/-- The next access of the application's thread. -/
def appStep (M : ℕ) (x : Exchange) : Option Exchange :=
  match x.app with
  | .idle _ => none
  | .pumping done => (x.toApp.popping M).map fun (ring, popping) => x.pumped done ring popping
  | .handling _ _ => none
  | .replying done d bytes =>
    x.fromApp.pushing.map fun (ring, last) =>
      if last then
        { x with fromApp := ring, app := .pumping done, replied := x.replied ++ [(d, bytes)] }
      else { x with fromApp := ring }

/-- What `pump` does with the handler's answer, whose buffer has `M` bytes. -/
def answered (M : ℕ) (x : Exchange) (done : ℕ) (d : Delivery) : Answer → Option Exchange
  | .silent => some { x with app := .pumping done }
  | .beyond => some { x with app := .pumping done, appDropped := x.appDropped + 1 }
  | .bytes bytes =>
    if M < bytes.length then none
    else
      (x.fromApp.step (.offer (reply d.conn bytes))).map fun ring =>
        if ring.producer = .idle then
          { x with app := .pumping done, appDropped := x.appDropped + 1 }
        else { x with fromApp := ring, app := .replying done d bytes }

/-- One step of either thread. -/
def step (M : ℕ) (x : Exchange) : Act → Option Exchange
  | .deliver d =>
    match x.engine with
    | .idle => x.deliver M d
    | _ => none
  | .collect =>
    match x.engine with
    | .idle => some { x with engine := .collecting }
    | _ => none
  | .takeRefusal =>
    match x.engine with
    | .idle => some { x with refusedSince := false }
    | _ => none
  | .engine => x.engineStep M
  | .pump =>
    match x.app with
    | .idle _ => some { x with app := .pumping 0 }
    | _ => none
  | .answer answer =>
    match x.app with
    | .handling done d => x.answered M done d answer
    | _ => none
  | .app => x.appStep M

/-- A run of both threads. -/
def runs (M : ℕ) (x : Exchange) (as : List Act) : Option Exchange := as.foldlM (step M) x

end Exchange

end Fixbolt
