import Fixbolt.Engine.Framer
import Fixbolt.Session.Machine

/-!
# One connection

A socket, a receive buffer, a session, and whatever could not be written yet. A call of the session
leaves the messages it emits in `emitting`, and `Out::push` takes them one by one; what is left of
the running method is in `todo`. A step is one of these things: a push, a write to the socket, a read
from it, or the next thing the method does. The transport answers writes and reads as it likes.

The message log is left out, and what `turn` and `administer` answer but for `Turn::Gone`. The
messages of a call are those its history gained.
-/

namespace Fixbolt

/-- What to do when the queue will not take the next message. -/
inductive Backpressure where
  | disconnect
  | queue (maxBytes : ℕ)
  | block
deriving DecidableEq, Repr

namespace Backpressure

/-- How many bytes may wait, given a buffer of `tx`. -/
def bound (p : Backpressure) (tx : ℕ) : ℕ :=
  match p with
  | .disconnect | .block => tx
  | .queue maxBytes => if maxBytes < tx then maxBytes else tx

/-- Should a full queue be waited out? -/
def blocks (p : Backpressure) : Bool := p == .block

end Backpressure

def slowConsumerText : Bytes := ascii "slow consumer"

def slowApplicationText : Bytes := ascii "slow application"

def shuttingDown : Bytes := ascii "shutting down"

/-- What one read or write did. -/
inductive Io where
  /-- This many bytes moved. -/
  | ready (n : ℕ)
  | idle
  | closed
  | failed
deriving DecidableEq, Repr

/-- What an operator can ask of a connection. -/
inductive Command where
  | setNextOut (n : ℕ)
  | setNextIn (n : ℕ)
  | sendSequenceReset (n : ℕ)
deriving DecidableEq, Repr

/-- The bytes of a message on its way out. -/
def Emission.bytes : Emission → Bytes
  | .templated _ _ bytes => bytes
  | .reply _ bytes => bytes
  | .originated _ bytes => bytes
  | .replayed _ bytes => bytes

/-- The message of an event, if one went out. -/
def Event.message? : Event → Option Bytes
  | .emitted e => some e.bytes
  | _ => none

/-- The messages a session emitted, in order. -/
def messages (hist : List Event) : List Bytes := (hist.filterMap Event.message?).reverse

/-- The outbound queue, as the session's `emit` sees it. -/
structure Out where
  bound : ℕ
  blocks : Bool
deriving DecidableEq, Repr

/-- What a method has still to do, call by call. -/
inductive Task where
  | flush
  /-- The connection is closing. -/
  | close
  /-- The overflow is dealt with. -/
  | settle
  /-- End the session if a message did not fit. -/
  | overflow
  | note (why : DropReason)
  | tick (nowMs subMsNanos : ℕ)
  | recv (refuse : Bytes → Bool)
  | cut (refuse : Bytes → Bool)
  /-- `received_with` answered `link` to the first `taken` bytes. -/
  | judged (taken : ℕ) (link : Link) (refuse : Bytes → Bool)
  /-- The end of a turn; did the counterparty close? -/
  | leave (closed : Bool)

/-- One connection, with a receive buffer of `RX` and a queue of `TX` bytes. -/
structure Connection (A J : Type) (RX TX : ℕ) where
  /-- The session, the application and the journal. -/
  world : World A J
  rx : Framer RX
  /-- Written by the session, not yet accepted by the socket. -/
  tx : Bytes
  closing : Bool
  refused : Bool
  dead : Bool
  policy : Backpressure
  overflow : Bool
  unsent : ℕ
  /-- Has `turn` answered `Gone`? -/
  gone : Bool
  /-- What the running call of the session has still to push, and how. -/
  emitting : List Bytes
  out : Out
  todo : List Task
  /-- All that the socket accepted. -/
  sent : Bytes

namespace Connection

variable (P : Params) {A J : Type} {RX TX : ℕ}

/-- A socket and a session that has not been told about it yet. -/
def new (RX TX : ℕ) (world : World A J) (policy : Backpressure) : Connection A J RX TX where
  world := world
  rx := .new RX
  tx := []
  closing := false
  refused := false
  dead := false
  policy := policy
  overflow := false
  unsent := 0
  gone := false
  emitting := []
  out := ⟨0, false⟩
  todo := []
  sent := []

/-- The queue under this connection's policy. -/
def queue (c : Connection A J RX TX) : Out := ⟨c.policy.bound TX, c.policy.blocks⟩

/-- The queue of a goodbye: the whole buffer, and no waiting. -/
def farewell (TX : ℕ) : Out := ⟨TX, false⟩

/-- The socket accepts the first `n` bytes of the queue. -/
def accepted (c : Connection A J RX TX) (n : ℕ) : Connection A J RX TX :=
  { c with tx := c.tx.drop n, sent := c.sent ++ c.tx.take n }

/-- Must `push` write to the socket first? -/
def waits (c : Connection A J RX TX) (m : Bytes) : Bool :=
  c.out.blocks && decide (c.out.bound < c.tx.length + m.length)

/-- One whole message, or none of it. -/
def push (c : Connection A J RX TX) (m : Bytes) : Connection A J RX TX :=
  if c.out.bound < c.tx.length + m.length then { c with overflow := true }
  else { c with tx := c.tx ++ m }

def closeIf (dropped : Bool) : List Task := if dropped then [.close] else []

section Calls

variable [Application A] [Journal J]

/-- A call of the session whose messages go to the queue. -/
def say (c : Connection A J RX TX) (call : Call) (out : Out) (rest : Link → List Task) :
    Connection A J RX TX :=
  let (world, link) := c.world.perform P call
  { c with
    world := world
    emitting := messages (world.hist.take (world.hist.length - c.world.hist.length))
    out := out
    todo := rest link ++ c.todo }

/-- A call of the session whose messages go nowhere. -/
def tell (c : Connection A J RX TX) (call : Call) : Connection A J RX TX :=
  { c with world := (c.world.perform P call).1 }

/-- The queue is thrown away, and a Logout says why. -/
def slowConsumer (c : Connection A J RX TX) : Connection A J RX TX :=
  { c with tx := [], overflow := false }.say P (.logoutNowWith slowConsumerText) (farewell TX)
    fun _ => [.note .slowConsumer, .settle, .close]

/-- The methods of a connection, from the outside. -/
inductive Act where
  | opened
  | prime (bytes : Bytes)
  | sendApplication (msg : Bytes)
  | slowApplication
  | administer (command : Command)
  | beginLogout
  | refuseWithoutASession (why : DropReason)
  | turn (nowMs subMsNanos : ℕ) (refuse : Bytes → Bool)
  /-- The next step of the running method, when it asks nothing of the transport. -/
  | go
  /-- The transport's answer to a write. -/
  | wrote (io : Io)
  /-- The transport's answer to a read, with what it read. -/
  | read (io : Io) (bytes : Bytes)

/-- A method begins. -/
def begin_ (c : Connection A J RX TX) : Act → Connection A J RX TX
  | .opened => c.say P .connect c.queue fun link => closeIf (link == .dropped)
  | .prime bytes => if c.rx.spare < bytes.length then c else { c with rx := c.rx.filled bytes }
  | .sendApplication msg =>
    c.say P (.sendApplication msg) c.queue fun link =>
      closeIf (link == .dropped) ++ [.overflow, .flush]
  | .slowApplication =>
    c.say P (.logoutNowWith slowApplicationText) (farewell TX) fun _ =>
      [.note .slowApplication, .close]
  | .administer (.setNextOut n) => c.tell P (.setNextOut n)
  | .administer (.setNextIn n) => c.tell P (.setNextIn n)
  | .administer (.sendSequenceReset n) =>
    c.say P (.sendSequenceResetWith n) c.queue fun _ => [.overflow]
  | .beginLogout =>
    c.say P (.beginLogoutWith shuttingDown) c.queue fun link =>
      .overflow :: closeIf (link == .dropped)
  | .refuseWithoutASession why =>
    { c.tell P (.noteDropReason why) with refused := true, closing := true, dead := true }
  | .turn nowMs subMsNanos refuse =>
    if c.refused then
      { c.tell P .disconnect with unsent := c.tx.length, gone := true }
    else { c with todo := [.flush, .tick nowMs subMsNanos, .recv refuse] }
  | _ => c

/-- A task of the running method. -/
def work (c : Connection A J RX TX) : Task → Option (Connection A J RX TX)
  | .flush => if c.tx = [] then some c else none
  | .close => some { c with closing := true }
  | .settle => some { c with overflow := false }
  | .overflow => some (if c.overflow then c.slowConsumer P else c)
  | .note why => some (c.tell P (.noteDropReason why))
  | .tick nowMs subMsNanos =>
    if c.closing then some c
    else some (c.say P (.tickAtWith nowMs subMsNanos) c.queue fun link =>
      closeIf (link == .dropped) ++ [.overflow])
  | .recv _ => none
  | .cut refuse =>
    match c.rx.cut with
    | .need => some c
    | .message k | .garbage k =>
      if refuse (c.rx.bytes k) then
        some { c.tell P (.disconnectWith .duplicateIdentity) with
          rx := c.rx.take k, gone := true, todo := [] }
      else
        some (c.say P (.receivedWith (c.rx.bytes k)) c.queue fun link => [.judged k link refuse])
  | .judged k link refuse =>
    let c := { c with rx := c.rx.take k }
    if link = .dropped then some { c with closing := true }
    else if c.overflow then some (c.slowConsumer P)
    else some { c with todo := .cut refuse :: c.todo }
  | .leave closed =>
    if closed then some { c.tell P .disconnect with gone := true }
    else if c.dead then
      some { c.tell P .disconnect with unsent := c.tx.length, gone := true }
    else if c.closing ∧ c.tx = [] then some { c with gone := true }
    else some c

/-- The next step of the running method, when it asks nothing of the transport. -/
def go (c : Connection A J RX TX) : Option (Connection A J RX TX) :=
  match c.emitting, c.todo with
  | m :: rest, _ => if c.waits m then none else some { c.push m with emitting := rest }
  | [], task :: todo => { c with todo := todo }.work P task
  | [], [] => none

/-- The transport's answer to a write, where one was asked for: while a push waits for room, or by
`flush`. -/
def wrote (c : Connection A J RX TX) (io : Io) : Option (Connection A J RX TX) :=
  match c.emitting, c.todo with
  | m :: rest, _ =>
    if c.waits m then
      match io with
      | .ready n => if n ≤ c.tx.length then some (c.accepted n) else none
      | .idle => some c
      | .closed | .failed => some { c with dead := true, emitting := rest }
    else none
  | [], .flush :: todo =>
    if c.tx = [] then none
    else match io with
      | .ready n => if n ≤ c.tx.length then some { c.accepted n with todo := todo } else none
      | .idle => some { c with todo := todo }
      | .closed | .failed => some { c with closing := true, dead := true, todo := todo }
  | _, _ => none

/-- The transport's answer to a read. -/
def read (c : Connection A J RX TX) (io : Io) (bytes : Bytes) : Option (Connection A J RX TX) :=
  match c.emitting, c.todo with
  | [], .recv refuse :: todo =>
    match io with
    | .ready n =>
      if n = bytes.length ∧ n ≤ c.rx.spare then
        some { c with
          rx := c.rx.filled bytes, todo := .cut refuse :: .flush :: .leave false :: todo }
      else none
    | .idle => some { c with todo := .cut refuse :: .flush :: .leave false :: todo }
    | .closed | .failed => some { c with todo := .cut refuse :: .flush :: .leave true :: todo }
  | _, _ => none

/-- One step. A method begins when none is running, and none does when the connection is gone. -/
def step (c : Connection A J RX TX) : Act → Option (Connection A J RX TX)
  | .go => c.go P
  | .wrote io => c.wrote io
  | .read io bytes => c.read io bytes
  | method =>
    if c.emitting = [] ∧ c.todo.isEmpty ∧ ¬ c.gone then some (c.begin_ P method) else none

def runs (c : Connection A J RX TX) (as : List Act) : Option (Connection A J RX TX) :=
  as.foldlM (step P) c

end Calls

end Connection

end Fixbolt
