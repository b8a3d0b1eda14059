import Fixbolt.Engine.Connection

/-!
# A connection and its lines in the message log

One connection of an engine, beside a log that takes every record. `Out::push` writes the `OUT` line
of a message behind the copy into the queue, so a message that does not fit has none. What a
connection leaves unsent is read when its turn answers `Gone`, and told to the event stream if there
is one. A shutdown whose time is up lets the connection go.

The `IN` lines are left out, and the events but for `MessageLogUnsent`.
-/

namespace Fixbolt

namespace Connection

variable {A J : Type} {RX TX : ℕ}

/-- The message that a step records. -/
def recording (c : Connection A J RX TX) : Act → Option Bytes
  | .go =>
    match c.emitting with
    | m :: _ => if c.out.bound < c.tx.length + m.length then none else some m
    | [] => none
  | _ => none

/-- Is the next message turned away before the session sees it? -/
def turnsAway (c : Connection A J RX TX) (refuse : Bytes → Bool) : Bool :=
  match c.rx.cut with
  | .need => false
  | .message k | .garbage k => refuse (c.rx.bytes k)

/-- Does a step throw the queue away and leave `unsent` alone? -/
def drops (c : Connection A J RX TX) : Act → Bool
  | .go =>
    match c.emitting, c.todo with
    | [], .overflow :: _ => c.overflow
    | [], .judged _ .up _ :: _ => c.overflow
    | [], .cut refuse :: _ => c.turnsAway refuse
    | [], .leave closed :: _ => closed
    | _, _ => false
  | _ => false

/-- Does a step throw the queue away and put its length into `unsent`? -/
def counts (c : Connection A J RX TX) : Act → Bool
  | .go =>
    match c.emitting, c.todo with
    | [], .leave false :: _ => c.dead
    | _, _ => false
  | .turn _ _ _ => c.refused
  | _ => false

end Connection

/-- A connection and what the engine's log says of it. -/
structure Logged (A J : Type) (RX TX : ℕ) where
  conn : Connection A J RX TX
  /-- The messages with an `OUT` line. -/
  recorded : List Bytes
  /-- Is there an event stream? -/
  observed : Bool
  /-- The bytes reported as unsent, once the connection has left the engine. -/
  left : Option ℕ

namespace Logged

variable (P : Params) {A J : Type} {RX TX : ℕ}

def new (RX TX : ℕ) (world : World A J) (policy : Backpressure) : Logged A J RX TX where
  conn := .new RX TX world policy
  recorded := []
  observed := false
  left := none

/-- What the engine reports of a connection that is gone: `MessageLogUnsent`, or nothing. -/
def report (observed : Bool) (unsent : ℕ) : ℕ := if 0 < unsent ∧ observed then unsent else 0

inductive Move where
  | conn (a : Connection.Act)
  /-- `Engine::observer`, or another that makes the event stream. -/
  | observer
  /-- `shutdown_finished`, when the time is up. -/
  | deadline

variable [Application A] [Journal J]

/-- One step of the connection, or of the engine between turns. -/
def step (l : Logged A J RX TX) (move : Move) : Option (Logged A J RX TX) :=
  if l.left.isSome then none
  else match move with
  | .conn a =>
    (l.conn.step P a).map fun c =>
      { l with
        conn := c
        recorded := l.recorded ++ (l.conn.recording a).toList
        left := if c.gone then some (report l.observed c.unsent) else none }
  | .observer => some { l with observed := true }
  | .deadline =>
    if l.conn.emitting = [] ∧ l.conn.todo.isEmpty then
      some { l with conn := l.conn.tell P (.noteDropReason .engineShutdown), left := some 0 }
    else none

end Logged

end Fixbolt
