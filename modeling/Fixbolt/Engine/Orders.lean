import Fixbolt.Engine.Engine
import Fixbolt.Lib.Mailbox

/-!
# What other threads ask of an engine

An operator's command and a message that an application originates wait in a queue each, `Commands`
and `Origin`, until the engine's next turn. `administer` takes all the commands out first and then
applies one after another; `originate` hands each message to its session while it holds the lock.
Both read a count before they try the lock, and the lock may refuse them.

The engine's thread goes step by step here too: `Duty` is where it is. What it reads of a count may
be stale, so it may be anything.
-/

namespace Fixbolt

/-- Which number a command moves, for the event it leaves behind. -/
inductive Change where
  | nextOut
  | nextIn
  | sequenceReset
deriving DecidableEq, Repr

/-- What became of a command. -/
inductive Outcome where
  | applied
  /-- No connection of that id is on this engine any more. -/
  | noSuchConnection
  | refused
deriving DecidableEq, Repr

namespace Command

def change : Command → Change
  | setNextOut _ => .nextOut
  | setNextIn _ => .nextIn
  | sendSequenceReset _ => .sequenceReset

/-- The number requested. -/
def to_ : Command → ℕ
  | setNextOut n | setNextIn n | sendSequenceReset n => n

end Command

/-- A command and the connection it is aimed at. Its number is a `u32`. -/
structure Order where
  id : ℕ
  command : Command
  fits : Engine.calls (.administer command) = true
deriving DecidableEq

/-- How many commands wait at most. -/
def commandCapacity : ℕ := 32

/-- How many originated messages wait at most. -/
def originCapacity : ℕ := 64

/-- The longest message that is taken. -/
def originLen : ℕ := 512

/-- A slot of the command queue. -/
def commandCell : Cell (Option Order) Order where
  empty := none
  accepts _ := true
  write c _ := some c
  read slot := slot
  clear _ := none
  read_write _ _ _ := rfl

abbrev Commands := Mailbox (Option Order) Order commandCapacity

/-- A slot of the origination queue. What a longer message left behind stays in `bytes`. -/
structure Origin.Slot where
  id : ℕ
  len : ℕ
  bytes : Vector UInt8 originLen

namespace Origin

/-- Copy a message into a slot. -/
def Slot.write (x : ℕ × Bytes) (slot : Slot) : Slot where
  id := x.1
  len := if x.2.length < 65536 then x.2.length else 0
  bytes := Vector.ofFn fun i => (x.2[(i : ℕ)]?).getD slot.bytes[i]

/-- The message in a slot. -/
def Slot.message (slot : Slot) : ℕ × Bytes := (slot.id, slot.bytes.toList.take slot.len)

theorem Slot.message_write (x : ℕ × Bytes) (slot : Slot) (fits : x.2.length ≤ originLen) :
    (slot.write x).message = x := by
  have small : x.2.length < 65536 := by
    unfold originLen at fits
    omega
  refine Prod.ext rfl (List.ext_getElem? fun i => ?_)
  show (((slot.write x).bytes.toList).take (slot.write x).len)[i]? = x.2[i]?
  unfold write
  dsimp only
  rw [if_pos small, Vector.toList_ofFn, List.getElem?_take]
  split
  · rename_i inside
    rw [List.getElem?_ofFn, dif_pos (Nat.lt_of_lt_of_le inside fits), List.getElem?_eq_getElem inside,
      Option.getD_some]
  · rename_i outside
    exact (List.getElem?_eq_none (Nat.le_of_not_lt outside)).symm

/-- A slot of the queue. -/
def cell : Cell Slot (ℕ × Bytes) where
  empty := ⟨0, 0, Vector.replicate originLen 0⟩
  accepts x := !x.2.isEmpty && decide (x.2.length ≤ originLen)
  write := Slot.write
  read slot := some slot.message
  clear slot := slot
  read_write x slot fits := by
    rw [Bool.and_eq_true, decide_eq_true_eq] at fits
    rw [Slot.message_write x slot fits.2]

end Origin

abbrev Origin := Mailbox Origin.Slot (ℕ × Bytes) originCapacity

/-- What an event says. -/
inductive OrderEventKind where
  | administered (change : Change) (to_ : ℕ) (outcome : Outcome)
  | originationUndeliverable (count : ℕ)
deriving DecidableEq, Repr

/-- An event, as the engine emits it. -/
structure OrderEvent where
  id : ℕ
  atMs : ℕ
  kind : OrderEventKind
deriving DecidableEq, Repr

/-- The id of an event about no connection. -/
def connIdMax : ℕ := 2 ^ 64 - 1

/-- Where the engine's thread is with the two queues. -/
inductive Duty where
  /-- Elsewhere. -/
  | away
  /-- Taking the commands out; these it has. -/
  | collecting (taken : List Order)
  /-- Before the first of these commands. -/
  | applying (nowMs : ℕ) (rest : List Order)
  /-- The session has this one, and its outcome is known. -/
  | applied (nowMs : ℕ) (order : Order) (outcome : Outcome) (rest : List Order)
  /-- Taking messages out; so many had no connection. -/
  | originating (gone : ℕ)
  /-- The session has the last one. -/
  | sending (gone : ℕ)
  /-- The queue is empty and the lock given back. -/
  | reporting (gone : ℕ)
deriving DecidableEq

/-- An engine, the two queues, and the events about what came of them. `dealt` only remembers: the
messages that were taken out, and whether a session was offered each. -/
structure Orders (A J : Type) (RX TX : ℕ) where
  engine : Engine A J RX TX
  commands : Commands
  origin : Origin
  duty : Duty
  /-- Messages whose connection was gone, as `undeliverable` counts them. -/
  undeliverable : ℕ
  events : List OrderEvent
  dealt : List ((ℕ × Bytes) × Bool)

section Calls

variable (P : Params) {A J : Type} [Application A] [Journal J] {RX TX : ℕ}

/-- What `administer` answers. -/
def Connection.administered (c : Connection A J RX TX) : Command → Outcome
  | .setNextOut n => if (c.world.setNextOut n).2 then .applied else .refused
  | .setNextIn n => if (c.world.setNextIn n).2 then .applied else .refused
  | .sendSequenceReset n => if (c.world.sendSequenceReset P n).2 then .applied else .refused

namespace Orders

/-- Nothing was asked yet. -/
def new : Orders A J RX TX where
  engine := .new
  commands := .new commandCell (by decide)
  origin := .new Origin.cell (by decide)
  duty := .away
  undeliverable := 0
  events := []
  dealt := []

variable (s : Orders A J RX TX)

/-- Where the connection of this id is. -/
def find (id : ℕ) : Option ℕ := s.engine.conns.findIdx? fun m => m.id == id

/-- What an engine does of itself: all but to administer, and only to go on with a method while its
thread is busy with a queue. Other threads may ask it to stop at any time. -/
def ofItself (duty : Duty) : Engine.Act A J → Bool
  | .call _ (.administer _) => false
  | .go _ _ | .share _ _ | .asks _ | .writes _ => true
  | _ => duty = .away

/-- What can happen next. -/
inductive Act (A J : Type) where
  /-- A thread that submits commands. -/
  | command (a : Mailbox.Act Order)
  /-- A thread that submits messages. -/
  | message (a : Mailbox.Act (ℕ × Bytes))
  /-- The engine does something else. -/
  | engine (a : Engine.Act A J)
  /-- A turn administers: it reads the count, and tries the lock. -/
  | administer (seen granted : Bool)
  /-- A turn originates: it reads the count, and tries the lock. -/
  | originate (seen granted : Bool)
  /-- The engine's thread goes on with a queue. A clock that is read says `nowMs`. -/
  | next (nowMs : ℕ)

/-- Is this what a submitting thread does? -/
def submits {ι : Type*} : Mailbox.Act ι → Bool
  | .submit _ | .lock _ | .go _ => true
  | .drain _ | .next => false

/-- Emit an event. -/
def emit (e : OrderEvent) : Orders A J RX TX := { s with events := s.events ++ [e] }

/-- The first of the commands that were taken goes to its session. -/
def apply (nowMs : ℕ) (order : Order) (rest : List Order) : Option (Orders A J RX TX) :=
  match s.find order.id with
  | none => some { s with duty := .applied nowMs order .noSuchConnection rest }
  | some i =>
    (s.engine.conns[i]?).bind fun m =>
      (s.engine.step P (.call i (.administer order.command))).map fun engine =>
        { s with
          engine := engine
          duty := .applied nowMs order (m.conn.administered P order.command) rest }

/-- The first of the messages that wait goes to its session. -/
def offer (origin : Origin) (gone : ℕ) (x : ℕ × Bytes) : Option (Orders A J RX TX) :=
  match s.find x.1 with
  | none =>
    some { s with origin := origin, duty := .originating (gone + 1), dealt := s.dealt ++ [(x, false)] }
  | some i =>
    (s.engine.step P (.call i (.sendApplication x.2))).map fun engine =>
      { s with
        engine := engine
        origin := origin
        duty := .sending gone
        dealt := s.dealt ++ [(x, true)] }

/-- The engine's thread goes on with a queue. -/
def next (nowMs : ℕ) : Option (Orders A J RX TX) :=
  match s.duty with
  | .away => none
  | .collecting taken =>
    (s.commands.next commandCell).map fun commands =>
      match s.commands.drained with
      | .taking (_ + 1) =>
        { s with
          commands := commands
          duty := .collecting (taken ++ (s.commands.front commandCell).toList) }
      | .cleared => { s with commands := commands, duty := .applying nowMs taken }
      | _ => { s with commands := commands }
  | .applying nowMs (order :: rest) => s.apply P nowMs order rest
  | .applying _ [] => some { s with duty := .away }
  | .applied nowMs order outcome rest =>
    if s.engine.quiet then
      some { s.emit ⟨order.id, nowMs,
          .administered order.command.change order.command.to_ outcome⟩ with
        duty := .applying nowMs rest }
    else none
  | .originating gone =>
    (s.origin.next Origin.cell).bind fun origin =>
      match s.origin.drained with
      | .taking (_ + 1) => (s.origin.front Origin.cell).bind (s.offer P origin gone)
      | .cleared =>
        some { s with
          origin := origin
          undeliverable := (s.undeliverable + gone) % 2 ^ 64
          duty := .reporting gone }
      | _ => some { s with origin := origin }
  | .sending gone => if s.engine.quiet then some { s with duty := .originating gone } else none
  | .reporting gone =>
    some { (if 0 < gone then
        s.emit ⟨connIdMax, s.engine.nowMs, .originationUndeliverable gone⟩ else s) with
      duty := .away }

/-- One step. -/
def step : Act A J → Option (Orders A J RX TX)
  | .command a =>
    if submits a then (s.commands.step commandCell a).map fun q => { s with commands := q } else none
  | .message a =>
    if submits a then (s.origin.step Origin.cell a).map fun q => { s with origin := q } else none
  | .engine a =>
    if ofItself s.duty a then (s.engine.step P a).map fun e => { s with engine := e } else none
  | .administer seen granted =>
    if s.duty = .away ∧ s.engine.phase = .idle ∧ s.engine.quiet then
      if seen then
        (s.commands.step commandCell (.drain granted)).map fun q =>
          { s with
            commands := q
            duty := if q.drained = .idle then .away else .collecting [] }
      else some s
    else none
  | .originate seen granted =>
    if s.duty = .away ∧ s.engine.phase = .turning 0 ∧ s.engine.quiet then
      if seen then
        (s.origin.step Origin.cell (.drain granted)).map fun q =>
          { s with
            origin := q
            duty := if q.drained = .idle then .away else .originating 0 }
      else some s
    else none
  | .next nowMs => s.next P nowMs

def runs (as : List (Act A J)) : Option (Orders A J RX TX) := as.foldlM (fun s a => s.step P a) s

end Orders

end Calls

end Fixbolt
