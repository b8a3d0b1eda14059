import Fixbolt.Engine.FileJournal
import Mathlib.Algebra.BigOperators.Group.List.Lemmas

/-!
# Retiring a journal's writer

An asynchronous journal has two threads, the engine's and its writer's, a ring from one to the other
and a ticket that both move. Two counters are shared by all journals: the writers retired and not
finished, and those retired ever. The threads take turns one access at a time.

The ring is a queue here: its push takes effect where the tail is stored or the room was looked at,
its pop where the head is stored. A journal under `Durability.fsync` has no writer. The count of
writers is an integer, so that an underflow would show.
-/

namespace Fixbolt

/-- What a ticket says of its writer. -/
inductive TicketState where
  | running
  /-- It stops where its ring says so. -/
  | retired
  /-- It stops when its ring is empty. -/
  | retiredStopWhenDry
  | finished
  /-- It finished before it was retired. -/
  | finishedUnretired
deriving DecidableEq, Repr

/-- What is in a writer's ring. -/
inductive RingEntry where
  | record (e : Record)
  /-- One byte, which no record is. -/
  | stop
deriving DecidableEq, Repr

def RingEntry.size : RingEntry → ℕ
  | .record e => e.bytes.length
  | .stop => 1

def RingEntry.record? : RingEntry → Option Record
  | .record e => some e
  | .stop => none

/-- The longest record a journal of slots of `len` bytes hands over, and its writer's buffer. -/
def writerBuf (len : ℕ) : ℕ := recordHeader + max (max len activityLen) outboundLen

/-- Where the engine's thread is with a journal. -/
inductive EnginePc where
  | open_
  /-- About to raise the count; was `STOP` pushed? -/
  | raising (pushed : Bool)
  /-- About to move the ticket. -/
  | raised (pushed : Bool)
  /-- The ticket was not running: about to lower the count again. -/
  | takingBack
  /-- About to look whether the writer had finished. -/
  | checking
  /-- About to count a retired writer. -/
  | counting
  /-- Pushing `STOP` until there is room. -/
  | closing
  /-- Waiting for the writer. -/
  | joining
  | left
deriving DecidableEq, Repr

/-- Where a writer's thread is. -/
inductive WriterPc where
  | looping (lastLook : Bool)
  | writing (e : Record) (lastLook : Bool)
  /-- The ring was empty: about to read the ticket. -/
  | asking
  /-- Its file is let go; about to move the ticket. -/
  | stopped
  /-- About to lower the count. -/
  | lowering
  | done
deriving DecidableEq, Repr

/-- A journal with its two threads. -/
structure Retiring where
  /-- How many bytes a slot of the journal holds. -/
  len : ℕ
  ring : Fifo RingEntry
  ticket : TicketState
  engine : EnginePc
  writer : WriterPc
  /-- The records in the file. -/
  written : List Record

/-- What a thread does next. -/
inductive RetireAct where
  /-- `put` or a mark pushes a record. -/
  | push (e : Record)
  /-- `FileJournal::retire`: push `STOP` once, and retire the ticket. -/
  | retire
  /-- The ticket of a journal that was left is retired once more. -/
  | retireAgain (pushed : Bool)
  /-- `close`, which `drop` calls. -/
  | close
  /-- The engine's next step, inside `retire` or `close`. -/
  | engine
  /-- The writer's next step. -/
  | writer
deriving DecidableEq, Repr

namespace Retiring

/-- A journal just opened. -/
def opened (len : ℕ) : Retiring := ⟨len, .empty, .running, .open_, .looping false, []⟩

/-- Has the ring room? -/
def room (j : Retiring) (x : RingEntry) : Bool :=
  ringHeader + x.size + (j.ring.pending.map fun x => ringHeader + x.size).sum ≤
    FileJournal.ringCapacity

/-- Push, if there is room. -/
def offer (j : Retiring) (x : RingEntry) : Retiring :=
  if j.room x then { j with ring := j.ring.push x } else j

/-- The engine's next step inside `retire` or `close`, with what becomes of the two counters. -/
def engineStep (j : Retiring) : Option (Retiring × ℤ × ℕ) :=
  match j.engine with
  | .raising pushed => some ({ j with engine := .raised pushed }, 1, 0)
  | .raised pushed =>
    if j.ticket = .running then
      let to_ := if pushed then .retired else .retiredStopWhenDry
      some ({ j with ticket := to_, engine := .counting }, 0, 0)
    else some ({ j with engine := .takingBack }, 0, 0)
  | .takingBack => some ({ j with engine := .checking }, -1, 0)
  | .checking =>
    if j.ticket = .finishedUnretired then
      some ({ j with ticket := .finished, engine := .counting }, 0, 0)
    else some ({ j with engine := .left }, 0, 0)
  | .counting => some ({ j with engine := .left }, 0, 1)
  | .closing =>
    if j.room .stop then some ({ j.offer .stop with engine := .joining }, 0, 0) else some (j, 0, 0)
  | .joining => if j.writer = .done then some ({ j with engine := .left }, 0, 0) else none
  | .open_ | .left => none

/-- The writer's next step, with what becomes of the two counters. -/
def writerStep (j : Retiring) : Option (Retiring × ℤ × ℕ) :=
  match j.writer with
  | .looping lastLook =>
    match j.ring.pop? with
    | some (.record e, ring) =>
      -- A record longer than the buffer is dropped by the ring.
      if writerBuf j.len < e.bytes.length then some ({ j with ring := ring }, 0, 0)
      else some ({ j with ring := ring, writer := .writing e lastLook }, 0, 0)
    | some (.stop, ring) => some ({ j with ring := ring, writer := .stopped }, 0, 0)
    | none => some ({ j with writer := if lastLook then .stopped else .asking }, 0, 0)
  | .writing e lastLook =>
    some ({ j with written := j.written ++ [e.redacted], writer := .looping lastLook }, 0, 0)
  | .asking =>
    some ({ j with writer := .looping (decide (j.ticket = .retiredStopWhenDry)) }, 0, 0)
  | .stopped =>
    match j.ticket with
    | .running => some ({ j with ticket := .finishedUnretired, writer := .done }, 0, 0)
    | .retired | .retiredStopWhenDry =>
      some ({ j with ticket := .finished, writer := .lowering }, 0, 0)
    | .finished | .finishedUnretired => some ({ j with writer := .done }, 0, 0)
  | .lowering => some ({ j with writer := .done }, -1, 0)
  | .done => none

/-- A step of one of the two threads, with what becomes of the two counters. -/
def step (j : Retiring) : RetireAct → Option (Retiring × ℤ × ℕ)
  | .push e =>
    if j.engine = .open_ ∧ e.bytes.length ≤ writerBuf j.len then some (j.offer (.record e), 0, 0)
    else none
  | .retire =>
    match j.engine with
    | .open_ => some ({ j.offer .stop with engine := .raising (j.room .stop) }, 0, 0)
    | .left => some (j, 0, 0)
    | _ => none
  | .retireAgain pushed =>
    if j.engine = .left then some ({ j with engine := .raising pushed }, 0, 0) else none
  | .close =>
    match j.engine with
    | .open_ => some ({ j with engine := .closing }, 0, 0)
    | .left => some (j, 0, 0)
    | _ => none
  | .engine => j.engineStep
  | .writer => j.writerStep

end Retiring

/-- The journals of a process, and the two counters they share. -/
structure Writers where
  retiredWriters : ℤ
  writersRetired : ℕ
  journals : List Retiring

namespace Writers

/-- A process that has opened no journal. -/
def none : Writers := ⟨0, 0, []⟩

inductive Act where
  | open_ (len : ℕ)
  | at_ (i : ℕ) (a : RetireAct)
deriving DecidableEq, Repr

def step (w : Writers) : Act → Option Writers
  | .open_ len => some { w with journals := w.journals ++ [.opened len] }
  | .at_ i a =>
    (w.journals[i]?).bind fun j =>
      (j.step a).map fun (j', waiting, total) =>
        { retiredWriters := w.retiredWriters + waiting
          writersRetired := w.writersRetired + total
          journals := w.journals.set i j' }

def runs (w : Writers) (as : List Act) : Option Writers := as.foldlM step w

end Writers

end Fixbolt
