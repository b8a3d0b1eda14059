import Fixbolt.Engine.Ring

/-!
# The ring an engine leaves its events in

One thread pushes events and never waits; any number of readers drain them, one at a time. Each slot
has a lock of its own. `push` tries the lock of its slot, replaces what lies there and counts what
it could not keep; `drain` holds the readers' lock and goes from where readers have got to up to the
write index it loaded, slot after slot.

The threads take turns one access at a time: a load, a store, taking a lock, giving it back. Nothing
panics under a lock, so no lock is poisoned.
-/

namespace Fixbolt

open Shared (wrappingSub)

/-- How many events the ring holds. -/
def eventCapacity : ℕ := 256

/-- What the engine's thread is doing. `w` is the write index it loaded. -/
inductive Pushing (α : Type*) where
  | idle
  /-- About to try the slot's lock. -/
  | loaded (w : ℕ) (e : α)
  /-- Holding the lock, about to replace what is there. -/
  | locked (w : ℕ) (e : α)
  /-- About to count a loss; `held` when the slot's lock is still to be given back. -/
  | counting (w : ℕ) (held : Bool)
  /-- About to give the slot's lock back. -/
  | unlocking (w : ℕ)
  /-- About to store the write index. -/
  | storing (w : ℕ)
deriving DecidableEq, Repr

/-- A call of `drain`: who called, what it pushed on `out`, with which push each event came, and
the number it will answer. -/
structure Drain (α : Type*) where
  reader : ℕ
  out : List (ℕ × α)
  n : ℕ
deriving DecidableEq, Repr

/-- What the reader that holds the readers' lock is doing. `w` is the write index it loaded. -/
inductive Draining (α : Type*) where
  /-- No reader holds the lock. -/
  | idle
  /-- About to load the write index. -/
  | entered (d : Drain α)
  /-- At the head of the loop. -/
  | looping (d : Drain α) (w : ℕ)
  /-- Holding a slot's lock, about to take what is there. -/
  | holding (d : Drain α) (w : ℕ)
  /-- Holding a slot's lock, about to give it back. -/
  | emptied (d : Drain α) (w : ℕ)
  /-- About to move on. -/
  | passing (d : Drain α) (w : ℕ)
deriving DecidableEq, Repr

/-- The shared ring with its threads. An event in a slot carries the number of its push. The last
four fields only remember: all that was pushed, the pushes whose events were lost, the drains that
are over, and how many pushes were over when the last drain loaded the write index. -/
structure Events (α : Type*) where
  slots : List (Option (ℕ × α))
  write : ℕ
  read : ℕ
  lost : ℕ
  producer : Pushing α
  reader : Draining α
  pushed : List α
  losses : List ℕ
  drains : List (Drain α)
  sampled : ℕ
deriving DecidableEq, Repr

namespace Events

variable {α : Type*}

/-- A ring nothing was pushed on. -/
def new : Events α where
  slots := List.replicate eventCapacity none
  write := 0
  read := 0
  lost := 0
  producer := .idle
  reader := .idle
  pushed := []
  losses := []
  drains := []
  sampled := 0

/-- What a thread can do next. -/
inductive Act (α : Type*) where
  /-- The engine pushes an event: its thread loads the write index. -/
  | push (e : α)
  /-- The next access of the push under way. -/
  | produce
  /-- A reader drains: it takes the readers' lock. -/
  | drain (reader : ℕ)
  /-- The next access of the drain under way. -/
  | consume
deriving DecidableEq, Repr

/-- Does the engine's thread hold this slot's lock? -/
def producerHolds (s : Events α) (i : ℕ) : Bool :=
  match s.producer with
  | .locked w _ | .counting w true | .unlocking w => w % eventCapacity = i
  | _ => false

/-- Does a reader hold this slot's lock? -/
def readerHolds (s : Events α) (i : ℕ) : Bool :=
  match s.reader with
  | .holding _ _ | .emptied _ _ => s.read % eventCapacity = i
  | _ => false

/-- The number of the push under way. -/
def current (s : Events α) : ℕ := s.pushed.length - 1

/-- How many pushes are over: all but the one under way. -/
def stored (s : Events α) : ℕ :=
  match s.producer with
  | .idle => s.pushed.length
  | _ => s.current

/-- The next access of a push. -/
def produce (s : Events α) : Option (Events α) :=
  match s.producer with
  | .idle => none
  | .loaded w e =>
    if w % eventCapacity < s.slots.length then
      if s.readerHolds (w % eventCapacity) then
        some { s with producer := .counting w false, losses := s.losses ++ [s.current] }
      else some { s with producer := .locked w e }
    else
      -- No such slot: the loss is counted and the index stays.
      some { s with
        producer := .idle, lost := (s.lost + 1) % 2 ^ 64, losses := s.losses ++ [s.current] }
  | .locked w e =>
    let slots := s.slots.set (w % eventCapacity) (some (s.current, e))
    match s.slots[w % eventCapacity]? with
    | some (some (k, _)) =>
      some { s with slots := slots, producer := .counting w true, losses := s.losses ++ [k] }
    | _ => some { s with slots := slots, producer := .unlocking w }
  | .counting w held =>
    some { s with
      lost := (s.lost + 1) % 2 ^ 64, producer := if held then .unlocking w else .storing w }
  | .unlocking w => some { s with producer := .storing w }
  | .storing w => some { s with producer := .idle, write := (w + 1) % usizeSize }

/-- The next access of a drain. -/
def consume (s : Events α) : Option (Events α) :=
  match s.reader with
  | .idle => none
  | .entered d =>
    some { s with
      reader := .looping d s.write
      read :=
        if wrappingSub s.write s.read > eventCapacity then wrappingSub s.write eventCapacity
        else s.read
      sampled := s.stored }
  | .looping d w =>
    if s.read = w then some { s with reader := .idle, drains := s.drains ++ [d] }
    else if s.read % eventCapacity < s.slots.length then
      -- A reader waits for a slot the engine is writing.
      if s.producerHolds (s.read % eventCapacity) then none
      else some { s with reader := .holding d w }
    else some { s with reader := .passing d w }
  | .holding d w =>
    match s.slots[s.read % eventCapacity]? with
    | some (some ke) =>
      some { s with
        slots := s.slots.set (s.read % eventCapacity) none
        reader := .emptied { d with out := d.out ++ [ke], n := d.n + 1 } w }
    | _ => some { s with reader := .emptied d w }
  | .emptied d w => some { s with reader := .passing d w }
  | .passing d w =>
    some { s with reader := .looping d w, read := (s.read + 1) % usizeSize }

/-- One step, when its thread can take it. -/
def step (s : Events α) : Act α → Option (Events α)
  | .push e =>
    match s.producer with
    | .idle => some { s with producer := .loaded s.write e, pushed := s.pushed ++ [e] }
    | _ => none
  | .produce => s.produce
  | .drain reader =>
    match s.reader with
    | .idle => some { s with reader := .entered ⟨reader, [], 0⟩ }
    | _ => none
  | .consume => s.consume

/-- A run, step by step. -/
def runs (s : Events α) (as : List (Act α)) : Option (Events α) := as.foldlM step s

/-- The drain under way. -/
def draining (s : Events α) : Option (Drain α) :=
  match s.reader with
  | .idle => none
  | .entered d | .looping d _ | .holding d _ | .emptied d _ | .passing d _ => some d

/-- The drains in the order their readers held the lock, the one under way last. -/
def calls (s : Events α) : List (Drain α) := s.drains ++ s.draining.toList

/-- What the drains delivered, one drain after the other. -/
def delivered (s : Events α) : List (ℕ × α) := s.calls.flatMap Drain.out

/-- The numbers of the events that lie in the ring. -/
def waiting (s : Events α) : List ℕ := s.slots.filterMap fun cell => cell.map Prod.fst

/-- The number of the event that is in the ring no more than in a reader's hands: it is being
pushed. -/
def inHand (s : Events α) : List ℕ :=
  match s.producer with
  | .loaded _ _ | .locked _ _ => [s.current]
  | _ => []

/-- How many losses the engine's thread has yet to count. -/
def uncounted (s : Events α) : ℕ :=
  match s.producer with
  | .counting _ _ => 1
  | _ => 0

/-- The event a reader takes next, with the number of its push. -/
def taking (s : Events α) : Option (ℕ × α) :=
  match s.reader with
  | .holding _ _ => s.slots[s.read % eventCapacity]?.join
  | _ => none

end Events

end Fixbolt
