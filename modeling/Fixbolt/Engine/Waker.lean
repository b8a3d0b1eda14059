import Fixbolt.Engine.Dispatch
import Fixbolt.Lib.Stepping

/-!
# An engine that sleeps, and the pipe that wakes it

A `standard` engine turns, and collects what the application sent back at the end of each turn. When
nothing moved it rebuilds the list of what it waits for and blocks in `poll`, on its sockets and on
the pipe of a `Waker`; then it drains the pipe and turns again. The application's thread writes one
byte into the pipe after each reply that the ring took.

The two threads take turns one access at a time, of a ring as in `Exchange` or of the pipe.
-/

namespace Fixbolt

/-- The pipe, as how many bytes lie in it. It has room for one at least. -/
structure Pipe where
  capacity : ℕ
  held : ℕ
  within : held ≤ capacity
  positive : 0 < capacity
deriving DecidableEq

namespace Pipe

/-- A pipe that nothing was written to. -/
def open_ (capacity : ℕ) (positive : 0 < capacity) : Pipe := ⟨capacity, 0, Nat.zero_le _, positive⟩

/-- Write one byte. Only a pipe that holds bytes refuses it, and a full one does. -/
def write (p : Pipe) (refused : Bool) : Pipe :=
  if room : p.held < p.capacity then
    if p.held = 0 ∨ ¬refused then ⟨p.capacity, p.held + 1, room, p.positive⟩ else p
  else p

/-- Read so many bytes. -/
def read (p : Pipe) (n : ℕ) : Pipe :=
  ⟨p.capacity, p.held - n, Nat.le_trans (Nat.sub_le _ _) p.within, p.positive⟩

end Pipe

/-- How many bytes one read of `drain` takes at most. -/
def drainLen : ℕ := 64

namespace Standard

/-- Where the engine's thread is in its loop. -/
inductive Loop where
  /-- In a turn, in which something moved or not. -/
  | turning (moved : Bool)
  /-- At the end of the turn, collecting. -/
  | collecting (moved : Bool)
  /-- Nothing moved: the list of what to wait for is to be rebuilt. -/
  | rebuilding
  /-- About to call `poll`. -/
  | polling
  /-- Blocked in it. -/
  | asleep
  | draining
deriving DecidableEq, Repr

/-- What can happen next. -/
inductive Act where
  /-- The engine's thread goes on with its end of the rings. -/
  | engine (a : Exchange.Act)
  /-- Something else moved in the turn. -/
  | moves
  | rebuild
  /-- `poll` is called, and something `other` than the pipe is ready or not. -/
  | poll (other : Bool)
  /-- `poll` returns: the pipe is ready, or something `other`, or the time is up. -/
  | ready (other : Bool)
  /-- A signal interrupts `poll`, and it is called again. -/
  | interrupted
  /-- One read of `drain`. -/
  | drain
  /-- The application's thread goes on with `pump`. -/
  | app (a : Exchange.Act)
  /-- It wakes the engine. A pipe that holds bytes may refuse the write. -/
  | wake (refused : Bool)
deriving DecidableEq, Repr

end Standard

/-- An engine, the application on its thread, and the pipe. `owing` is between the push of a reply
and its wake. `waked` only remembers: how many wakes there were since `drain` last read short. -/
structure Standard where
  x : Exchange
  pipe : Pipe
  loop : Standard.Loop
  owing : Bool
  waked : ℕ

namespace Standard

/-- Two rings of these capacities, an empty pipe, and the first turn. -/
def start (toApp fromApp : ℕ) (pipe : ℕ) (positive : 0 < pipe) : Standard where
  x := .start toApp fromApp
  pipe := .open_ pipe positive
  loop := .turning false
  owing := false
  waked := 0

variable (M : ℕ) (s : Standard)

/-- `collect` goes on. The turn is over when it found the ring empty, and something moved in it if a
reply was emitted. -/
def collected (moved : Bool) (x : Exchange) : Standard :=
  let moved := moved || s.x.emitted.length < x.emitted.length
  { s with
    x := x
    loop :=
      if x.engine = .idle then if moved then .turning false else .rebuilding
      else .collecting moved }

/-- The engine's thread goes on with its end of the rings. -/
def engineStep (a : Exchange.Act) : Option Standard :=
  match s.loop, a with
  | .turning moved, .collect =>
    (s.x.step M .collect).map fun x => { s with x := x, loop := .collecting moved }
  | .turning _, .deliver _ | .turning _, .takeRefusal | .turning _, .engine =>
    (s.x.step M a).map fun x => { s with x := x }
  | .collecting moved, .engine => (s.x.step M .engine).map (s.collected moved)
  | _, _ => none

/-- The application's thread goes on with `pump`. It owes a wake for a reply that it pushed. -/
def appStep (a : Exchange.Act) : Option Standard :=
  match a with
  | .pump | .answer _ | .app =>
    (s.x.step M a).map fun x =>
      { s with x := x, owing := s.x.replied.length < x.replied.length }
  | _ => none

/-- One read of `drain`. A full buffer means there may be more. -/
def drain : Standard :=
  if drainLen ≤ s.pipe.held then { s with pipe := s.pipe.read drainLen }
  else { s with pipe := s.pipe.read s.pipe.held, loop := .turning false, waked := 0 }

/-- One step of either thread. -/
def step (s : Standard) : Act → Option Standard
  | .engine a => s.engineStep M a
  | .moves =>
    match s.loop with
    | .turning _ => some { s with loop := .turning true }
    | _ => none
  | .rebuild => if s.loop = .rebuilding then some { s with loop := .polling } else none
  | .poll other =>
    if s.loop = .polling then
      some { s with loop := if other ∨ 0 < s.pipe.held then .draining else .asleep }
    else none
  | .ready other =>
    if s.loop = .asleep ∧ (other ∨ 0 < s.pipe.held) then some { s with loop := .draining } else none
  | .interrupted => if s.loop = .asleep then some { s with loop := .polling } else none
  | .drain => if s.loop = .draining then some s.drain else none
  | .app a => if s.owing then none else s.appStep M a
  | .wake refused =>
    if s.owing then
      some { s with pipe := s.pipe.write refused, owing := false, waked := s.waked + 1 }
    else none

end Standard

end Fixbolt
