import Fixbolt.Lib.Stepping
import Mathlib.Algebra.Group.Nat.Defs
import Mathlib.Logic.Function.Basic

/-!
# Snapshots on demand

Readers on other threads ask an engine for a snapshot of itself. They raise a flag, `wanted`; a turn
of the engine that finds it raised builds a snapshot and publishes it, unless a reader has the lock
of the cell. A reader notes the count of snapshots `published`, asks, waits for another count and
reads the `latest`.

The threads take turns one access at a time. The moment of an access is how many came before it.
`past` only remembers: the engine's state at each moment.
-/

namespace Fixbolt

/-- A snapshot is a copy of the engine's state, taken at a moment. -/
structure Snapshot (σ : Type*) where
  of : σ
  moment : ℕ
deriving DecidableEq, Repr

/-- Who has the lock of the cell. -/
inductive Keeper where
  | engine
  | reader (r : ℕ)
deriving DecidableEq, Repr

namespace Observe

/-- Where the engine is. A turn that is not away remembers when it began. -/
inductive Turn (σ : Type*) where
  /-- Not busy with its readers. -/
  | away
  /-- It found the flag raised. -/
  | loaded (began : ℕ)
  | built (began : ℕ) (snap : Snapshot σ)
  /-- It has the lock. -/
  | locked (began : ℕ) (snap : Snapshot σ)
  | wrote (began : ℕ)
  /-- The flag is lowered. -/
  | cleared (began : ℕ)
  /-- The snapshot is counted, and the lock about to be given back. -/
  | counted (began : ℕ)
deriving DecidableEq, Repr

/-- How far a reader has got. `since` is when it asked, if it waited for an answer. -/
inductive Reader (σ : Type*) where
  | idle
  /-- It read `published`. -/
  | noted (p : ℕ)
  /-- It asked, and waits for a count that is not `p`. -/
  | waiting (p asked : ℕ)
  /-- About to read the latest. -/
  | looking (since : Option ℕ)
  /-- Waiting for the lock. -/
  | entering (since : Option ℕ)
  | holding (since : Option ℕ)
  | returned (since : Option ℕ) (snap : Option (Snapshot σ))
deriving DecidableEq, Repr

/-- What can happen next. -/
inductive Act (σ : Type*) where
  /-- What a snapshot would tell changes. The engine does something else, or another thread moves a
  count that the engine reads. -/
  | work (state : σ)
  /-- A turn begins and looks at the flag. -/
  | load
  /-- The turn tries the lock. It gets it if it is free and `granted`. -/
  | tryLock (granted : Bool)
  /-- The turn goes on. -/
  | publish
  /-- A reader reads `published`. -/
  | note (r : ℕ)
  /-- A reader that noted a count asks. -/
  | ask (r : ℕ)
  /-- A reader asks and will not wait. -/
  | request (r : ℕ)
  /-- A reader that waits reads `published` again. -/
  | check (r : ℕ)
  /-- A reader waited for too long. -/
  | giveUp (r : ℕ)
  /-- A reader goes on with reading the latest. -/
  | latest (r : ℕ)
deriving DecidableEq, Repr

end Observe

/-- An engine, its readers and what they share. `past`, `asks`, `writes` and `free` only remember: the
engine's states, the moments of the asks, how often the cell was written, and when the last turn
began that was not refused the cell. -/
structure Observe (σ : Type*) where
  state : σ
  wanted : Bool
  published : ℕ
  cell : Option (Snapshot σ)
  lock : Option Keeper
  turn : Observe.Turn σ
  readers : ℕ → Observe.Reader σ
  past : List σ
  asks : List ℕ
  writes : ℕ
  free : ℕ

namespace Observe

variable {σ : Type*}

def new (state : σ) : Observe σ where
  state := state
  wanted := false
  published := 0
  cell := none
  lock := none
  turn := .away
  readers _ := .idle
  past := []
  asks := []
  writes := 0
  free := 0

variable (s : Observe σ)

def moment : ℕ := s.past.length

/-- A reader got this far. -/
def reach (r : ℕ) (at_ : Reader σ) : Observe σ :=
  { s with readers := Function.update s.readers r at_ }

/-- Raise the flag. -/
def raise : Observe σ := { s with wanted := true, asks := s.moment :: s.asks }

/-- A turn of the engine goes on. -/
def publish : Option (Observe σ) :=
  match s.turn with
  | .loaded began => some { s with turn := .built began ⟨s.state, s.moment⟩ }
  | .locked began snap =>
    some { s with cell := some snap, writes := s.writes + 1, turn := .wrote began }
  | .wrote began => some { s with wanted := false, turn := .cleared began }
  | .cleared began =>
    some { s with published := (s.published + 1) % 2 ^ 64, turn := .counted began }
  | .counted began => some { s with lock := none, turn := .away, free := began }
  | .away | .built _ _ => none

/-- A reader goes on with reading the latest. -/
def latest (r : ℕ) : Option (Observe σ) :=
  match s.readers r with
  | .looking since =>
    some (s.reach r (if s.published = 0 then .returned since none else .entering since))
  | .entering since =>
    if s.lock = none then some { s.reach r (.holding since) with lock := some (.reader r) } else none
  | .holding since => some { s.reach r (.returned since s.cell) with lock := none }
  | .idle | .noted _ | .waiting _ _ | .returned _ _ => none

/-- What an action does, but that a moment goes by. -/
def act : Act σ → Option (Observe σ)
  | .work state => some { s with state := state }
  | .load =>
    if s.turn matches .away then
      if s.wanted then some { s with turn := .loaded s.moment } else some { s with free := s.moment }
    else none
  | .tryLock granted =>
    match s.turn with
    | .built began snap =>
      if granted ∧ s.lock = none then
        some { s with lock := some .engine, turn := .locked began snap }
      else some { s with turn := .away }
    | _ => none
  | .publish => s.publish
  | .note r =>
    match s.readers r with
    | .idle | .returned _ _ => some (s.reach r (.noted s.published))
    | _ => none
  | .ask r =>
    match s.readers r with
    | .noted p => some (s.raise.reach r (.waiting p s.moment))
    | _ => none
  | .request r =>
    match s.readers r with
    | .idle | .returned _ _ => some (s.raise.reach r (.looking none))
    | _ => none
  | .check r =>
    match s.readers r with
    | .waiting p asked => some (if s.published = p then s else s.reach r (.looking (some asked)))
    | _ => none
  | .giveUp r =>
    match s.readers r with
    | .waiting _ _ => some (s.reach r .idle)
    | _ => none
  | .latest r => s.latest r

/-- One step: the action, and a moment has gone by. -/
def step (s : Observe σ) (a : Act σ) : Option (Observe σ) :=
  (s.act a).map fun s' => { s' with past := s.past ++ [s.state] }

end Observe

end Fixbolt
