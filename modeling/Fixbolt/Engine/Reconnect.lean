import Fixbolt.Session.Clock

/-!
# When an initiator that lost its connection should try again

A `Policy` answers a question and does not act: `next` says whether to dial at an instant. Every
ending climbs one rung of a ladder of delays that double from the first up to a ceiling, and a
session that gets up puts the ladder back at the bottom.
-/

namespace Fixbolt

/-- What the caller should do about the connection it does not have. -/
inductive Next where
  /-- Open one now. -/
  | now
  /-- Not yet: ask again at this instant. -/
  | at_ (ms : ℕ)
  /-- Never again. -/
  | stop
deriving DecidableEq, Repr

/-- Why a set of bounds was refused. -/
inductive PolicyError where
  | firstIsZero
  | ceilingBelowFirst
deriving DecidableEq, Repr

/-- The rule an initiator follows after a connection ends. -/
structure Policy where
  firstMs : ℕ
  ceilingMs : ℕ
  schedule : Schedule
  attempt : ℕ
  notBeforeMs : ℕ
  stopped : Bool
deriving DecidableEq, Repr

/-- `u64` plus `u64`, held at the largest `u64`. -/
def saturatingAdd (a b : ℕ) : ℕ := min (a + b) (2 ^ 64 - 1)

/-- A `u64` shifted left, when the shift is less than its width: the bits shifted out are lost. -/
def checkedShl (v steps : ℕ) : Option ℕ := if steps < 64 then some (v * 2 ^ steps % 2 ^ 64) else none

namespace Policy

/-- Doubling from `firstMs`, never past `ceilingMs`. -/
def new (firstMs ceilingMs : ℕ) : Except PolicyError Policy :=
  if firstMs = 0 then .error .firstIsZero
  else if ceilingMs < firstMs then .error .ceilingBelowFirst
  else .ok ⟨firstMs, ceilingMs, .always, 0, 0, false⟩

/-- Only call out inside these hours. -/
def withSchedule (p : Policy) (s : Schedule) : Policy := { p with schedule := s }

/-- The delay of the rung the ladder is at. -/
def delay (p : Policy) : ℕ :=
  let steps := p.attempt - 1
  if 63 ≤ steps then p.ceilingMs
  else match checkedShl p.firstMs steps with
    | some d => if d ≤ p.ceilingMs then d else p.ceilingMs
    | none => p.ceilingMs

/-- The connection ended at `nowMs`: climb one rung, a `u32` that does not wrap. -/
def dropped (p : Policy) (nowMs : ℕ) : Policy :=
  let p := { p with attempt := min (p.attempt + 1) u32Max }
  { p with notBeforeMs := saturatingAdd nowMs p.delay }

/-- A session got up: put the ladder back at the bottom. -/
def loggedOn (p : Policy) : Policy := { p with attempt := 0 }

/-- Stop reconnecting, for good. -/
def stop (p : Policy) : Policy := { p with stopped := true }

/-- What to do at `nowMs`. -/
def next (p : Policy) (nowMs : ℕ) : Next :=
  if p.stopped then .stop
  else if p.schedule.contains nowMs = false then .at_ (saturatingAdd nowMs p.ceilingMs)
  else if p.notBeforeMs ≤ nowMs then .now
  else .at_ p.notBeforeMs

/-! ### What the calls leave alone -/

@[simp] theorem dropped_firstMs (p : Policy) (t : ℕ) : (p.dropped t).firstMs = p.firstMs := rfl

@[simp] theorem dropped_ceilingMs (p : Policy) (t : ℕ) : (p.dropped t).ceilingMs = p.ceilingMs := rfl

@[simp] theorem dropped_attempt (p : Policy) (t : ℕ) :
    (p.dropped t).attempt = min (p.attempt + 1) u32Max := rfl

@[simp] theorem loggedOn_firstMs (p : Policy) : p.loggedOn.firstMs = p.firstMs := rfl

@[simp] theorem loggedOn_ceilingMs (p : Policy) : p.loggedOn.ceilingMs = p.ceilingMs := rfl

@[simp] theorem loggedOn_attempt (p : Policy) : p.loggedOn.attempt = 0 := rfl

@[simp] theorem loggedOn_notBeforeMs (p : Policy) : p.loggedOn.notBeforeMs = p.notBeforeMs := rfl

/-- A policy says to dial only inside its hours, once the wait is up. -/
theorem next_eq_now {p : Policy} {t : ℕ} :
    p.next t = .now ↔ p.stopped = false ∧ p.schedule.contains t = true ∧ p.notBeforeMs ≤ t := by
  unfold next
  cases p.stopped <;> cases p.schedule.contains t <;> simp

/-- After an ending it says so no sooner than the delay of the new rung. -/
theorem notBefore_dropped (p : Policy) (t : ℕ) :
    (p.dropped t).notBeforeMs = saturatingAdd t (p.dropped t).delay := rfl

end Policy

end Fixbolt
