import Fixbolt.Engine.Reconnect
import Mathlib.Tactic.Ring

/-!
# How long an initiator waits

The delay of a rung is a `u64` shifted left by the number of failures less one and held below the
ceiling. The shift is guarded against a width it does not have, and not against the bits it loses:
what is left of a product that no longer fits may be a short delay, or none.

* `delay_eq`: the delay of a rung, of the first delay and the ceiling;
* `Keeps`: no product that no longer fits leaves less than the ceiling;
* `paced_iff`: exactly then the delays never shrink while the connection keeps failing.
-/

namespace Fixbolt

namespace Policy

variable {p : Policy} {firstMs ceilingMs : ℕ}

/-- What the caller tells a policy. -/
inductive Call where
  | dropped (nowMs : ℕ)
  | loggedOn
  | stop
deriving DecidableEq, Repr

/-- Tell it. -/
def call (p : Policy) : Call → Policy
  | .dropped nowMs => p.dropped nowMs
  | .loggedOn => p.loggedOn
  | .stop => p.stop

/-- A policy after it was told some things. -/
def run (p : Policy) (cs : List Call) : Policy := cs.foldl call p

theorem run_bounds (p : Policy) (cs : List Call) :
    (p.run cs).firstMs = p.firstMs ∧ (p.run cs).ceilingMs = p.ceilingMs := by
  induction cs generalizing p with
  | nil => exact ⟨rfl, rfl⟩
  | cons c cs ih =>
    obtain ⟨first, ceiling⟩ := ih (p.call c)
    cases c <;> exact ⟨first, ceiling⟩

theorem run_failures (p : Policy) (n : ℕ) (small : p.attempt + n ≤ u32Max) :
    (p.run (List.replicate n (.dropped 0))).attempt = p.attempt + n := by
  induction n generalizing p with
  | zero => rfl
  | succ n ih =>
    have once : (p.dropped 0).attempt = p.attempt + 1 := Nat.min_eq_left (by omega)
    have rest := ih (p.dropped 0) (by omega)
    rw [once] at rest
    rw [List.replicate_succ]
    exact rest.trans (by omega)

/-! ### The ladder -/

/-- The delay after `steps` doublings. -/
def rung (firstMs ceilingMs steps : ℕ) : ℕ :=
  if 63 ≤ steps then ceilingMs else min (firstMs * 2 ^ steps % 2 ^ 64) ceilingMs

theorem delay_eq (p : Policy) : p.delay = rung p.firstMs p.ceilingMs (p.attempt - 1) := by
  unfold delay rung
  dsimp only
  split
  · rfl
  · rename_i few
    rw [checkedShl, if_pos (by omega)]
    dsimp only
    generalize p.firstMs * 2 ^ (p.attempt - 1) % 2 ^ 64 = d
    split <;> omega

theorem rung_le (firstMs ceilingMs steps : ℕ) : rung firstMs ceilingMs steps ≤ ceilingMs := by
  unfold rung
  split
  · exact le_rfl
  · exact Nat.min_le_right _ _

/-- No product that no longer fits a `u64` leaves less than the ceiling. -/
def Keeps (firstMs ceilingMs : ℕ) : Prop :=
  ∀ steps ≤ 62, 2 ^ 64 ≤ firstMs * 2 ^ steps → ceilingMs ≤ firstMs * 2 ^ steps % 2 ^ 64

instance : Decidable (Keeps firstMs ceilingMs) :=
  decidable_of_iff (∀ steps ∈ List.range 63, 2 ^ 64 ≤ firstMs * 2 ^ steps →
      ceilingMs ≤ firstMs * 2 ^ steps % 2 ^ 64)
    ⟨fun h steps le => h steps (List.mem_range.mpr (by omega)),
      fun h steps mem => h steps (Nat.le_of_lt_succ (List.mem_range.mp mem))⟩

/-- Then a rung is the product, held at the ceiling, as long as it is asked for. -/
theorem rung_of_keeps (keeps : Keeps firstMs ceilingMs) (fits : ceilingMs < 2 ^ 64) {steps : ℕ}
    (few : steps ≤ 62) : rung firstMs ceilingMs steps = min (firstMs * 2 ^ steps) ceilingMs := by
  rw [rung, if_neg (by omega)]
  by_cases wraps : 2 ^ 64 ≤ firstMs * 2 ^ steps
  · have left := keeps steps few wraps
    rw [Nat.min_eq_right left, Nat.min_eq_right (by omega)]
  · rw [Nat.mod_eq_of_lt (by omega)]

theorem rung_mono_of_keeps (keeps : Keeps firstMs ceilingMs) (fits : ceilingMs < 2 ^ 64)
    (steps : ℕ) : rung firstMs ceilingMs steps ≤ rung firstMs ceilingMs (steps + 1) := by
  by_cases few : steps + 1 ≤ 62
  · rw [rung_of_keeps keeps fits few, rung_of_keeps keeps fits (by omega), pow_succ]
    have grows : firstMs * 2 ^ steps ≤ firstMs * (2 ^ steps * 2) := by
      rw [← Nat.mul_assoc]
      exact Nat.le_mul_of_pos_right _ (by decide)
    exact min_le_min grows le_rfl
  · have last : rung firstMs ceilingMs (steps + 1) = ceilingMs := by
      rw [rung, if_pos (by omega)]
    rw [last]
    exact rung_le _ _ _

/-- The first product that no longer fits follows one that did, and leaves less than it. -/
theorem first_wrap {steps : ℕ} (fits : firstMs < 2 ^ 64) (wraps : 2 ^ 64 ≤ firstMs * 2 ^ steps) :
    ∃ s < steps, firstMs * 2 ^ s < 2 ^ 64 ∧ firstMs * 2 ^ (s + 1) % 2 ^ 64 < firstMs * 2 ^ s := by
  induction steps with
  | zero =>
    rw [pow_zero, Nat.mul_one] at wraps
    omega
  | succ s ih =>
    by_cases before : 2 ^ 64 ≤ firstMs * 2 ^ s
    · obtain ⟨t, lt, rest⟩ := ih before
      exact ⟨t, Nat.lt_succ_of_lt lt, rest⟩
    · have doubled : firstMs * 2 ^ (s + 1) = firstMs * 2 ^ s * 2 := by ring
      refine ⟨s, Nat.lt_succ_self s, by omega, ?_⟩
      rw [doubled] at wraps ⊢
      omega

/-- **A ladder that never steps down keeps its products**: where one that no longer fits left less
than the ceiling, the ladder stepped down. -/
theorem keeps_of_mono (positive : firstMs ≤ ceilingMs) (fits : ceilingMs < 2 ^ 64)
    (mono : ∀ steps < 62, rung firstMs ceilingMs steps ≤ rung firstMs ceilingMs (steps + 1)) :
    Keeps firstMs ceilingMs := by
  intro steps few wraps
  by_contra less
  obtain ⟨s, lt, whole, shrinks⟩ := first_wrap (by omega) wraps
  have climbs : ∀ k, s + k ≤ 62 → rung firstMs ceilingMs s ≤ rung firstMs ceilingMs (s + k) := by
    intro k
    induction k with
    | zero => exact fun _ => le_rfl
    | succ k ih => exact fun le => (ih (by omega)).trans (mono (s + k) (by omega))
  have here : rung firstMs ceilingMs s = min (firstMs * 2 ^ s) ceilingMs := by
    rw [rung, if_neg (by omega), Nat.mod_eq_of_lt whole]
  have next : rung firstMs ceilingMs (s + 1) =
      min (firstMs * 2 ^ (s + 1) % 2 ^ 64) ceilingMs := by
    rw [rung, if_neg (by omega)]
  have far : rung firstMs ceilingMs steps = firstMs * 2 ^ steps % 2 ^ 64 := by
    rw [rung, if_neg (by omega), Nat.min_eq_left (by omega)]
  have once := climbs 1 (by omega)
  have all := climbs (steps - s) (by omega)
  rw [Nat.add_sub_cancel' lt.le, here, far] at all
  rw [here, next] at once
  omega

/-! ### Over every history -/

/-- Delays between the first and the ceiling that do not shrink when the connection fails once more,
and begin again at the first after a success. -/
structure Paced (firstMs ceilingMs : ℕ) (p : Policy) (nowMs : ℕ) : Prop where
  first : firstMs ≤ p.delay
  climbs : p.delay ≤ (p.dropped nowMs).delay
  ceiling : (p.dropped nowMs).delay ≤ ceilingMs
  again : (p.loggedOn.dropped nowMs).delay = firstMs

theorem new_ok (built : new firstMs ceilingMs = .ok p) :
    0 < firstMs ∧ firstMs ≤ ceilingMs ∧ p = ⟨firstMs, ceilingMs, .always, 0, 0, false⟩ := by
  unfold new at built
  split at built
  · cases built
  · split at built
    · cases built
    · cases built
      exact ⟨by omega, by omega, rfl⟩

theorem paced_of_keeps (keeps : Keeps p.firstMs p.ceilingMs) (le : p.firstMs ≤ p.ceilingMs)
    (fits : p.ceilingMs < 2 ^ 64) (nowMs : ℕ) : Paced p.firstMs p.ceilingMs p nowMs := by
  have low : rung p.firstMs p.ceilingMs 0 = p.firstMs := by
    rw [rung_of_keeps keeps fits (by decide), pow_zero, Nat.mul_one, Nat.min_eq_left le]
  have climbs : ∀ k, p.firstMs ≤ rung p.firstMs p.ceilingMs k := by
    intro k
    induction k with
    | zero => exact low.ge
    | succ k ih => exact ih.trans (rung_mono_of_keeps keeps fits k)
  constructor
  · rw [delay_eq]
    exact climbs _
  · rw [delay_eq, delay_eq, dropped_attempt]
    -- The counter of failures may be at its end, or the first failure change nothing.
    obtain same | more : min (p.attempt + 1) u32Max - 1 = p.attempt - 1 ∨
        min (p.attempt + 1) u32Max - 1 = p.attempt - 1 + 1 ∨ u32Max < p.attempt := by omega
    · rw [same, dropped_firstMs, dropped_ceilingMs]
    · obtain next | past := more
      · rw [next, dropped_firstMs, dropped_ceilingMs]
        exact rung_mono_of_keeps keeps fits _
      · have full : rung p.firstMs p.ceilingMs (min (p.attempt + 1) u32Max - 1) = p.ceilingMs := by
          rw [rung, if_pos]
          unfold u32Max at past ⊢
          omega
        rw [dropped_firstMs, dropped_ceilingMs, full]
        exact rung_le _ _ _
  · rw [delay_eq]
    exact rung_le _ _ _
  · rw [delay_eq]
    exact low

/-- **The delay is bounded and never shrinks exactly where no product that no longer fits leaves less
than the ceiling**, whatever the policy was told, and at whatever instant it is told of the next
ending. -/
theorem paced_iff (built : new firstMs ceilingMs = .ok p) (fits : ceilingMs < 2 ^ 64)
    (hours : Schedule) :
    (∀ cs nowMs, Paced firstMs ceilingMs ((p.withSchedule hours).run cs) nowMs) ↔
      Keeps firstMs ceilingMs := by
  obtain ⟨positive, le, rfl⟩ := new_ok built
  constructor
  · intro paced
    refine keeps_of_mono le fits fun steps few => ?_
    generalize hq : withSchedule ⟨firstMs, ceilingMs, .always, 0, 0, false⟩ hours = q at paced
    have climbs := (paced (List.replicate (steps + 1) (.dropped 0)) 0).climbs
    obtain ⟨first, ceiling⟩ := run_bounds q (List.replicate (steps + 1) (.dropped 0))
    have rungs : (q.run (List.replicate (steps + 1) (.dropped 0))).attempt = steps + 1 := by
      rw [run_failures q (steps + 1) (by subst hq; unfold withSchedule u32Max; dsimp only; omega)]
      subst hq
      exact Nat.zero_add _
    have up : min (steps + 1 + 1) u32Max = steps + 2 := Nat.min_eq_left (by unfold u32Max; omega)
    rw [delay_eq, delay_eq, dropped_attempt, dropped_firstMs, dropped_ceilingMs, rungs, first,
      ceiling, up] at climbs
    subst hq
    exact climbs
  · intro keeps cs nowMs
    obtain ⟨first, ceiling⟩ := run_bounds
      (withSchedule ⟨firstMs, ceilingMs, .always, 0, 0, false⟩ hours) cs
    generalize run _ cs = q at first ceiling ⊢
    obtain rfl : q.firstMs = firstMs := first
    obtain rfl : q.ceilingMs = ceilingMs := ceiling
    exact paced_of_keeps keeps le fits nowMs

/-- Of a first delay of 3 ms no product of 62 doublings is lost. -/
theorem paced_iff_three :
    new 3 (2 ^ 64 - 1) = .ok ⟨3, 2 ^ 64 - 1, .always, 0, 0, false⟩ ∧
      ((∀ cs nowMs, Paced 3 (2 ^ 64 - 1)
          ((Policy.withSchedule ⟨3, 2 ^ 64 - 1, .always, 0, 0, false⟩ .always).run cs) nowMs) ↔
        Keeps 3 (2 ^ 64 - 1)) ∧ Keeps 3 (2 ^ 64 - 1) :=
  ⟨rfl, paced_iff rfl (by decide) .always, by decide⟩

/-- Of a second, doubled up to half a minute, the sixty-second failure in a row leaves no delay. -/
theorem delay_wraps :
    new 1000 30000 = .ok ⟨1000, 30000, .always, 0, 0, false⟩ ∧
      (run ⟨1000, 30000, .always, 0, 0, false⟩ (List.replicate 61 (.dropped 0))).delay = 30000 ∧
      (run ⟨1000, 30000, .always, 0, 0, false⟩ (List.replicate 62 (.dropped 0))).delay = 0 := by
  decide +kernel

/-! ### Which delays are lost -/

/-- A first delay that four divides is lost within 62 doublings, whatever the ceiling. -/
theorem not_keeps_of_four_dvd (positive : 0 < firstMs) (le : firstMs ≤ ceilingMs)
    (fits : ceilingMs < 2 ^ 64) (four : 4 ∣ firstMs) : ¬ Keeps firstMs ceilingMs := by
  intro keeps
  obtain ⟨k, rfl⟩ := four
  have whole : 4 * k * 2 ^ 62 = 2 ^ 64 * k := by ring
  have left := keeps 62 le_rfl (by omega)
  rw [whole, Nat.mul_mod_right] at left
  omega

/-- One below four never is. -/
theorem keeps_of_lt_four (small : firstMs < 4) : Keeps firstMs ceilingMs := by
  intro steps few wraps
  have pow : 2 ^ steps ≤ 2 ^ 62 := Nat.pow_le_pow_right (by decide) few
  have := Nat.mul_le_mul (show firstMs ≤ 3 by omega) pow
  omega

end Policy

end Fixbolt
