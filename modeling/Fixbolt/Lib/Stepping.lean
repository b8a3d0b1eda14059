import Mathlib.Data.List.Basic

/-!
# Runs of actions

A system takes an action or refuses it: `step : σ → α → Option σ`. `runsOf step` takes one after
another, and `Along step ok` says that each of them meets a condition in the state it is taken in.

* `Along.invariant`: what every step that meets the condition keeps holds at the end of the run;
* `Along.weighed`: what the steps add up, and when a run adds nothing;
* `invariant_runsOf`: the same where there is no condition.
-/

namespace Fixbolt

variable {σ α : Type*} {step : σ → α → Option σ} {ok : σ → α → Prop} {I : σ → Prop}
  {s s' : σ} {a : α} {as : List α}

/-- One action after another. -/
def runsOf (step : σ → α → Option σ) (s : σ) (as : List α) : Option σ := as.foldlM step s

/-- Does every action of a run meet the condition in the state it is taken in? -/
def Along (step : σ → α → Option σ) (ok : σ → α → Prop) (s : σ) : List α → Prop
  | [] => True
  | a :: as => ok s a ∧ ∀ s' ∈ step s a, Along step ok s' as

@[simp] theorem runsOf_nil : runsOf step s [] = some s := rfl

theorem runsOf_cons : runsOf step s (a :: as) = (step s a).bind (runsOf step · as) := rfl

theorem runsOf_append {bs : List α} :
    runsOf step s (as ++ bs) = (runsOf step s as).bind (runsOf step · bs) :=
  List.foldlM_append

/-- A run can be watched along: the condition is decided in each state it comes through. -/
instance Along.decidable [∀ s a, Decidable (ok s a)] : ∀ s as, Decidable (Along step ok s as)
  | _, [] => isTrue trivial
  | s, a :: as =>
    have (s' : σ) : Decidable (Along step ok s' as) := Along.decidable s' as
    have : Decidable (∀ s' ∈ step s a, Along step ok s' as) :=
      match h : step s a with
      | none => isTrue nofun
      | some s' => decidable_of_iff (Along step ok s' as) <| by simp
    inferInstanceAs (Decidable (_ ∧ _))

/-- **What every step that meets the condition keeps holds at the end of the run.** -/
theorem Along.invariant (keeps : ∀ s a s', I s → ok s a → step s a = some s' → I s')
    (met : Along step ok s as) (ran : runsOf step s as = some s') (h : I s) : I s' := by
  induction as generalizing s with
  | nil => exact Option.some.inj ran ▸ h
  | cons a as ih =>
    obtain ⟨mid, took, rest⟩ := Option.bind_eq_some_iff.mp ran
    exact ih (met.2 mid took) rest (keeps s a mid h met.1 took)

/-- **What a run adds up.** Each step adds its weight to the second argument of the invariant, and a
run adds nothing just if no step does. -/
theorem Along.weighed {weight : σ → α → ℕ} {W : σ → ℕ → Prop} {n : ℕ}
    (keeps : ∀ s a s' n, W s n → step s a = some s' → W s' (n + weight s a))
    (ran : runsOf step s as = some s') (h : W s n) :
    ∃ k, W s' (n + k) ∧ (k = 0 ↔ Along step (fun s a => weight s a = 0) s as) := by
  induction as generalizing s n with
  | nil => exact ⟨0, Option.some.inj ran ▸ h, iff_of_true rfl trivial⟩
  | cons a as ih =>
    obtain ⟨mid, took, rest⟩ := Option.bind_eq_some_iff.mp ran
    obtain ⟨k, held, none_iff⟩ := ih rest (keeps s a mid n h took)
    refine ⟨weight s a + k, by rwa [← Nat.add_assoc], ?_⟩
    constructor
    · intro nothing
      obtain ⟨light, others⟩ := Nat.add_eq_zero_iff.mp nothing
      refine ⟨light, fun s' took' => ?_⟩
      cases took.symm.trans took'
      exact none_iff.mp others
    · intro met
      rw [met.1, none_iff.mpr (met.2 mid took)]

theorem along_true : Along step (fun _ _ => True) s as := by
  induction as generalizing s with
  | nil => trivial
  | cons a as ih => exact ⟨trivial, fun _ _ => ih⟩

/-- What every step keeps holds at the end of every run. -/
theorem invariant_runsOf (keeps : ∀ s a s', I s → step s a = some s' → I s')
    (ran : runsOf step s as = some s') (h : I s) : I s' :=
  Along.invariant (fun s a s' h _ took => keeps s a s' h took) along_true ran h

end Fixbolt
