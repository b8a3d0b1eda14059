import Mathlib.Data.List.Basic
import Mathlib.Logic.Relation

/-!
# Histories and what holds along a run

A history is the list of what happened so far, newest event first.

* `since p h`: the events after the newest one that satisfies `p`;
* `newest f h`: the newest thing that `f` sees in a history;
* `Always R h`: every event of `h` stands in the relation `R` to the events before it, the form
  of a safety property that speaks about the past;
* `invariant_of_steps`: the rule by which an invariant that each step keeps, as long as every
  event so far is `ok`, holds at the end of every run whose events are all `ok`.
-/

namespace Fixbolt

namespace History

variable {ε α : Type*}

/-- The events after the newest one that satisfies `p`. -/
def since (p : ε → Bool) (h : List ε) : List ε := h.takeWhile fun e => !p e

/-- The newest thing that `f` sees. -/
def newest (f : ε → Option α) (h : List ε) : Option α := h.findSome? f

/-- Every event stands in the relation `R` to the events before it. -/
def Always (R : ε → List ε → Prop) : List ε → Prop
  | [] => True
  | e :: h => R e h ∧ Always R h

@[simp] theorem since_nil (p : ε → Bool) : since p [] = [] := rfl

theorem since_cons_of_pos {p : ε → Bool} {e : ε} (he : p e = true) (h : List ε) :
    since p (e :: h) = [] := by
  simp [since, he]

theorem since_cons_of_neg {p : ε → Bool} {e : ε} (he : p e = false) (h : List ε) :
    since p (e :: h) = e :: since p h := by
  simp [since, he]

theorem mem_of_mem_since {p : ε → Bool} {h : List ε} {e : ε} (he : e ∈ since p h) : e ∈ h :=
  (List.takeWhile_sublist _).subset he

theorem since_append_of_forall {p : ε → Bool} {new h : List ε} (hn : ∀ e ∈ new, p e = false) :
    since p (new ++ h) = new ++ since p h := by
  induction new with
  | nil => rfl
  | cons e new ih =>
    rw [List.cons_append, since_cons_of_neg (hn e (by simp)), ih fun x hx => hn x (by simp [hx])]
    rfl

theorem newest_cons_of_some {f : ε → Option α} {e : ε} {a : α} (he : f e = some a) (h : List ε) :
    newest f (e :: h) = some a := by
  simp [newest, he]

theorem newest_cons_of_none {f : ε → Option α} {e : ε} (he : f e = none) (h : List ε) :
    newest f (e :: h) = newest f h := by
  simp [newest, he]

theorem exists_mem_of_newest {f : ε → Option α} {h : List ε} {a : α} (ha : newest f h = some a) :
    ∃ e ∈ h, f e = some a :=
  List.exists_of_findSome?_eq_some ha

@[simp] theorem always_nil (R : ε → List ε → Prop) : Always R [] := trivial

@[simp] theorem always_cons {R : ε → List ε → Prop} {e : ε} {h : List ε} :
    Always R (e :: h) ↔ R e h ∧ Always R h := Iff.rfl

instance decidableAlways (R : ε → List ε → Prop) [∀ e h, Decidable (R e h)] :
    ∀ h, Decidable (Always R h)
  | [] => isTrue trivial
  | e :: h =>
    have := decidableAlways R h
    inferInstanceAs (Decidable (R e h ∧ Always R h))

theorem Always.of_append {R : ε → List ε → Prop} {new old : List ε} {e : ε}
    (h : Always R (new ++ e :: old)) : R e old := by
  induction new with
  | nil => exact h.1
  | cons x new ih => exact ih h.2

theorem Always.exists_of_mem {R : ε → List ε → Prop} {h : List ε} {e : ε} (hR : Always R h)
    (he : e ∈ h) : ∃ old, R e old := by
  obtain ⟨new, old, rfl⟩ := List.append_of_mem he
  exact ⟨old, hR.of_append⟩

theorem Always.of_suffix {R : ε → List ε → Prop} {new old : List ε} (h : Always R (new ++ old)) :
    Always R old := by
  induction new with
  | nil => exact h
  | cons x new ih => exact ih h.2

theorem always_of_forall {R : ε → List ε → Prop}
    {h : List ε} (hR : ∀ new e old, h = new ++ e :: old → R e old) : Always R h := by
  induction h with
  | nil => trivial
  | cons e h ih =>
    exact ⟨hR [] e h rfl, ih fun new x old hx => hR (e :: new) x old (by rw [hx]; rfl)⟩

end History

/-! ### Invariants of runs -/

section Invariant

variable {σ ε : Type*} {step : σ → σ → Prop} {hist : σ → List ε}

/-- Steps only add to the history. -/
def Grows (step : σ → σ → Prop) (hist : σ → List ε) : Prop :=
  ∀ {a b}, step a b → ∃ new, hist b = new ++ hist a

theorem Grows.run (hg : Grows step hist) {a b : σ} (h : Relation.ReflTransGen step a b) :
    ∃ new, hist b = new ++ hist a := by
  induction h with
  | refl => exact ⟨[], rfl⟩
  | tail _ hs ih =>
    obtain ⟨new, hn⟩ := ih
    obtain ⟨more, hm⟩ := hg hs
    exact ⟨more ++ new, by rw [hm, hn, List.append_assoc]⟩

/-- **Invariants of runs whose events are all in order.** -/
theorem invariant_of_steps (hg : Grows step hist) {ok : ε → Prop} {I : σ → Prop}
    (hstep : ∀ a b, step a b → (∀ e ∈ hist b, ok e) → I a → I b)
    {a b : σ} (h : Relation.ReflTransGen step a b) (hok : ∀ e ∈ hist b, ok e) (ha : I a) : I b := by
  induction h with
  | refl => exact ha
  | tail _ hs ih =>
    refine hstep _ _ hs hok (ih fun e he => hok e ?_)
    obtain ⟨new, hn⟩ := hg hs
    rw [hn]
    exact List.mem_append_right new he

end Invariant

end Fixbolt
