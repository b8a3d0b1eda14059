import Mathlib.Data.List.Basic

/-!
# Programs that may trap

A program over a state answers or errs, and leaves a state either way; or it traps, and leaves
nothing. `wp x Q s` says that `x`, started in `s`, does not trap and ends in `Q`. Its rules are
equivalences, so that they say exactly when a program does not trap.
-/

namespace Fixbolt

variable {τ σ ε α γ δ : Type}

/-- A program over a state. -/
structure Trapping (τ σ ε α : Type) where
  run : σ → Except τ (Except ε α × σ)

namespace Trapping

instance : Monad (Trapping τ σ ε) where
  pure a := ⟨fun s => .ok (.ok a, s)⟩
  bind x f := ⟨fun s =>
    match x.run s with
    | .ok (.ok a, s) => (f a).run s
    | .ok (.error e, s) => .ok (.error e, s)
    | .error t => .error t⟩

/-- Answer an error. -/
def fail (e : ε) : Trapping τ σ ε α := ⟨fun s => .ok (.error e, s)⟩

/-- Answer what was computed without the state. -/
def lift (r : Except ε α) : Trapping τ σ ε α := ⟨fun s => .ok (r, s)⟩

/-- Answer what was computed without the state, or trap. -/
def checked (r : Except τ α) : Trapping τ σ ε α := ⟨fun s => r.map fun a => (.ok a, s)⟩

/-- The state. -/
def get : Trapping τ σ ε σ := ⟨fun s => .ok (.ok s, s)⟩

/-- Change the state. -/
def modify (f : σ → σ) : Trapping τ σ ε Unit := ⟨fun s => .ok (.ok (), f s)⟩

/-- The same, with other errors. -/
def mapError (f : ε → ε) (x : Trapping τ σ ε α) : Trapping τ σ ε α :=
  ⟨fun s => (x.run s).map fun (r, s) => (r.mapError f, s)⟩

/-- Note an error in the state and go on. -/
def recover (f : ε → σ → σ) (x : Trapping τ σ ε Unit) : Trapping τ σ ε Unit :=
  ⟨fun s => (x.run s).map fun
    | (.ok _, s) => (.ok (), s)
    | (.error e, s) => (.ok (), f e s)⟩

/-- `x` does not trap from `s`, and ends in `Q`. -/
def wp (x : Trapping τ σ ε α) (Q : Except ε α → σ → Prop) (s : σ) : Prop :=
  match x.run s with
  | .ok (r, s) => Q r s
  | .error _ => False

variable {x : Trapping τ σ ε α} {f : α → Trapping τ σ ε γ} {Q R : Except ε α → σ → Prop} {s : σ}

theorem wp_iff : wp x Q s ↔ ∃ r s', x.run s = .ok (r, s') ∧ Q r s' := by
  unfold wp
  rcases x.run s with t | ⟨r, s'⟩
  · exact ⟨False.elim, fun ⟨_, _, ran, _⟩ => by cases ran⟩
  · exact ⟨fun q => ⟨r, s', rfl, q⟩, fun ⟨_, _, ran, q⟩ => by cases ran; exact q⟩

@[simp] theorem wp_pure (a : α) : wp (pure a : Trapping τ σ ε α) Q s ↔ Q (.ok a) s := Iff.rfl

@[simp] theorem wp_fail (e : ε) : wp (fail e : Trapping τ σ ε α) Q s ↔ Q (.error e) s := Iff.rfl

@[simp] theorem wp_lift (r : Except ε α) : wp (lift r : Trapping τ σ ε α) Q s ↔ Q r s := Iff.rfl

@[simp] theorem wp_get {Q : Except ε σ → σ → Prop} :
    wp (get : Trapping τ σ ε σ) Q s ↔ Q (.ok s) s := Iff.rfl

@[simp] theorem wp_modify (g : σ → σ) {Q : Except ε Unit → σ → Prop} :
    wp (modify g : Trapping τ σ ε Unit) Q s ↔ Q (.ok ()) (g s) := Iff.rfl

theorem wp_checked (r : Except τ α) :
    wp (checked r : Trapping τ σ ε α) Q s ↔ ∃ a, r = .ok a ∧ Q (.ok a) s := by
  cases r with
  | ok a => exact ⟨fun q => ⟨a, rfl, q⟩, fun ⟨_, same, q⟩ => by cases same; exact q⟩
  | error t => exact ⟨False.elim, fun ⟨_, same, _⟩ => by cases same⟩

@[simp] theorem wp_checked_ok (a : α) :
    wp (checked (.ok a) : Trapping τ σ ε α) Q s ↔ Q (.ok a) s := Iff.rfl

@[simp] theorem wp_checked_error (t : τ) :
    wp (checked (.error t) : Trapping τ σ ε α) Q s ↔ False := Iff.rfl

theorem wp_bind {Q : Except ε γ → σ → Prop} :
    wp (x >>= f) Q s ↔ wp x (fun r s =>
      match r with
      | .ok a => wp (f a) Q s
      | .error e => Q (.error e) s) s := by
  show (match (match x.run s with
    | .ok (.ok a, s) => (f a).run s
    | .ok (.error e, s) => .ok (.error e, s)
    | .error t => .error t) with
    | .ok (r, s) => Q r s
    | .error _ => False) ↔ _
  unfold wp
  rcases x.run s with _ | ⟨_ | _, _⟩ <;> rfl

@[simp] theorem wp_get_bind {f : σ → Trapping τ σ ε γ} {Q : Except ε γ → σ → Prop} :
    wp (get >>= f) Q s ↔ wp (f s) Q s := Iff.rfl

@[simp] theorem wp_pure_bind (a : α) {Q : Except ε γ → σ → Prop} :
    wp (pure a >>= f) Q s ↔ wp (f a) Q s := Iff.rfl

@[simp] theorem wp_modify_bind (g : σ → σ) {f : Unit → Trapping τ σ ε γ}
    {Q : Except ε γ → σ → Prop} : wp (modify g >>= f) Q s ↔ wp (f ()) Q (g s) := Iff.rfl

@[simp] theorem wp_fail_bind (e : ε) {Q : Except ε γ → σ → Prop} :
    wp (fail e >>= f) Q s ↔ Q (.error e) s := Iff.rfl

theorem wp_checked_bind {r : Except τ α} {a : α} (ok : r = .ok a) {Q : Except ε γ → σ → Prop} :
    wp (checked r >>= f) Q s ↔ wp (f a) Q s := by
  rw [ok]
  exact Iff.rfl

theorem wp_mapError (g : ε → ε) :
    wp (x.mapError g) Q s ↔ wp x (fun r s => Q (r.mapError g) s) s := by
  simp only [wp, mapError]
  rcases x.run s with _ | ⟨_, _⟩ <;> rfl

theorem wp_recover (g : ε → σ → σ) {x : Trapping τ σ ε Unit} {Q : Except ε Unit → σ → Prop} :
    wp (x.recover g) Q s ↔ wp x (fun r s =>
      match r with
      | .ok _ => Q (.ok ()) s
      | .error e => Q (.ok ()) (g e s)) s := by
  simp only [wp, recover]
  rcases x.run s with _ | ⟨_ | _, _⟩ <;> rfl

/-- What ends in `Q` ends in what `Q` implies. -/
theorem wp_mono (ends : wp x Q s) (weaker : ∀ r s, Q r s → R r s) : wp x R s := by
  unfold wp at ends ⊢
  rcases h : x.run s with _ | ⟨r, s'⟩
  · rw [h] at ends
    exact ends
  · rw [h] at ends
    exact weaker r s' ends

theorem wp_congr (same : ∀ r s, Q r s ↔ R r s) : wp x Q s ↔ wp x R s :=
  ⟨fun h => wp_mono h fun r s => (same r s).mp, fun h => wp_mono h fun r s => (same r s).mpr⟩

/-- A loop: `I` holds before each turn, of what is left, the answer so far and the state. -/
theorem wp_foldlM {β : Type} {g : β → δ → Trapping τ σ ε β} {Q : Except ε β → σ → Prop}
    (I : List δ → β → σ → Prop)
    (turn : ∀ a l acc s, I (a :: l) acc s → wp (g acc a) (fun r s =>
      match r with
      | .ok acc => I l acc s
      | .error e => Q (.error e) s) s)
    (done : ∀ acc s, I [] acc s → Q (.ok acc) s) (l : List δ) (acc : β) (start : I l acc s) :
    wp (l.foldlM g acc) Q s := by
  induction l generalizing acc s with
  | nil => exact done acc s start
  | cons a l ih =>
    rw [List.foldlM_cons, wp_bind]
    refine wp_mono (turn a l acc s start) fun r s next => ?_
    cases r with
    | ok acc => exact ih acc next
    | error e => exact next

end Trapping

end Fixbolt
