import Fixbolt.Lib.Streaming

/-!
# Walks over an input

A walk begins at a place of the input and ends at a later one, or fails because the input runs out.
It looks at nothing behind the place it ends at, so an input that agrees up to there is walked over
the same way. Walks one behind another are a walk (`Walk.bind`), which is how a reader made of many
small reads, with loops and recursion, is shown to be one.
-/

namespace Fixbolt

universe u

variable {α β : Type u} {γ ε : Type*}

theorem bind_eq_ok {x : Except ε α} {f : α → Except ε β} {c : β} :
    (x >>= f) = .ok c ↔ ∃ a, x = .ok a ∧ f a = .ok c := by
  cases x with
  | error e => exact ⟨nofun, nofun⟩
  | ok a => exact ⟨fun h => ⟨a, rfl, h⟩, fun ⟨_, eq, h⟩ => Except.ok.inj eq ▸ h⟩

/-- A walk over the input from `pos` on, which fails with `short` where the input ends. What it finds
has a place, where the walk ended, and holds the input it was found in: `onto` puts another in its
stead. -/
structure Walk (short : ε) (onto : List γ → α → α) (place : α → ℕ) (pos : ℕ)
    (run : List γ → Except ε α) : Prop where
  onward : ∀ {b a}, run b = .ok a → pos ≤ place a
  inside : ∀ {b a}, pos ≤ b.length → run b = .ok a → place a ≤ b.length
  agree : ∀ {b b' a}, AgreeOn (place a) b b' → run b = .ok a → run b' = .ok (onto b' a)
  cut : ∀ {b e}, run b = .error e → e = short

namespace Walk

variable {onto : List γ → α → α} {place : α → ℕ} {onto' : List γ → β → β} {place' : β → ℕ}
  {run : List γ → Except ε α} {next : List γ → α → Except ε β} {b : List γ} {pos : ℕ} {short : ε}

/-- What a walk finds lies over the bytes it walked over. -/
theorem onto_eq {a : α} (h : Walk short onto place pos run) (found : run b = .ok a) :
    onto b a = a := by
  have same := h.agree (fun _ _ => rfl) found
  rw [found] at same
  exact (Except.ok.inj same).symm

/-- **One walk behind another is a walk.** -/
theorem bind (h : Walk short onto place pos run)
    (then_ : ∀ a, Walk short onto' place' (place a) fun b => next b (onto b a)) :
    Walk short onto' place' pos fun b => run b >>= next b where
  onward {b c} found := by
    obtain ⟨a, first, second⟩ := bind_eq_ok.mp found
    rw [← h.onto_eq first] at second
    exact Nat.le_trans (h.onward first) ((then_ a).onward second)
  inside {b c} le found := by
    obtain ⟨a, first, second⟩ := bind_eq_ok.mp found
    rw [← h.onto_eq first] at second
    exact (then_ a).inside (h.inside le first) second
  agree {b b' c} same found := by
    obtain ⟨a, first, second⟩ := bind_eq_ok.mp found
    rw [← h.onto_eq first] at second
    have front := h.agree (same.mono ((then_ a).onward second)) first
    show (run b' >>= next b') = _
    rw [front]
    exact (then_ a).agree same second
  cut {b e} found := by
    cases first : run b with
    | error e' =>
      rw [first] at found
      obtain rfl : e' = e := Except.error.inj found
      exact h.cut first
    | ok a =>
      rw [first] at found
      have second := @(then_ a).cut b e
      rw [h.onto_eq first] at second
      exact second found

/-- A walk that ends where it begins, whatever the bytes. -/
theorem still (a : α) (found : ∀ b, run b = .ok (onto b a)) (at_ : place a = pos)
    (keeps : ∀ b, place (onto b a) = place a) (same : ∀ b b', onto b' (onto b a) = onto b' a) :
    Walk short onto place pos run where
  onward {b c} eq := by
    rw [found b] at eq
    cases eq
    exact Nat.le_of_eq ((keeps b).trans at_).symm
  inside {b c} le eq := by
    rw [found b] at eq
    cases eq
    rwa [keeps, at_]
  agree {b b' c} _ eq := by
    rw [found b] at eq
    cases eq
    rw [found b', same]
  cut {b e} eq := by
    rw [found b] at eq
    cases eq

end Walk

end Fixbolt
