import Mathlib.Data.List.Basic

/-!
# Logs of records

Records written end to end, and read back one after another until what is left is no record. A
`RecordFormat` says how a record is written and what the reader makes of it and of its beginnings.

* `replay_written`: a log is read back record by record, and a torn one up to its tear;
* `replay_sound`: what is read is what stands in the log.
-/

namespace Fixbolt

/-- What a reader makes of the front of a log. -/
inductive Taken (α ρ : Type*) where
  /-- There is no whole record. -/
  | torn
  /-- There is one, and it is damaged. -/
  | corrupt
  | record (r : ρ) (rest : List α)

/-- How records are written, and read back. -/
structure RecordFormat (α ρ : Type*) where
  /-- Can the record be written? -/
  Fits : ρ → Prop
  written : ρ → List α
  take : List α → Taken α ρ
  written_ne_nil : ∀ r, written r ≠ []
  take_written : ∀ r rest, Fits r → take (written r ++ rest) = .record r rest
  take_torn : ∀ r front, Fits r → front <+: written r → front ≠ written r → take front = .torn
  take_sound : ∀ bytes r rest, take bytes = .record r rest → Fits r ∧ bytes = written r ++ rest

namespace RecordFormat

variable {α ρ σ : Type*} (F : RecordFormat α ρ)

/-- Records end to end. -/
def log (records : List ρ) : List α := records.flatMap F.written

/-- Is it the beginning of a record, and not the whole? -/
def Torn (tail : List α) : Prop := ∃ r, F.Fits r ∧ tail <+: F.written r ∧ tail ≠ F.written r

/-- Read records and fold them into a state; with what is left, and whether that is damaged. -/
def replay (apply : σ → ρ → σ) : ℕ → List α → σ → σ × List α × Bool
  | 0, bytes, s => (s, bytes, false)
  | fuel + 1, bytes, s =>
    match F.take bytes with
    | .torn => (s, bytes, false)
    | .corrupt => (s, bytes, true)
    | .record r rest => replay apply fuel rest (apply s r)

variable {F}

@[simp] theorem log_nil : F.log [] = [] := rfl

@[simp] theorem log_cons (r : ρ) (rs : List ρ) : F.log (r :: rs) = F.written r ++ F.log rs := rfl

@[simp] theorem log_append (xs ys : List ρ) : F.log (xs ++ ys) = F.log xs ++ F.log ys :=
  List.flatMap_append

theorem log_singleton (r : ρ) : F.log [r] = F.written r := List.append_nil _

theorem torn_nil {r : ρ} (fits : F.Fits r) : F.Torn [] :=
  ⟨r, fits, List.nil_prefix, (F.written_ne_nil r).symm⟩

theorem take_of_torn {tail : List α} (h : F.Torn tail) : F.take tail = .torn := by
  obtain ⟨r, fits, front, ne⟩ := h
  exact F.take_torn r tail fits front ne

/-- **A log is read back record by record**, up to where it is torn. -/
theorem replay_written {apply : σ → ρ → σ} {fuel : ℕ} {records : List ρ} {tail : List α} {s : σ}
    (fits : ∀ r ∈ records, F.Fits r) (torn : F.Torn tail)
    (enough : (F.log records ++ tail).length < fuel) :
    F.replay apply fuel (F.log records ++ tail) s = (records.foldl apply s, tail, false) := by
  induction records generalizing fuel s with
  | nil =>
    cases fuel with
    | zero => omega
    | succ fuel =>
      rw [log_nil, List.nil_append, replay, take_of_torn torn]
      rfl
  | cons r records ih =>
    have long := List.length_pos_iff.mpr (F.written_ne_nil r)
    cases fuel with
    | zero => omega
    | succ fuel =>
      rw [log_cons, List.append_assoc, replay, F.take_written r _ (fits r List.mem_cons_self)]
      refine ih (fun r' mem => fits r' (List.mem_cons_of_mem _ mem)) ?_
      simp only [log_cons, List.length_append] at enough ⊢
      omega

/-- **What is read is what stands in the log.** -/
theorem replay_sound {apply : σ → ρ → σ} {fuel : ℕ} {bytes left : List α} {s s' : σ} {damaged : Bool}
    (h : F.replay apply fuel bytes s = (s', left, damaged)) :
    ∃ records, (∀ r ∈ records, F.Fits r) ∧ bytes = F.log records ++ left ∧
      s' = records.foldl apply s := by
  induction fuel generalizing bytes s with
  | zero =>
    cases h
    exact ⟨[], by rintro r ⟨⟩, rfl, rfl⟩
  | succ fuel ih =>
    rw [replay] at h
    split at h
    · cases h
      exact ⟨[], by rintro r ⟨⟩, rfl, rfl⟩
    · cases h
      exact ⟨[], by rintro r ⟨⟩, rfl, rfl⟩
    · rename_i r rest taken
      obtain ⟨fits, rfl⟩ := F.take_sound _ _ _ taken
      obtain ⟨records, all, rfl, rfl⟩ := ih h
      refine ⟨r :: records, List.forall_mem_cons.mpr ⟨fits, all⟩, ?_, rfl⟩
      rw [log_cons, List.append_assoc]

end RecordFormat

end Fixbolt
