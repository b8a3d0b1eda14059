import Fixbolt.Engine.Journal

/-!
# The window of the ring journal

What a ring journal answers after any calls of `put`. A number is kept until another of its slot is,
which may be long after `oldest` has passed it: the floor is counted from the highest number ever
put, and a slot only gives its message up to the next number that falls on it.

* `MemJournal.get_putAll`: the last message put in a slot is the one that is held;
* `MemJournal.Windowed`: what is held lies between the floor and the highest number held;
* `MemJournal.windowed_iff`: it does in every state of a run if and only if no put moves the floor
  past a message that stays.
-/

namespace Fixbolt

namespace MemJournal

variable {n len : ℕ}

/-- A journal after some calls of `put`. -/
def putAll (n len : ℕ) (ps : List (ℕ × Bytes)) : MemJournal n len :=
  ps.foldl (fun j p => (j.put p.1 p.2).1) (new n len)

theorem putAll_concat (ps : List (ℕ × Bytes)) (p : ℕ × Bytes) :
    putAll n len (ps ++ [p]) = ((putAll n len ps).put p.1 p.2).1 := by
  simp [putAll, List.foldl_append]

/-- A message that a slot has room for. -/
def Fits (n len : ℕ) (bytes : Bytes) : Prop := bytes.length ≤ len ∧ n ≠ 0 ∧ bytes.length ≤ u16Max

instance (bytes : Bytes) : Decidable (Fits n len bytes) := by
  unfold Fits
  infer_instance

theorem put_fits {j : MemJournal n len} {seq : ℕ} {b : Bytes} (fits : Fits n len b) :
    j.put seq b = ({ j with
      slots := j.slots.setIfInBounds (seq % n) ⟨seq, b⟩
      highWater := raise j.highWater seq
      highestOut := raise j.highestOut seq }, true) := by
  obtain ⟨short, room, small⟩ := fits
  unfold u16Max at small
  unfold put
  rw [if_neg (by omega), if_neg (by omega)]

theorem put_refused {j : MemJournal n len} {seq : ℕ} {b : Bytes} (h : ¬ Fits n len b) :
    j.put seq b = (j, false) := by
  unfold Fits u16Max at h
  unfold put
  split
  · rfl
  · split
    · rfl
    · omega

theorem get_put_fits {j : MemJournal n len} {seq k : ℕ} {b : Bytes} (fits : Fits n len b)
    (filled : b ≠ []) : (j.put seq b).1.get k =
      if k % n = seq % n then (if k = seq then some b else none) else j.get k := by
  have within : seq % n < n := Nat.mod_lt _ (Nat.pos_of_ne_zero fits.2.1)
  rw [put_fits fits]
  simp only [get, Vector.getElem?_setIfInBounds]
  by_cases same : k % n = seq % n
  · rw [if_pos same, if_pos same.symm, if_pos (same ▸ within), Option.bind_some]
    by_cases eq : k = seq
    · rw [if_pos eq, if_pos ⟨eq.symm, filled⟩]
    · rw [if_neg eq, if_neg fun h => eq h.1.symm]
  · rw [if_neg same, if_neg fun h => same h.symm]

/-! ### What a ring answers -/

/-- The last message put in the slot of a number. -/
def lastIn (n len seq : ℕ) (ps : List (ℕ × Bytes)) : Option (ℕ × Bytes) :=
  (ps.filter fun p => Fits n len p.2 ∧ p.1 % n = seq % n).getLast?

/-- **A number is held until another is put in its slot.** -/
theorem get_putAll {ps : List (ℕ × Bytes)} (filled : ∀ p ∈ ps, p.2 ≠ []) (seq : ℕ) :
    (putAll n len ps).get seq =
      (lastIn n len seq ps).bind fun p => if p.1 = seq then some p.2 else none := by
  induction ps using List.reverseRecOn with
  | nil =>
    show (new n len).get seq = none
    unfold get new
    cases h : (Vector.replicate n (⟨0, []⟩ : Slot))[seq % n]? with
    | none => rfl
    | some slot =>
      obtain ⟨-, rfl⟩ := Vector.getElem?_eq_some_iff.mp h
      simp
  | append_singleton ps p ih =>
    have ih := ih fun q hq => filled q (by simp [hq])
    have fill := filled p (by simp)
    rw [putAll_concat]
    unfold lastIn at ih ⊢
    rw [List.filter_append]
    by_cases fits : Fits n len p.2
    · rw [get_put_fits fits fill]
      by_cases same : seq % n = p.1 % n
      · simp only [same, if_true, List.filter_cons, fits, and_self, decide_true, List.filter_nil,
          List.getLast?_concat, Option.bind_some]
        by_cases eq : seq = p.1
        · rw [if_pos eq, if_pos eq.symm]
        · rw [if_neg eq, if_neg fun h => eq h.symm]
      · have other : ¬ p.1 % n = seq % n := fun h => same h.symm
        rw [if_neg same, ih]
        simp [other]
    · rw [put_refused fits, ih]
      simp [fits]

/-- **A put is kept if and only if the number now answers with its bytes.** -/
theorem put_kept_iff {ps : List (ℕ × Bytes)} (filled : ∀ p ∈ ps, p.2 ≠ []) {seq : ℕ} {b : Bytes}
    (fill : b ≠ []) : ((putAll n len ps).put seq b).2 = true ↔
      ((putAll n len ps).put seq b).1.get seq = some b := by
  by_cases fits : Fits n len b
  · rw [get_put_fits fits fill, if_pos rfl, if_pos rfl, put_fits fits]
    simp
  · -- what is held fits, so it is not what was refused
    rw [put_refused fits]
    refine iff_of_false (by simp) fun held => fits ?_
    rw [get_putAll filled, Option.bind_eq_some_iff] at held
    obtain ⟨p, last, eq⟩ := held
    have mem := List.mem_of_getLast? last
    split at eq
    · obtain rfl := Option.some.inj eq
      exact (of_decide_eq_true (List.mem_filter.mp mem).2).1
    · cases eq

/-- What is held is at most the highest number held. -/
theorem le_highest {j : MemJournal n len} {seq : ℕ} {b : Bytes} (h : j.get seq = some b) :
    ∃ top, j.highest = some top ∧ seq ≤ top := by
  obtain ⟨slot, at_, eq⟩ := Option.bind_eq_some_iff.mp h
  split at eq
  · rename_i held
    have mem : seq ∈ (j.slots.toList.filter fun slot => slot.bytes ≠ []).map Slot.seq := by
      refine List.mem_map.mpr ⟨slot, List.mem_filter.mpr ⟨?_, by simpa using held.2⟩, held.1⟩
      obtain ⟨lt, rfl⟩ := Vector.getElem?_eq_some_iff.mp at_
      exact Vector.mem_toList_iff.mpr (Vector.getElem_mem lt)
    cases top : ((j.slots.toList.filter fun slot => slot.bytes ≠ []).map Slot.seq).max? with
    | none =>
      rw [List.max?_eq_none_iff.mp top] at mem
      cases mem
    | some top' => exact ⟨top', top, (List.max?_eq_some_iff.mp top).2 seq mem⟩
  · cases eq

/-! ### The floor -/

/-- What is held is not below the floor. -/
def Windowed (j : MemJournal n len) : Prop :=
  ∀ seq b, j.get seq = some b → ∀ floor, j.oldest = some floor → floor ≤ seq

/-- The floor a put of this number leaves. -/
def floorAfter (j : MemJournal n len) (seq : ℕ) : ℕ :=
  max (j.highWater.elim seq (max · seq) - (min n u32Max - 1)) 1

/-- A put that moves the floor past no message that stays: its number is not below the floor it
leaves, and no number held in another slot is. -/
def StaysAbove (j : MemJournal n len) (seq : ℕ) (bytes : Bytes) : Prop :=
  Fits n len bytes → j.floorAfter seq ≤ seq ∧
    ∀ k b, j.get k = some b → k % n ≠ seq % n → j.floorAfter seq ≤ k

theorem windowed_put_iff {j : MemJournal n len} {seq : ℕ} {b : Bytes} (fill : b ≠ [])
    (h : j.Windowed) : (j.put seq b).1.Windowed ↔ j.StaysAbove seq b := by
  by_cases fits : Fits n len b
  · have floor : (j.put seq b).1.oldest = some (j.floorAfter seq) := by
      rw [put_fits fits]
      simp only [oldest, floorAfter, raise, fits.2.1, if_false, Option.map_some]
    constructor
    · intro windowed _
      refine ⟨windowed seq b ?_ _ floor, fun k c held other => windowed k c ?_ _ floor⟩
      · rw [get_put_fits fits fill, if_pos rfl, if_pos rfl]
      · rw [get_put_fits fits fill, if_neg other]
        exact held
    · intro stays k c held o eq
      rw [floor] at eq
      obtain rfl := Option.some.inj eq
      rw [get_put_fits fits fill] at held
      by_cases same : k % n = seq % n
      · rw [if_pos same] at held
        split at held
        · rename_i eq
          rw [eq]
          exact (stays fits).1
        · cases held
      · rw [if_neg same] at held
        exact (stays fits).2 k c held same
  · rw [put_refused fits]
    exact iff_of_true h fun no => absurd no fits

theorem windowed_new : (new n len).Windowed := by
  intro seq b held
  have : (putAll n len []).get seq = some b := held
  rw [get_putAll (fun p hp => by cases hp)] at this
  cases this

/-- **What is held stays above the floor in every state of a run if and only if no put of the run
moves the floor past a message that stays.** -/
theorem windowed_iff {ps : List (ℕ × Bytes)} (filled : ∀ p ∈ ps, p.2 ≠ []) :
    (∀ qs, qs <+: ps → (putAll n len qs).Windowed) ↔
      ∀ qs p, qs ++ [p] <+: ps → (putAll n len qs).StaysAbove p.1 p.2 := by
  have front {qs : List (ℕ × Bytes)} {p : ℕ × Bytes} (h : qs ++ [p] <+: ps) :
      qs <+: ps ∧ p.2 ≠ [] := by
    refine ⟨(List.prefix_append qs [p]).trans h, filled p (h.subset ?_)⟩
    simp
  constructor
  · intro h qs p run
    have after := h _ run
    rw [putAll_concat] at after
    exact (windowed_put_iff (front run).2 (h qs (front run).1)).mp after
  · intro h qs run
    induction qs using List.reverseRecOn with
    | nil => exact windowed_new
    | append_singleton qs p ih =>
      rw [putAll_concat]
      exact (windowed_put_iff (front run).2 (ih (front run).1)).mpr (h qs p run)

end MemJournal

open MemJournal in
/-- **The ring journal answers for the last message put in each slot**, and what it answers for lies
between its floor and its highest number exactly in the runs whose puts stay above the floor. -/
theorem journal_window {n len : ℕ} {ps : List (ℕ × Bytes)} (filled : ∀ p ∈ ps, p.2 ≠ []) :
    (∀ seq, (putAll n len ps).get seq =
      (lastIn n len seq ps).bind fun p => if p.1 = seq then some p.2 else none) ∧
    (∀ seq b, b ≠ [] → (((putAll n len ps).put seq b).2 = true ↔
      ((putAll n len ps).put seq b).1.get seq = some b)) ∧
    (∀ seq b, (putAll n len ps).get seq = some b →
      ∃ top, (putAll n len ps).highest = some top ∧ seq ≤ top) ∧
    ((∀ qs, qs <+: ps → (putAll n len qs).Windowed) ↔
      ∀ qs p, qs ++ [p] <+: ps → (putAll n len qs).StaysAbove p.1 p.2) :=
  ⟨get_putAll filled, fun _ _ fill => put_kept_iff filled fill, fun _ _ held => le_highest held,
    windowed_iff filled⟩

theorem journal_window_two :
    ((∀ seq, (MemJournal.putAll 4 8 [(1, [65]), (2, [66])]).get seq =
      (MemJournal.lastIn 4 8 seq [(1, [65]), (2, [66])]).bind fun p =>
        if p.1 = seq then some p.2 else none) ∧
    (∀ seq b, b ≠ [] → (((MemJournal.putAll 4 8 [(1, [65]), (2, [66])]).put seq b).2 = true ↔
      ((MemJournal.putAll 4 8 [(1, [65]), (2, [66])]).put seq b).1.get seq = some b)) ∧
    (∀ seq b, (MemJournal.putAll 4 8 [(1, [65]), (2, [66])]).get seq = some b →
      ∃ top, (MemJournal.putAll 4 8 [(1, [65]), (2, [66])]).highest = some top ∧ seq ≤ top) ∧
    ((∀ qs, qs <+: [(1, [65]), (2, [66])] → (MemJournal.putAll 4 8 qs).Windowed) ↔
      ∀ qs p, qs ++ [p] <+: [(1, [65]), (2, [66])] →
        (MemJournal.putAll 4 8 qs).StaysAbove p.1 p.2)) :=
  journal_window (by decide)

/-- A number that is still held and below the floor: the slots in between were never used. -/
theorem held_below_floor :
    (MemJournal.putAll 4 8 [(2, [65]), (9, [66])]).get 2 = some [65] ∧
      (MemJournal.putAll 4 8 [(2, [65]), (9, [66])]).oldest = some 6 := by
  decide

end Fixbolt
