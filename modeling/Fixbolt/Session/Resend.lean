import Fixbolt.Session.Send

/-!
# Where the parts of a resend end

What a journal holds, and the range that one gap fill covers: `fillEnd_spec`.
-/

namespace Fixbolt

section Journals

variable {J : Type} [Journal J]

/-- A journal holds a number. -/
def Holds (j : J) (n : ℕ) : Prop := (Journal.get j n).isSome

/-- A journal that holds nothing below the floor it names. -/
def KeepsFloor (j : J) : Prop := ∀ n, Holds j n → ∃ floor ∈ Journal.oldest j, floor ≤ n

theorem not_holds_below {j : J} (floors : KeepsFloor j) {n : ℕ}
    (below : n < (Journal.oldest j).getD u32Max) : ¬ Holds j n := by
  intro holds
  obtain ⟨floor, named, le⟩ := floors n holds
  rw [Option.mem_def.mp named, Option.getD_some] at below
  omega

theorem skipMissing_spec (j : J) {stop : ℕ} (small : stop < u32Max) (left n : ℕ)
    (rest : left = stop + 1 - n) (le : n ≤ stop + 1) :
    n ≤ Scene.skipMissing j stop n left ∧ Scene.skipMissing j stop n left ≤ stop + 1 ∧
      (∀ k, n ≤ k → k < Scene.skipMissing j stop n left → ¬ Holds j k) ∧
      (Scene.skipMissing j stop n left ≤ stop → Holds j (Scene.skipMissing j stop n left)) := by
  induction left generalizing n with
  | zero =>
    have past : n = stop + 1 := by omega
    exact ⟨Nat.le_refl n, le, fun k low high => absurd high (by simp only [Scene.skipMissing]; omega),
      fun h => absurd h (by simp only [Scene.skipMissing]; omega)⟩
  | succ left ih =>
    unfold Scene.skipMissing
    split
    · rename_i missing
      have next : wrapU32 (n + 1) = n + 1 :=
        Nat.mod_eq_of_lt (by unfold u32Size; unfold u32Max at small; omega)
      rw [next]
      obtain ⟨low, high, gone, found⟩ := ih (n + 1) (by omega) (by omega)
      refine ⟨by omega, high, fun k hk lt => ?_, found⟩
      obtain rfl | up := Nat.eq_or_lt_of_le hk
      · simpa [Holds] using missing.2
      · exact gone k up lt
    · rename_i here
      refine ⟨Nat.le_refl n, le, fun k low high => absurd high (by omega), fun inside => ?_⟩
      simpa [Holds, inside, Option.isSome_iff_ne_none] using here

/-- Where a gap fill starts to search, and what it has passed then. -/
theorem fillEnd_start (j : J) {from_ stop : ℕ} (small : stop < u32Max) (le : from_ ≤ stop) :
    ∃ n, from_ < n ∧ n ≤ stop + 1 ∧
      Scene.fillEnd j from_ stop = Scene.skipMissing j stop n (stop + 1 - n) ∧
      ∀ k, from_ < k → k < n → k < (Journal.oldest j).getD u32Max := by
  unfold Scene.fillEnd
  dsimp only
  refine ⟨_, ?_, ?_, rfl, fun k low high => ?_⟩ <;> split at * <;> omega

/-- A gap fill covers at least one number, and none behind the range. -/
theorem fillEnd_bounds (j : J) {from_ stop : ℕ} (small : stop < u32Max) (le : from_ ≤ stop) :
    from_ < Scene.fillEnd j from_ stop ∧ Scene.fillEnd j from_ stop ≤ stop + 1 := by
  obtain ⟨n, low, high, same, -⟩ := fillEnd_start j small le
  obtain ⟨up, within, -, -⟩ := skipMissing_spec j small _ n rfl high
  rw [same]
  exact ⟨by omega, within⟩

/-- Where a gap fill that begins at a missing number ends: at the next number held. -/
theorem fillEnd_spec {j : J} (floors : KeepsFloor j) {from_ stop : ℕ} (small : stop < u32Max)
    (le : from_ ≤ stop) (missing : ¬ Holds j from_) :
    from_ < Scene.fillEnd j from_ stop ∧ Scene.fillEnd j from_ stop ≤ stop + 1 ∧
      (∀ n, from_ ≤ n → n < Scene.fillEnd j from_ stop → ¬ Holds j n) ∧
      (Scene.fillEnd j from_ stop ≤ stop → Holds j (Scene.fillEnd j from_ stop)) := by
  obtain ⟨n, start, high, same, below⟩ := fillEnd_start j small le
  obtain ⟨up, within, gone, found⟩ := skipMissing_spec j small _ n rfl high
  rw [same]
  refine ⟨by omega, within, fun k low lt => ?_, found⟩
  obtain rfl | later := Nat.eq_or_lt_of_le low
  · exact missing
  · by_cases before : k < n
    · exact not_holds_below floors (below k later before)
    · exact gone k (by omega) lt

end Journals

end Fixbolt
