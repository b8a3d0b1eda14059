import Fixbolt.Properties.Measuring

/-!
# However a group is walked

A group can be skipped, finished at once, or read entry by entry and then finished, and an entry's
tail may be walked on a copy of its cursor. `finish` has a short way for entries of a fixed size, and
`nextEntry` leaves an entry's tail to the next call. All of them end where a walk over one entry
after another ends.

* `walkEntries`, `walkGroup`: that walk;
* `Group.rest`: what is left of it, which a call of `nextEntry` does not change (`rest_afterNext`) and
  `finish` completes (`finish_eq_rest`);
* `Group.loop_chain`: each turn of the loop in `finish` but the first moves on;
* `group_ends`: groups of any layout, over any bytes.
-/

namespace Fixbolt.Sbe

variable {c c' : Cursor} {g g' : Group} {e : SbeError} {n blockLength : ℕ}
  {tail : Cursor → Except SbeError Cursor} {groups : List GroupLayout} {varData : List VarDataLayout}

/-! ### One entry after another -/

/-- `n` entries: a block and its tail, one behind the other. -/
def walkEntries (tail : Cursor → Except SbeError Cursor) (blockLength : ℕ) :
    ℕ → Cursor → Except SbeError Cursor
  | 0, c => .ok c
  | n + 1, c => do
    let _ ← slice c.buf c.pos blockLength
    let c ← tail { c with pos := c.pos + blockLength }
    walkEntries tail blockLength n c

/-- A dimension, and the entries it says there are. -/
def walkDimension (tail : Cursor → Except SbeError Cursor) (d : DimensionLayout) (c : Cursor) :
    Except SbeError Cursor := do
  let blockLength ← readLength c.buf c.pos d.blockLength c.order
  let count ← readLength c.buf (c.pos + d.blockLength.size) d.numInGroup c.order
  walkEntries tail blockLength count { c with pos := c.pos + d.size }

mutual

/-- A group of some layout. It is not there in a message that is older. -/
def walkGroup : GroupLayout → Cursor → Except SbeError Cursor
  | .mk since dimension groups varData, c =>
    if c.version < since then .ok c
    else
      walkDimension
        (fun c => do
          let c ← walkGroups groups c
          c.skipVarData varData)
        dimension c

/-- Groups, in the order of the schema. -/
def walkGroups : List GroupLayout → Cursor → Except SbeError Cursor
  | [], c => .ok c
  | l :: ls, c => do
    let c ← walkGroup l c
    walkGroups ls c

end

/-! ### Places -/

/-- The cursor is in its buffer, and the buffer in memory. -/
structure Cursor.Placed (c : Cursor) : Prop where
  inside : c.pos ≤ c.buf.length
  small : c.buf.length < usizeSize

/-- The same message, further on and still inside. -/
structure Cursor.Before (c c' : Cursor) : Prop where
  same : c' = { c with pos := c'.pos }
  onward : c.pos ≤ c'.pos
  inside : c'.pos ≤ c.buf.length

theorem Cursor.Before.placed (before : c.Before c') (placed : c.Placed) : c'.Placed := by
  rw [before.same]
  exact ⟨before.inside, placed.small⟩

theorem slice_eq {b : Bytes} {at_ len : ℕ} (small : b.length < usizeSize) :
    slice b at_ len =
      if at_ + len ≤ b.length then .ok ((b.drop at_).take len) else .error .truncated := by
  split
  · rename_i inside
    exact slice_eq_ok_iff.mpr ⟨Nat.lt_of_le_of_lt inside small, inside, rfl⟩
  · rename_i outside
    cases found : slice b at_ len with
    | error e => rw [slice_error found]
    | ok v => exact absurd (slice_eq_ok_iff.mp found).2.1 outside

theorem readLength_inside {b : Bytes} {at_ len : ℕ} {t : LengthType} {order : ByteOrder}
    (found : readLength b at_ t order = .ok len) (le : at_ ≤ b.length) : at_ + t.size ≤ b.length :=
  (readLength_reads at_ t order).inside le found

theorem LengthType.size_pos (t : LengthType) : 0 < t.size := by cases t <;> decide

/-- Is something of a tail on the wire? -/
def onWire (groups : List GroupLayout) (varData : List VarDataLayout) (version : ℕ) : Bool :=
  groups.any (fun l => l.sinceVersion ≤ version) || varData.any fun v => v.sinceVersion ≤ version

/-- A way to pass something that is on the wire in the versions `on`. -/
structure Passes (on : ℕ → Bool) (f : Cursor → Except SbeError Cursor) : Prop where
  before : ∀ {c c'}, c.Placed → f c = .ok c' → c.Before c'
  cut : ∀ {c e}, c.Placed → f c = .error e → e = .truncated
  /-- What is not on the wire is not passed. -/
  absent : ∀ {c}, c.Placed → on c.version = false → f c = .ok c
  /-- What is, takes room. -/
  moves : ∀ {c c'}, c.Placed → on c.version → f c = .ok c' → c.pos < c'.pos

/-- A way to pass the groups and the `varData` behind a block. -/
abbrev Tails (groups : List GroupLayout) (varData : List VarDataLayout)
    (tail : Cursor → Except SbeError Cursor) : Prop := Passes (onWire groups varData) tail

theorem Tails.before_walk (tails : Tails groups varData tail) (placed : c.Placed)
    (walked : walkEntries tail blockLength n c = .ok c') : c.Before c' := by
  induction n generalizing c with
  | zero =>
    cases walked
    exact ⟨rfl, le_rfl, placed.inside⟩
  | succ n ih =>
    obtain ⟨bytes, sliced, walked⟩ := bind_eq_ok.mp walked
    obtain ⟨c₁, tailed, walked⟩ := bind_eq_ok.mp walked
    have block := (slice_eq_ok_iff.mp sliced).2.1
    have there : Cursor.Placed { c with pos := c.pos + blockLength } := ⟨block, placed.small⟩
    have first := tails.before there tailed
    have rest := ih (first.placed there) walked
    have along := first.onward
    refine ⟨?_, ?_, ?_⟩
    · rw [rest.same, first.same]
    · have := rest.onward
      dsimp only at along
      omega
    · have := rest.inside
      rwa [first.same] at this

theorem Tails.cut_walk (tails : Tails groups varData tail) (placed : c.Placed)
    (failed : walkEntries tail blockLength n c = .error e) : e = .truncated := by
  induction n generalizing c with
  | zero => cases failed
  | succ n ih =>
    unfold walkEntries at failed
    cases sliced : slice c.buf c.pos blockLength with
    | error e' =>
      rw [sliced] at failed
      cases failed
      exact slice_error sliced
    | ok bytes =>
      rw [sliced] at failed
      have block := (slice_eq_ok_iff.mp sliced).2.1
      have there : Cursor.Placed { c with pos := c.pos + blockLength } := ⟨block, placed.small⟩
      cases tailed : tail { c with pos := c.pos + blockLength } with
      | error e' =>
        simp only [bind, Except.bind, tailed] at failed
        cases failed
        exact tails.cut there tailed
      | ok c₁ =>
        simp only [bind, Except.bind, tailed] at failed
        exact ih ((tails.before there tailed).placed there) failed

/-- Entries without a tail are one block. -/
theorem walkEntries_flat (tails : Tails groups varData tail) (placed : c.Placed)
    (absent : onWire groups varData c.version = false) :
    walkEntries tail blockLength n c =
      if c.pos + blockLength * n ≤ c.buf.length then
        .ok { c with pos := c.pos + blockLength * n } else .error .truncated := by
  induction n generalizing c with
  | zero =>
    rw [Nat.mul_zero, Nat.add_zero, if_pos placed.inside]
    rfl
  | succ n ih =>
    unfold walkEntries
    have more : c.pos + blockLength * (n + 1) = c.pos + blockLength + blockLength * n := by ring
    rw [slice_eq placed.small]
    by_cases block : c.pos + blockLength ≤ c.buf.length
    · rw [if_pos block]
      simp only [bind, Except.bind]
      have there : Cursor.Placed { c with pos := c.pos + blockLength } := ⟨block, placed.small⟩
      rw [tails.absent there absent, more]
      exact ih there absent
    · rw [if_neg block, if_neg (by omega)]
      rfl

/-- Two ways to walk over the tails that agree inside the buffer. -/
theorem walkEntries_congr {tail' : Cursor → Except SbeError Cursor}
    (tails : Tails groups varData tail) (agree : ∀ c : Cursor, c.Placed → tail c = tail' c)
    (placed : c.Placed) : walkEntries tail blockLength n c = walkEntries tail' blockLength n c := by
  induction n generalizing c with
  | zero => rfl
  | succ n ih =>
    unfold walkEntries
    cases sliced : slice c.buf c.pos blockLength with
    | error e => rfl
    | ok bytes =>
      have block := (slice_eq_ok_iff.mp sliced).2.1
      have there : Cursor.Placed { c with pos := c.pos + blockLength } := ⟨block, placed.small⟩
      simp only [bind, Except.bind]
      rw [← agree _ there]
      cases tailed : tail { c with pos := c.pos + blockLength } with
      | error e => rfl
      | ok c₁ => exact ih ((tails.before there tailed).placed there)

/-! ### What is left of a group -/

namespace Group

/-- The walk over what is left of a group. -/
def rest (tail : Cursor → Except SbeError Cursor) (g : Group) : Except SbeError Cursor := do
  let c ← if g.tailPending then tail g.cur else pure g.cur
  walkEntries tail g.blockLength g.remaining c

theorem hasTail_eq (g : Group) :
    g.hasTail = onWire g.layout.groups g.layout.varData g.cur.version := rfl

variable (tail) in
/-- What skipping a tail that is owed does. -/
theorem skipPendingTail_cases (g : Group) :
    (∃ e, g.skipPendingTail tail = .error e ∧ g.rest tail = .error e) ∨
      ∃ c, g.skipPendingTail tail = .ok { g with cur := c, tailPending := false } ∧
        (if g.tailPending then tail g.cur = .ok c else c = g.cur) ∧
        g.rest tail = walkEntries tail g.blockLength g.remaining c := by
  unfold skipPendingTail rest
  cases owed : g.tailPending with
  | false => exact .inr ⟨g.cur, congrArg Except.ok (by cases g; cases owed; rfl), rfl, rfl⟩
  | true =>
    simp only [if_true]
    cases tailed : tail g.cur with
    | error e => exact .inl ⟨e, rfl, rfl⟩
    | ok c => exact .inr ⟨c, rfl, rfl, rfl⟩

section Tails

variable (tails : Tails g.layout.groups g.layout.varData tail) (placed : g.cur.Placed)
include tails placed

/-- Skipping a tail that is owed keeps the cursor inside, and moves it on if there is one. -/
theorem skipPendingTail_before {c : Cursor}
    (skipped : if g.tailPending then tail g.cur = .ok c else c = g.cur) : g.cur.Before c := by
  split at skipped
  · exact tails.before placed skipped
  · subst skipped
    exact ⟨rfl, le_rfl, placed.inside⟩

/-- The rest of a group behind the block of its next entry. -/
theorem rest_behind {c : Cursor} {bytes : Bytes} (before : g.cur.Before c) (left : g.remaining = n + 1)
    (sliced : slice c.buf c.pos g.blockLength = .ok bytes) :
    rest tail { g with
      cur := { c with pos := c.pos + g.blockLength }, remaining := n, tailPending := g.hasTail } =
      walkEntries tail g.blockLength g.remaining c := by
  rw [left, walkEntries, sliced]
  simp only [rest, bind, Except.bind]
  cases has : g.hasTail with
  | true => rfl
  | false =>
    rw [hasTail_eq] at has
    have block := (slice_eq_ok_iff.mp sliced).2.1
    have there : Cursor.Placed { c with pos := c.pos + g.blockLength } :=
      ⟨block, (before.placed placed).small⟩
    rw [tails.absent there (by rw [before.same]; exact has)]
    rfl

/-- What a call of `nextEntry` answers, and what it leaves. -/
theorem nextEntry_cases :
    (∃ e c b, g.nextEntry tail = .error e ∧
        g.afterNext tail = { g with cur := c, tailPending := b } ∧ g.cur.Before c ∧
        rest tail { g with cur := c, tailPending := b } = g.rest tail ∧ g.rest tail = .error e) ∨
      (∃ c, g.nextEntry tail = .ok (none, g.afterNext tail) ∧
        g.afterNext tail = { g with cur := c, tailPending := false } ∧
        g.remaining = 0 ∧ g.rest tail = .ok c ∧ g.cur.Before c) ∨
      ∃ c bytes n, g.nextEntry tail = .ok (some ⟨bytes, c⟩, g.afterNext tail) ∧
        g.afterNext tail = { g with cur := c, remaining := n, tailPending := g.hasTail } ∧
        g.remaining = n + 1 ∧ (g.afterNext tail).rest tail = g.rest tail ∧ g.cur.Before c ∧
        (g.tailPending → g.hasTail → g.cur.pos < c.pos) := by
  obtain ⟨e, skipped, rest⟩ | ⟨c, skipped, was, left_of⟩ := g.skipPendingTail_cases tail
  · refine .inl ⟨e, g.cur, g.tailPending, ?_, ?_, ⟨rfl, le_rfl, placed.inside⟩, rfl, rest⟩
    · unfold nextEntry
      rw [skipped]
      rfl
    · unfold afterNext
      rw [skipped]
  · have before := skipPendingTail_before tails placed was
    unfold nextEntry afterNext
    rw [skipped]
    simp only [bind, Except.bind]
    cases left : g.remaining with
    | zero =>
      refine .inr (.inl ⟨c, rfl, rfl, rfl, ?_, before⟩)
      rw [left_of, left]
      rfl
    | succ n =>
      rw [if_neg (Nat.succ_ne_zero n), if_neg (Nat.succ_ne_zero n)]
      cases sliced : slice c.buf c.pos g.blockLength with
      | error e =>
        refine .inl ⟨e, c, false, rfl, rfl, before, (left_of.trans (by rw [left]; rfl)).symm, ?_⟩
        rw [left_of, left, walkEntries, sliced]
        rfl
      | ok bytes =>
        have block := (slice_eq_ok_iff.mp sliced).2.1
        have same : hasTail { g with
            cur := { c with pos := c.pos + g.blockLength }, remaining := n, tailPending := false } =
              g.hasTail := by
          rw [hasTail_eq, hasTail_eq, before.same]
        refine .inr (.inr ⟨{ c with pos := c.pos + g.blockLength }, bytes, n, rfl, ?_, rfl, ?_, ?_, ?_⟩)
        · exact congrArg (fun b => { g with
            cur := { c with pos := c.pos + g.blockLength }, remaining := n, tailPending := b }) same
        · rw [left_of, ← rest_behind tails placed before left sliced]
          exact congrArg (fun b => rest tail { g with
            cur := { c with pos := c.pos + g.blockLength }, remaining := n, tailPending := b }) same
        · refine ⟨?_, ?_, ?_⟩
          · rw [before.same]
          · have := before.onward
            show g.cur.pos ≤ c.pos + g.blockLength
            omega
          · have eq : c.buf = g.cur.buf := by rw [before.same]
            rw [← eq]
            exact block
        · intro owed has
          rw [if_pos owed] at was
          have := tails.moves placed has was
          show g.cur.pos < c.pos + g.blockLength
          omega

/-! ### Finishing it -/

/-- The loop, and the tail that it leaves owed, are the rest. -/
theorem drain_rest {fuel : ℕ} (enough : g.remaining < fuel) :
    (do
      let g ← g.drain tail fuel
      let g ← g.skipPendingTail tail
      return g.cur) = g.rest tail := by
  induction fuel generalizing g with
  | zero => omega
  | succ fuel ih =>
    rw [drain]
    obtain ⟨e, c, b, failed, -, -, -, rest⟩ | ⟨c, ended, after, none, rest, -⟩ |
      ⟨c, bytes, n, found, after, left, rest, before, -⟩ := nextEntry_cases tails placed
    · rw [failed, rest]
      rfl
    · rw [ended, after, rest]
      rfl
    · rw [found, ← rest]
      refine ih ?_ ?_ ?_
      · rw [after]
        exact tails
      · rw [after]
        exact before.placed placed
      · rw [after]
        dsimp only
        omega

/-- **Finishing a group is the walk over what is left of it**, whichever way `finish` takes. -/
theorem finish_eq_rest : g.finish tail = g.rest tail := by
  unfold finish
  obtain ⟨e, skipped, rest⟩ | ⟨c, skipped, was, left_of⟩ := g.skipPendingTail_cases tail
  · rw [skipped, rest]
    rfl
  · have before := skipPendingTail_before tails placed was
    have there := before.placed placed
    rw [skipped, left_of]
    simp only [bind, Except.bind]
    have same : hasTail { g with cur := c, tailPending := false } = g.hasTail := by
      rw [hasTail_eq, hasTail_eq, before.same]
    cases has : g.hasTail with
    | true =>
      rw [if_pos (same.trans has)]
      exact drain_rest (g := { g with cur := c, tailPending := false }) tails there
        (Nat.lt_succ_self g.remaining)
    | false =>
      rw [if_neg (by rw [same, has]; decide)]
      have absent : onWire g.layout.groups g.layout.varData c.version = false := by
        rw [hasTail_eq] at has
        rw [before.same]
        exact has
      rw [walkEntries_flat tails there absent]
      unfold checkedUsize
      by_cases small : g.blockLength * g.remaining < usizeSize
      · rw [if_pos small]
        dsimp only
        rw [slice_eq there.small]
        by_cases inside : c.pos + g.blockLength * g.remaining ≤ c.buf.length
        · rw [if_pos inside, if_pos inside]
          rfl
        · rw [if_neg inside, if_neg inside]
      · have := there.small
        rw [if_neg small, if_neg (by omega)]

omit placed tails in
/-- Where the cursor stands after each turn of the loop in `finish` that finds an entry. -/
def loop (tail : Cursor → Except SbeError Cursor) : ℕ → Group → List ℕ
  | 0, _ => []
  | fuel + 1, g =>
    match g.nextEntry tail with
    | .ok (some _, g) => g.cur.pos :: loop tail fuel g
    | _ => []

/-- While a tail is owed, each turn of the loop moves on. -/
theorem loop_owed (fuel : ℕ) (owed : g.tailPending) (has : g.hasTail) :
    (g.cur.pos :: g.loop tail fuel).IsChain (· < ·) ∧
      g.cur.pos + (g.loop tail fuel).length ≤ g.cur.buf.length := by
  induction fuel generalizing g with
  | zero => exact ⟨.singleton _, placed.inside⟩
  | succ fuel ih =>
    rw [loop]
    obtain ⟨e, c, b, failed, -, -, -, -⟩ | ⟨c, ended, -, -, -, -⟩ |
      ⟨c, bytes, n, found, after, left, -, before, moves⟩ := nextEntry_cases tails placed
    · rw [failed]
      exact ⟨.singleton _, placed.inside⟩
    · rw [ended]
      exact ⟨.singleton _, placed.inside⟩
    · rw [found, after]
      dsimp only
      have moved := moves owed has
      have same : hasTail { g with cur := c, remaining := n, tailPending := g.hasTail } =
          g.hasTail := by
        rw [hasTail_eq, hasTail_eq, before.same]
      obtain ⟨chain, few⟩ := ih (g := { g with cur := c, remaining := n, tailPending := g.hasTail })
        tails (before.placed placed) has (same.trans has)
      refine ⟨chain.cons_cons moved, ?_⟩
      have eq : c.buf = g.cur.buf := by rw [before.same]
      dsimp only at few
      rw [eq] at few
      rw [List.length_cons]
      omega

/-- **Each turn of the loop but the first moves on**, so there are no more of them than there are
bytes left, and one. -/
theorem loop_chain (fuel : ℕ) (has : g.hasTail) :
    (g.loop tail fuel).IsChain (· < ·) ∧
      g.cur.pos + (g.loop tail fuel).length ≤ g.cur.buf.length + 1 := by
  cases fuel with
  | zero => exact ⟨.nil, Nat.le_succ_of_le placed.inside⟩
  | succ fuel =>
    rw [loop]
    obtain ⟨e, c, b, failed, -, -, -, -⟩ | ⟨c, ended, -, -, -, -⟩ |
      ⟨c, bytes, n, found, after, left, -, before, -⟩ := nextEntry_cases tails placed
    · rw [failed]
      exact ⟨.nil, Nat.le_succ_of_le placed.inside⟩
    · rw [ended]
      exact ⟨.nil, Nat.le_succ_of_le placed.inside⟩
    · rw [found, after]
      dsimp only
      have same : hasTail { g with cur := c, remaining := n, tailPending := g.hasTail } =
          g.hasTail := by
        rw [hasTail_eq, hasTail_eq, before.same]
      obtain ⟨chain, few⟩ := loop_owed
        (g := { g with cur := c, remaining := n, tailPending := g.hasTail })
        tails (before.placed placed) fuel has (same.trans has)
      refine ⟨chain, ?_⟩
      have eq : c.buf = g.cur.buf := by rw [before.same]
      have onward := before.onward
      dsimp only at few
      rw [eq] at few
      rw [List.length_cons]
      omega

theorem loop_none {fuel : ℕ} (none : g.remaining = 0) : g.loop tail fuel = [] := by
  cases fuel with
  | zero => rfl
  | succ fuel =>
    rw [loop]
    obtain ⟨e, c, b, failed, -, -, -, -⟩ | ⟨c, ended, -, -, -, -⟩ |
      ⟨c, bytes, n, -, -, left, -, -, -⟩ := nextEntry_cases tails placed
    · rw [failed]
    · rw [ended]
    · omega

end Tails

end Group

/-! ### Every layout -/

variable (tail) in
/-- A group that is opened has its dimension behind it, and what is left of it are its entries. -/
theorem group_cases (l : GroupLayout) (placed : c.Placed) :
    (c.version < l.sinceVersion ∧ c.group l = .ok ⟨c, l, 0, 0, 0, false, false⟩) ∨
      (l.sinceVersion ≤ c.version ∧
        ((∃ e, c.group l = .error e ∧ e = .truncated ∧
            walkDimension tail l.dimension c = .error e) ∨
          ∃ blockLength count, c.group l = .ok ⟨{ c with pos := c.pos + l.dimension.size }, l,
              blockLength, count, count, false, true⟩ ∧
            c.pos + l.dimension.size ≤ c.buf.length ∧
            walkDimension tail l.dimension c =
              walkEntries tail blockLength count { c with pos := c.pos + l.dimension.size })) := by
  unfold Cursor.group walkDimension
  by_cases old : c.version < l.sinceVersion
  · exact .inl ⟨old, if_pos old⟩
  · refine .inr ⟨Nat.le_of_not_lt old, ?_⟩
    rw [if_neg old]
    simp only [bind, Except.bind]
    cases first : readLength c.buf c.pos l.dimension.blockLength c.order with
    | error e => exact .inl ⟨e, rfl, (readLength_reads _ _ _).cut first, rfl⟩
    | ok blockLength =>
      have fits := readLength_inside first placed.inside
      have small := placed.small
      dsimp only
      rw [checkedUsize, if_pos (Nat.lt_of_le_of_lt fits small)]
      dsimp only
      cases second : readLength c.buf (c.pos + l.dimension.blockLength.size)
          l.dimension.numInGroup c.order with
      | error e => exact .inl ⟨e, rfl, (readLength_reads _ _ _).cut second, rfl⟩
      | ok count =>
        have fits := readLength_inside second fits
        have size : c.pos + l.dimension.size = c.pos + l.dimension.blockLength.size +
            l.dimension.numInGroup.size := (Nat.add_assoc _ _ _).symm
        dsimp only
        rw [checkedUsize, if_pos (by omega)]
        exact .inr ⟨blockLength, count, rfl, by omega, rfl⟩

theorem DimensionLayout.two_le_size (d : DimensionLayout) : 2 ≤ d.size :=
  Nat.add_le_add d.blockLength.size_pos d.numInGroup.size_pos

theorem Passes.congr {on : ℕ → Bool} {f f' : Cursor → Except SbeError Cursor} (h : Passes on f)
    (agree : ∀ {c : Cursor}, c.Placed → f' c = f c) : Passes on f' where
  before placed eq := h.before placed ((agree placed).symm.trans eq)
  cut placed eq := h.cut placed ((agree placed).symm.trans eq)
  absent placed no := (agree placed).trans (h.absent placed no)
  moves placed yes eq := h.moves placed yes ((agree placed).symm.trans eq)

theorem Passes.nothing {on : ℕ → Bool} (never : ∀ v, on v = false) : Passes on Except.ok where
  before placed eq := by
    cases eq
    exact ⟨rfl, le_rfl, placed.inside⟩
  cut _ eq := nomatch eq
  absent _ _ := rfl
  moves _ is := by
    rw [never] at is
    cases is

/-- One thing behind another. -/
theorem Passes.bind {on on' : ℕ → Bool} {f f' : Cursor → Except SbeError Cursor}
    (first : Passes on f) (second : Passes on' f') :
    Passes (fun v => on v || on' v) fun c => f c >>= f' where
  before {c c'} placed eq := by
    obtain ⟨c₁, eq₁, eq₂⟩ := bind_eq_ok.mp eq
    have before₁ := first.before placed eq₁
    have before₂ := second.before (before₁.placed placed) eq₂
    refine ⟨?_, before₁.onward.trans before₂.onward, ?_⟩
    · rw [before₂.same, before₁.same]
    · have := before₂.inside
      rwa [before₁.same] at this
  cut {c e} placed eq := by
    cases eq₁ : f c with
    | error e' =>
      rw [eq₁] at eq
      cases eq
      exact first.cut placed eq₁
    | ok c₁ =>
      rw [eq₁] at eq
      exact second.cut ((first.before placed eq₁).placed placed) eq
  absent {c} placed no := by
    obtain ⟨no₁, no₂⟩ := Bool.or_eq_false_iff.mp no
    rw [first.absent placed no₁]
    exact second.absent placed no₂
  moves {c c'} placed yes eq := by
    obtain ⟨c₁, eq₁, eq₂⟩ := bind_eq_ok.mp eq
    have before₁ := first.before placed eq₁
    have there := before₁.placed placed
    have before₂ := second.before there eq₂
    obtain yes | yes := Bool.or_eq_true_iff.mp yes
    · exact Nat.lt_of_lt_of_le (first.moves placed yes eq₁) before₂.onward
    · refine Nat.lt_of_le_of_lt before₁.onward (second.moves there ?_ eq₂)
      rw [before₁.same]
      exact yes

/-- What reading one element does. -/
theorem varData_cases (v : VarDataLayout) (c : Cursor) :
    (c.version < v.sinceVersion ∧ c.varData v = .ok (none, c)) ∨
      (v.sinceVersion ≤ c.version ∧
        ((∃ e, c.varData v = .error e) ∨
          ∃ data pos, c.varData v = .ok (some data, { c with pos := pos }) ∧ c.pos < pos ∧
            pos ≤ c.buf.length)) := by
  unfold Cursor.varData
  by_cases old : c.version < v.sinceVersion
  · exact .inl ⟨old, if_pos old⟩
  · refine .inr ⟨Nat.le_of_not_lt old, ?_⟩
    rw [if_neg old]
    simp only [bind, Except.bind]
    cases readLength c.buf c.pos v.length c.order with
    | error e => exact .inl ⟨e, rfl⟩
    | ok len =>
      dsimp only
      cases checked : checkedUsize (c.pos + v.length.size) with
      | error e => exact .inl ⟨e, rfl⟩
      | ok start =>
        obtain ⟨-, rfl⟩ := checkedUsize_eq_ok_iff.mp checked
        dsimp only
        cases sliced : slice c.buf (c.pos + v.length.size) len with
        | error e => exact .inl ⟨e, rfl⟩
        | ok data =>
          have := v.length.size_pos
          exact .inr ⟨data, c.pos + v.length.size + len, rfl, by omega,
            (slice_eq_ok_iff.mp sliced).2.1⟩

theorem varData_passes (v : VarDataLayout) :
    Passes (fun version => v.sinceVersion ≤ version) fun c => Prod.snd <$> c.varData v where
  before {c c'} placed eq := by
    obtain ⟨-, found⟩ | ⟨-, ⟨e, failed⟩ | ⟨data, pos, found, moves, inside⟩⟩ := varData_cases v c
    · rw [found] at eq
      cases eq
      exact ⟨rfl, le_rfl, placed.inside⟩
    · rw [failed] at eq
      cases eq
    · rw [found] at eq
      cases eq
      exact ⟨rfl, moves.le, inside⟩
  cut {c e} _ eq := by
    cases found : c.varData v with
    | error e' =>
      rw [found] at eq
      cases eq
      exact (varData_walk v c).cut found
    | ok r =>
      rw [found] at eq
      cases eq
  absent {c} _ no := by
    obtain ⟨-, found⟩ | ⟨new, -⟩ := varData_cases v c
    · rw [found]
      rfl
    · exact absurd new (of_decide_eq_false no)
  moves {c c'} _ yes eq := by
    obtain ⟨old, -⟩ | ⟨-, ⟨e, failed⟩ | ⟨data, pos, found, moves, -⟩⟩ := varData_cases v c
    · exact absurd (of_decide_eq_true yes) (Nat.not_le_of_lt old)
    · rw [failed] at eq
      cases eq
    · rw [found] at eq
      cases eq
      exact moves

theorem skipVarData_passes (vs : List VarDataLayout) :
    Passes (fun version => vs.any fun v => v.sinceVersion ≤ version) fun c => c.skipVarData vs := by
  induction vs with
  | nil => exact .nothing fun _ => rfl
  | cons v vs ih =>
    have both := (varData_passes v).bind ih
    have same (c : Cursor) : c.skipVarData (v :: vs) =
        (Prod.snd <$> c.varData v) >>= fun c => c.skipVarData vs := by
      rw [Cursor.skipVarData]
      cases c.varData v <;> rfl
    rw [funext same]
    exact both

section Group

variable {l : GroupLayout} (tails : Tails l.groups l.varData tail)
include tails

omit tails in
/-- A group that was just opened, and any that calls of `nextEntry` made of it. -/
theorem opened_rest (placed : c.Placed) (opened : c.group l = .ok g) :
    g.rest tail = (if c.version < l.sinceVersion then .ok c else walkDimension tail l.dimension c) ∧
      g.layout = l ∧ c.Before g.cur ∧ (g.remaining = 0 ∨ 2 ≤ g.cur.pos) := by
  obtain ⟨old, found⟩ | ⟨new, ⟨e, failed, -, -⟩ | ⟨blockLength, count, found, fits, walk⟩⟩ :=
    group_cases tail l placed
  · rw [found] at opened
    cases opened
    rw [if_pos old]
    exact ⟨rfl, rfl, ⟨rfl, le_rfl, placed.inside⟩, .inl rfl⟩
  · rw [failed] at opened
    cases opened
  · rw [found] at opened
    cases opened
    rw [if_neg (Nat.not_lt_of_le new), walk]
    have two := l.dimension.two_le_size
    exact ⟨rfl, rfl, ⟨rfl, Nat.le_add_right _ _, fits⟩, .inr (by dsimp only; omega)⟩

/-- **Skipping a group is the walk over its entries.** -/
theorem skip_eq (placed : c.Placed) :
    (c.group l >>= fun g => g.finish tail) =
      if c.version < l.sinceVersion then .ok c else walkDimension tail l.dimension c := by
  cases opened : c.group l with
  | error e =>
    obtain ⟨-, found⟩ | ⟨new, ⟨e', failed, -, walk⟩ | ⟨_, _, found, -, -⟩⟩ :=
      group_cases tail l placed
    · rw [found] at opened
      cases opened
    · rw [failed] at opened
      cases opened
      rw [if_neg (Nat.not_lt_of_le new), walk]
      rfl
    · rw [found] at opened
      cases opened
  | ok g =>
    obtain ⟨rest, layout, before, -⟩ := opened_rest placed opened
    rw [← layout] at tails
    rw [← rest]
    exact Group.finish_eq_rest tails (before.placed placed)

theorem walkDimension_congr {tail' : Cursor → Except SbeError Cursor}
    (agree : ∀ {c : Cursor}, c.Placed → tail c = tail' c) (placed : c.Placed) :
    walkDimension tail l.dimension c = walkDimension tail' l.dimension c := by
  unfold walkDimension
  cases first : readLength c.buf c.pos l.dimension.blockLength c.order with
  | error e => rfl
  | ok blockLength =>
    have fits := readLength_inside first placed.inside
    simp only [bind, Except.bind]
    cases second : readLength c.buf (c.pos + l.dimension.blockLength.size)
        l.dimension.numInGroup c.order with
    | error e => rfl
    | ok count =>
      have fits := readLength_inside second fits
      have there : Cursor.Placed { c with pos := c.pos + l.dimension.size } :=
        ⟨by unfold DimensionLayout.size; dsimp only; omega, placed.small⟩
      exact walkEntries_congr tails (fun _ => agree) there

/-- A group is passed. -/
theorem group_passes : Passes (fun version => l.sinceVersion ≤ version) fun c =>
    if c.version < l.sinceVersion then .ok c else walkDimension tail l.dimension c where
  before {c c'} placed eq := by
    obtain ⟨old, -⟩ | ⟨new, ⟨e, -, -, walk⟩ | ⟨blockLength, count, -, fits, walk⟩⟩ :=
      group_cases tail l placed
    · rw [if_pos old] at eq
      cases eq
      exact ⟨rfl, le_rfl, placed.inside⟩
    · rw [if_neg (Nat.not_lt_of_le new), walk] at eq
      cases eq
    · rw [if_neg (Nat.not_lt_of_le new), walk] at eq
      have there : Cursor.Placed { c with pos := c.pos + l.dimension.size } := ⟨fits, placed.small⟩
      have rest := tails.before_walk there eq
      exact ⟨rest.same, (Nat.le_add_right _ _).trans rest.onward, rest.inside⟩
  cut {c e} placed eq := by
    obtain ⟨old, -⟩ | ⟨new, ⟨e', -, is, walk⟩ | ⟨blockLength, count, -, fits, walk⟩⟩ :=
      group_cases tail l placed
    · rw [if_pos old] at eq
      cases eq
    · rw [if_neg (Nat.not_lt_of_le new), walk] at eq
      cases eq
      exact is
    · rw [if_neg (Nat.not_lt_of_le new), walk] at eq
      have there : Cursor.Placed { c with pos := c.pos + l.dimension.size } := ⟨fits, placed.small⟩
      exact tails.cut_walk there eq
  absent {c} placed no := if_pos (Nat.lt_of_not_le (of_decide_eq_false no))
  moves {c c'} placed yes eq := by
    have new := of_decide_eq_true yes
    rw [if_neg (Nat.not_lt_of_le new)] at eq
    obtain ⟨old, -⟩ | ⟨-, ⟨e, -, -, walk⟩ | ⟨blockLength, count, -, fits, walk⟩⟩ :=
      group_cases tail l placed
    · exact absurd new (Nat.not_le_of_lt old)
    · rw [walk] at eq
      cases eq
    · rw [walk] at eq
      have there : Cursor.Placed { c with pos := c.pos + l.dimension.size } := ⟨fits, placed.small⟩
      have onward := (tails.before_walk there eq).onward
      have two := l.dimension.two_le_size
      dsimp only at onward
      omega

end Group

mutual

theorem walkGroup_passes : ∀ l : GroupLayout,
    Passes (fun version => l.sinceVersion ≤ version) (walkGroup l)
  | .mk since dimension groups varData => by
    have tails := (walkGroups_passes groups).bind (skipVarData_passes varData)
    exact group_passes (l := .mk since dimension groups varData) tails

theorem walkGroups_passes : ∀ ls : List GroupLayout,
    Passes (fun version => ls.any fun l => l.sinceVersion ≤ version) (walkGroups ls)
  | [] => .nothing fun _ => rfl
  | l :: ls => (walkGroup_passes l).bind (walkGroups_passes ls)

end

mutual

/-- **A group of any layout is skipped to where the walk over it ends.** -/
theorem skipGroup_eq : ∀ (l : GroupLayout) {c : Cursor}, c.Placed →
    Cursor.skipGroup l c = walkGroup l c
  | .mk since dimension groups varData, c, placed => by
    have agree {c : Cursor} (placed : c.Placed) :
        Cursor.skipTail groups varData c =
          (walkGroups groups c >>= fun c => c.skipVarData varData) := by
      rw [Cursor.skipTail, skipGroups_eq groups placed]
    have tails := (walkGroups_passes groups).bind (skipVarData_passes varData)
    have skips := tails.congr agree
    refine (skip_eq (l := .mk since dimension groups varData) skips placed).trans ?_
    rw [walkGroup]
    by_cases old : c.version < since
    · rw [if_pos old,
        if_pos (show c.version < (GroupLayout.mk since dimension groups varData).sinceVersion from old)]
    · rw [if_neg old,
        if_neg (show ¬ c.version < (GroupLayout.mk since dimension groups varData).sinceVersion from old)]
      exact walkDimension_congr (l := .mk since dimension groups varData) skips agree placed

theorem skipGroups_eq : ∀ (ls : List GroupLayout) {c : Cursor}, c.Placed →
    Cursor.skipGroups ls c = walkGroups ls c
  | [], _, _ => rfl
  | l :: ls, c, placed => by
    rw [Cursor.skipGroups, walkGroups, skipGroup_eq l placed]
    cases first : walkGroup l c with
    | error e => rfl
    | ok c₁ => exact skipGroups_eq ls (((walkGroup_passes l).before placed first).placed placed)

end

theorem skipTail_passes (groups : List GroupLayout) (varData : List VarDataLayout) :
    Tails groups varData (Cursor.skipTail groups varData) :=
  ((walkGroups_passes groups).bind (skipVarData_passes varData)).congr fun placed => by
    rw [Cursor.skipTail, skipGroups_eq groups placed]

/-! ### Any mix of calls -/

/-- The way a group walks over an entry's tail. -/
abbrev GroupLayout.skipTail (l : GroupLayout) : Cursor → Except SbeError Cursor :=
  Cursor.skipTail l.groups l.varData

/-- A group of layout `l` that was opened at `c`, after some calls of `nextEntry`. -/
structure Group.Along (l : GroupLayout) (c : Cursor) (g : Group) : Prop where
  /-- Finishing it ends where the walk from `c` does, or fails as that does. -/
  finish : g.finish l.skipTail = walkGroup l c
  /-- No sum has left the buffer. -/
  inside : c.Before g.cur
  /-- An entry's tail begins where the group goes on, so that a walk of a copy of its cursor is the
  walk that the group makes. -/
  tail : ∀ entry g', g.nextEntry l.skipTail = .ok (some entry, g') →
    g' = g.afterNext l.skipTail ∧ entry.tail = g'.cur
  /-- Each turn of the loop in `finish` but the first moves on, and there are no more than bytes. -/
  loop : ∀ g', g.skipPendingTail l.skipTail = .ok g' → g'.hasTail → ∀ fuel,
    (g'.loop l.skipTail fuel).IsChain (· < ·) ∧ (g'.loop l.skipTail fuel).length ≤ c.buf.length

section Along

variable {l : GroupLayout}

/-- What a call of `nextEntry` keeps of a group. -/
structure Group.Kept (l : GroupLayout) (c : Cursor) (g : Group) : Prop where
  layout : g.layout = l
  inside : c.Before g.cur
  begun : g.remaining = 0 ∨ 2 ≤ g.cur.pos
  rest : g.rest l.skipTail = walkGroup l c

theorem Group.Kept.tails (kept : g.Kept l c) :
    Tails g.layout.groups g.layout.varData l.skipTail := by
  rw [kept.layout]
  exact skipTail_passes l.groups l.varData

theorem Group.Kept.further {m : ℕ} {b : Bool} {c₁ : Cursor} (kept : g.Kept l c)
    (before : g.cur.Before c₁) (fewer : m ≤ g.remaining)
    (rest : Group.rest l.skipTail { g with cur := c₁, remaining := m, tailPending := b } =
      g.rest l.skipTail) :
    Group.Kept l c { g with cur := c₁, remaining := m, tailPending := b } where
  layout := kept.layout
  inside := by
    refine ⟨?_, kept.inside.onward.trans before.onward, ?_⟩
    · dsimp only
      rw [before.same, kept.inside.same]
    · have := before.inside
      rwa [kept.inside.same] at this
  begun := kept.begun.imp (fun none => by dsimp only; omega) fun two => two.trans before.onward
  rest := rest.trans kept.rest

theorem Group.Kept.afterNext (kept : g.Kept l c) (placed : c.Placed) :
    (g.afterNext l.skipTail).Kept l c := by
  obtain ⟨e, c₁, b, -, after, before, rest, -⟩ | ⟨c₁, -, after, none, rest, before⟩ |
    ⟨c₁, bytes, n, -, after, left, rest, before, -⟩ :=
      Group.nextEntry_cases kept.tails (kept.inside.placed placed)
  · rw [after]
    exact kept.further before le_rfl rest
  · rw [after]
    refine kept.further before le_rfl ?_
    rw [rest, Group.rest]
    simp only [none]
    rfl
  · rw [after] at rest ⊢
    exact kept.further before (by omega) rest

theorem Group.Kept.along (kept : g.Kept l c) (placed : c.Placed) : g.Along l c := by
  have there := kept.inside.placed placed
  refine ⟨(Group.finish_eq_rest kept.tails there).trans kept.rest, kept.inside, ?_, ?_⟩
  · intro entry g' found
    obtain ⟨e, c₁, b, failed, -, -, -, -⟩ | ⟨c₁, ended, -, -, -, -⟩ |
      ⟨c₁, bytes, n, next, after, -, -, -, -⟩ := Group.nextEntry_cases kept.tails there
    · rw [failed] at found
      cases found
    · rw [ended] at found
      cases found
    · rw [next] at found
      cases found
      refine ⟨rfl, ?_⟩
      rw [after]
  · intro g' skipped has fuel
    obtain ⟨e, failed, -⟩ | ⟨c₁, skip, was, rest⟩ := g.skipPendingTail_cases l.skipTail
    · rw [failed] at skipped
      cases skipped
    · have before := Group.skipPendingTail_before kept.tails there was
      have next := kept.further (b := false) before le_rfl (rest.symm ▸ rfl)
      rw [skip] at skipped
      cases skipped
      obtain ⟨chain, few⟩ := Group.loop_chain next.tails (next.inside.placed placed) fuel has
      refine ⟨chain, ?_⟩
      have same : c₁.buf = c.buf := by rw [before.same, kept.inside.same]
      obtain none | two := next.begun
      · rw [Group.loop_none next.tails (next.inside.placed placed) none]
        exact Nat.zero_le _
      · dsimp only at few two
        rw [same] at few
        omega

end Along

/-- **However a group is walked, it ends at one place**: skipped, walked entry by entry, or finished
after any calls of `nextEntry`; or the bytes run out on all of these ways. A group that is not on the
wire moves nothing. -/
theorem group_ends (l : GroupLayout) {c : Cursor} (placed : c.Placed) :
    Cursor.skipGroup l c = walkGroup l c ∧
      (∀ e, walkGroup l c = .error e → e = .truncated) ∧
      (∀ c', walkGroup l c = .ok c' → c.Before c') ∧
      (c.version < l.sinceVersion → walkGroup l c = .ok c) ∧
      ∀ g, c.group l = .ok g → ∀ calls, ((Group.afterNext l.skipTail)^[calls] g).Along l c := by
  have passes := walkGroup_passes l
  refine ⟨skipGroup_eq l placed, fun e => passes.cut placed, fun c' => passes.before placed,
    fun old => passes.absent placed (decide_eq_false (Nat.not_le_of_lt old)), ?_⟩
  intro g opened calls
  have tails := skipTail_passes l.groups l.varData
  have kept : g.Kept l c := by
    obtain ⟨rest, layout, before, begun⟩ := opened_rest placed opened
    refine ⟨layout, before, begun, rest.trans ?_⟩
    rw [← skipGroup_eq l placed, ← skip_eq tails placed]
    cases l
    rfl
  have all : ((Group.afterNext l.skipTail)^[calls] g).Kept l c := by
    induction calls with
    | zero => exact kept
    | succ calls ih =>
      rw [Function.iterate_succ_apply']
      exact ih.afterNext placed
  exact all.along placed

/-- A group of entries that have no block, each with one element of a byte's length. -/
def blockless : GroupLayout := .mk 0 ⟨.u8, .u8⟩ [] [⟨.u8, 0⟩]

/-- Two such entries, each with an empty element. -/
def twoBlockless : Cursor := ⟨[0, 2, 0, 0], 0, .little, 0⟩

theorem group_ends_blockless :
    twoBlockless.Placed ∧ Cursor.skipGroup blockless twoBlockless =
      walkGroup blockless twoBlockless ∧
      Cursor.skipGroup blockless twoBlockless = .ok { twoBlockless with pos := 4 } := by
  have placed : twoBlockless.Placed := ⟨by decide, by decide⟩
  exact ⟨placed, (group_ends blockless placed).1, by decide +kernel⟩

/-- The first turn of the loop in `finish` finds an entry without a block, and moves nothing. -/
theorem first_turn_stays :
    (do
      let g ← twoBlockless.group blockless
      let (entry, g') ← g.nextEntry blockless.skipTail
      return (g.hasTail, entry.isSome, g.cur.pos, g'.cur.pos)) = .ok (true, true, 2, 2) := by
  decide +kernel

end Fixbolt.Sbe
