import Fixbolt.Engine.Observe

/-!
# What a reader of snapshots can rely on

A turn of the engine lowers the flag only after it built the snapshot, and counts it after it wrote
the cell. So an ask that comes in between is taken for answered by a snapshot that is older than it:
`stale_snapshot` is such a run. Where none comes in between, every ask is answered by the engine's
state from after it was made.

* `Observe.fits`: when a step is none of those that go wrong;
* `Observe.Kept.step`: what one step keeps;
* `requests_answered`: every run.
-/

namespace Fixbolt

namespace Observe

variable {σ : Type*} {s s' : Observe σ} {past : List σ} {t : ℕ} {a : Act σ}

/-- Does the cell hold a snapshot that was built at this moment or later? -/
def Has (s : Observe σ) (t : ℕ) : Prop := ∃ snap ∈ s.cell, t ≤ snap.moment

/-- How many snapshots are in the cell and not counted yet. -/
def Turn.uncounted : Turn σ → ℕ
  | .wrote _ | .cleared _ => 1
  | .away | .loaded _ | .built _ _ | .locked _ _ | .counted _ => 0

/-- What readers are promised. -/
structure Answered (s : Observe σ) : Prop where
  /-- `published` counts the writes of the cell, as far as a `u64` can. -/
  counts : (s.published + s.turn.uncounted) % 2 ^ 64 = s.writes % 2 ^ 64
  /-- Once a turn that was not refused the cell began after an ask and is over, a snapshot from after
  the ask is published. -/
  served : ∀ t ∈ s.asks, t < s.free → s.Has t
  /-- What a reader that waited gets was the engine's state at a moment not before it asked. -/
  fresh : ∀ r t snap, s.readers r = .returned (some t) (some snap) →
    t ≤ snap.moment ∧ s.past[snap.moment]? = some snap.of

/-- Does the step leave no ask to a snapshot that is older? A reader that will wait asks while the
count is the one it noted and no snapshot is written and not counted; any other ask does not come
before the flag is lowered for a snapshot that is written; and a snapshot is written only if no ask
came since it was built. -/
def fits (s : Observe σ) : Act σ → Bool
  | .ask r =>
    match s.readers r with
    | .noted p => s.published = p ∧ s.turn.uncounted = 0
    | _ => true
  | .request _ =>
    match s.turn with
    | .wrote _ => false
    | _ => true
  | .publish =>
    match s.turn with
    | .locked _ snap => s.asks.all fun t => t ≤ snap.moment
    | _ => true
  | .work _ | .load | .tryLock _ | .note _ | .check _ | .giveUp _ | .latest _ => true

/-! ### The invariant -/

/-- What is so of a turn, with the states up to now. -/
def TurnKept (s : Observe σ) (past : List σ) : Turn σ → Prop
  | .away => True
  | .loaded began => began < past.length
  | .built began snap | .locked began snap =>
    began ≤ snap.moment ∧ past[snap.moment]? = some snap.of ∧
      ∀ c ∈ s.cell, c.moment ≤ snap.moment
  | .wrote began => s.Has began ∧ ∀ t ∈ s.asks, s.Has t
  | .cleared began | .counted began => s.Has began

/-- What is so of a reader. -/
def ReaderKept (s : Observe σ) (past : List σ) : Reader σ → Prop
  | .idle | .noted _ => True
  | .waiting p asked =>
    asked ∈ s.asks ∧ (s.Has asked ∨ s.published = p ∧ s.turn.uncounted = 0)
  | .looking since | .entering since | .holding since => ∀ t ∈ since, s.Has t
  | .returned since snap =>
    ∀ c ∈ snap, past[c.moment]? = some c.of ∧ ∀ t ∈ since, t ≤ c.moment

/-- What holds at every moment, with the states up to then. -/
structure Kept (s : Observe σ) (past : List σ) : Prop where
  counts : (s.published + s.turn.uncounted) % 2 ^ 64 = s.writes % 2 ^ 64
  cell : ∀ c ∈ s.cell, past[c.moment]? = some c.of
  freed : s.free ≤ past.length
  asked : ∀ t ∈ s.asks, t < past.length
  /-- The flag stands for an ask until there is a snapshot from after it. -/
  standing : ∀ t ∈ s.asks, s.wanted = true ∨ s.Has t
  served : ∀ t ∈ s.asks, t < s.free → s.Has t
  turn : TurnKept s past s.turn
  readers : ∀ r, ReaderKept s past (s.readers r)

theorem Kept.new (state : σ) : Kept (new state) [] where
  counts := rfl
  cell := nofun
  freed := Nat.le_refl 0
  asked := nofun
  standing := nofun
  served := nofun
  turn := trivial
  readers _ := trivial

theorem getElem?_later {m : ℕ} {x y : σ} (h : past[m]? = some x) : (past ++ [y])[m]? = some x := by
  have inside := (List.getElem?_eq_some_iff.mp h).1
  rw [List.getElem?_append_left inside, h]

/-- A moment goes by. -/
theorem Kept.tick (h : s.Kept past) (now : σ) : s.Kept (past ++ [now]) where
  counts := h.counts
  cell c mem := getElem?_later (h.cell c mem)
  freed := by
    rw [List.length_append]
    exact Nat.le_add_right_of_le h.freed
  asked t mem := by
    rw [List.length_append]
    exact Nat.lt_add_right _ (h.asked t mem)
  standing := h.standing
  served := h.served
  turn := by
    have kept := h.turn
    cases turn : s.turn with
    | away => trivial
    | loaded began =>
      rw [turn] at kept
      have : began < past.length := kept
      show began < (past ++ [now]).length
      rw [List.length_append]
      omega
    | built began snap | locked began snap =>
      rw [turn] at kept
      exact ⟨kept.1, getElem?_later kept.2.1, kept.2.2⟩
    | wrote began | cleared began | counted began =>
      rw [turn] at kept
      exact kept
  readers r := by
    have kept := h.readers r
    cases at_ : s.readers r with
    | idle | noted p => trivial
    | waiting p asked | looking since | entering since | holding since =>
      rw [at_] at kept
      exact kept
    | returned since snap =>
      rw [at_] at kept
      exact fun c mem => ⟨getElem?_later (kept c mem).1, (kept c mem).2⟩

/-! ### One step -/

/-- A reader goes on, and nothing else changes. -/
theorem Kept.reach {r : ℕ} {at_ : Reader σ} (h : s.Kept past) (ok : ReaderKept s past at_) :
    (s.reach r at_).Kept past where
  counts := h.counts
  cell := h.cell
  freed := h.freed
  asked := h.asked
  standing := h.standing
  served := h.served
  turn := h.turn
  readers q := by
    show ReaderKept s past (Function.update s.readers r at_ q)
    rw [Function.update_apply]
    split
    · exact ok
    · exact h.readers q

/-- The lock changes hands. -/
theorem Kept.lock {k : Option Keeper} (h : s.Kept past) : ({ s with lock := k }).Kept past :=
  ⟨h.counts, h.cell, h.freed, h.asked, h.standing, h.served, h.turn, h.readers⟩

/-- An ask, which does not come before the flag is lowered for a snapshot that is written. -/
theorem Kept.raise (h : s.Kept past) (inside : s.moment < past.length) (free : s.free ≤ s.moment)
    (fits : ∀ began, s.turn ≠ .wrote began) : s.raise.Kept past where
  counts := h.counts
  cell := h.cell
  freed := h.freed
  asked t mem := by
    rcases List.mem_cons.mp mem with rfl | old
    · exact inside
    · exact h.asked t old
  standing _ _ := .inl rfl
  served t mem lt := by
    rcases List.mem_cons.mp mem with rfl | old
    · exact absurd lt (Nat.not_lt.mpr free)
    · exact h.served t old lt
  turn := by
    have kept := h.turn
    show TurnKept s.raise past s.turn
    cases turn : s.turn with
    | wrote began => exact absurd turn (fits began)
    | away | loaded began | built began snap | locked began snap | cleared began | counted began =>
      rw [turn] at kept
      exact kept
  readers r := by
    have kept := h.readers r
    show ReaderKept s.raise past (s.readers r)
    cases at_ : s.readers r with
    | waiting p asked =>
      rw [at_] at kept
      exact ⟨List.mem_cons_of_mem _ kept.1, kept.2⟩
    | idle | noted p | looking since | entering since | holding since | returned since snap =>
      rw [at_] at kept
      exact kept

/-- Another turn, or the same one further on, with the cell as it was. -/
theorem Kept.goesOn {turn : Turn σ} (h : s.Kept past) (ok : TurnKept s past turn)
    (same : turn.uncounted = s.turn.uncounted) : ({ s with turn := turn }).Kept past where
  counts := by
    show (s.published + turn.uncounted) % 2 ^ 64 = _
    rw [same]
    exact h.counts
  cell := h.cell
  freed := h.freed
  asked := h.asked
  standing := h.standing
  served := h.served
  turn := by
    show TurnKept { s with turn := turn } past turn
    cases turn with
    | away | loaded began | built began snap | locked began snap | wrote began | cleared began
    | counted began => exact ok
  readers r := by
    have kept := h.readers r
    show ReaderKept { s with turn := turn } past (s.readers r)
    cases at_ : s.readers r with
    | waiting p asked =>
      rw [at_] at kept
      exact ⟨kept.1, kept.2.imp_right fun ⟨eq, counted⟩ => ⟨eq, same.trans counted⟩⟩
    | idle | noted p | looking since | entering since | holding since | returned since snap =>
      rw [at_] at kept
      exact kept

/-- A snapshot is written. Every ask came before it was built. -/
theorem Kept.write {began : ℕ} {snap : Snapshot σ} (h : s.Kept past)
    (turn : s.turn = .locked began snap) (fits : ∀ t ∈ s.asks, t ≤ snap.moment) :
    ({ s with cell := some snap, writes := s.writes + 1, turn := .wrote began }).Kept past := by
  have kept := h.turn
  rw [turn] at kept
  obtain ⟨after, now, later⟩ := kept
  let s' : Observe σ := { s with cell := some snap, writes := s.writes + 1, turn := .wrote began }
  have has {t : ℕ} (old : s.Has t) : s'.Has t := by
    obtain ⟨c, mem, le⟩ := old
    exact ⟨snap, rfl, Nat.le_trans le (later c mem)⟩
  have all (t : ℕ) (mem : t ∈ s.asks) : s'.Has t := ⟨snap, rfl, fits t mem⟩
  refine ⟨?_, ?_, h.freed, h.asked, fun t mem => .inr (all t mem), fun t mem _ => all t mem,
    ⟨⟨snap, rfl, after⟩, all⟩, fun r => ?_⟩
  · have counts := h.counts
    rw [turn] at counts
    show (s.published + 1) % 2 ^ 64 = (s.writes + 1) % 2 ^ 64
    have : (s.published + 0) % 2 ^ 64 = s.writes % 2 ^ 64 := counts
    omega
  · rintro c ⟨⟩
    exact now
  · have kept := h.readers r
    show ReaderKept s' past (s.readers r)
    cases at_ : s.readers r with
    | idle | noted p => trivial
    | waiting p asked =>
      rw [at_] at kept
      exact ⟨kept.1, .inl (all asked kept.1)⟩
    | looking since | entering since | holding since =>
      rw [at_] at kept
      exact fun t mem => has (kept t mem)
    | returned since snap =>
      rw [at_] at kept
      exact kept

/-- The flag is lowered for a snapshot from after every ask. -/
theorem Kept.lower {began : ℕ} (h : s.Kept past) (turn : s.turn = .wrote began) :
    ({ s with wanted := false, turn := .cleared began }).Kept past := by
  have kept := h.turn
  rw [turn] at kept
  have gone : ({ s with turn := .cleared began }).Kept past :=
    h.goesOn kept.1 (by rw [turn]; rfl)
  exact ⟨gone.counts, gone.cell, gone.freed, gone.asked, fun t mem => .inr (kept.2 t mem),
    gone.served, gone.turn, gone.readers⟩

/-- A snapshot is counted. A reader that waits for the count has its answer in the cell. -/
theorem Kept.count {began : ℕ} (h : s.Kept past) (turn : s.turn = .cleared began) :
    ({ s with published := (s.published + 1) % 2 ^ 64, turn := .counted began }).Kept past := by
  have kept := h.turn
  rw [turn] at kept
  refine ⟨?_, h.cell, h.freed, h.asked, h.standing, h.served, kept, fun r => ?_⟩
  · have counts := h.counts
    rw [turn] at counts
    have : (s.published + 1) % 2 ^ 64 = s.writes % 2 ^ 64 := counts
    show ((s.published + 1) % 2 ^ 64 + 0) % 2 ^ 64 = s.writes % 2 ^ 64
    omega
  · have kept := h.readers r
    show ReaderKept { s with published := (s.published + 1) % 2 ^ 64, turn := .counted began } past
      (s.readers r)
    cases at_ : s.readers r with
    | waiting p asked =>
      rw [at_, ReaderKept, turn] at kept
      exact ⟨kept.1, kept.2.imp_right fun ⟨_, counted⟩ => absurd counted Nat.one_ne_zero⟩
    | idle | noted p | looking since | entering since | holding since | returned since snap =>
      rw [at_] at kept
      exact kept

/-- A turn ends that was not refused the cell. -/
theorem Kept.end_ {turn : Turn σ} {began : ℕ} (h : s.Kept past) (le : began ≤ past.length)
    (ok : TurnKept s past turn) (same : turn.uncounted = s.turn.uncounted)
    (served : ∀ t ∈ s.asks, t < began → s.Has t) :
    ({ s with turn := turn, free := began }).Kept past :=
  have gone := h.goesOn ok same
  ⟨gone.counts, gone.cell, le, gone.asked, gone.standing, served, gone.turn, gone.readers⟩

/-- A turn that publishes goes on. -/
theorem Kept.publish (h : s.Kept past) (len : past.length = s.moment + 1)
    (now : past[s.moment]? = some s.state) (fits : s.fits .publish) (took : s.publish = some s') :
    s'.Kept past := by
  have kept := h.turn
  unfold Observe.publish at took
  split at took
  · rename_i began turn
    obtain rfl := Option.some.inj took
    rw [turn] at kept
    have before {m : ℕ} (lt : m < past.length) : m ≤ s.moment := by omega
    refine h.goesOn ⟨before kept, now, fun c mem => before ?_⟩ (by rw [turn]; rfl)
    exact (List.getElem?_eq_some_iff.mp (h.cell c mem)).1
  · rename_i began snap turn
    obtain rfl := Option.some.inj took
    refine h.write turn fun t mem => ?_
    unfold Observe.fits at fits
    rw [turn] at fits
    exact of_decide_eq_true (List.all_eq_true.mp fits t mem)
  · rename_i began turn
    obtain rfl := Option.some.inj took
    exact h.lower turn
  · rename_i began turn
    obtain rfl := Option.some.inj took
    exact h.count turn
  · rename_i began turn
    obtain rfl := Option.some.inj took
    rw [turn] at kept
    obtain ⟨c, mem, le⟩ := kept
    have inside := (List.getElem?_eq_some_iff.mp (h.cell c mem)).1
    have away : ({ s with turn := .away, free := began }).Kept past :=
      h.end_ (by omega) trivial (by rw [turn]; rfl) fun t _ before => ⟨c, mem, by omega⟩
    exact away.lock
  · cases took
  · cases took

/-- A reader goes on with reading the latest. -/
theorem Kept.latest {r : ℕ} (h : s.Kept past) (took : s.latest r = some s') : s'.Kept past := by
  have kept := h.readers r
  unfold Observe.latest at took
  split at took
  · rename_i since at_
    obtain rfl := Option.some.inj took
    rw [at_] at kept
    refine h.reach ?_
    split
    · exact nofun
    · exact kept
  · rename_i since at_
    obtain ⟨-, eq⟩ := Option.ite_none_right_eq_some.mp took
    obtain rfl := Option.some.inj eq
    rw [at_] at kept
    have holds : (s.reach r (.holding since)).Kept past := h.reach kept
    exact holds.lock
  · rename_i since at_
    obtain rfl := Option.some.inj took
    rw [at_] at kept
    have ok : ReaderKept s past (.returned since s.cell) := by
      refine fun c mem => ⟨h.cell c mem, fun t waited => ?_⟩
      obtain ⟨d, there, le⟩ := kept t waited
      obtain rfl := Option.some.inj (mem.symm.trans there)
      exact le
    exact (h.reach ok).lock
  all_goals cases took

/-- What is so before a step that fits is so after it. -/
theorem Kept.act (h : s.Kept past) (len : past.length = s.moment + 1)
    (now : past[s.moment]? = some s.state) (free : s.free ≤ s.moment) (fits : s.fits a)
    (took : s.act a = some s') : s'.Kept past := by
  cases a with
  | work state =>
    obtain rfl := Option.some.inj took
    exact ⟨h.counts, h.cell, h.freed, h.asked, h.standing, h.served, h.turn, h.readers⟩
  | load =>
    obtain ⟨away, eq⟩ := Option.ite_none_right_eq_some.mp took
    have away : s.turn = .away := by
      cases turn : s.turn with
      | away => rfl
      | _ => simp [turn] at away
    split at eq
    · obtain rfl := Option.some.inj eq
      have inside : TurnKept s past (.loaded s.moment) := by
        show s.moment < past.length
        omega
      exact h.goesOn inside (by rw [away]; rfl)
    · -- The flag is lowered, so every ask has its answer.
      rename_i lowered
      obtain rfl := Option.some.inj eq
      exact h.end_ (by omega) h.turn rfl fun t mem _ => (h.standing t mem).resolve_left lowered
  | tryLock granted =>
    have kept := h.turn
    rw [Observe.act] at took
    split at took
    · rename_i began snap turn
      rw [turn] at kept
      split at took
      · obtain rfl := Option.some.inj took
        have locked : ({ s with turn := .locked began snap }).Kept past :=
          h.goesOn kept (by rw [turn]; rfl)
        exact locked.lock
      · obtain rfl := Option.some.inj took
        have away : TurnKept s past .away := trivial
        exact h.goesOn away (by rw [turn]; rfl)
    · cases took
  | publish => exact h.publish len now fits took
  | note r =>
    rw [Observe.act] at took
    split at took <;> cases took <;> exact h.reach trivial
  | ask r =>
    rw [Observe.act] at took
    rw [Observe.fits] at fits
    split at took
    · rename_i p at_
      obtain rfl := Option.some.inj took
      rw [at_] at fits
      obtain ⟨same, counted⟩ := of_decide_eq_true fits
      refine (h.raise (by omega) free fun began turn => ?_).reach
        ⟨List.mem_cons_self, .inr ⟨same, counted⟩⟩
      rw [turn] at counted
      exact absurd counted Nat.one_ne_zero
    · cases took
  | request r =>
    have raised : s.raise.Kept past := by
      refine h.raise (by omega) free fun began turn => ?_
      rw [Observe.fits, turn] at fits
      exact absurd fits Bool.false_ne_true
    rw [Observe.act] at took
    split at took <;> cases took <;> exact raised.reach nofun
  | check r =>
    have kept := h.readers r
    rw [Observe.act] at took
    split at took
    · rename_i p asked at_
      obtain rfl := Option.some.inj took
      rw [at_] at kept
      split
      · exact h
      · rename_i moved
        refine h.reach ?_
        rintro t ⟨⟩
        exact kept.2.resolve_right fun ⟨same, _⟩ => moved same
    · cases took
  | giveUp r =>
    rw [Observe.act] at took
    split at took <;> cases took
    exact h.reach trivial
  | latest r => exact h.latest took

/-- **Keeping, one step.** -/
theorem Kept.step (h : s.Kept s.past) (fits : s.fits a) (took : s.step a = some s') :
    s'.Kept s'.past := by
  obtain ⟨mid, acted, rfl⟩ := Option.map_eq_some_iff.mp took
  have kept := (h.tick s.state).act (by simp [moment]) (by simp [moment]) h.freed fits acted
  exact ⟨kept.counts, kept.cell, kept.freed, kept.asked, kept.standing, kept.served, kept.turn,
    kept.readers⟩

theorem Kept.answered (h : s.Kept s.past) : s.Answered where
  counts := h.counts
  served := h.served
  fresh r t snap at_ := by
    have kept := h.readers r
    rw [at_] at kept
    exact ⟨(kept snap rfl).2 t rfl, (kept snap rfl).1⟩

/-! ### Every run -/

/-- **An ask is answered with a state from after it was made**, in every run in which none comes where
its snapshot is older: the ask of every reader is followed by a publish no later than in the next
turn that is not refused the cell, `published` counts the writes, and what a reader that waited is
given was the engine's state at a moment not before it asked. -/
theorem requests_answered {state : σ} {as : List (Act σ)}
    (met : Along step (fun s a => s.fits a) (new state) as)
    (ran : runsOf step (new state) as = some s) : s.Answered :=
  (Along.invariant (I := fun s : Observe σ => s.Kept s.past) (fun _ _ _ h fits took => h.step fits took) met ran
    (Kept.new state)).answered

/-- What one reader does that waits, and the engine beside it. -/
def asking (r state : ℕ) : List (Act ℕ) :=
  [.note r, .ask r, .work state, .load, .publish, .tryLock true] ++ List.replicate 4 .publish ++
    [.check r, .latest r, .latest r, .latest r]

theorem requests_answered_one : ∃ s, runsOf step (new 3) (asking 0 4) = some s ∧
    s.readers 0 = .returned (some 1) (some ⟨4, 4⟩) ∧ s.Answered := by
  have ran : (runsOf step (new 3) (asking 0 4)).any fun s =>
      s.readers 0 = .returned (some 1) (some ⟨4, 4⟩) := by
    decide +kernel
  obtain ⟨s, run, read⟩ := (Option.any_eq_true _ _).mp ran
  exact ⟨s, run, of_decide_eq_true read, requests_answered (by decide +kernel) run⟩

/-- A second reader asks when the snapshot for the first is built already. -/
def askingLate : List (Act ℕ) :=
  [.note 0, .ask 0, .load, .publish, .work 4, .note 1, .ask 1, .tryLock true] ++
    List.replicate 4 .publish ++ [.check 1, .latest 1, .latest 1, .latest 1]

/-- **The second reader is given the state from before it asked.** -/
theorem stale_snapshot : ¬ ∀ (as : List (Act ℕ)) s, runsOf step (new 3) as = some s → s.Answered := by
  intro promised
  have ran : (runsOf step (new 3) askingLate).any fun s =>
      s.readers 1 = .returned (some 6) (some ⟨3, 3⟩) := by
    decide +kernel
  obtain ⟨s, run, read⟩ := (Option.any_eq_true _ _).mp ran
  have after := ((promised _ s run).fresh 1 6 ⟨3, 3⟩ (of_decide_eq_true read)).1
  exact absurd after (by decide)

end Observe

end Fixbolt
