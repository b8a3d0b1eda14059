import Fixbolt.Properties.Identity

/-!
# What a shutdown reports

* `Timed`: the deadline comes from one call's grace and stays;
* `Ending`: every connection ends once;
* `Accounts`: what the record of a shutdown counts;
* `shutdown_reported`: the deadline, the ends and, over every run in which only a connection that
  was sent the Logout leaves by its peer's and none that came later is left in the end, the truth of
  the report;
* `clean_unanswered`: a clean report about a session whose peer never answered.
-/

namespace Fixbolt

namespace Engine

open scoped List

variable {P : Params} {A J : Type} {RX TX : ℕ} {e e' : Engine A J RX TX} {i : ℕ}
  {m m' n : Member A J RX TX}

/-! ### The deadline -/

/-- What is asked for, and what comes of it. -/
structure Timed (e : Engine A J RX TX) : Prop where
  /-- A grace that a thread is about to store was asked for. -/
  grace : ∀ ms, .grace ms ∈ e.request.callers → ms ∈ e.asked
  /-- So was the one that is there when the flag goes up. -/
  stored : e.request.stop ∨ .flag ∈ e.request.callers → e.request.graceMs ∈ e.asked
  deadline : ∀ st, e.stopping = some st →
    ∃ seen ms, e.seen = some seen ∧ ms ∈ e.asked ∧ st.deadlineMs = min (seen + ms) u64Max

/-- The record keeps its deadline, and its instant. -/
def SameDeadline (e e' : Engine A J RX TX) : Prop :=
  ∀ st, e.stopping = some st →
    e'.seen = e.seen ∧ ∃ st', e'.stopping = some st' ∧ st'.deadlineMs = st.deadlineMs

theorem SameDeadline.of_eq (stopping : e'.stopping = e.stopping) (seen : e'.seen = e.seen) :
    SameDeadline e e' :=
  fun st now => ⟨seen, st, stopping.trans now, rfl⟩

theorem SameDeadline.of_map {f : Stopping → Stopping} (stopping : e'.stopping = e.stopping.map f)
    (seen : e'.seen = e.seen) (keeps : ∀ st, (f st).deadlineMs = st.deadlineMs) :
    SameDeadline e e' :=
  fun st now => ⟨seen, f st, by rw [stopping, now, Option.map_some], keeps st⟩

section Steps

variable [Application A] [Journal J]

/-- **No step moves the deadline.** -/
theorem sameDeadline_move (move : Move P e e') : SameDeadline e e' := by
  cases move with
  | began nowMs subMsNanos between quiet =>
    intro st now
    rw [begin_]
    split
    · rename_i none _
      cases now.symm.trans none
    · exact ⟨rfl, st, now, rfl⟩
  | @goodbye i at_ quiet =>
    rw [Engine.goodbye]
    split
    · exact .of_eq rfl rfl
    · exact .of_map rfl rfl fun st => rfl
  | @turned i at_ quiet =>
    rw [turn]
    split <;> exact .of_eq rfl rfl
  | @outcome i m at_ there quiet =>
    rw [Engine.outcome]
    split
    · refine .of_map rfl rfl fun st => ?_
      by_cases peer : m.ses.lastDropReason = some .peerLogout
      · rw [if_pos peer]
      · rw [if_neg peer]
    · exact .of_eq rfl rfl
  | _ => exact .of_eq rfl rfl

omit [Application A] [Journal J] in
/-- The cell is as it was, and no shutdown begins. -/
theorem Timed.same (timed : e.Timed) (request : e'.request = e.request) (asked : e'.asked = e.asked)
    (same : SameDeadline e e') (back : e.stopping = none → e'.stopping = none) : e'.Timed where
  grace ms mem := by
    rw [request] at mem
    rw [asked]
    exact timed.grace ms mem
  stored up := by
    rw [request] at up ⊢
    rw [asked]
    exact timed.stored up
  deadline st now := by
    cases before : e.stopping with
    | none => exact nomatch now.symm.trans (back before)
    | some old =>
      obtain ⟨seen, st', now', deadline⟩ := same old before
      obtain rfl : st' = st := Option.some.inj (now'.symm.trans now)
      rw [seen, asked, deadline]
      exact timed.deadline old before

theorem Timed.move (timed : e.Timed) (move : Move P e e') : e'.Timed := by
  have same := sameDeadline_move move
  have map_none (f : Stopping → Stopping) (none : e.stopping = none) :
      e.stopping.map f = .none := by
    rw [none, Option.map_none]
  cases move with
  | began nowMs subMsNanos between quiet =>
    clear same
    rw [begin_]
    split
    · rename_i ms none asks
      refine ⟨timed.grace, timed.stored, fun st now => ?_⟩
      obtain rfl := Option.some.inj now
      obtain ⟨up, eq⟩ := Option.ite_none_right_eq_some.mp asks
      obtain rfl := Option.some.inj eq
      exact ⟨nowMs, e.request.graceMs, rfl, timed.stored (.inl up), rfl⟩
    · exact ⟨timed.grace, timed.stored, timed.deadline⟩
  | @goodbye i at_ quiet =>
    refine timed.same ?_ ?_ same ?_
    all_goals
      rw [Engine.goodbye]
      split
    · rfl
    · rfl
    · rfl
    · rfl
    · exact id
    · exact map_none _
  | @turned i at_ quiet =>
    refine timed.same ?_ ?_ same ?_
    all_goals
      rw [turn]
      split
    · rfl
    · rfl
    · rfl
    · rfl
    · exact id
    · exact id
  | @outcome i m at_ there quiet =>
    refine timed.same ?_ ?_ same ?_
    all_goals
      rw [Engine.outcome]
      split
    · rfl
    · rfl
    · rfl
    · rfl
    · exact map_none _
    · exact id
  | asked ms callers more =>
    refine ⟨fun grace mem => ?_, fun up => ?_, fun st now => ?_⟩
    · obtain rfl | rfl := more
      · exact List.mem_cons_of_mem _ (timed.grace grace mem)
      · obtain old | new := List.mem_append.mp mem
        · exact List.mem_cons_of_mem _ (timed.grace grace old)
        · obtain rfl : grace = ms := Caller.grace.inj (List.mem_singleton.mp new)
          exact List.mem_cons_self
    · refine List.mem_cons_of_mem _ (timed.stored (up.imp id fun mem => ?_))
      obtain rfl | rfl := more
      · exact mem
      · obtain old | new := List.mem_append.mp mem
        · exact old
        · cases List.mem_singleton.mp new
    · obtain ⟨seen, grace, at_, asked, eq⟩ := timed.deadline st now
      exact ⟨seen, grace, at_, List.mem_cons_of_mem _ asked, eq⟩
  | @granted k ms there =>
    have mine := timed.grace ms (List.mem_of_getElem? there)
    refine ⟨fun grace mem => ?_, fun _ => mine, timed.deadline⟩
    obtain old | new := List.mem_or_eq_of_mem_set mem
    · exact timed.grace grace old
    · cases new
  | @raised k there =>
    refine ⟨fun grace mem => ?_, fun _ => ?_, timed.deadline⟩
    · exact timed.grace grace (List.mem_of_mem_eraseIdx mem)
    · exact timed.stored (.inr (List.mem_of_getElem? there))
  | _ => exact timed.same rfl rfl same id

/-! ### The ends -/

/-- Every connection there was is there, or has ended, and none twice. -/
def Ending (e : Engine A J RX TX) : Prop :=
  e.ended.map (·.1) ++ ids e.conns ~ List.range e.nextId

omit [Application A] [Journal J] in
theorem Ending.put (ending : e.Ending) (there : e.conns[i]? = some m) (id : m'.id = m.id) :
    (e.put i m').Ending := by
  have same := ids_put there id 0
  rw [List.drop_zero, List.drop_zero] at same
  rw [Ending, Engine.put, same]
  exact ending

theorem Ending.move (ending : e.Ending) (move : Move P e e') : e'.Ending := by
  cases move with
  | added =>
    rw [Ending, ids, List.map_append, ← List.append_assoc, List.range_succ]
    exact ending.append_right _
  | called there => exact ending.put there rfl
  | went there => exact ending.put there rfl
  | shared app there => exact ending.put there rfl
  | began =>
    rw [begin_]
    split <;> exact ending
  | @goodbye i at_ quiet =>
    rw [Engine.goodbye]
    split
    · exact ending
    · rename_i m there
      exact ending.put (m := m) there rfl
  | @turned i at_ quiet =>
    rw [turn]
    split
    · exact ending
    · rename_i m there
      exact ending.put (m := m) there rfl
  | @outcome i m at_ there quiet =>
    rw [Engine.outcome]
    split
    · obtain ⟨within, here⟩ := List.getElem?_eq_some_iff.mp there
      have taken : m.id :: ids (swapRemove e.conns i) ~ ids e.conns := by
        rw [← here]
        exact (swapRemove_perm within).map _
      rw [Ending, List.map_append, List.append_assoc]
      exact (taken.append_left _).trans ending
    · exact ending
  | finished =>
    rw [Ending, Engine.finish, List.map_append, List.map_map, ids, List.map_nil, List.append_nil]
    exact ending
  | asked => exact ending
  | granted => exact ending
  | raised => exact ending

/-! ### The report -/

/-- Did the session end by its peer's Logout? -/
def answered (m : Member A J RX TX) : Bool := m.ses.lastDropReason == some .peerLogout

/-- The connections a shutdown has met: those that are there, those that left since, and those that
were closed in the end. -/
def met (e : Engine A J RX TX) : List (Member A J RX TX) := e.conns ++ e.left ++ e.cut

/-- What the record counts. -/
structure Accounts (e : Engine A J RX TX) : Prop where
  told : ∀ m ∈ e.met, m.told → m.counted
  /-- A session that was there and got no Logout is dead. -/
  dead : ∀ m ∈ e.conns ++ e.cut, m.counted → m.told ∨ ¬ m.ses.Alive
  /-- Before a shutdown nobody was counted. -/
  before : e.stopping = none → e.left = [] ∧ e.cut = [] ∧ ∀ m ∈ e.conns, m.counted = false
  /-- The goodbyes go from the first to the last. -/
  waiting : ∀ i, e.phase = .goodbyes i →
    e.stopping ≠ none ∧ ∀ m ∈ e.conns.drop i, m.counted = false
  sessions : ∀ st, e.stopping = some st → st.sessions = e.met.countP (·.counted)
  said : ∀ st, e.stopping = some st → st.saidGoodbye = e.met.countP (·.told)
  acked : ∀ st, e.stopping = some st → st.acked = e.left.countP answered
  running : e.report = none → e.cut = []
  reported : ∀ r, e.report = some r → e.conns = [] ∧ e.phase = .stopped ∧
    ∃ st, e.stopping = some st ∧ r = ⟨st.sessions, st.saidGoodbye, st.acked, e.cut.length⟩

namespace Accounts

omit [Application A] [Journal J] in
theorem live (accounts : e.Accounts) (phase : e.phase ≠ .stopped) : e.report = none := by
  cases now : e.report with
  | none => rfl
  | some r => exact absurd (accounts.reported r now).2.1 phase

omit [Application A] [Journal J] in
/-- The connections and the record are as they were. -/
theorem same (accounts : e.Accounts) (conns : e'.conns = e.conns) (left : e'.left = e.left)
    (cut : e'.cut = e.cut) (stopping : e'.stopping = e.stopping) (report : e'.report = e.report)
    (phase : e'.phase = e.phase ∨ e.phase ≠ .stopped ∧ ∀ i, e'.phase ≠ .goodbyes i) :
    e'.Accounts := by
  have met : e'.met = e.met := by rw [Engine.met, conns, left, cut, Engine.met]
  constructor
  · rw [met]
    exact accounts.told
  · rw [conns, cut]
    exact accounts.dead
  · rw [stopping, left, cut, conns]
    exact accounts.before
  · rw [stopping, conns]
    obtain same | ⟨-, other⟩ := phase
    · rw [same]
      exact accounts.waiting
    · exact fun i now => absurd now (other i)
  · rw [stopping, met]
    exact accounts.sessions
  · rw [stopping, met]
    exact accounts.said
  · rw [stopping, left]
    exact accounts.acked
  · rw [report, cut]
    exact accounts.running
  · rw [report, conns, stopping, cut]
    obtain same | ⟨runs, -⟩ := phase
    · rw [same]
      exact accounts.reported
    · intro r now
      exact nomatch (accounts.live runs).symm.trans now

omit [Application A] [Journal J] in
theorem countP_put (there : e.conns[i]? = some m) (p : Member A J RX TX → Bool) :
    (e.conns.set i n).countP p + (if p m then 1 else 0) =
      e.conns.countP p + if p n then 1 else 0 := by
  obtain ⟨within, rfl⟩ := List.getElem?_eq_some_iff.mp there
  have new := (List.set_perm_cons_eraseIdx within n).countP_eq p
  have old := (List.getElem_cons_eraseIdx_perm within).countP_eq p
  rw [List.countP_cons] at new old
  omega

omit [Application A] [Journal J] in
theorem countP_met (e : Engine A J RX TX) (p : Member A J RX TX → Bool) :
    e.met.countP p = e.conns.countP p + e.left.countP p + e.cut.countP p := by
  rw [Engine.met, List.countP_append, List.countP_append]

omit [Application A] [Journal J] in
theorem mem_met_put (mem : n ∈ (e.put i m').met) : n = m' ∨ n ∈ e.met := by
  rw [Engine.met, List.append_assoc, List.mem_append] at mem
  rw [Engine.met, List.append_assoc, List.mem_append]
  obtain here | rest := mem
  · obtain old | new := List.mem_or_eq_of_mem_set here
    · exact .inr (.inl old)
    · exact .inl new
  · exact .inr (.inr rest)

omit [Application A] [Journal J] in
/-- One connection changes, and the record sees nothing of it. -/
theorem put (accounts : e.Accounts) (there : e.conns[i]? = some m)
    (counted : m'.counted = m.counted) (told : m'.told = m.told)
    (dead : ¬ m.ses.Alive → ¬ m'.ses.Alive) : (e.put i m').Accounts := by
  have mine : m ∈ e.conns := List.mem_of_getElem? there
  have met : m ∈ e.met := List.mem_append_left _ (List.mem_append_left _ mine)
  have count (p : Member A J RX TX → Bool) (same : p m' = p m) :
      (e.put i m').met.countP p = e.met.countP p := by
    have := countP_put (n := m') there p
    rw [same] at this
    rw [countP_met, countP_met]
    simp only [Engine.put]
    omega
  constructor
  · intro n mem
    obtain rfl | old := mem_met_put mem
    · rw [counted, told]
      exact accounts.told m met
    · exact accounts.told n old
  · intro n mem
    obtain here | cut := List.mem_append.mp mem
    · obtain old | rfl := List.mem_or_eq_of_mem_set here
      · exact accounts.dead n (List.mem_append_left _ old)
      · rw [counted, told]
        exact fun there => (accounts.dead m (List.mem_append_left _ mine) there).imp id dead
    · exact accounts.dead n (List.mem_append_right _ cut)
  · intro none
    obtain ⟨left, cut, fresh⟩ := accounts.before none
    refine ⟨left, cut, fun n mem => ?_⟩
    obtain old | rfl := List.mem_or_eq_of_mem_set mem
    · exact fresh n old
    · exact counted.trans (fresh m mine)
  · intro k at_
    obtain ⟨stopping, fresh⟩ := accounts.waiting k at_
    refine ⟨stopping, fun n mem => ?_⟩
    simp only [Engine.put, List.drop_set] at mem
    split at mem
    · exact fresh n mem
    · rename_i from_
      obtain old | rfl := List.mem_or_eq_of_mem_set mem
      · exact fresh n old
      · refine counted.trans (fresh m ?_)
        refine List.mem_of_getElem? (i := i - k) ?_
        rw [List.getElem?_drop, Nat.add_sub_cancel' (Nat.le_of_not_lt from_)]
        exact there
  · intro st now
    rw [count _ counted]
    exact accounts.sessions st now
  · intro st now
    rw [count _ told]
    exact accounts.said st now
  · exact accounts.acked
  · exact accounts.running
  · intro r now
    have none := (accounts.reported r now).1
    rw [none] at there
    cases there

/-- A Logout that did not go out leaves a dead session. -/
theorem unsaid_dead {w : World A J} {text : Bytes}
    (unsaid : (w.perform P (.beginLogoutWith text)).2 ≠ .up) :
    ¬ (w.perform P (.beginLogoutWith text)).1.ses.Alive := by
  have scene (k : Scene) (unsaid : (k.beginLogout P text).2 ≠ .up) :
      ¬ (k.beginLogout P text).1.ses.Alive := by
    rw [Scene.beginLogout] at unsaid ⊢
    split
    · split
      · exact Scene.endSession_dead _ _
      · rename_i off
        exact fun alive => alive.1 (not_not.mp off)
    · rename_i on
      rw [if_neg on] at unsaid
      split
      · exact Scene.endSession_dead _ _
      · rename_i sent
        rw [sent] at unsaid
        exact absurd rfl unsaid
  let called : Scene := { w.toScene with hist := .called w.ses (.beginLogoutWith text) :: w.hist }
  have told : (w.perform P (.beginLogoutWith text)).1.ses = (called.beginLogout P text).1.ses :=
    congrArg Scene.ses (World.tellJournal_scene _)
  rw [told]
  exact scene called unsaid

omit [Application A] [Journal J] in
/-- The connections are the same but for their order, and no shutdown is on. -/
theorem calm (accounts : e.Accounts) (off : e.stopping = none) (still : e'.stopping = none)
    (conns : ∀ m ∈ e'.conns, m ∈ e.conns) (left : e'.left = e.left) (cut : e'.cut = e.cut)
    (report : e'.report = e.report) (phase : ∀ i, e'.phase ≠ .goodbyes i) : e'.Accounts := by
  obtain ⟨noneLeft, noneCut, fresh⟩ := accounts.before off
  have never (st : Stopping) : e'.stopping ≠ some st := by rw [still]; exact nofun
  constructor
  · intro m mem
    rw [met, left, cut, noneLeft, noneCut, List.append_nil, List.append_nil] at mem
    exact accounts.told m (List.mem_append_left _ (List.mem_append_left _ (conns m mem)))
  · intro m mem
    rw [cut, noneCut, List.append_nil] at mem
    exact accounts.dead m (List.mem_append_left _ (conns m mem))
  · rw [left, cut]
    exact fun _ => ⟨noneLeft, noneCut, fun m mem => fresh m (conns m mem)⟩
  · exact fun i now => absurd now (phase i)
  · exact fun st now => absurd now (never st)
  · exact fun st now => absurd now (never st)
  · exact fun st now => absurd now (never st)
  · rw [report, cut]
    exact accounts.running
  · intro r now
    obtain ⟨-, -, st, on, -⟩ := accounts.reported r (report ▸ now)
    exact nomatch off.symm.trans on

theorem goodbye (accounts : e.Accounts) (at_ : e.phase = .goodbyes i)
    (there : e.conns[i]? = some m) : (e.goodbye P i).Accounts := by
  obtain ⟨stopping, fresh⟩ := accounts.waiting i at_
  obtain ⟨within, here⟩ := List.getElem?_eq_some_iff.mp there
  have waits : m ∈ e.conns.drop i := by
    rw [List.drop_eq_getElem_cons within, here]
    exact List.mem_cons_self
  have uncounted : m.counted = false := fresh m waits
  have untold : m.told = false := by
    refine Bool.eq_false_iff.mpr fun told => ?_
    have counted := accounts.told m
      (List.mem_append_left _ (List.mem_append_left _ (List.mem_of_getElem? there))) told
    rw [uncounted] at counted
    cases counted
  rw [Engine.goodbye, there]
  let said := (m.conn.world.perform P (.beginLogoutWith shuttingDown)).2 == .up
  let m' : Member A J RX TX :=
    { m with conn := m.conn.begin_ P .beginLogout, counted := true, told := said }
  have one : (e.put i m').met.countP (·.counted) = e.met.countP (·.counted) + 1 := by
    have put := countP_put (n := m') there (·.counted)
    rw [if_neg (by simp [uncounted]), if_pos rfl] at put
    rw [countP_met, countP_met]
    simp only [Engine.put]
    omega
  have more : (e.put i m').met.countP (·.told) =
      e.met.countP (·.told) + if said then 1 else 0 := by
    have put := countP_put (n := m') there (·.told)
    rw [if_neg (by simp [untold]), show m'.told = said from rfl] at put
    rw [countP_met, countP_met]
    simp only [Engine.put]
    omega
  constructor
  · intro n mem
    have put : n ∈ (e.put i m').met := mem
    obtain rfl | old := mem_met_put put
    · exact fun _ => rfl
    · exact accounts.told n old
  · intro n mem
    obtain here | cut := List.mem_append.mp mem
    · obtain old | rfl := List.mem_or_eq_of_mem_set here
      · exact accounts.dead n (List.mem_append_left _ old)
      · intro _
        by_cases up : said
        · exact .inl up
        · exact .inr (unsaid_dead fun link => up (beq_iff_eq.mpr link))
    · exact accounts.dead n (List.mem_append_right _ cut)
  · intro none
    exact absurd (Option.map_eq_none_iff.mp none) stopping
  · intro k at_
    obtain rfl : i + 1 = k := Phase.goodbyes.inj at_
    refine ⟨fun none => stopping (Option.map_eq_none_iff.mp none), fun n mem => fresh n ?_⟩
    simp only [Engine.put, List.drop_set_of_lt (Nat.lt_succ_self i)] at mem
    rw [List.drop_eq_getElem_cons within]
    exact List.mem_cons_of_mem _ mem
  · intro st now
    obtain ⟨old, on, rfl⟩ := Option.map_eq_some_iff.mp now
    exact (congrArg (· + 1) (accounts.sessions old on)).trans one.symm
  · intro st now
    obtain ⟨old, on, rfl⟩ := Option.map_eq_some_iff.mp now
    refine Eq.trans ?_ more.symm
    rw [← accounts.said old on]
    show (if said then old.saidGoodbye + 1 else old.saidGoodbye) = _
    split <;> rfl
  · intro st now
    obtain ⟨old, on, rfl⟩ := Option.map_eq_some_iff.mp now
    exact accounts.acked old on
  · exact accounts.running
  · intro r now
    cases at_.symm.trans (accounts.reported r now).2.1

omit [Application A] [Journal J] in
theorem outcome (accounts : e.Accounts) (at_ : e.phase = .turned i) (there : e.conns[i]? = some m) :
    (e.outcome i m).Accounts := by
  have live : e.report = none := accounts.live fun stopped => by cases at_.symm.trans stopped
  rw [Engine.outcome]
  split
  · obtain ⟨within, here⟩ := List.getElem?_eq_some_iff.mp there
    have taken : m :: swapRemove e.conns i ~ e.conns := here ▸ swapRemove_perm within
    have kept (n : Member A J RX TX) (mem : n ∈ swapRemove e.conns i) : n ∈ e.conns :=
      taken.subset (List.mem_cons_of_mem _ mem)
    cases on : e.stopping with
    | none => exact accounts.calm on rfl kept rfl rfl rfl fun j => by simp
    | some old =>
      have all : swapRemove e.conns i ++ (e.left ++ [m]) ++ e.cut ~ e.met := by
        refine (List.Perm.trans ?_ (taken.append_right e.left)).append_right e.cut
        rw [← List.append_assoc]
        exact List.perm_append_singleton _ _
      constructor
      · intro n mem
        exact accounts.told n (all.subset mem)
      · intro n mem
        refine accounts.dead n ?_
        exact (List.mem_append.mp mem).elim (fun here => List.mem_append_left _ (kept n here))
          (List.mem_append_right _)
      · simp
      · exact fun k => by simp
      · intro st now
        cases Option.some.inj now
        refine Eq.trans ?_ (all.countP_eq _).symm
        rw [← accounts.sessions old on]
        split <;> rfl
      · intro st now
        cases Option.some.inj now
        refine Eq.trans ?_ (all.countP_eq _).symm
        rw [← accounts.said old on]
        split <;> rfl
      · intro st now
        cases Option.some.inj now
        show _ = (e.left ++ [m]).countP answered
        rw [List.countP_append, ← accounts.acked old on, List.countP_singleton, answered]
        by_cases peer : m.ses.lastDropReason = some .peerLogout
        · simp only [peer, if_true, beq_self_eq_true]
        · simp only [if_neg peer, if_neg fun eq => peer (eq_of_beq eq), Nat.add_zero]
      · exact accounts.running
      · intro r now
        cases live.symm.trans now
  · exact accounts.same rfl rfl rfl rfl rfl
      (.inr ⟨fun stopped => (by cases at_.symm.trans stopped), fun k => by simp⟩)

theorem finish (accounts : e.Accounts) {st : Stopping} (on : e.stopping = some st)
    (between : e.phase = .idle) : (e.finish P st).Accounts := by
  have noneCut : e.cut = [] :=
    accounts.running (accounts.live fun stopped => nomatch between.symm.trans stopped)
  let close (m : Member A J RX TX) : Member A J RX TX :=
    { m with conn := m.conn.tell P (.noteDropReason .engineShutdown) }
  have closed : (e.finish P st).met = e.left ++ e.conns.map close := rfl
  have count (p : Member A J RX TX → Bool) (same : ∀ m, p (close m) = p m) :
      (e.finish P st).met.countP p = e.met.countP p := by
    rw [closed, countP_met, noneCut, List.countP_append, List.countP_map, List.countP_nil,
      Nat.add_zero, Nat.add_comm]
    exact congrArg (· + _) (congrArg (List.countP · e.conns) (funext same))
  constructor
  · intro n mem
    rw [closed, List.mem_append, List.mem_map] at mem
    obtain left | ⟨m, here, rfl⟩ := mem
    · exact accounts.told n (List.mem_append_left _ (List.mem_append_right _ left))
    · exact accounts.told m (List.mem_append_left _ (List.mem_append_left _ here))
  · intro n mem counted
    obtain ⟨m, here, rfl⟩ := List.mem_map.mp mem
    exact (accounts.dead m (List.mem_append_left _ here) counted).imp id
      fun dead => perform_dead (P := P) nofun rfl dead
  · intro none
    exact nomatch on.symm.trans none
  · exact fun k => nofun
  · intro st' now
    rw [count _ fun m => rfl]
    exact accounts.sessions st' now
  · intro st' now
    rw [count _ fun m => rfl]
    exact accounts.said st' now
  · exact accounts.acked
  · exact nofun
  · intro r now
    cases Option.some.inj now
    refine ⟨rfl, rfl, st, on, ?_⟩
    rw [Shutdown.mk.injEq]
    exact ⟨rfl, rfl, rfl, (List.length_map _).symm⟩

omit [Application A] [Journal J] in
/-- A connection that is added was not told. -/
theorem added (accounts : e.Accounts) (between : e.phase = .idle) {id : ℕ}
    {conn : Connection A J RX TX} :
    ({ e with conns := e.conns ++ [⟨id, conn, false, false⟩], nextId := id + 1 } :
      Engine A J RX TX).Accounts := by
  let new : Member A J RX TX := ⟨id, conn, false, false⟩
  have live : e.report = none := accounts.live fun stopped => nomatch between.symm.trans stopped
  have more : (e.conns ++ [new]) ++ e.left ++ e.cut ~ new :: e.met := by
    rw [List.append_assoc, List.append_assoc, List.singleton_append, met, List.append_assoc]
    exact List.perm_middle
  have count (p : Member A J RX TX → Bool) (none : p new = false) :
      ((e.conns ++ [new]) ++ e.left ++ e.cut).countP p = e.met.countP p := by
    rw [more.countP_eq, List.countP_cons, none]
    rfl
  constructor
  · intro n mem
    obtain rfl | old := List.mem_cons.mp (more.subset mem)
    · exact nofun
    · exact accounts.told n old
  · intro n mem counted
    obtain here | cut := List.mem_append.mp mem
    · obtain old | new := List.mem_append.mp here
      · exact accounts.dead n (List.mem_append_left _ old) counted
      · rw [List.mem_singleton.mp new] at counted
        cases counted
    · exact accounts.dead n (List.mem_append_right _ cut) counted
  · intro off
    obtain ⟨left, cut, fresh⟩ := accounts.before off
    refine ⟨left, cut, fun n mem => ?_⟩
    obtain old | new := List.mem_append.mp mem
    · exact fresh n old
    · rw [List.mem_singleton.mp new]
  · intro i at_
    exact nomatch between.symm.trans at_
  · intro st now
    exact (accounts.sessions st now).trans (count _ rfl).symm
  · intro st now
    exact (accounts.said st now).trans (count _ rfl).symm
  · exact accounts.acked
  · exact accounts.running
  · intro r now
    exact nomatch live.symm.trans now

omit [Application A] [Journal J] in
theorem began (accounts : e.Accounts) (between : e.phase = .idle) {nowMs subMsNanos : ℕ} :
    (e.begin_ nowMs subMsNanos).Accounts := by
  have running : e.phase ≠ .stopped := fun stopped => by cases between.symm.trans stopped
  rw [begin_]
  split
  · rename_i off asks
    obtain ⟨left, cut, fresh⟩ := accounts.before off
    have nobody : e.met.countP (·.counted) = 0 := by
      refine List.countP_eq_zero.mpr fun m mem => ?_
      rw [met, left, cut, List.append_nil, List.append_nil] at mem
      exact Bool.eq_false_iff.mp (fresh m mem)
    have untold : e.met.countP (·.told) = 0 := by
      refine List.countP_eq_zero.mpr fun m mem told => ?_
      exact List.countP_eq_zero.mp nobody m mem (accounts.told m mem told)
    constructor
    · exact accounts.told
    · exact accounts.dead
    · simp
    · intro i at_
      exact ⟨by simp, fun m mem => fresh m (List.mem_of_mem_drop mem)⟩
    · intro st now
      cases Option.some.inj now
      exact nobody.symm
    · intro st now
      cases Option.some.inj now
      exact untold.symm
    · intro st now
      cases Option.some.inj now
      show 0 = e.left.countP answered
      rw [left]
      rfl
    · exact accounts.running
    · intro r now
      cases (accounts.live running).symm.trans now
  · exact accounts.same rfl rfl rfl rfl rfl (.inr ⟨running, fun k => by simp⟩)

omit [Application A] [Journal J] in
theorem new : (Engine.new : Engine A J RX TX).Accounts := by
  have off (st : Stopping) : (Engine.new : Engine A J RX TX).stopping ≠ some st :=
    (Option.some_ne_none st).symm
  constructor
  · intro m mem
    exact absurd mem List.not_mem_nil
  · intro m mem
    exact absurd mem List.not_mem_nil
  · intro _
    exact ⟨rfl, rfl, fun m mem => absurd mem List.not_mem_nil⟩
  · intro i at_
    exact nomatch at_
  · intro st now
    exact absurd now (off st)
  · intro st now
    exact absurd now (off st)
  · intro st now
    exact absurd now (off st)
  · intro _
    rfl
  · intro r now
    exact absurd now.symm (Option.some_ne_none r)

/-- What a step keeps of the record. -/
theorem move (accounts : e.Accounts) (move : Move P e e') : e'.Accounts := by
  cases move with
  | added start app journal policy bytes allowed between =>
    exact accounts.added between
  | @called i m method there callable quiet calls =>
    exact accounts.put there rfl rfl
      (Connection.begin_still (P := P) (g := True) (c := m.conn) (.inl calls)).dead
  | @went i m step conn there goes took =>
    exact accounts.put there rfl rfl (Connection.step_still goes took).dead
  | shared app there => exact accounts.put there rfl rfl id
  | began nowMs subMsNanos between quiet => exact accounts.began between
  | @goodbye i at_ quiet =>
    cases there : e.conns[i]? with
    | none =>
      rw [Engine.goodbye, there]
      exact accounts.same rfl rfl rfl rfl rfl
        (.inr ⟨fun stopped => (by cases at_.symm.trans stopped), fun k => by simp⟩)
    | some m => exact accounts.goodbye at_ there
  | @turned i at_ quiet =>
    have running : e.phase ≠ .stopped := fun stopped => by cases at_.symm.trans stopped
    rw [turn]
    split
    · exact accounts.same rfl rfl rfl rfl rfl (.inr ⟨running, fun k => by simp⟩)
    · rename_i m there
      have put : (e.put i { m with conn := m.conn.begin_ P (.turn e.nowMs e.subMsNanos
          (refuses (e.othersOn i))) }).Accounts :=
        accounts.put there rfl rfl (Connection.turn_still (P := P) (g := True) (c := m.conn) e.nowMs
          e.subMsNanos (Engine.refuses (e.othersOn i))).dead
      exact put.same rfl rfl rfl rfl rfl (.inr ⟨running, fun k => by simp⟩)
  | @outcome i m at_ there quiet => exact accounts.outcome at_ there
  | finished on between done => exact accounts.finish on between
  | asked => exact accounts.same rfl rfl rfl rfl rfl (.inl rfl)
  | granted => exact accounts.same rfl rfl rfl rfl rfl (.inl rfl)
  | raised => exact accounts.same rfl rfl rfl rfl rfl (.inl rfl)

end Accounts

/-! ### Runs -/

/-- While a shutdown is on, a connection that leaves by its peer's Logout was sent one, and none
that came later is left in the end. -/
def Fair (e : Engine A J RX TX) : Act A J → Prop
  | .outcome => e.stopping ≠ none → ∀ (i : ℕ) (m : Member A J RX TX), e.phase = .turned i →
      e.conns[i]? = some m → m.conn.gone → answered m → m.told
  | .finished _ => ∀ m ∈ e.conns, m.counted
  | _ => True

variable (P) in
/-- The states of the runs in which this is so. -/
inductive Accountable : Engine A J RX TX → Prop
  | new : Accountable new
  | step {e e' : Engine A J RX TX} {a : Act A J} (from_ : Accountable e) (fair : e.Fair a)
    (took : e.step P a = some e') : Accountable e'

/-- Those that left by their peer's Logout were sent one, and those that were closed were there when
the shutdown began. -/
structure Fairly (e : Engine A J RX TX) : Prop where
  left : ∀ m ∈ e.left, answered m → m.told
  cut : ∀ m ∈ e.cut, m.counted

omit [Application A] [Journal J] in
theorem Fairly.same (fairly : e.Fairly) (left : e'.left = e.left) (cut : e'.cut = e.cut) :
    e'.Fairly where
  left := by rw [left]; exact fairly.left
  cut := by rw [cut]; exact fairly.cut

theorem Fairly.step (fairly : e.Fairly) {a : Act A J} (fair : e.Fair a)
    (took : e.step P a = some e') : e'.Fairly := by
  cases a with
  | outcome =>
    simp only [Engine.step] at took
    split at took
    · rename_i i at_
      split at took
      · cases took
      · rename_i m there
        obtain ⟨quiet, eq⟩ := Option.ite_none_right_eq_some.mp took
        obtain rfl := Option.some.inj eq
        rw [Engine.outcome]
        split
        · rename_i gone
          refine ⟨fun n mem => ?_, fairly.cut⟩
          simp only at mem
          split at mem
          · rename_i on
            obtain old | new := List.mem_append.mp mem
            · exact fairly.left n old
            · obtain rfl := List.mem_singleton.mp new
              exact fair (Option.isSome_iff_ne_none.mp on) i n at_ there gone
          · exact fairly.left n mem
        · exact fairly.same rfl rfl
    · cases took
  | finished nowMs =>
    simp only [Engine.step] at took
    split at took
    · cases took
    · obtain ⟨can, eq⟩ := Option.ite_none_right_eq_some.mp took
      obtain rfl := Option.some.inj eq
      refine ⟨fairly.left, fun n mem => ?_⟩
      obtain ⟨m, here, rfl⟩ := List.mem_map.mp mem
      exact fair m here
  | add start app journal policy bytes allowed =>
    obtain ⟨-, eq⟩ := Option.ite_none_right_eq_some.mp took
    exact fairly.same (Option.some.inj eq ▸ rfl) (Option.some.inj eq ▸ rfl)
  | call i method =>
    simp only [Engine.step] at took
    split at took
    · cases took
    · obtain ⟨-, eq⟩ := Option.ite_none_right_eq_some.mp took
      exact fairly.same (Option.some.inj eq ▸ rfl) (Option.some.inj eq ▸ rfl)
  | go i method =>
    simp only [Engine.step] at took
    split at took
    · cases took
    · obtain ⟨-, eq⟩ := Option.ite_none_right_eq_some.mp took
      obtain ⟨conn, -, rfl⟩ := Option.map_eq_some_iff.mp eq
      exact fairly.same rfl rfl
  | share i app =>
    obtain ⟨m, -, rfl⟩ := Option.map_eq_some_iff.mp took
    exact fairly.same rfl rfl
  | turn nowMs subMsNanos =>
    obtain ⟨-, eq⟩ := Option.ite_none_right_eq_some.mp took
    obtain rfl := Option.some.inj eq
    rw [begin_]
    split <;> exact fairly.same rfl rfl
  | next =>
    obtain ⟨-, eq⟩ := Option.ite_none_right_eq_some.mp took
    split at eq
    · obtain rfl := Option.some.inj eq
      rw [Engine.goodbye]
      split <;> exact fairly.same rfl rfl
    · obtain rfl := Option.some.inj eq
      rw [Engine.turn]
      split <;> exact fairly.same rfl rfl
    · cases eq
  | asks graceMs =>
    simp only [Engine.step] at took
    split at took
    · exact fairly.same (Option.some.inj took ▸ rfl) (Option.some.inj took ▸ rfl)
    · exact fairly.same (Option.some.inj took ▸ rfl) (Option.some.inj took ▸ rfl)
  | writes k =>
    simp only [Engine.step] at took
    split at took
    · cases took
    · exact fairly.same (Option.some.inj took ▸ rfl) (Option.some.inj took ▸ rfl)
    · exact fairly.same (Option.some.inj took ▸ rfl) (Option.some.inj took ▸ rfl)

/-- A report that tells the truth. -/
structure Truthful (e : Engine A J RX TX) (r : Shutdown) : Prop where
  acked : r.acked ≤ r.saidGoodbye
  said : r.saidGoodbye ≤ r.sessions
  /-- Those that were closed in the end were sessions when the shutdown began. -/
  timedOut : r.timedOut = e.cut.length ∧ ∀ m ∈ e.cut, m.counted
  sessions : r.sessions = e.met.countP (·.counted)
  /-- It is clean when everyone who was told answered, and nobody was closed. -/
  clean : r.clean ↔ (∀ m ∈ e.met, m.told → answered m) ∧ e.cut = []
  /-- Those that were closed logged on had been told. -/
  loggedOn : ∀ m ∈ e.cut, m.ses.isLoggedOn → m.told

theorem Reachable.timed (run : e.Reachable P) : e.Timed := by
  induction run with
  | new =>
    constructor
    · intro ms mem
      exact absurd mem List.not_mem_nil
    · intro up
      exact up.elim Bool.false_ne_true.elim fun mem => absurd mem List.not_mem_nil
    · intro st now
      exact absurd now.symm (Option.some_ne_none st)
  | step _ took ih => exact ih.move (move_of_step took)

theorem Reachable.ending (run : e.Reachable P) : e.Ending := by
  induction run with
  | new => exact .refl _
  | step _ took ih => exact ih.move (move_of_step took)

theorem sameDeadline_runs {as : List (Act A J)} (run : e.runs P as = some e') :
    SameDeadline e e' := by
  induction as generalizing e with
  | nil => exact (Option.some.inj run) ▸ .of_eq rfl rfl
  | cons a as ih =>
    obtain ⟨d, took, rest⟩ := Option.bind_eq_some_iff.mp run
    intro st now
    obtain ⟨seen, st', on, deadline⟩ := sameDeadline_move (move_of_step took) st now
    obtain ⟨seen', st'', on', deadline'⟩ := ih rest st' on
    exact ⟨seen'.trans seen, st'', on', deadline'.trans deadline⟩

theorem Accountable.accounts (run : e.Accountable P) : e.Accounts ∧ e.Fairly := by
  induction run with
  | new =>
    refine ⟨.new, ?_, ?_⟩ <;>
    · intro m mem
      exact absurd mem List.not_mem_nil
  | step _ fair took ih => exact ⟨ih.1.move (move_of_step took), ih.2.step fair took⟩

omit [Application A] [Journal J] in
theorem truthful_of_accounts (accounts : e.Accounts) (fairly : e.Fairly) {r : Shutdown}
    (report : e.report = some r) : e.Truthful r := by
  obtain ⟨gone, -, st, on, rfl⟩ := accounts.reported r report
  have sessions := accounts.sessions st on
  have said := accounts.said st on
  have acked := accounts.acked st on
  have all : e.met = e.left ++ e.cut := by rw [met, gone, List.nil_append]
  have mostly : e.left.countP answered ≤ e.left.countP (·.told) :=
    List.countP_mono_left fairly.left
  have rest : e.left.countP (·.told) + e.cut.countP (·.told) = e.met.countP (·.told) := by
    rw [all, List.countP_append]
  constructor
  · show st.acked ≤ st.saidGoodbye
    omega
  · show st.saidGoodbye ≤ st.sessions
    rw [said, sessions]
    exact List.countP_mono_left accounts.told
  · exact ⟨rfl, fairly.cut⟩
  · exact sessions
  · have even : e.left.countP answered = e.left.countP (·.told) ↔
        ∀ m ∈ e.left, m.told → answered m := by
      have all := List.countP_eq_length (p := answered) (l := e.left.filter (·.told))
      rw [List.countP_filter, ← List.countP_eq_length_filter] at all
      have told : e.left.countP (fun m => answered m && m.told) = e.left.countP answered := by
        refine List.countP_congr fun m mem => ?_
        rw [Bool.and_eq_true]
        exact ⟨And.left, fun peer => ⟨peer, fairly.left m mem peer⟩⟩
      rw [told] at all
      simpa only [List.mem_filter, and_imp] using all
    rw [Shutdown.clean, Bool.and_eq_true, beq_iff_eq, beq_iff_eq, List.length_eq_zero_iff, and_comm]
    refine and_congr_left fun none => ?_
    rw [none, List.append_nil] at all
    rw [acked, said, all]
    exact even
  · intro m mem on
    refine (accounts.dead m (List.mem_append_right _ mem) (fairly.cut m mem)).resolve_right ?_
    refine not_not.mpr ?_
    have state : m.ses.state = .loggedOn := eq_of_beq on
    rw [Session.Alive, state]
    exact ⟨by simp, by simp⟩

/-- **What a shutdown reports.** The deadline is that of one call's grace, no step moves it, and who
asks when it has passed gets a report; every connection ends once; and over every run in which, while
a shutdown is on, only a connection that was sent a Logout leaves by its peer's and none that came
later is left in the end, the report tells the truth. -/
theorem shutdown_reported (run : e.Reachable P) :
    (∀ st, e.stopping = some st →
      (∃ seen ms, e.seen = some seen ∧ ms ∈ e.asked ∧ st.deadlineMs = min (seen + ms) u64Max) ∧
      (∀ (as : List (Act A J)) (e' : Engine A J RX TX),
        e.runs P as = some e' → SameDeadline e e') ∧
      ∀ nowMs, e.phase = .idle → e.quiet → st.deadlineMs ≤ nowMs →
        ∃ e' r, e.step P (.finished nowMs) = some e' ∧ e'.report = some r) ∧
    e.Ending ∧ (e.Accountable P → ∀ r, e.report = some r → e.Truthful r) := by
  refine ⟨fun st on => ⟨run.timed.deadline st on, ?_, ?_⟩, run.ending, ?_⟩
  · intro as e'
    exact sameDeadline_runs
  · intro nowMs between quiet passed
    refine ⟨e.finish P st, _, ?_, rfl⟩
    simp only [step, on]
    rw [if_pos ⟨between, quiet, .inr passed⟩]
  · intro accountable r report
    obtain ⟨accounts, fairly⟩ := accountable.accounts
    exact truthful_of_accounts accounts fairly report

end Steps

/-- Is it so, as far as it can be seen? -/
def isFair (e : Engine A J RX TX) : Act A J → Bool
  | .outcome =>
    match e.phase with
    | .turned i => (e.conns[i]?).all fun m => !m.conn.gone || !answered m || m.told
    | _ => true
  | .finished _ => e.conns.all (·.counted)
  | _ => true

theorem fair_of_isFair {a : Act A J} (is : e.isFair a) : e.Fair a := by
  cases a with
  | outcome =>
    intro _ i m at_ there gone peer
    simpa [isFair, at_, there, gone, peer] using is
  | finished nowMs =>
    intro m mem
    exact List.all_eq_true.mp is m mem
  | _ => trivial

/-- A run that goes on as long as it is. -/
def runsFairly [Application A] [Journal J] (P : Params) (e : Engine A J RX TX)
    (as : List (Act A J)) : Option (Engine A J RX TX) :=
  as.foldlM (fun e a => if e.isFair a then e.step P a else none) e

theorem accountable_of_runs [Application A] [Journal J] (from_ : e.Accountable P)
    {as : List (Act A J)} (run : e.runsFairly P as = some e') : e'.Accountable P := by
  induction as generalizing e with
  | nil => exact (Option.some.inj run) ▸ from_
  | cons a as ih =>
    obtain ⟨d, took, rest⟩ := Option.bind_eq_some_iff.mp run
    obtain ⟨is, took⟩ := Option.ite_none_right_eq_some.mp took
    exact ih (from_.step (fair_of_isFair is) took) rest

theorem Accountable.reachable [Application A] [Journal J] (run : e.Accountable P) :
    e.Reachable P := by
  induction run with
  | new => exact .new
  | step _ _ took ih => exact ih.step took

open Setting

/-- The method that the first connection runs goes on. -/
def going (n : ℕ) : List (Act Silent NoJournal) := List.replicate n (.go 0 .go)

/-- What its socket has to read. -/
def hearing (io : Io) (bytes : Bytes) : List (Act Silent NoJournal) := [.go 0 (.read io bytes)]

/-- The socket takes `n` bytes of the queue. -/
def taking (n : ℕ) : List (Act Silent NoJournal) := [.go 0 (.wrote (.ready n))] ++ going 1

/-- The first connection logs on, a shutdown is asked for, and the connection is told. -/
def telling : List (Act Silent NoJournal) :=
  [adding (logon 1), .turn Setting.now 0, .next] ++ going 3 ++ hearing .idle [] ++ going 4 ++
    taking 79 ++ [.outcome, .next, .asks 1000, .writes 0, .writes 0, .turn (Setting.now + 1) 0,
    .next] ++ going 2 ++ [.next, .next] ++ taking 84 ++ going 1

/-- The Logout of the counterparty. -/
def bye : Bytes := theirs "5" 2 []

/-- It answers, and the engine stops. -/
def parting : List (Act Silent NoJournal) :=
  telling ++ hearing (.ready 63) bye ++ going 4 ++ [.outcome, .next, .finished (Setting.now + 1)]

theorem shutdown_reported_clean : ∃ e : Engine Silent NoJournal 256 256,
    new.runsFairly acceptor parting = some e ∧ e.report = some ⟨1, 1, 1, 0⟩ ∧
      e.Truthful ⟨1, 1, 1, 0⟩ ∧ e.Ending := by
  have ran : (new.runsFairly acceptor parting :
      Option (Engine Silent NoJournal 256 256)).any fun e => e.report == some ⟨1, 1, 1, 0⟩ := by
    decide +kernel
  obtain ⟨e, run, report⟩ := (Option.any_eq_true _ _).mp ran
  have accountable := accountable_of_runs .new run
  obtain ⟨-, ending, truthful⟩ := shutdown_reported accountable.reachable
  exact ⟨e, run, eq_of_beq report, truthful accountable _ (eq_of_beq report), ending⟩

/-- It says nothing and hangs up. Another one comes, logs on and leaves by itself. -/
def comingLate : List (Act Silent NoJournal) :=
  telling ++ hearing .idle [] ++ going 3 ++ [.outcome, .next, adding (logon 1 ++ bye),
    .turn (Setting.now + 2) 0, .next] ++ going 3 ++ hearing .closed [] ++ going 3 ++
    [.outcome, .next] ++ going 3 ++ hearing .idle [] ++ going 6 ++ taking 146 ++
    [.outcome, .next, .finished (Setting.now + 2)]

/-- The report is clean, and the one session that was told never answered. -/
theorem clean_unanswered : ¬ ∀ e : Engine Silent NoJournal 256 256, e.Reachable acceptor →
    ∀ r, e.report = some r → r.clean → ∀ m ∈ e.met, m.told → answered m := by
  intro clean
  have ran : (new.runs acceptor comingLate : Option (Engine Silent NoJournal 256 256)).any fun e =>
      e.report == some ⟨1, 1, 1, 0⟩ && e.met.any fun m => m.told && !answered m := by
    decide +kernel
  obtain ⟨e, run, both⟩ := (Option.any_eq_true _ _).mp ran
  obtain ⟨report, silent⟩ := Bool.and_eq_true_iff.mp both
  obtain ⟨m, mem, told⟩ := List.any_eq_true.mp silent
  obtain ⟨told, unanswered⟩ := Bool.and_eq_true_iff.mp told
  have answers := clean e (Reachable.new.runs run) _ (eq_of_beq report) rfl m mem told
  rw [answers] at unanswered
  cases unanswered

end Engine

end Fixbolt
