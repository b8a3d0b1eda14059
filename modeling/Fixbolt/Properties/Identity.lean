import Fixbolt.Engine.Engine
import Fixbolt.Properties.LoggingOn
import Fixbolt.Properties.Setting

/-!
# One identity, one session

* `Connection.go_still`: what a step of a connection can do to the state of its session;
* `Engine.Wired`: a turn refuses by the count of the others that are logged on, and the count is
  right as long as the turn lasts;
* `Engine.Swept`: what the loop has turned and what it has still to turn is what there was;
* `one_identity`: at most one session of an identity is logged on, over every run in which a Logon
  that the session takes is one that the scan sees, and every turn of the engine turns each
  connection once;
* `two_of_one`: two sessions of one identity, by a Logon that says `035=A`.
-/

namespace Fixbolt

/-- How a task turns messages away. -/
def Task.refuse? : Task → Option (Bytes → Bool)
  | .recv refuse | .cut refuse | .judged _ _ refuse => some refuse
  | _ => none

namespace Connection

variable {P : Params} {A J : Type} {RX TX : ℕ} {g : Prop} {c c' d : Connection A J RX TX}

/-- How the running method turns messages away. -/
def refusals (c : Connection A J RX TX) : List (Bytes → Bool) := c.todo.filterMap Task.refuse?

/-- The message that the next step hands the session, unless it is turned away. -/
def incoming (c : Connection A J RX TX) : Option Bytes :=
  match c.emitting, c.todo with
  | [], .cut _ :: _ =>
    match c.rx.cut with
    | .need => none
    | .message k | .garbage k => some (c.rx.bytes k)
  | _, _ => none

/-- The same configuration, dead if it was, and, under `g`, not logged on if it was not. -/
structure Still (g : Prop) (c c' : Connection A J RX TX) : Prop where
  cfg : c'.world.ses.cfg = c.world.ses.cfg
  dead : ¬ c.world.ses.Alive → ¬ c'.world.ses.Alive
  off : g → c.world.ses.state ≠ .loggedOn → c'.world.ses.state ≠ .loggedOn

theorem Still.of_world (same : c'.world = c.world) : Still g c c' where
  cfg := by rw [same]
  dead := by rw [same]; exact id
  off _ := by rw [same]; exact id

section Calls

variable [Application A] [Journal J]

/-- A call that receives nothing. -/
theorem Still.called (P : Params) (call : Call) (own : call.incoming = none) (fits : call.fits)
    (did : c'.world = (c.world.perform P call).1)
    (other : (Event.called c.world.ses call).isConnect = false) : Still g c c' where
  cfg := by rw [did]; exact perform_cfg c.world call
  dead := by
    rw [did]
    refine perform_dead ?_ fits
    rintro rfl
    cases other
  off _ := by rw [did]; exact perform_off own fits

theorem slowConsumer_still (same : d.world = c.world) : Still g c (d.slowConsumer P) :=
  .called P (.logoutNowWith slowConsumerText) rfl rfl (by rw [← same]; rfl) rfl

/-- A task that hands nothing over. -/
theorem work_still {task : Task} {todo : List Task} (other : ∀ refuse, task ≠ .cut refuse)
    (took : ({ c with todo := todo } : Connection A J RX TX).work P task = some c') :
    Still g c c' := by
  cases task with
  | flush =>
    simp only [work, Option.ite_none_right_eq_some, Option.some.injEq] at took
    exact took.2 ▸ .of_world rfl
  | close => exact (Option.some.inj took) ▸ .of_world rfl
  | settle => exact (Option.some.inj took) ▸ .of_world rfl
  | note why =>
    exact (Option.some.inj took) ▸ .called P (.noteDropReason why) rfl rfl rfl rfl
  | recv refuse => exact nomatch took
  | cut refuse => exact absurd rfl (other refuse)
  | overflow =>
    cases Option.some.inj took
    split
    · exact slowConsumer_still rfl
    · exact .of_world rfl
  | tick nowMs subMsNanos =>
    simp only [work] at took
    split at took
    · exact (Option.some.inj took) ▸ .of_world rfl
    · exact (Option.some.inj took) ▸ .called P (.tickAtWith nowMs subMsNanos) rfl rfl rfl rfl
  | judged k link refuse =>
    simp only [work] at took
    split at took
    · exact (Option.some.inj took) ▸ .of_world rfl
    · split at took
      · exact (Option.some.inj took) ▸ slowConsumer_still rfl
      · exact (Option.some.inj took) ▸ .of_world rfl
  | leave closed =>
    simp only [work] at took
    split at took
    · exact (Option.some.inj took) ▸ .called P .disconnect rfl rfl rfl rfl
    · split at took
      · exact (Option.some.inj took) ▸ .called P .disconnect rfl rfl rfl rfl
      · split at took
        · exact (Option.some.inj took) ▸ .of_world rfl
        · exact (Option.some.inj took) ▸ .of_world rfl

/-- Is `b` turned away, or harmless? -/
def Spared (P : Params) (c : Connection A J RX TX) (b : Bytes) : Prop :=
  (∀ refuse ∈ c.refusals, refuse b = true) ∨ Harmless P c.world.ses b

/-- A message is handed over. -/
theorem cut_still {refuse : Bytes → Bool} {todo : List Task} (idle : c.emitting = [])
    (next : c.todo = .cut refuse :: todo)
    (took : ({ c with todo := todo } : Connection A J RX TX).work P (.cut refuse) = some c') :
    Still (∀ b ∈ c.incoming, c.Spared P b) c c' := by
  have handed (k : ℕ) (there : c.incoming = some (c.rx.bytes k))
      (took : (if refuse (c.rx.bytes k) then
        some { ({ c with todo := todo } : Connection A J RX TX).tell P
            (.disconnectWith .duplicateIdentity) with
          rx := c.rx.take k, gone := true, todo := [] }
      else some (({ c with todo := todo } : Connection A J RX TX).say P
        (.receivedWith (c.rx.bytes k)) c.queue fun link => [.judged k link refuse])) = some c') :
      Still (∀ b ∈ c.incoming, c.Spared P b) c c' := by
    split at took
    · exact (Option.some.inj took) ▸ .called P (.disconnectWith .duplicateIdentity) rfl rfl rfl rfl
    · rename_i passes
      cases Option.some.inj took
      refine ⟨perform_cfg c.world (.receivedWith (c.rx.bytes k)),
        perform_dead (w := c.world) (c := .receivedWith (c.rx.bytes k)) nofun rfl,
        fun spared off => ?_⟩
      obtain refused | harmless := spared _ there
      · exact absurd (refused refuse (by simp [refusals, next, Task.refuse?])) passes
      · exact receivedWith_off off harmless
  simp only [work] at took
  split at took
  · exact (Option.some.inj took) ▸ .of_world rfl
  · rename_i k cut
    exact handed k (by simp only [incoming, idle, next]; rw [cut]) took
  · rename_i k cut
    exact handed k (by simp only [incoming, idle, next]; rw [cut]) took

theorem go_still (took : c.go P = some c') : Still (∀ b ∈ c.incoming, c.Spared P b) c c' := by
  rw [go] at took
  split at took
  · split at took
    · exact nomatch took
    · refine (Option.some.inj took) ▸ .of_world ?_
      rw [push]
      split <;> rfl
  · rename_i task todo emitting next
    by_cases cuts : ∃ refuse, task = .cut refuse
    · obtain ⟨refuse, rfl⟩ := cuts
      exact cut_still emitting next took
    · exact work_still (fun refuse eq => cuts ⟨refuse, eq⟩) took
  · exact nomatch took

omit [Application A] [Journal J] in
theorem wrote_world {io : Io} (took : c.wrote io = some c') : c'.world = c.world := by
  rw [wrote] at took
  split at took
  · split at took
    · cases io with
      | ready n => exact (Option.some.inj (Option.ite_none_right_eq_some.mp took).2) ▸ rfl
      | _ => exact (Option.some.inj took) ▸ rfl
    · exact nomatch took
  · split at took
    · exact nomatch took
    · cases io with
      | ready n => exact (Option.some.inj (Option.ite_none_right_eq_some.mp took).2) ▸ rfl
      | _ => exact (Option.some.inj took) ▸ rfl
  · exact nomatch took

omit [Application A] [Journal J] in
theorem read_world {io : Io} {bytes : Bytes} (took : c.read io bytes = some c') :
    c'.world = c.world := by
  rw [read] at took
  split at took
  · cases io with
    | ready n => exact (Option.some.inj (Option.ite_none_right_eq_some.mp took).2) ▸ rfl
    | _ => exact (Option.some.inj took) ▸ rfl
  · exact nomatch took

/-- **What a step of a running method can do to the session.** -/
theorem step_still {a : Act} (goes : Engine.goesOn a) (took : c.step P a = some c') :
    Still (∀ b ∈ c.incoming, c.Spared P b) c c' := by
  cases a with
  | go => exact go_still took
  | wrote io => exact .of_world (wrote_world took)
  | read io bytes => exact .of_world (read_world took)
  | _ => cases goes

/-- A method of the engine's, other than a turn. -/
def Asked (a : Act) : Prop := Engine.calls a ∨ a = .beginLogout

theorem begin_still {a : Act} (asked : Asked a) : Still g c (c.begin_ P a) := by
  cases a with
  | sendApplication msg => exact .called P (.sendApplication msg) rfl rfl rfl rfl
  | slowApplication => exact .called P (.logoutNowWith slowApplicationText) rfl rfl rfl rfl
  | administer command =>
    have fits : Engine.calls (.administer command) := by
      obtain fits | other := asked
      · exact fits
      · cases other
    cases command with
    | setNextOut n => exact .called P (.setNextOut n) rfl fits rfl rfl
    | setNextIn n => exact .called P (.setNextIn n) rfl fits rfl rfl
    | sendSequenceReset n => exact .called P (.sendSequenceResetWith n) rfl fits rfl rfl
  | beginLogout => exact .called P (.beginLogoutWith shuttingDown) rfl rfl rfl rfl
  | _ => simp [Asked, Engine.calls] at asked

theorem turn_still (nowMs subMsNanos : ℕ) (refuse : Bytes → Bool) :
    Still g c (c.begin_ P (.turn nowMs subMsNanos refuse)) := by
  rw [begin_]
  split
  · exact .called P .disconnect rfl rfl rfl rfl
  · exact .of_world rfl

/-! ### Turning messages away -/

omit [Application A] [Journal J] in
theorem refusals_append (tasks : List Task) (plain : tasks.filterMap Task.refuse? = [])
    (next : c.todo = tasks ++ d.todo) : c.refusals = d.refusals := by
  rw [refusals, next, List.filterMap_append, plain, List.nil_append]
  rfl

theorem closeIf_refuse (dropped : Bool) : (closeIf dropped).filterMap Task.refuse? = [] := by
  cases dropped <;> rfl

theorem begin_refusals {a : Act} (asked : Asked a) (idle : c.todo = []) :
    (c.begin_ P a).refusals = [] := by
  have none : c.refusals = [] := by rw [refusals, idle]; rfl
  rw [← none]
  cases a with
  | sendApplication msg =>
    refine refusals_append (closeIf _ ++ [.overflow, .flush]) ?_ rfl
    rw [List.filterMap_append, closeIf_refuse]
    rfl
  | slowApplication => exact refusals_append [.note .slowApplication, .close] rfl rfl
  | administer command =>
    cases command with
    | sendSequenceReset n => exact refusals_append [.overflow] rfl rfl
    | _ => rfl
  | beginLogout =>
    refine refusals_append (.overflow :: closeIf _) ?_ rfl
    rw [List.filterMap_cons_none rfl, closeIf_refuse]
  | _ => simp [Asked, Engine.calls] at asked

theorem turn_refusals {nowMs subMsNanos : ℕ} {refuse r : Bytes → Bool} (idle : c.todo = [])
    (mem : r ∈ (c.begin_ P (.turn nowMs subMsNanos refuse)).refusals) : r = refuse := by
  rw [begin_] at mem
  split at mem
  · have none : c.refusals = [] := by rw [refusals, idle]; rfl
    have mem : r ∈ c.refusals := mem
    rw [none] at mem
    cases mem
  · exact List.mem_singleton.mp mem

omit [Application A] [Journal J] in
theorem refusals_of_todo (same : c'.todo = c.todo) : c'.refusals = c.refusals := by
  rw [refusals, same, refusals]

/-- Tasks that turn away as `task` does. -/
def FollowUp (task : Task) (tasks : List Task) : Prop :=
  ∀ refuse ∈ tasks.filterMap Task.refuse?, task.refuse? = some refuse

theorem followUp_plain {task : Task} {tasks : List Task}
    (plain : tasks.filterMap Task.refuse? = []) : FollowUp task tasks := by
  intro refuse mem
  rw [plain] at mem
  cases mem

/-- A task puts follow-ups in front of what there is to do, or the connection is gone. -/
theorem work_todo {task : Task} (took : c.work P task = some c') :
    c'.todo = [] ∨ ∃ tasks, FollowUp task tasks ∧ c'.todo = tasks ++ c.todo := by
  have same (eq : c'.todo = c.todo) :
      c'.todo = [] ∨ ∃ tasks, FollowUp task tasks ∧ c'.todo = tasks ++ c.todo :=
    .inr ⟨[], followUp_plain rfl, eq⟩
  cases task with
  | flush =>
    simp only [work, Option.ite_none_right_eq_some, Option.some.injEq] at took
    exact same (took.2 ▸ rfl)
  | close => exact same ((Option.some.inj took) ▸ rfl)
  | settle => exact same ((Option.some.inj took) ▸ rfl)
  | note why => exact same ((Option.some.inj took) ▸ rfl)
  | recv refuse => exact nomatch took
  | overflow =>
    by_cases full : c.overflow = true
    · simp only [work, full, if_true, Option.some.injEq] at took
      exact .inr ⟨[.note .slowConsumer, .settle, .close], followUp_plain rfl, took ▸ rfl⟩
    · simp only [work, full, Option.some.injEq] at took
      exact same (took ▸ rfl)
  | tick nowMs subMsNanos =>
    simp only [work] at took
    split at took
    · exact same ((Option.some.inj took) ▸ rfl)
    · cases Option.some.inj took
      refine .inr ⟨closeIf _ ++ [.overflow], followUp_plain ?_, rfl⟩
      rw [List.filterMap_append, closeIf_refuse]
      rfl
  | cut refuse =>
    simp only [work] at took
    split at took
    · exact same ((Option.some.inj took) ▸ rfl)
    all_goals
      split at took
      · exact .inl ((Option.some.inj took) ▸ rfl)
      · cases Option.some.inj took
        refine .inr ⟨[.judged _ _ refuse], ?_, rfl⟩
        simp [FollowUp, Task.refuse?]
  | judged k link refuse =>
    simp only [work] at took
    split at took
    · exact same ((Option.some.inj took) ▸ rfl)
    · split at took
      · cases Option.some.inj took
        exact .inr ⟨[.note .slowConsumer, .settle, .close], followUp_plain rfl, rfl⟩
      · cases Option.some.inj took
        exact .inr ⟨[.cut refuse], by simp [FollowUp, Task.refuse?], rfl⟩
  | leave closed =>
    simp only [work] at took
    split at took
    · exact same ((Option.some.inj took) ▸ rfl)
    · split at took
      · exact same ((Option.some.inj took) ▸ rfl)
      · split at took
        · exact same ((Option.some.inj took) ▸ rfl)
        · exact same ((Option.some.inj took) ▸ rfl)

omit [Application A] [Journal J] in
/-- Follow-ups turn away nothing that was not turned away before. -/
theorem refusals_followUp {task : Task} {tasks todo : List Task} {r : Bytes → Bool}
    (next : c.todo = task :: todo) (follows : FollowUp task tasks) (left : c'.todo = tasks ++ todo)
    (mem : r ∈ c'.refusals) : r ∈ c.refusals := by
  rw [refusals, left, List.filterMap_append, List.mem_append] at mem
  rw [refusals, next, List.mem_filterMap]
  obtain own | there := mem
  · exact ⟨task, List.mem_cons_self, follows r own⟩
  · obtain ⟨t, mem, asks⟩ := List.mem_filterMap.mp there
    exact ⟨t, List.mem_cons_of_mem _ mem, asks⟩

theorem go_refusals {r : Bytes → Bool} (took : c.go P = some c') (mem : r ∈ c'.refusals) :
    r ∈ c.refusals := by
  rw [go] at took
  split at took
  · rename_i m rest emitting
    split at took
    · exact nomatch took
    · cases Option.some.inj took
      have same : (c.push m).todo = c.todo := by
        rw [push]
        split <;> rfl
      have left := refusals_of_todo same
      exact left ▸ mem
  · rename_i task todo emitting next
    obtain none | ⟨tasks, follows, left⟩ := work_todo took
    · rw [refusals, none] at mem
      cases mem
    · exact refusals_followUp next follows left mem
  · exact nomatch took

omit [Application A] [Journal J] in
theorem wrote_refusals {io : Io} {r : Bytes → Bool} (took : c.wrote io = some c')
    (mem : r ∈ c'.refusals) : r ∈ c.refusals := by
  have left : c'.todo = c.todo ∨ c.todo = .flush :: c'.todo := by
    rw [wrote] at took
    split at took
    · split at took
      · cases io with
        | ready n =>
          exact .inl ((Option.some.inj (Option.ite_none_right_eq_some.mp took).2) ▸ rfl)
        | _ => exact .inl ((Option.some.inj took) ▸ rfl)
      · exact nomatch took
    · rename_i next
      split at took
      · exact nomatch took
      · cases io with
        | ready n =>
          cases Option.some.inj (Option.ite_none_right_eq_some.mp took).2
          exact .inr next
        | _ =>
          cases Option.some.inj took
          exact .inr next
    · exact nomatch took
  obtain same | next := left
  · exact refusals_of_todo same ▸ mem
  · exact refusals_followUp next (@followUp_plain .flush [] rfl) rfl mem

omit [Application A] [Journal J] in
theorem read_refusals {io : Io} {bytes : Bytes} {r : Bytes → Bool} (took : c.read io bytes = some c')
    (mem : r ∈ c'.refusals) : r ∈ c.refusals := by
  rw [read] at took
  split at took
  · rename_i refuse todo emitting next
    have follows (closed : Bool) :
        FollowUp (.recv refuse) [.cut refuse, .flush, .leave closed] := by
      simp [FollowUp, Task.refuse?]
    cases io with
    | ready n =>
      cases Option.some.inj (Option.ite_none_right_eq_some.mp took).2
      exact refusals_followUp next (follows false) rfl mem
    | idle =>
      cases Option.some.inj took
      exact refusals_followUp next (follows false) rfl mem
    | closed =>
      cases Option.some.inj took
      exact refusals_followUp next (follows true) rfl mem
    | failed =>
      cases Option.some.inj took
      exact refusals_followUp next (follows true) rfl mem
  · exact nomatch took

theorem step_refusals {a : Act} {r : Bytes → Bool} (goes : Engine.goesOn a)
    (took : c.step P a = some c') (mem : r ∈ c'.refusals) : r ∈ c.refusals := by
  cases a with
  | go => exact go_refusals took mem
  | wrote io => exact wrote_refusals took mem
  | read io bytes => exact read_refusals took mem
  | _ => cases goes

end Calls

end Connection

namespace Engine

open scoped List

variable {P : Params} {A J : Type} {RX TX : ℕ} {e e' : Engine A J RX TX} {i : ℕ}
  {m m' n : Member A J RX TX}

/-! ### Rivals -/

/-- Are both logged on, under one identity? -/
def Rivals (m n : Member A J RX TX) : Prop :=
  m.ses.isLoggedOn ∧ n.ses.isLoggedOn ∧ m.ses.cfg.sameIdentityAs n.ses.cfg

theorem sameIdentityAs_symm {cfg other : Config} (same : cfg.sameIdentityAs other) :
    other.sameIdentityAs cfg := by
  simp only [Config.sameIdentityAs, Bool.and_eq_true, beq_iff_eq] at same ⊢
  exact ⟨⟨same.1.1.symm, same.1.2.symm⟩, same.2.symm⟩

theorem Rivals.symm (h : Rivals m n) : Rivals n m := ⟨h.2.1, h.1, sameIdentityAs_symm h.2.2⟩

/-- At most one session of an identity is logged on. -/
def OneEach (e : Engine A J RX TX) : Prop := e.conns.Pairwise fun m n => ¬ Rivals m n

theorem oneEach_iff : e.OneEach ↔
    ∀ (i j : ℕ) (m n : Member A J RX TX), e.conns[i]? = some m → e.conns[j]? = some n → i ≠ j →
      ¬ Rivals m n := by
  rw [OneEach, List.pairwise_iff_getElem]
  constructor
  · intro apart i j m n at_i at_j ne rivals
    obtain ⟨hi, rfl⟩ := List.getElem?_eq_some_iff.mp at_i
    obtain ⟨hj, rfl⟩ := List.getElem?_eq_some_iff.mp at_j
    obtain lt | gt := Nat.lt_or_gt_of_ne ne
    · exact apart i j hi hj lt rivals
    · exact apart j i hj hi gt rivals.symm
  · intro apart i j hi hj lt
    exact apart i j _ _ (List.getElem?_eq_getElem hi) (List.getElem?_eq_getElem hj) (Nat.ne_of_lt lt)

/-- One connection changes, and gets no rival. -/
theorem OneEach.put (one : e.OneEach) (there : e.conns[i]? = some m)
    (apart : ∀ (j : ℕ) (n : Member A J RX TX), e.conns[j]? = some n → j ≠ i → ¬ Rivals m' n) : (e.put i m').OneEach := by
  have within : i < e.conns.length := (List.getElem?_eq_some_iff.mp there).1
  rw [oneEach_iff] at one ⊢
  intro j k a b at_j at_k ne rivals
  simp only [Engine.put] at at_j at_k
  by_cases j_here : j = i
  · subst j_here
    rw [List.getElem?_set_self within] at at_j
    rw [List.getElem?_set_ne ne] at at_k
    exact apart k b at_k (Ne.symm ne) (Option.some.inj at_j ▸ rivals)
  · rw [List.getElem?_set_ne (Ne.symm j_here)] at at_j
    by_cases k_here : k = i
    · subst k_here
      rw [List.getElem?_set_self within] at at_k
      exact apart j a at_j j_here (Option.some.inj at_k ▸ rivals.symm)
    · rw [List.getElem?_set_ne (Ne.symm k_here)] at at_k
      exact one j k a b at_j at_k ne rivals

/-- One that is not logged on unless it was, gets no rival. -/
theorem OneEach.put_still (one : e.OneEach) (there : e.conns[i]? = some m)
    (cfg : m'.ses.cfg = m.ses.cfg) (off : m.ses.state ≠ .loggedOn → m'.ses.state ≠ .loggedOn) :
    (e.put i m').OneEach := by
  refine one.put there fun j n at_j ne rivals => ?_
  have was : m.ses.isLoggedOn := by
    by_contra none
    exact off (fun on => none (beq_iff_eq.mpr on)) (eq_of_beq rivals.1)
  exact (oneEach_iff.mp one) i j m n there at_j (Ne.symm ne) ⟨was, rivals.2.1, cfg ▸ rivals.2.2⟩

theorem othersOn_zero (there : e.conns[i]? = some m) (none : e.othersOn i = 0) {j : ℕ}
    (at_j : e.conns[j]? = some n) (ne : j ≠ i) (on : n.ses.isLoggedOn) :
    ¬ m.ses.cfg.sameIdentityAs n.ses.cfg := by
  intro same
  simp only [othersOn, there, List.countP_eq_zero] at none
  refine none n (List.mem_eraseIdx_iff_getElem?.mpr ⟨j, ne, at_j⟩) ?_
  rw [Bool.and_eq_true]
  exact ⟨on, sameIdentityAs_symm same⟩

/-- One whose identity is free gets no rival. -/
theorem OneEach.put_alone (one : e.OneEach) (there : e.conns[i]? = some m)
    (cfg : m'.ses.cfg = m.ses.cfg) (none : e.othersOn i = 0) : (e.put i m').OneEach :=
  one.put there fun _ _ at_j ne rivals =>
    othersOn_zero there none at_j ne rivals.2.1 (cfg ▸ rivals.2.2)

/-! ### The count of a turn -/

theorem othersOn_put (there : e.conns[i]? = some m) (cfg : m'.ses.cfg = m.ses.cfg) :
    (e.put i m').othersOn i = e.othersOn i := by
  have within : i < e.conns.length := (List.getElem?_eq_some_iff.mp there).1
  simp only [othersOn, Engine.put, List.getElem?_set_self within, there, List.eraseIdx_set_eq, cfg]

theorem idle_iff : m.idle ↔ m.conn.emitting = [] ∧ m.conn.todo = [] := by
  rw [Member.idle, Bool.and_eq_true, List.isEmpty_iff, List.isEmpty_iff]

theorem refusals_idle (idle : m.idle) : m.conn.refusals = [] := by
  rw [Connection.refusals, (idle_iff.mp idle).2]
  rfl

theorem quiet_idle (quiet : e.quiet) (there : e.conns[i]? = some m) : m.idle :=
  List.all_eq_true.mp quiet m (List.mem_of_getElem? there)

/-- Messages are turned away only in a turn, by how many others are logged on, and in a turn no other
connection runs. -/
structure Wired (e : Engine A J RX TX) : Prop where
  refuses : ∀ (i : ℕ) (m : Member A J RX TX), e.conns[i]? = some m → ∀ r ∈ m.conn.refusals,
    e.phase = .turned i ∧ r = Engine.refuses (e.othersOn i)
  alone : ∀ (i j : ℕ) (m : Member A J RX TX), e.phase = .turned j → e.conns[i]? = some m → i ≠ j → m.idle

/-- Outside a turn nothing is turned away. -/
theorem wired_of_none (none : ∀ m ∈ e.conns, m.conn.refusals = [])
    (phase : ∀ j, e.phase ≠ .turned j) : e.Wired where
  refuses i m there r mem := by
    rw [none m (List.mem_of_getElem? there)] at mem
    cases mem
  alone i j m turned := absurd turned (phase j)

theorem Wired.none (wired : e.Wired) (phase : ∀ j, e.phase ≠ .turned j) (mem : m ∈ e.conns) :
    m.conn.refusals = [] := by
  obtain ⟨i, there⟩ := List.mem_iff_getElem?.mp mem
  cases all : m.conn.refusals with
  | nil => rfl
  | cons r rest =>
    have turned := (wired.refuses i m there r (by rw [all]; exact List.mem_cons_self)).1
    exact absurd turned (phase i)

/-- Nothing happened to the connections. -/
theorem Wired.same (wired : e.Wired) (conns : e'.conns = e.conns) (phase : e'.phase = e.phase) :
    e'.Wired where
  refuses i m there r mem := by
    have same : e'.othersOn i = e.othersOn i := by rw [othersOn, conns, othersOn]
    rw [phase, same]
    exact wired.refuses i m (conns ▸ there) r mem
  alone i j m := by
    rw [phase, conns]
    exact wired.alone i j m

/-- Only the sessions are counted. -/
theorem othersOn_sessions (e : Engine A J RX TX) (j : ℕ) : e.othersOn j =
    match (e.conns.map Member.ses)[j]? with
    | none => 0
    | some mine => ((e.conns.map Member.ses).eraseIdx j).countP fun s =>
        s.isLoggedOn && s.cfg.sameIdentityAs mine.cfg := by
  rw [othersOn, List.getElem?_map]
  cases e.conns[j]? with
  | none => rfl
  | some mine =>
    rw [List.eraseIdx_map, Option.map_some]
    dsimp only
    rw [List.countP_map]
    rfl

theorem othersOn_put_ses (there : e.conns[i]? = some m) (ses : m'.ses = m.ses) (j : ℕ) :
    (e.put i m').othersOn j = e.othersOn j := by
  have same : (e.put i m').conns.map Member.ses = e.conns.map Member.ses := by
    rw [Engine.put, List.map_set, ses]
    refine List.ext_getElem? fun k => ?_
    by_cases here : i = k
    · subst here
      have within : i < (e.conns.map Member.ses).length := by
        rw [List.length_map]
        exact (List.getElem?_eq_some_iff.mp there).1
      rw [List.getElem?_set_self within, List.getElem?_map, there, Option.map_some]
    · rw [List.getElem?_set_ne here]
  rw [othersOn_sessions, othersOn_sessions, same]

/-- One connection changes, and still turns away as it did. In the turn of another it does not run,
and its session is as it was. -/
theorem Wired.put (wired : e.Wired) (there : e.conns[i]? = some m)
    (cfg : m'.ses.cfg = m.ses.cfg) (less : ∀ r ∈ m'.conn.refusals, r ∈ m.conn.refusals)
    (rests : ∀ j, e.phase = .turned j → i ≠ j → m'.idle ∧ m'.ses = m.ses) : (e.put i m').Wired := by
  have within : i < e.conns.length := (List.getElem?_eq_some_iff.mp there).1
  constructor
  · intro j n at_j r mem
    simp only [Engine.put] at at_j
    by_cases here : i = j
    · subst here
      rw [List.getElem?_set_self within] at at_j
      obtain rfl := Option.some.inj at_j
      rw [othersOn_put there cfg]
      exact wired.refuses i m there r (less r mem)
    · rw [List.getElem?_set_ne here] at at_j
      obtain ⟨turned, eq⟩ := wired.refuses j n at_j r mem
      rw [othersOn_put_ses there (rests j turned here).2]
      exact ⟨turned, eq⟩
  · intro j k n turned at_j ne
    simp only [Engine.put] at at_j
    by_cases here : i = j
    · subst here
      rw [List.getElem?_set_self within] at at_j
      exact Option.some.inj at_j ▸ (rests k turned ne).1
    · rw [List.getElem?_set_ne here] at at_j
      exact wired.alone j k n turned at_j ne

section Steps

variable [Application A] [Journal J]

/-- A connection with nothing to do does not go on. -/
theorem idle_stuck {step : Connection.Act} {conn : Connection A J RX TX} (idle : m.idle)
    (goes : goesOn step) : m.conn.step P step ≠ some conn := by
  obtain ⟨emitting, todo⟩ := idle_iff.mp idle
  cases step with
  | go => simp [Connection.step, Connection.go, emitting, todo]
  | wrote io => simp [Connection.step, Connection.wrote, emitting, todo]
  | read io bytes => simp [Connection.step, Connection.read, emitting, todo]
  | _ => cases goes

theorem opened_todo (world : World A J) (policy : Backpressure) (bytes : Bytes) (allowed : Bool) :
    (opened P RX TX world policy bytes allowed).refusals = [] := by
  have primed : ((Connection.new RX TX world policy).begin_ P (.prime bytes)).refusals = [] := by
    rw [Connection.begin_]
    split <;> rfl
  have spoken : (((Connection.new RX TX world policy).begin_ P (.prime bytes)).begin_ P
      .opened).refusals = [] := by
    rw [← primed]
    exact Connection.refusals_append (Connection.closeIf _) (Connection.closeIf_refuse _) rfl
  rw [opened]
  split
  · exact spoken
  · exact spoken

/-- A new connection is not logged on. -/
theorem opened_off {world : World A J} {policy : Backpressure} {bytes : Bytes} {allowed : Bool}
    (off : world.ses.state ≠ .loggedOn) :
    (opened P RX TX world policy bytes allowed).world.ses.state ≠ .loggedOn := by
  have primed : ((Connection.new RX TX world policy).begin_ P (.prime bytes)).world = world := by
    rw [Connection.begin_]
    split <;> rfl
  have spoken : (((Connection.new RX TX world policy).begin_ P (.prime bytes)).begin_ P
      .opened).world.ses.state ≠ .loggedOn := by
    show ((((Connection.new RX TX world policy).begin_ P (.prime bytes)).world.perform P
      .connect).1).ses.state ≠ .loggedOn
    rw [primed]
    exact perform_off rfl rfl off
  rw [opened]
  split
  · exact spoken
  · exact perform_off (P := P) (c := .noteDropReason .refusedByDeployment) rfl rfl spoken

theorem start_off (start : Start) : (start.session P).state ≠ .loggedOn := by
  cases start with
  | fresh cfg => exact nofun
  | resumed cfg nextOut nextIn lastActive => cases lastActive <;> exact nofun

/-- What a step keeps of the wiring. -/
theorem Wired.move (wired : e.Wired) (move : Move P e e') : e'.Wired := by
  cases move with
  | added start app journal policy bytes allowed between =>
    refine wired_of_none (fun m mem => ?_) fun j turned => nomatch between.symm.trans turned
    obtain old | new := List.mem_append.mp mem
    · exact wired.none (fun j turned => nomatch between.symm.trans turned) old
    · rw [List.mem_singleton.mp new]
      exact opened_todo _ policy bytes allowed
  | @called i m method there callable quiet calls =>
    have idle := quiet_idle quiet there
    refine wired.put there (Connection.begin_still (g := True) (.inl calls)).cfg ?_ ?_
    · intro r mem
      rw [Connection.begin_refusals (.inl calls) (idle_iff.mp idle).2] at mem
      cases mem
    · intro j turned ne
      rw [turned] at callable
      exact absurd (eq_of_beq callable) ne
  | @went i m step conn there goes took =>
    refine wired.put there (Connection.step_still goes took).cfg
      (fun r => Connection.step_refusals goes took) fun j turned ne => ?_
    exact absurd took (idle_stuck (wired.alone i j m turned there ne) goes)
  | @shared i m app there =>
    exact wired.put there rfl (fun r mem => mem) fun j turned ne =>
      ⟨wired.alone i j m turned there ne, rfl⟩
  | began nowMs subMsNanos between quiet =>
    have none (m : Member A J RX TX) (mem : m ∈ e.conns) : m.conn.refusals = [] :=
      refusals_idle (List.all_eq_true.mp quiet m mem)
    rw [begin_]
    split
    · exact wired_of_none none fun j => nofun
    · exact wired_of_none none fun j => nofun
  | @goodbye i at_ quiet =>
    have none (m : Member A J RX TX) (mem : m ∈ e.conns) : m.conn.refusals = [] :=
      refusals_idle (List.all_eq_true.mp quiet m mem)
    rw [Engine.goodbye]
    split
    · exact wired_of_none none fun j => nofun
    · rename_i m there
      refine wired_of_none (fun n mem => ?_) fun j => nofun
      obtain old | rfl := List.mem_or_eq_of_mem_set mem
      · exact none n old
      · exact Connection.begin_refusals (.inr rfl) (idle_iff.mp (quiet_idle quiet there)).2
  | @turned i at_ quiet =>
    rw [turn]
    split
    · exact wired_of_none (fun m mem => refusals_idle (List.all_eq_true.mp quiet m mem))
        fun j => nofun
    · rename_i m there
      have within : i < e.conns.length := (List.getElem?_eq_some_iff.mp there).1
      let m' : Member A J RX TX := { m with
        conn := m.conn.begin_ P (.turn e.nowMs e.subMsNanos (Engine.refuses (e.othersOn i))) }
      have cfg : m'.ses.cfg = m.ses.cfg := (Connection.turn_still (g := True) _ _ _).cfg
      constructor
      · intro j n at_j r mem
        simp only [Engine.put] at at_j
        by_cases here : i = j
        · subst here
          rw [List.getElem?_set_self within] at at_j
          obtain rfl := Option.some.inj at_j
          refine ⟨rfl, ?_⟩
          rw [Connection.turn_refusals (idle_iff.mp (quiet_idle quiet there)).2 mem]
          exact congrArg Engine.refuses (othersOn_put there cfg).symm
        · rw [List.getElem?_set_ne here] at at_j
          rw [refusals_idle (quiet_idle quiet at_j)] at mem
          cases mem
      · intro j k n turned at_j ne
        obtain rfl : i = k := Phase.turned.inj turned
        simp only [Engine.put] at at_j
        rw [List.getElem?_set_ne (Ne.symm ne)] at at_j
        exact quiet_idle quiet at_j
  | @outcome i m at_ there quiet =>
    have none (m : Member A J RX TX) (mem : m ∈ e.conns) : m.conn.refusals = [] :=
      refusals_idle (List.all_eq_true.mp quiet m mem)
    have within : i < e.conns.length := (List.getElem?_eq_some_iff.mp there).1
    rw [Engine.outcome]
    split
    · exact wired_of_none (fun n mem => none n ((swapRemove_perm within).subset
        (List.mem_cons_of_mem _ mem))) fun j => nofun
    · exact wired_of_none none fun j => nofun
  | finished => exact wired_of_none (fun m mem => nomatch mem) fun j => nofun
  | asked => exact wired.same rfl rfl
  | granted => exact wired.same rfl rfl
  | raised => exact wired.same rfl rfl

/-! ### One turn each -/

/-- The ids of the connections. -/
def ids (conns : List (Member A J RX TX)) : List ℕ := conns.map (·.id)

/-- What the loop has turned and what it has still to turn is what there was. -/
def Swept (e : Engine A J RX TX) : Prop :=
  match e.phase with
  | .turning i => e.turns ++ ids (e.conns.drop i) ~ e.present
  | .turned i => i < e.conns.length ∧ e.turns ++ ids (e.conns.drop (i + 1)) ~ e.present
  | _ => e.turns ~ e.present

omit [Application A] [Journal J] in
theorem ids_put (there : e.conns[i]? = some m) (id : m'.id = m.id) (k : ℕ) :
    ids ((e.conns.set i m').drop k) = ids (e.conns.drop k) := by
  have same : ids (e.conns.set i m') = ids e.conns := by
    refine List.ext_getElem? fun j => ?_
    by_cases here : i = j
    · subst here
      rw [ids, ids, List.getElem?_map, List.getElem?_map,
        List.getElem?_set_self (List.getElem?_eq_some_iff.mp there).1, there, Option.map_some,
        Option.map_some, id]
    · rw [ids, ids, List.getElem?_map, List.getElem?_map, List.getElem?_set_ne here]
  unfold ids at same ⊢
  rw [List.map_drop, List.map_drop, same]

omit [Application A] [Journal J] in
theorem Swept.put (swept : e.Swept) (there : e.conns[i]? = some m) (id : m'.id = m.id) :
    (e.put i m').Swept := by
  unfold Swept at swept ⊢
  simp only [Engine.put, ids_put there id, List.length_set]
  exact swept

/-- What a step keeps of the loop. -/
theorem Swept.move (swept : e.Swept) (move : Move P e e') : e'.Swept := by
  cases move with
  | added start app journal policy bytes allowed between =>
    simp only [Swept, between] at swept ⊢
    exact swept
  | called there => exact swept.put there rfl
  | went there => exact swept.put there rfl
  | shared app there => exact swept.put there rfl
  | began nowMs subMsNanos between quiet =>
    simp only [Swept, between] at swept
    rw [begin_]
    split
    · exact swept
    · exact .refl _
  | @goodbye i at_ quiet =>
    simp only [Swept, at_] at swept
    rw [Engine.goodbye]
    split
    · exact .refl _
    · exact swept
  | @turned i at_ quiet =>
    simp only [Swept, at_] at swept
    rw [turn]
    split
    · rename_i none
      rw [List.drop_of_length_le (List.getElem?_eq_none_iff.mp none)] at swept
      simpa only [Swept, ids, List.map_nil, List.append_nil] using swept
    · rename_i m there
      obtain ⟨within, here⟩ := List.getElem?_eq_some_iff.mp there
      refine ⟨by simpa only [Engine.put, List.length_set] using within, ?_⟩
      rw [List.drop_eq_getElem_cons within, here] at swept
      simp only [Engine.put]
      rw [ids_put there (by rfl), List.append_assoc]
      exact swept
  | @outcome i m at_ there quiet =>
    simp only [Swept, at_] at swept
    obtain ⟨within, swept⟩ := swept
    rw [Engine.outcome]
    split
    · exact (((drop_swapRemove within).map _).append_left _).trans swept
    · exact swept
  | finished stopping between =>
    simp only [Swept, between] at swept
    exact swept
  | asked => exact swept
  | granted => exact swept
  | raised => exact swept

/-! ### One session each -/

/-- A message that the next step hands to a session that is not logged on, while another of its
identity is, is seen to be a Logon, or is harmless. -/
def Seen (P : Params) (e : Engine A J RX TX) : Prop :=
  ∀ (i : ℕ) (m : Member A J RX TX) (b : Bytes), e.conns[i]? = some m → m.conn.incoming = some b →
    e.othersOn i ≠ 0 → m.ses.state ≠ .loggedOn → isLogon b ∨ Harmless P m.ses b

omit [Application A] [Journal J] in
/-- The message a connection hands over is turned away, or harmless. -/
theorem spared_of_seen (wired : e.Wired) (seen : e.Seen P) (there : e.conns[i]? = some m)
    (others : e.othersOn i ≠ 0) (off : m.ses.state ≠ .loggedOn) :
    ∀ b ∈ m.conn.incoming, m.conn.Spared P b := by
  intro b incoming
  obtain logon | harmless := seen i m b there incoming others off
  · refine .inl fun refuse mem => ?_
    rw [(wired.refuses i m there refuse mem).2, Engine.refuses, logon, Bool.and_true,
      decide_eq_true_iff]
    exact Nat.pos_of_ne_zero others
  · exact .inr harmless

/-- What a step keeps, when what it hands over is seen. -/
theorem OneEach.move (one : e.OneEach) (wired : e.Wired) (seen : e.Seen P) (move : Move P e e') :
    e'.OneEach := by
  cases move with
  | added start app journal policy bytes allowed between =>
    refine List.pairwise_append.mpr ⟨one, List.pairwise_singleton _ _, fun m _ n mem rivals => ?_⟩
    rw [List.mem_singleton.mp mem] at rivals
    exact opened_off (start_off start) (eq_of_beq rivals.2.1)
  | @called i m method there callable quiet calls =>
    have still := Connection.begin_still (P := P) (g := True) (c := m.conn) (.inl calls)
    exact one.put_still there still.cfg (still.off trivial)
  | @went i m step conn there goes took =>
    have still := Connection.step_still goes took
    by_cases none : e.othersOn i = 0
    · exact one.put_alone there still.cfg none
    · exact one.put_still there still.cfg fun off =>
        still.off (spared_of_seen wired seen there none off) off
  | shared app there => exact one.put_still there rfl id
  | began nowMs subMsNanos between quiet =>
    rw [begin_]
    split <;> exact one
  | @goodbye i at_ quiet =>
    rw [Engine.goodbye]
    split
    · exact one
    · rename_i m there
      have still := Connection.begin_still (P := P) (g := True) (c := m.conn) (.inr rfl)
      exact one.put_still there still.cfg (still.off trivial)
  | @turned i at_ quiet =>
    rw [turn]
    split
    · exact one
    · rename_i m there
      have still := Connection.turn_still (P := P) (g := True) (c := m.conn) e.nowMs e.subMsNanos
        (Engine.refuses (e.othersOn i))
      exact one.put_still there still.cfg (still.off trivial)
  | @outcome i m at_ there quiet =>
    rw [Engine.outcome]
    split
    · have within : i < e.conns.length := (List.getElem?_eq_some_iff.mp there).1
      have all := ((swapRemove_perm within).pairwise_iff fun apart rivals =>
        apart (Rivals.symm rivals)).mpr one
      exact (List.pairwise_cons.mp all).2
    · exact one
  | finished => exact List.Pairwise.nil
  | asked => exact one
  | granted => exact one
  | raised => exact one

/-! ### Runs -/

variable (P) in
/-- The states of an engine. -/
inductive Reachable : Engine A J RX TX → Prop
  | new : Reachable new
  | step {e e' : Engine A J RX TX} {a : Act A J} (from_ : Reachable e) (took : e.step P a = some e') :
    Reachable e'

variable (P) in
/-- Those of the runs in which every Logon that matters is seen. -/
inductive Spotted : Engine A J RX TX → Prop
  | new : Spotted new
  | step {e e' : Engine A J RX TX} {a : Act A J} (from_ : Spotted e) (seen : e.Seen P)
    (took : e.step P a = some e') : Spotted e'

theorem Reachable.swept (run : e.Reachable P) : e.Swept := by
  induction run with
  | new => exact .refl _
  | step _ took ih => exact ih.move (move_of_step took)

theorem Spotted.oneEach (run : e.Spotted P) : e.Wired ∧ e.OneEach := by
  induction run with
  | new => exact ⟨wired_of_none (fun m mem => nomatch mem) fun j => nofun, List.Pairwise.nil⟩
  | step _ seen took ih =>
    have move := move_of_step took
    exact ⟨ih.1.move move, ih.2.move ih.1 seen move⟩

/-- **One identity, one session.** Between two turns every connection that the first one found was
turned once in it, and over every run in which a Logon that the session takes is one that the scan
sees, no two sessions of an identity are logged on. -/
theorem one_identity (run : e.Reachable P) :
    (e.phase = .idle → e.turns ~ e.present) ∧ (e.Spotted P → e.OneEach) := by
  refine ⟨fun between => ?_, fun spotted => spotted.oneEach.2⟩
  have swept := run.swept
  simp only [Swept, between] at swept
  exact swept

theorem Reachable.runs (from_ : e.Reachable P) {as : List (Act A J)} (run : e.runs P as = some e') :
    e'.Reachable P := by
  induction as generalizing e with
  | nil => exact (Option.some.inj run) ▸ from_
  | cons a as ih =>
    obtain ⟨d, took, rest⟩ := Option.bind_eq_some_iff.mp run
    exact ih (from_.step took) rest

end Steps

/-- Is every message that is handed over beside a session of its identity seen to be a Logon? -/
def seesAll (e : Engine A J RX TX) : Bool :=
  (List.range e.conns.length).all fun i =>
    ((e.conns[i]?).bind fun m => m.conn.incoming).all fun b => e.othersOn i == 0 || isLogon b

theorem seen_of_seesAll (sees : e.seesAll) : e.Seen P := by
  intro i m b there incoming others off
  have within : i < e.conns.length := (List.getElem?_eq_some_iff.mp there).1
  have seen := List.all_eq_true.mp sees i (List.mem_range.mpr within)
  rw [there, Option.bind_some, incoming, Option.all_some, Bool.or_eq_true] at seen
  obtain none | logon := seen
  · exact absurd (eq_of_beq none) others
  · exact .inl logon

/-- A run that goes on as long as every such message is seen. -/
def runsSeeing [Application A] [Journal J] (P : Params) (e : Engine A J RX TX)
    (as : List (Act A J)) : Option (Engine A J RX TX) :=
  as.foldlM (fun e a => if e.seesAll then e.step P a else none) e

theorem spotted_of_runs [Application A] [Journal J] (from_ : e.Spotted P) {as : List (Act A J)}
    (run : e.runsSeeing P as = some e') : e'.Spotted P := by
  induction as generalizing e with
  | nil => exact (Option.some.inj run) ▸ from_
  | cons a as ih =>
    obtain ⟨d, took, rest⟩ := Option.bind_eq_some_iff.mp run
    obtain ⟨sees, took⟩ := Option.ite_none_right_eq_some.mp took
    exact ih (from_.step (seen_of_seesAll sees) took) rest

theorem Spotted.reachable [Application A] [Journal J] (run : e.Spotted P) : e.Reachable P := by
  induction run with
  | new => exact .new
  | step _ _ took ih => exact ih.step took

open Setting

/-- A connection of `T`, whose first message was read before. -/
def adding (bytes : Bytes) : Act Silent NoJournal :=
  .add (.fresh config) .silent .noJournal .disconnect bytes true

/-- A turn of a connection, up to the message that is judged. -/
def meeting (i : ℕ) : List (Act Silent NoJournal) :=
  [.next] ++ List.replicate 3 (.go i .go) ++ [.go i (.read .idle []), .go i .go]

/-- The rest of it, when the message is answered and the socket takes nothing. -/
def answering (i : ℕ) : List (Act Silent NoJournal) :=
  List.replicate 3 (.go i .go) ++ [.go i (.wrote .idle), .go i .go, .outcome]

/-- The second Logon of one identity is turned away, and its connection taken out. -/
def turningAway : List (Act Silent NoJournal) :=
  [adding (logon 1), adding (logon 1), .turn Setting.now 0] ++ meeting 0 ++ answering 0 ++
    meeting 1 ++ [.outcome, .next]

theorem one_identity_two : ∃ e : Engine Silent NoJournal 256 256,
    new.runsSeeing acceptor turningAway = some e ∧ e.phase = .idle ∧ e.turns ~ e.present ∧
      e.OneEach := by
  have ran : (new.runsSeeing acceptor turningAway :
      Option (Engine Silent NoJournal 256 256)).any fun e => e.phase == .idle := by
    decide +kernel
  obtain ⟨e, run, between⟩ := (Option.any_eq_true _ _).mp ran
  have spotted := spotted_of_runs .new run
  have one := one_identity spotted.reachable
  exact ⟨e, run, eq_of_beq between, one.1 (eq_of_beq between), one.2 spotted⟩

/-- A Logon of `T` that writes its type as `035=A`. -/
def padded : Bytes :=
  ascii "8=FIX.4.4" ++ [SOH] ++ ascii "9=54" ++ [SOH] ++ ascii "035=A" ++ [SOH] ++ ascii "49=T" ++
    [SOH] ++ ascii "56=S" ++ [SOH] ++ ascii "34=1" ++ [SOH] ++ ascii "52=19700102-00:00:00" ++
    [SOH] ++ ascii "98=0" ++ [SOH] ++ ascii "108=30" ++ [SOH] ++ ascii "10=252" ++ [SOH]

def lettingIn : List (Act Silent NoJournal) :=
  [adding (logon 1), adding padded, .turn Setting.now 0] ++ meeting 0 ++ answering 0 ++
    meeting 1 ++ answering 1

/-- Are there two connections, both logged on under one identity? -/
def bothOn (e : Engine Silent NoJournal 256 256) : Bool :=
  match e.conns with
  | [m, n] => m.ses.isLoggedOn && n.ses.isLoggedOn && m.ses.cfg.sameIdentityAs n.ses.cfg
  | _ => false

/-- The scan sees no Logon in it, and the session does. -/
theorem two_of_one : ¬ ∀ e : Engine Silent NoJournal 256 256, e.Reachable acceptor → e.OneEach := by
  intro one
  have ran : (new.runs acceptor lettingIn : Option (Engine Silent NoJournal 256 256)).any bothOn := by
    decide +kernel
  obtain ⟨e, run, both⟩ := (Option.any_eq_true _ _).mp ran
  have apart := one e (Reachable.new.runs run)
  rw [OneEach] at apart
  unfold bothOn at both
  split at both
  · rename_i m n two
    rw [two, List.pairwise_pair] at apart
    rw [Bool.and_eq_true, Bool.and_eq_true] at both
    exact apart ⟨both.1.1, both.1.2, both.2⟩
  · cases both

end Engine

end Fixbolt
