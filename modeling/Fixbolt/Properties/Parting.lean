import Fixbolt.Properties.Count
import Fixbolt.Session.Deeds

/-!
# The reset policy and the ending of a connection

* `reset_applied`: when the end of a connection is reported, the policy for the way it ended has
  been applied, and every Logout carried the number that was due;
* `noted_reason_keeps_counts`: the report of a connection that ended for a reason noted beforehand
  applies no policy.
-/

namespace Fixbolt

open History Relation

variable {P : Params}

/-! ### What the history says about an ending -/

namespace Event

/-- The slots of a Logout of this end. -/
def goodbye : Event → Option (List (ℕ × Bytes))
  | emitted (.templated .logout slots _) => some slots
  | _ => none

/-- A connection made, or a Logon accepted on it. -/
def opens : Event → Bool
  | called _ .connect => true
  | loggedOn => true
  | _ => false

/-- A Logout of the counterparty that is judged to be without fault. -/
def takesLogout (P : Params) : Event → Bool
  | judged s b => (s.arrives P b).any (·.isLogout) && (s.faultOn P b).isNone
  | _ => false

/-- The end of the connection is reported. -/
def reports : Event → Bool
  | called _ c => c.closes
  | _ => false

/-- A count is set by hand on a session that has ended. -/
def retouches : Event → Bool
  | called s (.setNextOut _) | called s (.setNextIn _) | called s (.sendSequenceReset _)
  | called s (.sendSequenceResetWith _) => decide (s.state = .disconnected)
  | _ => false

/-- An event that has nothing to say about an ending. -/
def plain : Event → Bool
  | called _ _ | judged _ _ | loggedOn => false
  | emitted (.templated .logout _ _) => false
  | _ => true

end Event

/-- What happened since the connection was made, or since the last Logon was accepted on it. -/
def sinceOpening (h : List Event) : List Event := since Event.opens h

/-- A Logout went out and one was accepted, whichever came first. -/
def exchanged (P : Params) (h : List Event) : Bool :=
  (sinceOpening h).any (·.goodbye.isSome) && (sinceOpening h).any (Event.takesLogout P)

/-- A Logon was accepted on this connection, its end was not reported, and no count was set by hand
after it. -/
def AwaitsReport (h : List Event) : Prop :=
  .loggedOn ∈ sinceConnect h ∧ ∀ e ∈ sinceConnect h, e.reports = false ∧ e.retouches = false

/-- The number the next message is due under: what the session had when the call began or the
message was judged, and what was spent since. A Logon with `141=Y` restarts it; the clock and the
reset policy are not to restart it before the goodbye. -/
def numberDue : List Event → ℕ
  | [] => 1
  | .called s _ :: _ => s.nextOut
  | .judged s _ :: _ => s.nextOut
  | .emitted e :: h => if e.possDup then numberDue h else wrapU32 (numberDue h + 1)
  | .restarted _ :: .judged _ _ :: _ => 1
  | _ :: h => numberDue h

/-- A Logout carries the number that was due. -/
def KeepsNumber (e : Event) (old : List Event) : Prop :=
  ∀ slots ∈ e.goodbye, slots.lookup 34 = some (renderU32 (numberDue old))

instance (e : Event) (old : List Event) : Decidable (KeepsNumber e old) :=
  inferInstanceAs (Decidable (∀ slots ∈ e.goodbye, _))

/-! ### The condition -/

/-- The step is one on which the code keeps to the policy. A report finds a session that has ended,
or no drop reason and no Logout of the counterparty named for one, or the counts at 1 already; a
tick finds no boundary passed when it shuts the window on a session that is logged on. -/
def KeepsPolicy (e : Event) (old : List Event) : Prop :=
  match e with
  | .called s c =>
    (c.closes → s.cfg.reset.onDisconnect → .loggedOn ∈ sinceConnect old →
      s.state = .disconnected ∨ s.nextOut = 1 ∧ s.nextIn = 1 ∨
        s.lastDropReason = none ∧ (c = .disconnectWith .peerLogout → s.cfg.reset.onLogout)) ∧
    ∀ n ∈ c.ticks, s.state = .loggedOn → s.cfg.schedule.contains n ∨ s.rolls n = false ∨
      s.nextOut = 1
  | _ => True

/-! ### The invariant -/

/-- A session that has ended was ended under the policy for its reason. -/
def Concluded (P : Params) (w : Scene) : Prop :=
  AwaitsReport w.hist → ∃ why, w.ses.lastDropReason = some why ∧
    (why = .peerLogout ↔ exchanged P w.hist) ∧
    (w.ses.endResets why → w.ses.nextOut = 1 ∧ w.ses.nextIn = 1)

/-- What holds of the ending of a connection between two calls. -/
structure Parting (P : Params) (w : Scene) : Prop where
  numbered : Always KeepsNumber w.hist
  apart : w.ses.state ≠ .disconnected → (sinceOpening w.hist).any (Event.takesLogout P) = false
  silent : w.ses.state = .awaitingLogon ∨ w.ses.state = .mustLogon ∨ w.ses.state = .loggedOn →
    (sinceOpening w.hist).any (·.goodbye.isSome) = false
  waits : w.ses.state = .loggingOut → (sinceOpening w.hist).any (·.goodbye.isSome) = true
  ended : w.ses.state = .disconnected → Concluded P w

/-- Two histories that say the same about the end of the connection. -/
structure SameEnd (P : Params) (h h' : List Event) : Prop where
  goodbye : (sinceOpening h').any (·.goodbye.isSome) = (sinceOpening h).any (·.goodbye.isSome)
  takes : (sinceOpening h').any (Event.takesLogout P) = (sinceOpening h).any (Event.takesLogout P)
  awaits : AwaitsReport h' → AwaitsReport h
  numbered : Always KeepsNumber h → Always KeepsNumber h'

namespace SameEnd

variable {h h' h'' : List Event}

theorem refl : SameEnd P h h := ⟨rfl, rfl, id, id⟩

theorem trans (a : SameEnd P h h') (b : SameEnd P h' h'') : SameEnd P h h'' :=
  ⟨b.goodbye.trans a.goodbye, b.takes.trans a.takes, a.awaits ∘ b.awaits,
    b.numbered ∘ a.numbered⟩

theorem exchanged (a : SameEnd P h h') : Fixbolt.exchanged P h' = Fixbolt.exchanged P h := by
  unfold Fixbolt.exchanged
  rw [a.goodbye, a.takes]

/-- An event that opens nothing, and neither sends nor takes a Logout. -/
theorem of_event {e : Event} (opens : e.opens = false) (goodbye : e.goodbye = none)
    (takes : e.takesLogout P = false) (on : e ≠ .loggedOn) : SameEnd P h (e :: h) := by
  have quiet : e.isConnect = false := by
    unfold Event.isConnect
    split
    · exact opens
    · rfl
  have hs : sinceOpening (e :: h) = e :: sinceOpening h := since_cons_of_neg opens h
  refine ⟨?_, ?_, ?_, ?_⟩
  · rw [hs, List.any_cons, goodbye]
    rfl
  · rw [hs, List.any_cons, takes]
    rfl
  · rintro ⟨logon, clean⟩
    rw [sinceConnect_cons quiet] at logon clean
    refine ⟨?_, fun x hx => clean x (List.mem_cons_of_mem _ hx)⟩
    exact (List.mem_cons.mp logon).resolve_left (Ne.symm on)
  · intro ok
    refine ⟨?_, ok⟩
    intro slots hslots
    rw [goodbye] at hslots
    cases hslots

theorem plain {e : Event} (he : e.plain) : SameEnd P h (e :: h) := by
  refine of_event ?_ ?_ ?_ ?_
  · cases e with
    | called s c => cases he
    | loggedOn => cases he
    | _ => rfl
  · unfold Event.goodbye
    split
    · cases he
    · rfl
  · cases e with
    | judged s b => cases he
    | _ => rfl
  · rintro rfl
    cases he

end SameEnd

theorem Event.plain_of_quiet {e : Event} (h : e.quiet) : e.plain := by
  cases e with
  | emitted e =>
    cases e with
    | templated which slots bytes =>
      cases which with
      | logout => cases h
      | _ => rfl
    | _ => rfl
  | called s c => cases h
  | judged s b => cases h
  | loggedOn => cases h
  | _ => rfl

namespace Parting

variable {w w' : Scene}

/-- Nothing about the ending changed. -/
theorem keep (p : Parting P w) (same : SameEnd P w.hist w'.hist)
    (state : w'.ses.state = w.ses.state)
    (stands : w.ses.state = .disconnected → AwaitsReport w'.hist → w'.ses.cfg = w.ses.cfg ∧
      (w'.ses.lastDropReason = w.ses.lastDropReason ∨ w.ses.lastDropReason = none) ∧
      (w'.ses.nextOut = w.ses.nextOut ∧ w'.ses.nextIn = w.ses.nextIn ∨
        w'.ses.nextOut = 1 ∧ w'.ses.nextIn = 1)) :
    Parting P w' where
  numbered := same.numbered p.numbered
  apart h := same.takes.trans (p.apart (state ▸ h))
  silent h := same.goodbye.trans (p.silent (state ▸ h))
  waits h := same.goodbye.trans (p.waits (state ▸ h))
  ended h awaits := by
    rw [state] at h
    obtain ⟨cfg, reason, counts⟩ := stands h awaits
    obtain ⟨why, hwhy, cause, reset⟩ := p.ended h (same.awaits awaits)
    refine ⟨why, ?_, same.exchanged ▸ cause, ?_⟩
    · rcases reason with reason | none_
      · exact reason.trans hwhy
      · rw [hwhy] at none_
        cases none_
    · intro policy
      rcases counts with ⟨out, in_⟩ | counts
      · rw [out, in_]
        refine reset ?_
        simpa only [Session.endResets, cfg] using policy
      · exact counts

/-- A session that is up changed, and is still up. -/
theorem keepUp (p : Parting P w) (same : SameEnd P w.hist w'.hist)
    (state : w'.ses.state = w.ses.state) (up : w.ses.state ≠ .disconnected) : Parting P w' :=
  p.keep same state fun h _ => absurd h up

end Parting

theorem endSession_hist_same (w : Scene) (why : DropReason) :
    SameEnd P w.hist (w.endSession why).hist := by
  unfold Scene.endSession
  split
  · exact .trans (.plain (e := .ended why) rfl) (.plain rfl)
  · exact .plain rfl

/-- A session that ends, for a reason that fits what was exchanged. -/
theorem Parting.endSession {w : Scene} {why : DropReason} (numbered : Always KeepsNumber w.hist)
    (cause : why = .peerLogout ↔ exchanged P w.hist) : Parting P (w.endSession why) := by
  have same := endSession_hist_same (P := P) w why
  have state := w.endSession_state why
  have ses : (w.endSession why).ses = w.ses.endWith why := by
    unfold Scene.endSession
    split <;> rfl
  refine ⟨same.numbered numbered, fun h => absurd state h, fun h => ?_, fun h => ?_, fun _ _ => ?_⟩
  · rw [state] at h
    simp at h
  · rw [state] at h
    cases h
  · refine ⟨why, by rw [ses]; rfl, same.exchanged ▸ cause, ?_⟩
    rw [ses]
    intro policy
    have policy : w.ses.endResets why := policy
    simp [Session.endWith, policy]

theorem Parting.deed {w w' : Scene} (p : Parting P w) (d : Deed P False K w w') : Parting P w' := by
  cases d with
  | adjusted same hist count =>
    have state : w'.ses.state = w.ses.state := congrArg (·.2.1) same
    refine p.keep ?_ state fun dead _ => ⟨congrArg (·.1) same, .inl (congrArg (·.2.2.1) same),
      .inl ⟨congrArg (·.2.2.2) same, count dead⟩⟩
    rcases hist with hist | ⟨e, quiet, -, hist⟩ <;> rw [hist]
    · exact .refl
    · exact .plain (Event.plain_of_quiet quiet)
  | @said _ which extra ordinary up sent =>
    obtain ⟨bytes, hh⟩ := (Scene.send_sent sent).hist
    refine p.keepUp ?_ (Scene.send_state sent) up
    rw [hh]
    refine .plain ?_
    cases which with
    | logout => exact absurd rfl ordinary.1
    | _ => rfl
  | restarted now =>
    exact p.keep (.plain rfl) rfl fun _ _ => ⟨rfl, .inl rfl, .inr ⟨rfl, rfl⟩⟩
  | noted why up =>
    refine p.keepUp .refl ?_ up
    simp only [Scene.upd, Session.noteDropReason]
    split <;> rfl
  | @spoke t owes same =>
    have state : t.state = .awaitingLogon := congrArg (·.2.1) same
    refine ⟨p.numbered, fun _ => p.apart (by rw [owes]; decide), fun _ => p.silent (by simp [owes]),
      fun h => ?_, fun h => ?_⟩
    · have h : t.state = .loggingOut := h
      rw [state] at h
      cases h
    · have h : t.state = .disconnected := h
      rw [state] at h
      cases h
  | @loggedOn t alive same =>
    have state : t.state = .loggedOn := congrArg (·.2.1) same
    have opened : sinceOpening (.loggedOn :: w.hist) = [] := since_cons_of_pos rfl _
    refine ⟨⟨(by rintro _ ⟨⟩), p.numbered⟩, fun _ => by rw [opened]; rfl, fun _ => by rw [opened]; rfl,
      fun h => ?_, fun h => ?_⟩
    · have h : t.state = .loggingOut := h
      rw [state] at h
      cases h
    · have h : t.state = .disconnected := h
      rw [state] at h
      cases h
  | @ended why up peer =>
    refine .endSession p.numbered (iff_of_false (fun h => (peer h).elim) ?_)
    simp [exchanged, p.apart up]
/-! ### Goodbyes -/

/-- The next message goes out under the number that is due. -/
def Due (w : Scene) : Prop := w.ses.Alive → w.ses.nextOut = numberDue w.hist

theorem numberDue_quiet {e : Event} {h : List Event} (he : e.quiet) :
    numberDue (e :: h) = numberDue h := by
  cases e with
  | emitted e =>
    have dup : e.possDup = true := he
    simp only [numberDue, dup, if_true]
  | called s c => cases he
  | judged s b => cases he
  | loggedOn => cases he
  | restarted s => cases he
  | ended why => cases he
  | _ => rfl

theorem Due.deed {w w' : Scene} (due : Due w) (d : Deed P False K w w') : Due w' := by
  intro alive
  cases d with
  | adjusted same hist count =>
    have state : w'.ses.state = w.ses.state := congrArg (·.2.1) same
    have out : w'.ses.nextOut = w.ses.nextOut := congrArg (·.2.2.2) same
    rw [Session.Alive, state] at alive
    rw [out, due alive]
    rcases hist with hist | ⟨e, quiet, -, hist⟩ <;> rw [hist]
    exact (numberDue_quiet quiet).symm
  | @said _ which extra ordinary up sent =>
    obtain ⟨ledger, ⟨bytes, hh⟩, -⟩ := Scene.send_sent sent
    have out : w'.ses.nextOut = wrapU32 (w.ses.nextOut + 1) := congrArg Ledger.nextOut ledger
    have fresh : (Emission.templated which (w.ses.slotsFor none extra) bytes).possDup = false := by
      cases which with
      | gapFill => exact absurd rfl ordinary.2
      | _ => rfl
    rw [Session.Alive, Scene.send_state sent] at alive
    rw [hh, out, due alive, numberDue, fresh]
    rfl
  | restarted now =>
    have number : numberDue (.restarted (w.ses.restartCounts) :: w.hist) = 1 := by
      rw [now]
      rfl
    exact number.symm
  | noted why up =>
    have same : (w.ses.noteDropReason why).state = w.ses.state ∧
        (w.ses.noteDropReason why).nextOut = w.ses.nextOut := by
      unfold Session.noteDropReason
      split <;> exact ⟨rfl, rfl⟩
    exact same.2.trans (due ⟨up, by rw [← same.1]; exact alive.2⟩)
  | @spoke t owes same =>
    have out : t.nextOut = w.ses.nextOut := congrArg (·.2.2.2) same
    exact out.trans (due ⟨by rw [owes]; decide, by rw [owes]; decide⟩)
  | @loggedOn t up same =>
    have out : t.nextOut = w.ses.nextOut := congrArg (·.2.2.2) same
    exact out.trans (due up)
  | ended up peer => exact absurd alive (w.endSession_dead _)
/-- A Logout of this end in the history. -/
theorem sinceOpening_logout (slots : List (ℕ × Bytes)) (bytes : Bytes) (h : List Event) :
    sinceOpening (.emitted (.templated .logout slots bytes) :: h) =
      .emitted (.templated .logout slots bytes) :: sinceOpening h :=
  since_cons_of_neg rfl h

/-- A Logout that was sent carries the number that was due. -/
theorem keepsNumber_sent {w w' : Scene} {extra : List (ℕ × Bytes)} (due : Due w)
    (alive : w.ses.Alive) (ok : Always KeepsNumber w.hist)
    (sent : w.send P .logout extra = some w') : Always KeepsNumber w'.hist := by
  obtain ⟨bytes, hh⟩ := (Scene.send_sent sent).hist
  rw [hh]
  refine ⟨?_, ok⟩
  rintro slots ⟨⟩
  rw [Session.slotsFor_number, due alive]

/-- Saying goodbye, under the number that is due. -/
theorem Parting.leaving {w w' : Scene} (p : Parting P w) (due : Due w) (d : Leaving P False w w') :
    Parting P w' ∧ Due w' := by
  cases d with
  | @cut t extra alive same state =>
    have dead : ¬ t.Alive := fun h => h.2 state
    have numbered : Always KeepsNumber (w.trySend P .logout extra).hist := by
      unfold Scene.trySend
      cases h : w.send P .logout extra with
      | none => exact p.numbered
      | some v => exact keepsNumber_sent due alive p.numbered h
    have apart : (sinceOpening (w.trySend P .logout extra).hist).any (Event.takesLogout P) =
        false := by
      unfold Scene.trySend
      cases h : w.send P .logout extra with
      | none => exact p.apart alive.1
      | some v =>
        obtain ⟨bytes, hh⟩ := (Scene.send_sent h).hist
        rw [Option.getD_some, hh, sinceOpening_logout, List.any_cons, p.apart alive.1]
        rfl
    refine ⟨⟨numbered, fun _ => apart, fun h => ?_, fun h => ?_, fun h => ?_⟩, fun h => absurd h dead⟩
    · simp [state] at h
    · simp [state] at h
    · simp [state] at h
  | @waits v extra live sent =>
    have alive : w.ses.Alive := ⟨by rw [live]; decide, by rw [live]; decide⟩
    obtain ⟨ledger, ⟨bytes, hh⟩, -⟩ := Scene.send_sent sent
    have out : v.ses.nextOut = wrapU32 (w.ses.nextOut + 1) := congrArg Ledger.nextOut ledger
    have numbered : Always KeepsNumber v.hist := keepsNumber_sent due alive p.numbered sent
    refine ⟨⟨numbered, fun _ => ?_, fun h => ?_, fun _ => ?_, fun h => ?_⟩, fun _ => ?_⟩
    · simp only [Scene.upd, hh, sinceOpening_logout, List.any_cons, p.apart alive.1]
      rfl
    · simp [Scene.upd] at h
    · simp only [Scene.upd, hh, sinceOpening_logout, List.any_cons]
      rfl
    · cases h
    · simp only [Scene.upd, hh, out, due alive, numberDue, Emission.possDup]
      rfl
  | answers peer => exact peer.elim

theorem Parting.acts {w w' : Scene} (p : Parting P w) (due : Due w)
    (acts : ReflTransGen (Act P False K) w w') : Parting P w' ∧ Due w' := by
  induction acts with
  | refl => exact ⟨p, due⟩
  | tail _ act ih =>
    cases act with
    | deed d => exact ⟨ih.1.deed d, ih.2.deed d⟩
    | leaving d => exact ih.1.leaving ih.2 d

theorem Parting.deeds {w w' : Scene} (p : Parting P w) (deeds : ReflTransGen (Deed P False K) w w') :
    Parting P w' := by
  induction deeds with
  | refl => exact p
  | tail _ d ih => exact ih.deed d

/-! ### Judging -/

section Judging

variable {A J : Type} [Application A] [Journal J] {u : World A J} {b : Bytes}

omit [Application A] in
theorem Parting.does {v : World A J} (p : Parting P u.toScene) (due : Due u.toScene)
    (d : Does P False u v) : Parting P v.toScene ∧ Due v.toScene := by
  cases d with
  | act h => exact p.acts due (.single h)
  | @wrote e bytes up fresh =>
    have dup : e.possDup = false := by
      rcases fresh with rfl | rfl <;> rfl
    have plain : (Event.emitted e).plain := by
      rcases fresh with rfl | rfl <;> rfl
    refine ⟨p.keepUp (.trans (.plain rfl) (.plain plain)) rfl up, fun alive => ?_⟩
    have number : ∀ k, numberDue (.emitted e :: .stored u.ses.nextOut bytes k :: u.hist) =
        wrapU32 (numberDue u.hist + 1) := fun k => by simp [numberDue, dup]
    rw [number, ← due alive]
    rfl

/-- A Logout without fault is answered, or answers. -/
theorem judge_logout {m : Inbound} (arr : u.ses.arrives P b = some m) (logout : m.isLogout)
    (fault : u.ses.faultOn P b = none) :
    World.seen (u.judge P b) = Scene.judgeLogout P
      ⟨(u.ses.noteSkew (viewOf P b)).consume m, .judged u.ses b :: u.hist⟩ := by
  have logon := (Inbound.eq_of_isLogout logout).1
  have skips : m.skipsSequencing = true := by simp [Inbound.skipsSequencing, logout]
  rw [World.judge_of_arrives arr, fault]
  unfold World.judgeSequence
  simp only [Scene.restartOn, logon, Bool.false_and, Inbound.checkTooLow, Inbound.checkTooHigh,
    skips, Bool.not_true, Bool.false_eq_true, false_and, if_false]
  unfold World.judgeInOrder
  simp only [World.judgeAccepted, logon, logout, Bool.false_eq_true, if_false, if_true]
  rfl

/-- What holds after a message was judged, whatever it is. -/
theorem Parting.judgeOrEnd (p : Parting P u.toScene) (alive : u.ses.Alive) :
    Parting P (u.judgeOrEnd P b).1.toScene := by
  have judged : Due ⟨u.ses, .judged u.ses b :: u.hist⟩ := fun _ => rfl
  cases takes : (Event.judged u.ses b).takesLogout P with
  | false =>
    have start : Parting P ⟨u.ses, .judged u.ses b :: u.hist⟩ :=
      p.keepUp (.of_event rfl rfl takes nofun) rfl alive.1
    have gives : ReflTransGen (Does P False) _ (World.orEnd (u.judge P b)) :=
      World.judge_gives b alive fun m arr logout fault => by
        simp [Event.takesLogout, arr, logout, fault] at takes
    rw [World.judgeOrEnd_fst]
    generalize World.orEnd (u.judge P b) = v at gives ⊢
    suffices h : Parting P v.toScene ∧ Due v.toScene from h.1
    induction gives with
    | refl => exact ⟨start, judged⟩
    | tail _ d ih => exact ih.1.does ih.2 d
  | true =>
    have seen := congrArg (·.1) (World.judgeOrEnd_eq (P := P) u b)
    rw [show (u.judgeOrEnd P b).1.toScene = _ from seen]
    obtain ⟨arrives, fault⟩ := Bool.and_eq_true_iff.mp takes
    obtain ⟨m, arr, logout⟩ := (Option.any_eq_true _ _).mp arrives
    have fault := Option.isNone_iff_eq_none.mp fault
    rw [judge_logout arr logout fault]
    have same : ((u.ses.noteSkew (viewOf P b)).consume m).standing = u.ses.standing := by
      unfold Session.consume Session.noteSkew
      split <;> split <;> rfl
    generalize (u.ses.noteSkew (viewOf P b)).consume m = t at same ⊢
    have state : t.state = u.ses.state := congrArg (·.2.1) same
    have out : t.nextOut = u.ses.nextOut := congrArg (·.2.2.2) same
    have numbered : Always KeepsNumber (.judged u.ses b :: u.hist) := ⟨nofun, p.numbered⟩
    have opening : sinceOpening (.judged u.ses b :: u.hist) =
        .judged u.ses b :: sinceOpening u.hist := since_cons_of_neg rfl _
    unfold Scene.judgeLogout
    split
    · rename_i waiting
      refine .endSession numbered (iff_of_true rfl ?_)
      have said := p.waits (state ▸ waiting)
      simp [exchanged, opening, takes, said]
    · rename_i waiting
      have silent := p.silent (by
        have dead := alive
        unfold Session.Alive at dead
        rw [← state] at dead ⊢
        cases h : t.state <;> simp_all)
      have alone : exchanged P (.judged u.ses b :: u.hist) = false := by
        rw [exchanged, opening, List.any_cons, silent]
        rfl
      split
      · exact .endSession numbered (iff_of_false (by decide) (by simp [alone]))
      · rename_i v sent
        obtain ⟨bytes, hh⟩ := (Scene.send_sent sent).hist
        have due : Due ⟨t, .judged u.ses b :: u.hist⟩ := fun _ => out
        have up : t.Alive := by
          rw [Session.Alive, state]
          exact alive
        refine .endSession (keepsNumber_sent due up numbered sent) (iff_of_true rfl ?_)
        simp [hh, exchanged, sinceOpening_logout, opening, takes, Event.goodbye]

theorem Parting.drain (rounds : ℕ) (u : World A J) (p : Parting P u.toScene)
    (alive : u.ses.Alive) :
    Parting P (u.drain P rounds).1.toScene ∧
      ((u.drain P rounds).2 = .up → (u.drain P rounds).1.ses.Alive) := by
  induction rounds generalizing u with
  | zero => exact ⟨p, fun _ => alive⟩
  | succ rounds ih =>
    unfold World.drain
    split
    · exact ⟨p, fun _ => alive⟩
    · rename_i i hi
      generalize ((u.ses.queue[i]?.map (·.bytes)).getD []) = b
      have freed : Parting P (u.release i).toScene :=
        p.deed (K := NoResend) (.adjusted rfl (.inl rfl))
      have next : Parting P ((u.release i).judgeOrEnd P b).1.toScene := freed.judgeOrEnd alive
      have link := World.judgeOrEnd_alive (P := P) (u := u.release i) b alive
      generalize (u.release i).judgeOrEnd P b = r at next link ⊢
      obtain ⟨v, l⟩ := r
      cases l with
      | dropped => exact ⟨next, nofun⟩
      | up => exact ih v next (link.mp rfl)

theorem Parting.receivedInner (p : Parting P u.toScene) :
    Parting P (u.receivedInner P b).1.toScene := by
  unfold World.receivedInner
  split
  · exact p
  · rename_i up
    have alive : u.ses.Alive := not_or.mp up
    have next := p.judgeOrEnd (b := b) alive
    have link := World.judgeOrEnd_alive (P := P) b alive
    generalize u.judgeOrEnd P b = r at next link ⊢
    obtain ⟨v, l⟩ := r
    cases l with
    | dropped => exact next
    | up =>
      have rest := Parting.drain queued v next (link.mp rfl)
      dsimp only
      generalize v.drain P queued = q at rest ⊢
      exact rest.1.deeds (Scene.advanceReplay_deeds q.1.journal q.2 fun up => (rest.2 up).1)

end Judging

/-! ### Calls -/

section Calls

variable {A J : Type} [Application A] [Journal J] {w : World A J}

/-- A call begins. -/
theorem Parting.called {w : Scene} {c : Call} (p : Parting P w) (other : c ≠ .connect) :
    Parting P (w.log (.called w.ses c)) := by
  have opens : (Event.called w.ses c).opens = false := by
    cases c with
    | connect => exact absurd rfl other
    | _ => rfl
  exact p.keep (.of_event opens rfl rfl nofun) rfl fun _ _ => ⟨rfl, .inl rfl, .inl ⟨rfl, rfl⟩⟩

/-- The end of the connection was reported in this call, or a count was set after it. -/
theorem not_awaits {e : Event} {h : List Event} (connect : e.isConnect = false)
    (he : e.reports = true ∨ e.retouches = true) : ¬ AwaitsReport (e :: h) := by
  rintro ⟨-, clean⟩
  rw [sinceConnect_cons connect] at clean
  obtain ⟨reports, retouches⟩ := clean e (by simp)
  simp [reports, retouches] at he

theorem Parting.connect {w : Scene} (p : Parting P w) :
    Parting P ((w.log (.called w.ses .connect)).connect P).1 := by
  have state : (((w.log (.called w.ses .connect)).connect P).1.ses.state =
      if P.speaksFirst then .mustLogon else .awaitingLogon) := by
    unfold Scene.connect
    dsimp only
    split <;> rfl
  have up : ((w.log (.called w.ses .connect)).connect P).1.ses.state ≠ .disconnected ∧
      ((w.log (.called w.ses .connect)).connect P).1.ses.state ≠ .loggingOut := by
    rw [state]
    split <;> decide
  have numbered : Always KeepsNumber (.called w.ses .connect :: w.hist) := ⟨nofun, p.numbered⟩
  have opened : sinceOpening (.called w.ses .connect :: w.hist) = [] := since_cons_of_pos rfl _
  have same : SameEnd P (.called w.ses .connect :: w.hist)
      ((w.log (.called w.ses .connect)).connect P).1.hist := by
    unfold Scene.connect
    dsimp only
    split
    · exact .plain rfl
    · exact .refl
  refine ⟨same.numbered numbered, fun _ => ?_, fun _ => ?_, fun h => absurd h up.2,
    fun h => absurd h up.1⟩
  · rw [same.takes, opened]
    rfl
  · rw [same.goodbye, opened]
    rfl

theorem Parting.closed {w : Scene} {c : Call} (p : Parting P w) (closes : c.closes)
    (why : DropReason) : Parting P ((w.log (.called w.ses c)).disconnectWith why).1 := by
  have other : c ≠ .connect := by
    rintro rfl
    cases closes
  have q := p.called other
  have quiet : (Event.called w.ses c).isConnect = false := by
    cases c with
    | connect => exact absurd rfl other
    | _ => rfl
  have reported : ¬ AwaitsReport (.called w.ses c :: w.hist) := not_awaits quiet (.inl closes)
  unfold Scene.disconnectWith
  split
  · have same := endSession_hist_same (P := P) (w.log (.called w.ses c)) why
    have state := (w.log (.called w.ses c)).endSession_state why
    refine ⟨same.numbered q.numbered, fun h => absurd state h, fun h => ?_, fun h => ?_,
      fun _ awaits => absurd (same.awaits awaits) reported⟩
    · simp [state] at h
    · simp [state] at h
  · exact ⟨q.numbered, fun h => absurd rfl h, fun h => by simp [Scene.upd] at h, nofun,
      fun _ awaits => absurd awaits reported⟩

/-- The top of a tick: the clock is set, and a boundary that passed restarts the counts. -/
theorem Parting.rolled {w v : Scene} {n : ℕ} (p : Parting P w) (r : Scene.Rolled w v n) :
    Parting P v := by
  rcases r.counts with ⟨-, out, in_, hist⟩ | ⟨-, out, in_, hist⟩
  · exact p.keep (hist ▸ .plain rfl) r.state fun _ _ => ⟨r.cfg, .inl r.reason, .inr ⟨out, in_⟩⟩
  · exact p.keep (hist ▸ .refl) r.state fun _ _ => ⟨r.cfg, .inl r.reason, .inl ⟨out, in_⟩⟩

/-- One tick, when the boundary check leaves the number of a goodbye as it is. -/
theorem Parting.ticked {w : Scene} {s : Session} {c : Call} {h : List Event} {n : ℕ}
    (p : Parting P w) (hist : w.hist = .called s c :: h) (found : w.ses.nextOut = s.nextOut)
    (keeps : w.ses.state = .loggedOn → w.ses.cfg.schedule.contains n ∨ w.ses.rolls n = false ∨
      s.nextOut = 1) : Parting P (w.tickInner P n).1 := by
  have r := w.roll_rolled n
  unfold Scene.tickInner
  generalize (w.upd fun s => { s with nowMs := n }).roll n = v at r ⊢
  have q := p.rolled r
  by_cases shut : v.ses.state = .loggedOn ∧ v.ses.cfg.schedule.contains n = false
  · obtain ⟨live, closed⟩ := shut
    have still := keeps (r.state ▸ live)
    rw [← r.cfg, closed] at still
    have due : Due v := by
      intro _
      rcases r.counts with ⟨rolls, out, -, hv⟩ | ⟨-, out, -, hv⟩
      · rw [rolls] at still
        have one : s.nextOut = 1 := by simpa using still
        have number : numberDue (.restarted v.ses :: .called s c :: h) = s.nextOut := rfl
        rw [out, hv, hist, number, one]
      · have number : numberDue (.called s c :: h) = s.nextOut := rfl
        rw [out, hv, hist, found, number]
    unfold Scene.tickRolled
    rw [if_pos ⟨live, by simp [closed]⟩]
    exact (q.leaving due (Scene.closeSchedule_leaves live)).1
  · refine q.deeds (K := NoResend) (Scene.tickRolled_deeds n fun live => ?_)
    by_contra closed
    exact shut ⟨live, by simpa using closed⟩

/-- A count is set by hand: between a restart and a report nothing is said about it. -/
theorem Parting.touched {w w' : Scene} (p : Parting P w) (same : SameEnd P w.hist w'.hist)
    (state : w'.ses.state = w.ses.state)
    (touched : w.ses.state = .disconnected → ¬ AwaitsReport w'.hist) : Parting P w' :=
  p.keep same state fun dead awaits => absurd awaits (touched dead)

theorem Parting.sequenceReset {w : Scene} {c : Call} {n : ℕ} (p : Parting P w)
    (announces : c.announces = some n) :
    Parting P ((w.log (.called w.ses c)).sendSequenceReset P n).1 := by
  have quiet : (Event.called w.ses c).isConnect = false := by
    cases c with
    | connect => cases announces
    | _ => rfl
  have q := p.called (c := c) (by rintro rfl; cases announces)
  have touched : w.ses.state = .disconnected → ¬ AwaitsReport (.called w.ses c :: w.hist) :=
    fun dead => not_awaits quiet (.inr (by cases c <;> simp_all [Call.announces, Event.retouches]))
  unfold Scene.sendSequenceReset
  split
  · exact q
  · split
    · exact q
    · rename_i v sent
      obtain ⟨bytes, rfl⟩ := Scene.sendAs_eq sent
      have same : ∀ e : Event, e.plain → SameEnd P (.called w.ses c :: w.hist)
          (e :: .called w.ses c :: w.hist) := fun e => .plain
      exact q.touched (same _ rfl) rfl fun dead awaits => touched dead ((same _ rfl).awaits awaits)

theorem Parting.tickedAny {w : Scene} {c : Call} {n : ℕ} (p : Parting P w)
    (keeps : KeepsPolicy (.called w.ses c) w.hist) (ticks : c.ticks = some n) (sub : ℕ)
    (resolution : Precision) :
    Parting P (((w.log (.called w.ses c)).setResolution sub resolution).tickInner P n).1 := by
  have q := p.called (c := c) (by rintro rfl; cases ticks)
  have set : Parting P ((w.log (.called w.ses c)).setResolution sub resolution) :=
    q.deed (K := NoResend) (.adjusted rfl (.inl rfl))
  exact set.ticked rfl rfl fun live => keeps.2 n ticks live

omit [Application A] in
theorem Parting.told {r : World A J × Link} (p : Parting P r.1.toScene) :
    Parting P (World.thenTell r).1.toScene := by
  rwa [World.thenTell, World.tellJournal_scene]

omit [Application A] in
theorem Parting.tickedWith {c : Call} {n : ℕ} (p : Parting P w.toScene)
    (keeps : KeepsPolicy (.called w.ses c) w.hist) (ticks : c.ticks = some n) (sub : ℕ)
    (resolution : Precision) :
    Parting P (World.thenTell (({ w with
      toScene := (w.log (.called w.ses c)).setResolution sub resolution } :
        World A J).tickAfterInner P n)).1.toScene := by
  have ticked := p.tickedAny keeps ticks sub resolution
  refine Parting.told (ticked.deeds (Scene.advanceReplay_deeds _ _ fun up => ?_))
  exact Scene.tickRolled_up up

theorem Parting.said {w : Scene} {which : Which} {extra : List (ℕ × Bytes)} (p : Parting P w)
    (ordinary : which ≠ .logout ∧ which ≠ .gapFill) :
    Parting P (w.sendOrdered P which extra).1 :=
  p.deeds (K := NoResend) (Scene.sendOrdered_deeds which extra ordinary)

theorem Parting.logoutNow {w : Scene} (p : Parting P w) (due : Due w) (text : Bytes) :
    Parting P (w.logoutNow P text).1 := by
  by_cases alive : w.ses.Alive
  · exact (p.acts (K := NoResend) due (Scene.logoutNow_runs text alive)).1
  · unfold Scene.logoutNow
    rw [if_pos (by simpa [Session.Alive, or_iff_not_imp_left] using alive)]
    exact p

theorem Parting.noted {w : Scene} (p : Parting P w) (why : DropReason) :
    Parting P (w.upd (·.noteDropReason why)) := by
  unfold Scene.upd Session.noteDropReason
  dsimp only
  split
  · rename_i none_
    exact p.keep .refl rfl fun _ _ => ⟨rfl, .inr none_, .inl ⟨rfl, rfl⟩⟩
  · exact p

omit [Application A] in
theorem Parting.originated (p : Parting P w.toScene) (msg : Bytes) :
    Parting P (w.sendApplication P msg).1.toScene := by
  unfold World.sendApplication
  split
  · exact p
  · rename_i live
    split
    · exact p
    · dsimp only
      split
      · exact p
      · rw [World.tellJournal_scene]
        exact p.keepUp (.trans (.plain rfl) (.plain rfl)) rfl (by rw [not_not.mp live]; decide)

/-- A call keeps what is known of endings. -/
theorem perform_parting (w : World A J) (c : Call) (p : Parting P w.toScene)
    (keeps : KeepsPolicy (.called w.ses c) w.hist) : Parting P (w.perform P c).1.toScene := by
  have due : Due (w.log (.called w.ses c)) := fun _ => rfl
  have q : c ≠ .connect → Parting P (w.log (.called w.ses c)) := p.called
  unfold World.perform
  cases c with
  | connect => exact p.connect
  | disconnect => exact p.closed rfl _
  | disconnectWith why => exact p.closed rfl why
  | noteDropReason why => exact (q nofun).noted why
  | tick n => exact p.tickedAny keeps rfl 0 .millis
  | tickAt n sub => exact p.tickedAny keeps rfl sub .nanos
  | tickWith n => exact p.tickedWith keeps rfl 0 .millis
  | tickAtWith n sub => exact p.tickedWith keeps rfl sub .nanos
  | received b =>
    have alone := Parting.receivedInner (A := Silent) (J := NoJournal) (b := b)
      (u := ⟨w.log (.called w.ses (.received b)), .silent, .noJournal⟩) (q nofun)
    rwa [← World.receivedWith_scene] at alone
  | receivedWith b =>
    have next := Parting.receivedInner (b := b)
      (u := { w with hist := .called w.ses (.receivedWith b) :: w.hist }) (q nofun)
    rwa [← World.receivedWith_scene] at next
  | sendApplication msg =>
    exact Parting.originated (w := { w with hist := .called w.ses (.sendApplication msg) :: w.hist })
      (q nofun) msg
  | sendHeartbeat => exact @Parting.said _ _ .heartbeat _ (q nofun) (by decide)
  | sendTestRequest id => exact @Parting.said _ _ .testRequest _ (q nofun) (by decide)
  | sendResendRequest from_ upTo => exact @Parting.said _ _ .resendRequest _ (q nofun) (by decide)
  | beginLogout text => exact ((q nofun).acts (K := NoResend) due (Scene.beginLogout_runs text)).1
  | beginLogoutWith text => exact .told ((q nofun).acts (K := NoResend) due (Scene.beginLogout_runs text)).1
  | logoutNow text => exact (q nofun).logoutNow due text
  | logoutNowWith text => exact .told ((q nofun).logoutNow due text)
  | setNextOut n =>
    have touched : w.ses.state = .disconnected →
        ¬ AwaitsReport (.called w.ses (.setNextOut n) :: w.hist) := fun dead =>
      not_awaits rfl (.inr (by simp [Event.retouches, dead]))
    unfold World.dispatch World.lift Scene.setNextOut
    dsimp only
    split
    · exact q nofun
    · exact (q nofun).touched .refl rfl touched
  | setNextIn n =>
    have touched : w.ses.state = .disconnected →
        ¬ AwaitsReport (.called w.ses (.setNextIn n) :: w.hist) := fun dead =>
      not_awaits rfl (.inr (by simp [Event.retouches, dead]))
    unfold World.dispatch World.lift Scene.setNextIn
    dsimp only
    split
    · exact q nofun
    · exact (q nofun).touched .refl rfl touched
  | sendSequenceReset n => exact p.sequenceReset rfl
  | sendSequenceResetWith n => exact .told (p.sequenceReset rfl)

theorem initial_parting {s : Session} (h : World.Initial P s) : Parting P ⟨s, []⟩ := by
  have state : s.state = .disconnected := by cases h <;> rfl
  refine ⟨trivial, fun _ => rfl, fun _ => rfl, fun h => ?_, fun _ awaits => ?_⟩
  · rw [state] at h
    cases h
  · cases awaits.1

theorem reachable_parting (h : World.Reachable P w) (keeps : Always KeepsPolicy w.hist) :
    Parting P w.toScene := by
  induction h with
  | init hs => exact initial_parting hs
  | @step w _ c fits ih =>
    rw [w.perform_hist (P := P) c fits] at keeps
    have now := keeps.of_suffix
    exact perform_parting w c (ih now.2) now.1

theorem disconnectWith_counts {w : Scene} {why : DropReason}
    (h : w.ses.nextOut = 1 ∧ w.ses.nextIn = 1 ∨
      w.ses.lastDropReason = none ∧ w.ses.endResets why = true) :
    (w.disconnectWith why).1.ses.nextOut = 1 ∧ (w.disconnectWith why).1.ses.nextIn = 1 := by
  have ended : (w.endSession why).ses = w.ses.endWith why := by
    unfold Scene.endSession
    split <;> rfl
  unfold Scene.disconnectWith
  rcases h with ⟨out, in_⟩ | ⟨none_, resets⟩
  · split
    · rw [ended]
      simp [Session.endWith, out, in_]
    · exact ⟨out, in_⟩
  · rw [if_pos none_, ended]
    simp [Session.endWith, resets]

/-- **The reset policy is applied on every ending.** In every run whose steps keep to the policy,
when the end of a connection on which a Logon was accepted is reported, both counts are at 1 if the
policy for the way it ended says so, and every Logout carried the number that was due. -/
theorem reset_applied (h : World.Reachable P w) {c : Call} (fits : c.fits) (closes : c.closes)
    (keeps : Always KeepsPolicy (w.perform P c).1.hist) (awaits : AwaitsReport w.hist)
    (policy : if exchanged P w.hist then w.ses.cfg.reset.onLogout
      else w.ses.cfg.reset.onDisconnect) :
    ((w.perform P c).1.ses.nextOut = 1 ∧ (w.perform P c).1.ses.nextIn = 1) ∧
      ∀ new slots bytes old,
        (w.perform P c).1.hist = new ++ .emitted (.templated .logout slots bytes) :: old →
          slots.lookup 34 = some (renderU32 (numberDue old)) := by
  have now : Always KeepsPolicy (.called w.ses c :: w.hist) := by
    rw [w.perform_hist (P := P) c fits] at keeps
    exact keeps.of_suffix
  have before := reachable_parting h now.2
  have after := perform_parting w c before now.1
  refine ⟨?_, fun new slots bytes old hist => ?_⟩
  · -- the reason the report gives
    obtain ⟨why, named, reported⟩ : ∃ why, (why = .peerLogout → c = .disconnectWith .peerLogout) ∧
        (w.perform P c).1.toScene = ((w.log (.called w.ses c)).disconnectWith why).1 := by
      cases c with
      | disconnect => exact ⟨.transportClosed, nofun, rfl⟩
      | disconnectWith why => exact ⟨why, fun h => by rw [h], rfl⟩
      | _ => cases closes
    rw [show (w.perform P c).1.ses = _ from congrArg Scene.ses reported]
    by_cases dead : w.ses.state = .disconnected
    · obtain ⟨ended, reason, cause, reset⟩ := before.ended dead awaits
      refine disconnectWith_counts (.inl (reset ?_))
      unfold Session.endResets
      by_cases exch : exchanged P w.hist = true
      · rw [if_pos (cause.mpr exch)]
        rwa [if_pos exch] at policy
      · rw [if_neg (fun h => exch (cause.mp h))]
        rwa [if_neg exch] at policy
    · have alone : exchanged P w.hist = false := by simp [exchanged, before.apart dead]
      rw [alone] at policy
      obtain dead' | counts | ⟨none_, peer⟩ := now.1.1 closes policy awaits.1
      · exact absurd dead' dead
      · exact disconnectWith_counts (.inl counts)
      · refine disconnectWith_counts (.inr ⟨none_, ?_⟩)
        simp only [Session.endResets, Scene.log]
        split
        · exact peer (named ‹_›)
        · exact policy
  · have numbered := after.numbered
    rw [hist] at numbered
    exact numbered.of_append slots rfl

end Calls

/-! ### Two runs -/

instance (h : List Event) : Decidable (AwaitsReport h) := inferInstanceAs (Decidable (_ ∧ _))

instance decidableKeepsPolicy : ∀ e old, Decidable (KeepsPolicy e old)
  | .called _ _, _ => @instDecidableAnd _ _ inferInstance inferInstance
  | .judged _ _, _ => isTrue trivial
  | .emitted _, _ => isTrue trivial
  | .delivered _ _, _ => isTrue trivial
  | .held _ _, _ => isTrue trivial
  | .stored _ _ _, _ => isTrue trivial
  | .loggedOn, _ => isTrue trivial
  | .restarted _, _ => isTrue trivial
  | .ended _, _ => isTrue trivial

namespace Setting

/-- The acceptor, resumed, with `ResetOnDisconnect`, logged on and driven on. -/
def resetting (cs : List Call) : World Silent NoJournal :=
  (⟨⟨.resume acceptor { config with reset := ⟨false, false, true⟩ } 1 1, []⟩, .silent,
    .noJournal⟩ : World Silent NoJournal).run acceptor
      ([.connect, .tick now, .receivedWith (logon 1)] ++ cs)

theorem resetting_reachable {cs : List Call} (fits : ∀ c ∈ cs, c.fits) :
    World.Reachable acceptor (resetting cs) :=
  World.Reachable.run acceptor (.init (.resume _ (by decide) (by decide)) _ _) _
    (by simpa [Call.fits] using fits)

end Setting

open Setting in
theorem reset_applied_logout :
    ((resetting [.logoutNow []]).perform acceptor .disconnect).1.ses.nextOut = 1 :=
  (reset_applied (@resetting_reachable [.logoutNow []] (by simp [Call.fits]))
    (c := .disconnect) rfl rfl (by decide +kernel) (by decide +kernel) (by decide +kernel)).1.1

open Setting in
/-- The reason is noted before the Logout goes out: the report of the disconnect then ends nothing,
and both counts stay. -/
theorem noted_reason_keeps_counts :
    ¬ ∀ (w : World Silent NoJournal) (c : Call), World.Reachable acceptor w → c.closes →
      AwaitsReport w.hist →
      (if exchanged acceptor w.hist then w.ses.cfg.reset.onLogout
        else w.ses.cfg.reset.onDisconnect) →
      (w.perform acceptor c).1.ses.nextOut = 1 ∧ (w.perform acceptor c).1.ses.nextIn = 1 := by
  intro h
  have reached := @resetting_reachable
    [.noteDropReason .slowApplication, .logoutNow []] (by simp [Call.fits])
  have counts := h _ .disconnect reached rfl (by decide +kernel) (by decide +kernel)
  have kept : ((resetting [.noteDropReason .slowApplication, .logoutNow []]).perform acceptor
    .disconnect).1.ses.nextOut = 3 := by decide +kernel
  rw [kept] at counts
  cases counts.1

end Fixbolt
