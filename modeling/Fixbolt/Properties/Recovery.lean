import Fixbolt.Engine.Journal
import Fixbolt.Properties.Count
import Fixbolt.Session.Errands

/-!
# Resuming after a stop

What a journal tells a new process about the numbers of the old one.

* `Driven`: the worlds that a session reaches with one journal at hand;
* `keepsMarks`: the steps after which the marks of the journal are still those of the session;
* `resumed_where_stopped`: while every step is one of these, a session rebuilt from the journal
  continues from the numbers of the one that stopped.
-/

namespace Fixbolt

open History Relation

variable {P : Params} {R : Rules}

/-- A call to a session that is driven with its journal at hand. -/
def Call.drives : Call → Bool
  | .connect | .disconnect | .disconnectWith _ | .noteDropReason _ => true
  | c => c.holdsJournal

/-- A message that the journal kept. -/
def Event.keeps : Event → Bool
  | .stored _ _ kept => kept
  | _ => false

/-- Does a step leave the marks of the journal those of the session? The counts restart only in a
call that found them at 1 and has kept nothing yet; a consumed message does not move the inbound
count back; no announced number is below the next one; and 4294967295 is not spent. -/
def Event.keepsMarks (P : Params) (old : List Event) : Event → Bool
  | .restarted _ => (callOf old).all fun found =>
      found.1.nextOut == 1 && found.1.nextIn == 1 && !(sinceCall old).any Event.keeps
  | .judged s b => (Event.judged s b).goesForward P
  | .emitted e => e.possDup || e.spends != some u32Max &&
      (callOf old).all fun found => found.2.announces.all (found.1.nextOut ≤ ·)
  | _ => true

/-- The same, of an event and those before it. -/
def KeepsMarks (P : Params) (e : Event) (old : List Event) : Prop := e.keepsMarks P old

instance (P : Params) (e : Event) (old : List Event) : Decidable (KeepsMarks P e old) :=
  inferInstanceAs (Decidable (_ = true))

/-! ### Marks -/

namespace Resumed

theorem after_raise {mark : Option ℕ} {n : ℕ} (h : after mark ≤ n) :
    after (raise mark n) ≤ n + 1 := by
  cases mark with
  | none =>
    simp only [after, raise, Option.elim_none, Option.elim_some]
    omega
  | some m =>
    simp only [after, raise, Option.elim_some] at h ⊢
    omega

/-- A mark that is told the number below a count answers with the count. -/
theorem after_told {mark : Option ℕ} {n : ℕ} (h : after mark ≤ n) (lt : n < u32Size) :
    after (if 1 < n then raise mark (n - 1) else mark) = n := by
  have size : u32Size = u32Max + 1 := by decide
  cases mark with
  | none =>
    simp only [after, Option.elim_none] at h
    split
    · simp only [after, raise, Option.elim_none, Option.elim_some]
      omega
    · simp only [after, Option.elim_none]
      omega
  | some m =>
    simp only [after, Option.elim_some] at h
    split
    · simp only [after, raise, Option.elim_some]
      omega
    · have : 0 < u32Max := by decide
      simp only [after, Option.elim_some]
      omega

end Resumed

open Resumed

theorem after_highestOut_tell {A J : Type} [Recoverable J] [MarksHighest J] {w : World A J}
    (h : after (Recoverable.highestOut w.journal) ≤ w.ses.nextOut)
    (lt : w.ses.nextOut < u32Size) :
    after (Recoverable.highestOut w.tellJournal.journal) = w.ses.nextOut := by
  rw [← after_told h lt]
  unfold World.tellJournal
  split
  · rw [MarksHighest.highestOut_markOut]
  · rfl

theorem highestIn_tell {A J : Type} [Recoverable J] [MarksHighest J] (w : World A J) :
    Recoverable.highestIn w.tellJournal.journal = Recoverable.highestIn w.journal := by
  unfold World.tellJournal
  split
  · rw [MarksHighest.highestIn_markOut]
  · rfl

theorem highestOut_markIn {A J : Type} [Recoverable J] [MarksHighest J] (w : World A J) :
    Recoverable.highestOut w.markIn.journal = Recoverable.highestOut w.journal := by
  unfold World.markIn
  split
  · rw [MarksHighest.highestOut_markIn]
  · rfl

theorem after_highestIn_markIn {A J : Type} [Application A] [Recoverable J] [MarksHighest J]
    {w : World A J} (h : after (Recoverable.highestIn w.journal) ≤ w.ses.nextIn)
    (lt : w.ses.nextIn < u32Size) :
    after (Recoverable.highestIn w.markIn.journal) = w.ses.nextIn := by
  rw [← after_told h lt]
  unfold World.markIn
  split
  · rw [MarksHighest.highestIn_markIn]
  · rfl

/-! ### The inbound count in a call -/

/-- Within a call the inbound count does not fall, and moves only if bytes were received. -/
structure InRises (s : Session) (c : Call) (x : Books) : Prop where
  up : s.nextIn ≤ x.led.nextIn
  still : c.incoming = none → judging x.hist = none ∧ x.led.nextIn = s.nextIn

theorem restart_found {s t : Session} {c : Call} {old : List Event}
    (ok : Always (KeepsMarks P) (.restarted t :: old)) (now : callOf old = some (s, c)) :
    s.nextOut = 1 ∧ s.nextIn = 1 ∧ ∀ e ∈ sinceCall old, e.keeps = false := by
  have kept := ok.1
  simp only [KeepsMarks, Event.keepsMarks, now, Option.all_some, Bool.and_eq_true, beq_iff_eq,
    Bool.not_eq_true', List.any_eq_false, Bool.not_eq_true] at kept
  exact ⟨kept.1.1, kept.1.2, kept.2⟩

theorem acting_inRises {x y : Books} {s : Session} {c : Call} (h : Acting P R x y)
    (now : callOf x.hist = some (s, c)) (drives : c.drives)
    (ok : Always (KeepsMarks P) y.hist) (ih : InRises s c x) : InRises s c y := by
  have idle : c.incoming = none → judging y.hist = none :=
    fun own => acting_idle h now own (ih.still own).1
  have restart : ∀ {t : Session} {old : List Event}, y.hist = .restarted t :: old →
      callOf old = some (s, c) → y.led.nextIn = 1 → InRises s c y := by
    intro t old hist found count
    have one := (restart_found (hist ▸ ok) found).2.1
    exact ⟨by omega, fun own => ⟨idle own, by omega⟩⟩
  have received : ∀ {t : Session} {b : Bytes}, judging x.hist = some (t, b) →
      ((Event.judged t b).goesForward P → x.led.nextIn ≤ y.led.nextIn) → InRises s c y := by
    intro t b hj up
    have mem := h.goesOn.sinceCall (mem_sinceCall_of_judging hj)
    obtain ⟨old, keeps⟩ := ok.exists_of_mem (mem_of_mem_since mem)
    refine ⟨ih.up.trans (up keeps), fun own => ?_⟩
    rw [(ih.still own).1] at hj
    cases hj
  obtain same | moves := acting_count h
  · exact ⟨same ▸ ih.up, fun own => ⟨idle own, same ▸ (ih.still own).2⟩⟩
  cases moves with
  | connected _ count hist => exact restart hist now count
  | rolled _ _ _ count hist => exact restart hist now count
  | set found =>
    obtain ⟨-, rfl⟩ : s = _ ∧ c = _ := by simpa [now] using found
    cases drives
  | ended hist count => exact restart hist now count
  | restarted _ _ _ hist count => exact restart hist now count
  | consumed hj arr consumed old count =>
    refine received hj fun forward => ?_
    obtain ⟨up, next⟩ := forward_consumed forward arr consumed
    omega
  | skipped hj live bad old high count =>
    refine received hj fun forward => ?_
    have next := forward_skipped forward live bad
    omega
  | moved hj arr reset new old up count => exact received hj fun _ => by omega

theorem replaying_inRises {x y : Books} {s : Session} {c : Call} (h : Replaying x y)
    (now : callOf x.hist = some (s, c)) (ok : Always (KeepsMarks P) y.hist) (ih : InRises s c x) :
    InRises s c y := by
  have idle : c.incoming = none → judging y.hist = none :=
    fun own => replaying_idle h (ih.still own).1
  obtain same | ⟨t, why, hist, count⟩ := replaying_count h
  · exact ⟨same ▸ ih.up, fun own => ⟨idle own, same ▸ (ih.still own).2⟩⟩
  · have found : callOf (.ended why :: x.hist) = some (s, c) := now
    have one := (restart_found (hist ▸ ok) found).2.1
    exact ⟨by omega, fun own => ⟨idle own, by omega⟩⟩

theorem perform_inRises {A J : Type} [Application A] [Journal J] (w : World A J) (c : Call)
    (fits : c.fits) (drives : c.drives) (ok : Always (KeepsMarks P) (w.perform P c).1.hist) :
    InRises w.ses c (w.perform P c).1.books := by
  have calls := World.perform_calls (P := P) (R := .free) (fun _ _ _ _ _ => trivial) trivial w c
    fits
  refine (calls.induction
    (I := fun x => Always (KeepsMarks P) x.hist → callOf x.hist = some (w.ses, c) ∧
      InRises w.ses c x) (K := fun _ => True) ?start ?act ?replay fun _ _ => trivial) ok |>.2
  case start => exact fun _ => ⟨callOf_called _ _, le_rfl, fun _ => ⟨judging_called _ _, rfl⟩⟩
  case act =>
    intro u v step _ _ ih ok
    obtain ⟨now, ih⟩ := ih (step.goesOn.always ok)
    exact ⟨step.goesOn.callOf.trans now, acting_inRises step now drives ok ih⟩
  case replay =>
    intro u v step _ ih ok
    obtain ⟨now, ih⟩ := ih (step.goesOn.always ok)
    exact ⟨step.goesOn.callOf.trans now, replaying_inRises step now ok ih⟩

/-! ### The outbound count in a call -/

section Out

variable {A J : Type} [Recoverable J]

/-- Within a call the marks stay behind the session, and move only with what is kept. -/
structure Marked (s : Session) (c : Call) (journal : J) (x : World A J) : Prop where
  now : callOf x.hist = some (s, c)
  inMark : Recoverable.highestIn x.journal = Recoverable.highestIn journal
  out : after (Recoverable.highestOut x.journal) ≤ x.ses.nextOut
  fits : x.ses.nextOut < u32Size
  kept : (∀ e ∈ sinceCall x.hist, e.keeps = false) →
    Recoverable.highestOut x.journal = Recoverable.highestOut journal

theorem isCall_of_idle {e : Event} (h : e.idle) : e.isCall = false := by
  cases e <;> first | rfl | cases h

theorem Marked.quiet {s : Session} {c : Call} {journal : J} {x : World A J} {v : Scene} {app : A}
    {e : Event} (m : Marked s c journal x) (call : e.isCall = false)
    (out : x.ses.nextOut ≤ v.ses.nextOut) (fits : v.ses.nextOut < u32Size)
    (hist : v.hist = e :: x.hist) : Marked s c journal { x with toScene := v, app := app } := by
  refine ⟨?_, m.inMark, m.out.trans out, fits, fun none => m.kept fun e he => none e ?_⟩
  · show callOf v.hist = _
    rw [hist, callOf_cons call]
    exact m.now
  · show e ∈ sinceCall v.hist
    rw [hist, sinceCall_cons call]
    exact List.mem_cons_of_mem _ he

/-- A number below 4294967295 is followed by the next one. -/
theorem spends_next {e : Emission} {old : List Event} {n : ℕ} (lt : n < u32Size)
    (fresh : e.possDup = false) (spends : e.spends = some n)
    (ok : KeepsMarks P (.emitted e) old) : wrapU32 (n + 1) = n + 1 := by
  simp only [KeepsMarks, Event.keepsMarks, fresh, spends, Bool.false_or, Bool.and_eq_true,
    bne_iff_ne, ne_eq, Option.some.injEq] at ok
  exact wrapU32_succ lt ok.1

variable [MarksHighest J]

/-- One errand keeps the marks behind the session. -/
theorem errand_marked {s : Session} {c : Call} {journal : J} {x y : World A J} (h : Errand P x y)
    (drives : c.drives) (fits : c.fits)
    (start : after (Recoverable.highestOut journal) ≤ s.nextOut)
    (ok : Always (KeepsMarks P) y.hist) (m : Marked s c journal x) : Marked s c journal y := by
  cases h with
  | @idle v app out hist =>
    obtain hist | ⟨e, idle, hist⟩ := hist
    · exact ⟨by simpa [hist] using m.now, m.inMark, by simpa [out] using m.out,
        by simpa [out] using m.fits, by simpa [hist] using m.kept⟩
    · exact m.quiet (isCall_of_idle idle) out.ge (out ▸ m.fits) hist
  | resent out kept hist => exact m.quiet rfl out.ge (out ▸ m.fits) hist
  | @spent v which slots bytes fresh number out hist =>
    have spends : (Emission.templated which slots bytes).spends = some x.ses.nextOut := by
      simp [Emission.spends, number, asU32?_renderU32 m.fits]
    have dup : (Emission.templated which slots bytes).possDup = false := by
      cases which <;> first | rfl | exact absurd rfl fresh
    have next := spends_next m.fits dup spends (hist ▸ ok : Always _ (_ :: _)).1
    exact m.quiet rfl (by omega) (out ▸ wrapU32_lt _) hist
  | @announced v t d h n slots bytes found announces pos before fresh out hist =>
    obtain ⟨rfl, rfl⟩ : t = s ∧ d = c := by
      have now := m.now
      rw [found, callOf_called] at now
      simpa using now
    have dup : (Emission.templated .gapFill slots bytes).possDup = false := by
      simp [Emission.possDup, fresh]
    have above : t.nextOut ≤ n := by
      have kept := (hist ▸ ok : Always _ (_ :: _)).1
      simp only [KeepsMarks, Event.keepsMarks, dup, m.now, Option.all_some, announces,
        Bool.false_or, Bool.and_eq_true, decide_eq_true_eq] at kept
      exact kept.2
    have small : n < u32Size := by
      cases d <;> simp_all [Call.announces, Call.fits]
    exact m.quiet rfl (by omega) (by omega) hist
  | @set v t h n found pos out hist =>
    have now := m.now
    rw [found, callOf_called] at now
    obtain ⟨-, rfl⟩ : t = s ∧ .setNextOut n = c := by simpa using now
    cases drives
  | @restarted v out hist =>
    obtain ⟨one, -, nothing⟩ := restart_found (hist ▸ ok) m.now
    have mark := m.kept nothing
    refine ⟨?_, m.inMark, ?_, by simp [out, one_lt_u32Size], fun _ => mark⟩
    · show callOf v.hist = _
      rw [hist, callOf_cons rfl]
      exact m.now
    · show after (Recoverable.highestOut x.journal) ≤ v.ses.nextOut
      rw [mark, out]
      omega
  | @wrote v e bytes j kept fresh put out hist =>
    have spends : e.spends = some x.ses.nextOut ∧ e.possDup = false := by
      obtain rfl | rfl := fresh <;> exact ⟨rfl, rfl⟩
    have next := spends_next m.fits spends.2 spends.1 (hist ▸ ok : Always _ (_ :: _)).1
    have marks : Recoverable.highestIn j = Recoverable.highestIn x.journal ∧
        Recoverable.highestOut j = if kept then raise (Recoverable.highestOut x.journal)
          x.ses.nextOut else Recoverable.highestOut x.journal := by
      obtain put | ⟨rfl, rfl⟩ := put
      · have := MarksHighest.highestOut_put x.journal x.ses.nextOut bytes
        have := MarksHighest.highestIn_put x.journal x.ses.nextOut bytes
        simp_all
      · simp
    refine ⟨?_, marks.1.trans m.inMark, ?_, ?_, fun none => ?_⟩
    · show callOf v.hist = _
      rw [hist, callOf_cons rfl, callOf_cons rfl]
      exact m.now
    · show after (Recoverable.highestOut j) ≤ v.ses.nextOut
      rw [marks.2, out, next]
      split
      · exact after_raise m.out
      · exact m.out.trans (by omega)
    · show v.ses.nextOut < u32Size
      exact out ▸ wrapU32_lt _
    · have none : ∀ e ∈ sinceCall v.hist, e.keeps = false := none
      rw [hist, sinceCall_cons rfl, sinceCall_cons rfl] at none
      have lost : kept = false := none (.stored x.ses.nextOut bytes kept) (by simp)
      show Recoverable.highestOut j = _
      rw [marks.2, lost]
      exact m.kept fun e he => none e (by simp [he])

theorem errands_marked {s : Session} {c : Call} {journal : J} {x y : World A J}
    (h : World.Errands P x y) (drives : c.drives) (fits : c.fits)
    (start : after (Recoverable.highestOut journal) ≤ s.nextOut)
    (ok : Always (KeepsMarks P) y.hist) (m : Marked s c journal x) : Marked s c journal y := by
  induction h with
  | refl => exact m
  | tail _ errand ih =>
    obtain ⟨new, hist⟩ := errand.grows
    exact errand_marked errand drives fits start ok (ih (hist ▸ ok).of_suffix)

end Out

/-! ### Runs -/

section Runs

variable {A J : Type} [Application A] [Recoverable J]

/-- A call from outside leaves the outbound count as it found it, unless it restarts it. -/
theorem outside_nextOut (w : World A J) {c : Call} (drives : c.drives)
    (outside : c.holdsJournal = false) (ok : Always (KeepsMarks P) (w.perform P c).1.hist) :
    (w.perform P c).1.ses.nextOut = w.ses.nextOut := by
  have ended : ∀ {d : Call} {why : DropReason}, Always (KeepsMarks P)
      ((w.log (.called w.ses d)).disconnectWith why).1.hist →
      ((w.log (.called w.ses d)).disconnectWith why).1.ses.nextOut = w.ses.nextOut := by
    intro d why ok
    unfold Scene.disconnectWith at ok ⊢
    split at ok
    · rename_i none_
      rw [if_pos none_]
      unfold Scene.endSession at ok ⊢
      dsimp only at ok ⊢
      split at ok
      · rename_i resets
        have found : callOf (.ended why :: .called w.ses d :: w.hist) = some (w.ses, d) := rfl
        rw [if_pos resets, (restart_found ok found).1]
        simp [Scene.logRestart, Scene.log, Scene.upd, Session.endWith, show w.ses.endResets why = true from resets]
      · rename_i keeps
        rw [if_neg keeps]
        simp [Scene.log, Scene.upd, Session.endWith, show ¬ w.ses.endResets why = true from keeps]
    · rename_i noted
      rw [if_neg noted]
      rfl
  unfold World.perform at ok ⊢
  cases c with
  | connect =>
    have connects : Always (KeepsMarks P) ((w.log (.called w.ses .connect)).connect P).1.hist := ok
    show ((w.log (.called w.ses .connect)).connect P).1.ses.nextOut = w.ses.nextOut
    unfold Scene.connect at connects ⊢
    dsimp only at connects ⊢
    split at connects
    · rename_i restarts
      have found : callOf (.called w.ses .connect :: w.hist) = some (w.ses, .connect) := rfl
      rw [if_pos restarts, (restart_found connects found).1]
      simp [Scene.logRestart, Scene.log, Scene.upd, Session.connected, show (!w.ses.resumed || w.ses.cfg.reset.onLogon) = true from restarts]
    · rename_i keeps
      rw [if_neg keeps]
      simp [Scene.log, Scene.upd, Session.connected, show ¬ (!w.ses.resumed || w.ses.cfg.reset.onLogon) = true from keeps]
  | disconnect => exact ended ok
  | disconnectWith why => exact ended ok
  | noteDropReason why =>
    show (w.ses.noteDropReason why).nextOut = w.ses.nextOut
    unfold Session.noteDropReason
    split <;> rfl
  | _ => first | (cases drives; done) | cases outside

/-- A call from outside has nothing to tell the journal. -/
theorem outside_journal (w : World A J) {c : Call} (drives : c.drives)
    (outside : c.holdsJournal = false) :
    (w.perform P c).1.journal = w.journal ∧ c.incoming = none := by
  cases c with
  | connect => exact ⟨rfl, rfl⟩
  | disconnect => exact ⟨rfl, rfl⟩
  | disconnectWith why => exact ⟨rfl, rfl⟩
  | noteDropReason why => exact ⟨rfl, rfl⟩
  | _ => first | (cases drives; done) | cases outside

/-- The numbers a session rebuilt from the journal continues from are those of the session. -/
def Agrees (P : Params) (w : World A J) : Prop :=
  (rebuilt P w.ses.cfg w.journal).nextOut = w.ses.nextOut ∧
    (rebuilt P w.ses.cfg w.journal).nextIn = w.ses.nextIn

omit [Application A] in
theorem agrees_iff (w : World A J) :
    Agrees P w ↔ after (Recoverable.highestOut w.journal) = w.ses.nextOut ∧
      after (Recoverable.highestIn w.journal) = w.ses.nextIn := by
  rw [Agrees, rebuilt_nextOut, rebuilt_nextIn]

/-- The worlds of a session that is driven with one journal at hand, from where the two agree. -/
inductive Driven (P : Params) : World A J → Prop
  | start {s : Session} (initial : World.Initial P s) (app : A) (journal : J)
      (agrees : Agrees P (⟨⟨s, []⟩, app, journal⟩ : World A J)) : Driven P ⟨⟨s, []⟩, app, journal⟩
  | step {w : World A J} (h : Driven P w) (c : Call) (fits : c.fits) (drives : c.drives) :
    Driven P (w.perform P c).1

theorem Driven.reachable {w : World A J} (h : Driven P w) : World.Reachable P w := by
  induction h with
  | start initial app journal => exact .init initial app journal
  | step _ c fits _ ih => exact ih.step c fits

theorem reachable_fits {w : World A J} (h : World.Reachable P w) : w.ses.ledger.Fits := by
  obtain ⟨s, hs, moves⟩ := World.reachable_moves (R := .free) (fun _ _ _ _ _ => trivial) trivial h
  exact moves_fit moves (initial_fits hs)

theorem Driven.run {w : World A J} (h : Driven P w)
    (cs : List Call) (fits : ∀ c ∈ cs, c.fits) (drives : ∀ c ∈ cs, c.drives) :
    Driven P (w.run P cs) := by
  induction cs generalizing w with
  | nil => exact h
  | cons c cs ih =>
    exact ih (h.step c (fits c (by simp)) (drives c (by simp)))
      (fun d hd => fits d (by simp [hd])) fun d hd => drives d (by simp [hd])

variable [MarksHighest J]

/-- One call keeps the journal and the session in agreement. -/
theorem perform_agrees {w : World A J} {c : Call} (h : Driven P w) (fits : c.fits)
    (drives : c.drives) (ok : Always (KeepsMarks P) (w.perform P c).1.hist)
    (agrees : Agrees P w) : Agrees P (w.perform P c).1 := by
  rw [agrees_iff] at agrees ⊢
  have rises := perform_inRises w c fits drives ok
  have wide : (w.perform P c).1.ses.nextIn < u32Size :=
    (reachable_fits (h.reachable.step c fits)).nextIn
  have quietly := fun outside => outside_nextOut w drives outside ok
  have apart := fun outside => outside_journal (P := P) w drives outside
  obtain ⟨u, errands, told⟩ := World.perform_errands (P := P) w c
  generalize (w.perform P c).1 = v at ok rises wide quietly apart told ⊢
  have same : v.toScene = u.toScene := by
    cases told with
    | both b => rw [World.tellJournal_scene, World.markIn_scene]
    | spent own => rw [World.tellJournal_scene]
    | nothing => rfl
    | untouched => rfl
  have marked : Marked w.ses c w.journal u :=
    errands_marked errands drives fits agrees.1.le (same ▸ ok)
      ⟨callOf_called _ _, rfl, agrees.1.le, (reachable_fits h.reachable).nextOut, fun _ => rfl⟩
  have up : w.ses.nextIn ≤ u.ses.nextIn := same ▸ rises.up
  have still : c.incoming = none → u.ses.nextIn = w.ses.nextIn :=
    fun own => same ▸ (rises.still own).2
  rw [same] at wide quietly ⊢
  cases told with
  | both b =>
    have count : after (Recoverable.highestIn u.journal) ≤ u.ses.nextIn := by
      rw [marked.inMark, agrees.2]
      exact up
    have scene := congrArg Scene.ses (World.markIn_scene u)
    have out : after (Recoverable.highestOut u.markIn.tellJournal.journal) =
        u.markIn.ses.nextOut := by
      refine after_highestOut_tell ?_ (scene ▸ marked.fits)
      rw [highestOut_markIn, scene]
      exact marked.out
    refine ⟨out.trans (congrArg Session.nextOut scene), ?_⟩
    rw [highestIn_tell, after_highestIn_markIn count wide]
  | spent own =>
    refine ⟨after_highestOut_tell marked.out marked.fits, ?_⟩
    rw [highestIn_tell, marked.inMark, agrees.2, still own]
  | nothing outside =>
    obtain ⟨journal, own⟩ := apart outside
    rw [journal, agrees.1, agrees.2]
    exact ⟨(quietly outside).symm, (still own).symm⟩
  | @untouched _ _ h own found =>
    have ses : u.ses = w.ses := by
      have now := marked.now
      rw [found, callOf_called] at now
      exact congrArg Prod.fst (Option.some.inj now)
    have nothing : ∀ e ∈ sinceCall u.hist, e.keeps = false := by
      rw [found, show sinceCall (.called u.ses c :: h) = [] from rfl]
      intro e he
      cases he
    rw [marked.kept nothing, marked.inMark, ses]
    exact agrees

/-- **A session resumes where it stopped.** In every run of a session that is driven with its
journal at hand, while each step leaves the marks of the journal those of the session, a session
rebuilt from the journal continues from the numbers of the one that stopped. -/
theorem resumed_where_stopped {w : World A J} (h : Driven P w)
    (ok : Always (KeepsMarks P) w.hist) :
    (rebuilt P w.ses.cfg w.journal).nextOut = w.ses.nextOut ∧
      (rebuilt P w.ses.cfg w.journal).nextIn = w.ses.nextIn := by
  induction h with
  | start initial app journal agrees => exact agrees
  | @step w h c fits drives ih =>
    have before := ok
    rw [w.perform_hist (P := P) c fits] at before
    have older := before.of_suffix
    exact perform_agrees h fits drives ok (ih older.2)

end Runs

namespace Setting

/-- An acceptor with a ring of four slots, logged on by the counterparty, and driven on. -/
def ringed (cfg : Config) (cs : List Call) : World Silent (MemJournal 4 512) :=
  (⟨⟨.new acceptor cfg, []⟩, .silent, .new 4 512⟩ : World Silent (MemJournal 4 512)).run acceptor
    ([.connect, .tickWith now, .receivedWith (logon 1)] ++ cs)

theorem ringed_driven (cfg : Config) {cs : List Call} (fits : ∀ c ∈ cs, c.fits)
    (drives : ∀ c ∈ cs, c.drives) : Driven acceptor (ringed cfg cs) := by
  have empty : Agrees acceptor
      (⟨⟨.new acceptor cfg, []⟩, .silent, .new 4 512⟩ : World Silent (MemJournal 4 512)) :=
    (agrees_iff _).mpr ⟨rfl, rfl⟩
  refine (Driven.start (.new cfg) _ _ empty).run _ ?_ ?_
  · simpa [Call.fits] using fits
  · simpa [Call.drives, Call.holdsJournal] using drives

end Setting

open Setting in
theorem resumed_where_stopped_order :
    (rebuilt acceptor (ringed config [.sendApplication ours]).ses.cfg
      (ringed config [.sendApplication ours]).journal).nextOut =
        (ringed config [.sendApplication ours]).ses.nextOut :=
  (resumed_where_stopped (@ringed_driven config [.sendApplication ours] (by simp [Call.fits])
    (by simp [Call.drives, Call.holdsJournal])) (by decide +kernel)).1

open Setting in
/-- A Logon with `141=Y` after an order was sent: both counts restart, and the journal's marks stay
where they were. -/
theorem restart_not_told :
    ¬ ∀ w : World Silent (MemJournal 4 512), Driven acceptor w →
      (rebuilt acceptor w.ses.cfg w.journal).nextOut = w.ses.nextOut ∧
        (rebuilt acceptor w.ses.cfg w.journal).nextIn = w.ses.nextIn := by
  intro h
  let anew := theirs "A" 1 [(98, ascii "0"), (108, ascii "30"), (141, ascii "Y")]
  have driven := @ringed_driven config [.sendApplication ours, .receivedWith anew]
    (by simp [Call.fits]) (by simp [Call.drives, Call.holdsJournal])
  have agrees := (h _ driven).1
  revert agrees
  decide +kernel

end Fixbolt
