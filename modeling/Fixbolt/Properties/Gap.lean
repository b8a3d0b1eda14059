import Fixbolt.Properties.Count

/-!
# An open gap was asked for

`resend_from` is not 0 while a gap is open. On a live session it was asked for on this connection,
and the inbound count stands inside it: `gap_asked`.
-/

namespace Fixbolt

open History Relation

variable {P : Params} {R : Rules}

/-- A ResendRequest from `n` went out on this connection. -/
def AskedFrom (h : List Event) (n : ℕ) : Prop :=
  ∃ e : Emission, .emitted e ∈ sinceConnect h ∧ e.asksFrom = some n

/-- An open gap was asked for, and the count stands in it. -/
def GapAsked (x : Books) : Prop :=
  x.led.Alive → x.led.resendFrom ≠ 0 →
    AskedFrom x.hist x.led.resendFrom ∧
      x.led.resendFrom ≤ x.led.nextIn ∧ x.led.nextIn ≤ x.led.resendTo

/-- A message that arrives with a gap open and leaves the count inside it. -/
def Session.keepsGap (P : Params) (s : Session) (b : Bytes) (m : Inbound) : Bool :=
  !(m.isLogon && m.resetSeq && 1 < s.resendFrom) &&
    !((m.isLogout || m.isResendRequest) && m.seq + 1 < s.resendFrom) &&
    !(m.isSequenceReset && (s.faultOn P b).isNone && m.newSeqNo.any (s.resendTo < ·))

/-- No connection is made with a gap open, and on a live session no one moves the count out of an
open gap without closing it. -/
def Event.keepsGap (P : Params) : Event → Bool
  | .called s .connect => s.resendFrom == 0
  | .called s (.setNextIn n) =>
    !decide s.Alive || s.resendFrom == 0 || decide (s.resendFrom ≤ n) && decide (n ≤ s.resendTo)
  | .judged s b =>
    s.resendFrom == 0 ||
      (s.arrives P b).all (s.keepsGap P b) &&
        !(s.state == .loggedOn && (badTagNumber P b).any (s.resendTo ≤ ·))
  | _ => true

theorem GapAsked.dead {x : Books} (h : ¬ x.led.Alive) : GapAsked x := fun alive => absurd alive h

theorem GapAsked.closed {x : Books} (h : x.led.resendFrom = 0) : GapAsked x :=
  fun _ open_ => absurd h open_

theorem GoesOn.askedFrom {h h' : List Event} (g : GoesOn h h') {n : ℕ} (a : AskedFrom h n) :
    AskedFrom h' n := by
  obtain ⟨e, he, asks⟩ := a
  exact ⟨e, g.mem_sinceConnect he, asks⟩

theorem AskedFrom.asked {h : List Event} {slots : List (ℕ × Bytes)} {bytes : Bytes} {n : ℕ}
    (hn : n < u32Size) (from_ : slots.lookup 7 = some (renderU32 n)) :
    AskedFrom (.emitted (.templated .resendRequest slots bytes) :: h) n := by
  refine ⟨.templated .resendRequest slots bytes, ?_, ?_⟩
  · rw [sinceConnect_cons rfl]
    exact List.mem_cons_self
  · simp only [Emission.asksFrom, from_, Option.bind_some]
    exact asU32?_renderU32 hn

/-- A move that leaves the gap open keeps it asked for, when the count stays in it. -/
theorem GapAsked.keep {x y : Books} (ih : GapAsked x) (g : GoesOn x.hist y.hist)
    (alive : y.led.Alive → x.led.Alive) (from_ : y.led.resendFrom = x.led.resendFrom)
    (upTo : y.led.resendTo = x.led.resendTo)
    (count : x.led.Alive → x.led.resendFrom ≠ 0 → x.led.resendFrom ≤ x.led.nextIn →
      x.led.nextIn ≤ x.led.resendTo →
      x.led.resendFrom ≤ y.led.nextIn ∧ y.led.nextIn ≤ x.led.resendTo) : GapAsked y := by
  intro hy open_
  rw [from_] at open_
  obtain ⟨asked, low, high⟩ := ih (alive hy) open_
  rw [from_, upTo]
  exact ⟨g.askedFrom asked, count (alive hy) open_ low high⟩

theorem GapAsked.quiet {x y : Books} (ih : GapAsked x) (g : GoesOn x.hist y.hist)
    (alive : y.led.Alive → x.led.Alive) (from_ : y.led.resendFrom = x.led.resendFrom)
    (upTo : y.led.resendTo = x.led.resendTo) (count : y.led.nextIn = x.led.nextIn) : GapAsked y :=
  ih.keep g alive from_ upTo fun _ _ low high => by rw [count]; exact ⟨low, high⟩

/-- The count past a number that is not below the gap stays in it, or closes it. -/
theorem GapAsked.advance {l : Ledger} {h h' : List Event} {seq : ℕ} (ih : GapAsked ⟨l, h⟩)
    (g : GoesOn h h') (fits : l.Fits) (low : l.resendFrom ≠ 0 → l.resendFrom ≤ l.nextIn →
      l.resendFrom ≤ seq + 1) : GapAsked ⟨l.advance seq, h'⟩ := by
  by_cases closes : l.resendFrom ≠ 0 ∧ l.resendTo ≤ seq
  · exact .closed (by simp [Ledger.advance, closes])
  · have from_ : (l.advance seq).resendFrom = l.resendFrom := by simp only [Ledger.advance, if_neg closes]
    have upTo : (l.advance seq).resendTo = l.resendTo := by simp only [Ledger.advance, if_neg closes]
    refine ih.keep g id from_ upTo fun _ open_ was _ => ?_
    have bound := fits.resendTo
    have inside : seq < l.resendTo := by
      by_contra hc
      exact closes ⟨open_, by omega⟩
    have next : (l.advance seq).nextIn = seq + 1 := Nat.mod_eq_of_lt (by omega)
    show _ ≤ (l.advance seq).nextIn ∧ (l.advance seq).nextIn ≤ _
    rw [next]
    exact ⟨low open_ was, inside⟩

/-- What is asked of the events of a run is asked of the message under judgement. -/
theorem keeps_judging {h : List Event} {s : Session} {b : Bytes} {m : Inbound}
    (keeps : ∀ e ∈ h, e.keepsGap P) (now : judging h = some (s, b)) (arr : s.arrives P b = some m)
    (open_ : s.resendFrom ≠ 0) : s.keepsGap P b m := by
  have judged := keeps _ (mem_of_mem_since (mem_sinceCall_of_judging now))
  simp only [Event.keepsGap, beq_iff_eq, open_, arr, Option.all_some, Bool.or_eq_true,
    Bool.and_eq_true, false_or] at judged
  exact judged.1

/-- One move keeps an open gap asked for. -/
theorem acting_gapAsked {x y : Books} (h : Acting P R x y) (fits : x.led.Fits)
    (keeps : ∀ e ∈ y.hist, e.keepsGap P) (ih : GapAsked x) : GapAsked y := by
  have goes := h.goesOn
  cases h with
  | @connected l h s before =>
    have none : s.resendFrom = 0 := by simpa [Event.keepsGap] using keeps _ List.mem_cons_self
    exact .closed ((congrArg Ledger.resendFrom before).symm.trans none)
  | @connectedAnew l h s t before after =>
    have none : s.resendFrom = 0 := by
      simpa [Event.keepsGap] using keeps _ (List.mem_cons_of_mem _ List.mem_cons_self)
    exact .closed ((congrArg Ledger.resendFrom before).symm.trans none)
  | closed => exact .dead fun alive => alive.1 rfl
  | rolled => exact .closed rfl
  | @setIn l h s n before =>
    refine ih.keep goes id rfl rfl fun alive open_ _ _ => ?_
    rw [← before, Session.ledger_alive] at alive
    have from_ : s.resendFrom = l.resendFrom := congrArg Ledger.resendFrom before
    have upTo : s.resendTo = l.resendTo := congrArg Ledger.resendTo before
    have inside := keeps _ List.mem_cons_self
    simpa [Event.keepsGap, alive, from_, upTo, open_] using inside
  | spoke owes => exact ih.quiet goes (fun _ => by simp [Ledger.Alive, owes]) rfl rfl rfl
  | saidGoodbye live => exact ih.quiet goes (fun _ => by simp [Ledger.Alive, live]) rfl rfl rfl
  | cut => exact .dead fun alive => alive.2 rfl
  | ended => exact .dead (Books.ended_dead _ _ _ _)
  | askFailed => exact .dead (Books.ended_dead _ _ _ _)
  | peerLeft => exact .dead (Books.ended_dead _ _ _ _)
  | @restarted l h s t b m before arr resets after =>
    -- the count goes to 1, so the gap has to start there
    refine ih.keep goes id rfl rfl fun _ open_ low high => ?_
    have from_ : s.resendFrom = l.resendFrom := congrArg Ledger.resendFrom before
    have judged := keeps_judging keeps rfl arr (from_ ▸ open_)
    simp only [Session.keepsGap, resets, Bool.true_and, from_, Bool.and_eq_true, Bool.not_eq_true',
      decide_eq_false_iff_not] at judged
    show _ ≤ 1 ∧ 1 ≤ _
    dsimp only at *
    omega
  | loggedOn now arr logon alive => exact ih.quiet goes (fun _ => alive) rfl rfl rfl
  | @asked l h s b m slots bytes now arr ahead count open_ alive number from_ =>
    intro _ _
    refine ⟨.asked fits.nextIn from_, le_rfl, ?_⟩
    show l.nextIn ≤ m.seq - 1
    have := ahead.2
    omega
  | @advanced l h s b m now arr consumed stays count queue gap =>
    refine ih.advance goes fits fun open_ low => ?_
    have judged := keeps_judging keeps now arr (gap.1 ▸ open_)
    simp only [Session.keepsGap, ← gap.1, Bool.and_eq_true, Bool.not_eq_true'] at judged
    obtain logout | resend | ⟨-, seq⟩ := consumed
    · have := judged.1.2
      simp only [logout, Bool.true_or, Bool.true_and, decide_eq_false_iff_not] at this
      omega
    · have := judged.1.2
      simp only [resend, Bool.or_true, Bool.true_and, decide_eq_false_iff_not] at this
      omega
    · omega
  | @skipped l h s b seq before live bad high =>
    refine ih.keep goes id rfl rfl fun _ open_ low _ => ?_
    have from_ : s.resendFrom = l.resendFrom := congrArg Ledger.resendFrom before
    have upTo : s.resendTo = l.resendTo := congrArg Ledger.resendTo before
    have state : s.state = .loggedOn := (congrArg Ledger.state before).trans live
    have judged := keeps _ List.mem_cons_self
    simp only [Event.keepsGap, from_, upTo, beq_iff_eq, open_, state, bad, Option.any_some,
      Bool.or_eq_true, Bool.and_eq_true, false_or, beq_self_eq_true, Bool.true_and,
      Bool.not_eq_true', decide_eq_false_iff_not] at judged
    have bound := fits.resendTo
    dsimp only at *
    have next : wrapU32 (seq + 1) = seq + 1 := Nat.mod_eq_of_lt (by omega)
    omega
  | @moved l h s b m n before arr reset fault new up =>
    refine ih.keep goes id rfl rfl fun _ open_ low _ => ?_
    have from_ : s.resendFrom = l.resendFrom := congrArg Ledger.resendFrom before
    have upTo : s.resendTo = l.resendTo := congrArg Ledger.resendTo before
    have judged := keeps_judging keeps rfl arr (from_ ▸ open_)
    simp only [Session.keepsGap, reset, fault, new, upTo, Bool.and_eq_true, Bool.not_eq_true',
      Option.isNone_none, Bool.true_and, Option.any_some, decide_eq_false_iff_not] at judged
    dsimp only at *
    omega
  | delivered before arr app fault inOrder =>
    refine ih.advance goes fits fun open_ low => ?_
    omega
  | _ => exact ih.quiet goes id rfl rfl rfl

theorem replaying_gapAsked {x y : Books} (h : Replaying x y) (ih : GapAsked x) : GapAsked y := by
  have goes := h.goesOn
  cases h with
  | gaveUp => exact .dead (Books.ended_dead _ _ _ _)
  | _ => exact ih.quiet goes id rfl rfl rfl

theorem GapAsked.called {l : Ledger} {h : List Event} {s : Session} {c : Call}
    (shows : s.ledger = l) (keeps : (Event.called s c).keepsGap P) (ih : GapAsked ⟨l, h⟩) :
    GapAsked ⟨l, .called s c :: h⟩ := by
  by_cases hc : (Event.called s c).isConnect = true
  · obtain rfl : c = .connect := by cases c <;> first | rfl | cases hc
    have none : s.resendFrom = 0 := by simpa [Event.keepsGap] using keeps
    exact .closed ((congrArg Ledger.resendFrom shows).symm.trans none)
  · intro alive open_
    obtain ⟨⟨e, he, asks⟩, inside⟩ := ih alive open_
    refine ⟨⟨e, ?_, asks⟩, inside⟩
    rw [sinceConnect_cons (by simpa using hc)]
    exact List.mem_cons_of_mem _ he

theorem moves_gapAsked {x y : Books} (h : ReflTransGen (Move P R) x y) (fits : x.led.Fits)
    (start : ¬ x.led.Alive) (keeps : ∀ e ∈ y.hist, e.keepsGap P) : GapAsked y := by
  induction h with
  | refl => exact .dead start
  | tail before step ih =>
    have hx := moves_fit before fits
    cases step with
    | called shows =>
      exact .called shows (keeps _ List.mem_cons_self)
        (ih fun e he => keeps e (List.mem_cons_of_mem _ he))
    | acting step => exact acting_gapAsked step hx keeps (ih (step.goesOn.forall_mem keeps))
    | replaying step => exact replaying_gapAsked step (ih (step.goesOn.forall_mem keeps))

/-! ### Judging a message that runs ahead -/

/-- A gap of which `n` is known to be missing was asked for, and is still open. -/
structure Asks (w : Scene) : Prop where
  asked : ∃ k ≤ w.ses.nextIn, AskedFrom w.hist k
  open_ : w.ses.nextIn ≤ w.ses.resendTo

theorem enqueue_gap (w : Scene) (seq : ℕ) (b : Bytes) :
    (w.enqueue seq b).ses.nextIn = w.ses.nextIn ∧
      (w.enqueue seq b).ses.resendFrom = w.ses.resendFrom ∧
      (w.enqueue seq b).ses.resendTo = w.ses.resendTo ∧
      GoesOn w.hist (w.enqueue seq b).hist := by
  unfold Scene.enqueue
  split
  · exact ⟨rfl, rfl, rfl, .refl⟩
  · split
    · exact ⟨rfl, rfl, rfl, .refl⟩
    · exact ⟨rfl, rfl, rfl, .cons rfl .refl⟩

theorem tooHigh_asks {w : Scene} {seq : ℕ} {b : Bytes} (asked : GapAsked w.books)
    (alive : w.ses.Alive) (fits : w.ses.nextIn < u32Size) (ahead : w.ses.nextIn < seq)
    (up : (w.tooHigh P seq b).2 = .up) : Asks (w.tooHigh P seq b).1 := by
  obtain ⟨count, from_, upTo, goes⟩ := enqueue_gap w seq b
  unfold Scene.tooHigh at up ⊢
  generalize w.enqueue seq b = v at *
  dsimp only at up ⊢
  split at up
  · -- the gap was asked for before
    rename_i known
    rw [if_pos known]
    have open_ : w.ses.resendFrom ≠ 0 := from_ ▸ known.1
    obtain ⟨before, low, high⟩ := asked alive open_
    refine ⟨⟨w.ses.resendFrom, ?_, goes.askedFrom before⟩, ?_⟩
    · rw [count]
      exact low
    · rw [count, upTo]
      exact high
  · rename_i unknown
    rw [if_neg unknown]
    split at up
    · rename_i u sent
      obtain ⟨ledger, ⟨bytes, hist⟩, -⟩ := Scene.send_sent sent
      have in_ : u.ses.nextIn = v.ses.nextIn := congrArg Ledger.nextIn ledger
      have to_ : u.ses.resendTo = seq - 1 := congrArg Ledger.resendTo ledger
      refine ⟨⟨v.ses.nextIn, in_.ge, ?_⟩, ?_⟩
      · rw [hist]
        refine .asked (count ▸ fits) ?_
        rw [Session.slotsFor_lookup _ _ _ (by decide)]
        rfl
      · rw [in_, to_]
        omega
    · cases up

section Judge

variable {A J : Type} [Application A] [Journal J]

theorem judge_asks {w : World A J} {b : Bytes} {m : Inbound} (asked : GapAsked w.books)
    (alive : w.ses.Alive) (fits : w.ses.nextIn < u32Size) (arr : w.ses.arrives P b = some m)
    (check : m.checkTooHigh) (ahead : w.ses.nextIn < m.seq) (up : (w.judge P b).2 = .ok .up) :
    Asks (w.judge P b).1.toScene := by
  rw [World.judge_of_arrives arr] at up ⊢
  generalize hv : ({ w with
    ses := w.ses.noteSkew (viewOf P b), hist := .judged w.ses b :: w.hist } : World A J) = v at *
  have ledger : v.ses.ledger = w.ses.ledger := by rw [← hv]; exact World.noteSkew_ledger _ _
  have count : v.ses.nextIn = w.ses.nextIn := congrArg Ledger.nextIn ledger
  have hist : v.hist = .judged w.ses b :: w.hist := by rw [← hv]
  have still : GapAsked v.books := by
    rw [Scene.books, ledger, hist]
    exact asked.quiet (.cons rfl .refl) id rfl rfl rfl
  have logon : m.isLogon = false := by
    simp only [Inbound.checkTooHigh, Bool.and_eq_true, Bool.not_eq_true'] at check
    exact check.2
  have same : v.toScene.restartOn m = v.toScene := by
    rw [Scene.restartOn, if_neg (by simp [logon])]
  have low : ¬ (m.checkTooLow ∧ m.seq < v.ses.nextIn) := fun h => by omega
  have high : m.checkTooHigh = true ∧ v.ses.nextIn < m.seq := ⟨check, by omega⟩
  unfold World.judgeSequence at up ⊢
  rw [same] at up ⊢
  dsimp only at up ⊢
  rw [if_neg low, if_pos high] at up ⊢
  exact tooHigh_asks still (by rw [← Session.ledger_alive, ledger]; exact alive) (count ▸ fits) high.2
    (Except.ok.inj up)

end Judge

end Fixbolt
