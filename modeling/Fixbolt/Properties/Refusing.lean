import Fixbolt.Session.Spending
import Fixbolt.Properties.LoggingOn
import Fixbolt.Properties.Setting

/-!
# What a refused Logon costs

A Logon may be refused at any of a dozen places. Where it is, the counts differ from what they were
only by the numbers of the answers, with three exceptions that the source means: `141=Y` restarts
both counts before the number of its own Logon is judged, so a Logon refused after that leaves them
restarted; the number of a Logon in which a logged-on session finds a fault may be consumed; and a
session that ends restarts its counts where its reset policy says so.

* `World.acceptsLogon`, `Session.countsOn`, `Counted`: what the property is stated with;
* `refused_logon_counts`: the counts after a Logon that is not accepted, and after its call.
-/

namespace Fixbolt

open History Relation

/-- What happened since the newest judgement began. -/
def sinceJudged (h : List Event) : List Event := since Event.isJudged h

/-- Does judging these bytes accept a Logon? -/
def World.acceptsLogon (P : Params) {A J : Type} [Application A] [Journal J] (w : World A J)
    (b : Bytes) : Bool :=
  match w.judge P b with
  | (v, .ok _) => (sinceJudged v.hist).contains .loggedOn
  | (_, .error _) => false

namespace Session

/-- Do these bytes restart both counts before their number is judged? They do when they are a Logon
with `141=Y` that nothing refused before. -/
def restartsOn (P : Params) (s : Session) (b : Bytes) : Bool :=
  (s.arrives P b).any fun m => m.isLogon && m.resetSeq

/-- The counts these bytes are judged under, outbound and inbound. -/
def countsOn (P : Params) (s : Session) (b : Bytes) : ℕ × ℕ :=
  if s.restartsOn P b then (1, 1) else (s.nextOut, s.nextIn)

/-- Does a session that is logged on find a fault in these bytes? -/
def findsFault (P : Params) (s : Session) (b : Bytes) : Bool :=
  s.state == .loggedOn && ((badTagNumber P b).isSome || (s.faultOn P b).isSome)

end Session

/-- The counts are `c`, unless the session `s` ended and its reset policy restarted both. -/
inductive Counted (c : ℕ × ℕ) (s : Session) (v : Scene) : Prop
  | kept (counts : (v.ses.nextOut, v.ses.nextIn) = c)
  | restarted {why : DropReason} (ended : .ended why ∈ sinceJudged v.hist)
      (policy : s.endResets why) (counts : (v.ses.nextOut, v.ses.nextIn) = (1, 1))

/-! ### From the judgement on -/

/-- A scene in which the judgement of `b` has begun, under the counts `c`. -/
structure Begun (c : ℕ × ℕ) (w : Scene) (b : Bytes) (u : Scene) : Prop where
  cfg : u.ses.cfg = w.ses.cfg
  counts : (u.ses.nextOut, u.ses.nextIn) = c
  hist : ∃ pre, u.hist = pre ++ .judged w.ses b :: w.hist ∧ answers pre = 0 ∧
    ∀ e ∈ pre, e.isJudged = false

section Refusing

variable {P : Params} {w u v : Scene} {b : Bytes} {c : ℕ × ℕ}

theorem sinceJudged_append {new h : List Event} {s : Session}
    (plain : ∀ e ∈ new, e.isJudged = false) : sinceJudged (new ++ .judged s b :: h) = new := by
  unfold sinceJudged
  rw [since_append_of_forall plain, since_cons_of_pos rfl, List.append_nil]

theorem endResets_cfg {s t : Session} (cfg : s.cfg = t.cfg) (why : DropReason) :
    s.endResets why = t.endResets why := by
  unfold Session.endResets
  rw [cfg]

/-- The end of a session, noted after a stretch. -/
theorem endSession_hist (w : Scene) (why : DropReason) : ∃ new, (w.endSession why).hist = new ++ w.hist ∧
    .ended why ∈ new ∧ answers new = 0 ∧ ∀ e ∈ new, e.isJudged = false := by
  unfold Scene.endSession
  split
  · exact ⟨[.restarted _, .ended why], rfl, by simp, rfl, by simp [Event.isJudged]⟩
  · exact ⟨[.ended why], rfl, by simp, rfl, by simp [Event.isJudged]⟩

theorem endSession_counts (w : Scene) (why : DropReason) :
    ((w.endSession why).ses.nextOut, (w.endSession why).ses.nextIn) =
      if w.ses.endResets why then (1, 1) else (w.ses.nextOut, w.ses.nextIn) := by
  unfold Scene.endSession
  split
  · rename_i resets
    simp [Scene.logRestart, Scene.log, Scene.upd, Session.endWith, resets]
  · rename_i keeps
    simp [Scene.log, Scene.upd, Session.endWith, keeps]

/-- **A stretch that spares the counts**, from the judgement on. -/
theorem Begun.spares (begun : Begun c w b u) (fits : c.1 < u32Size) (s : Spares u v) :
    Counted (wrapU32 (c.1 + answers (sinceJudged v.hist)), c.2) w.ses v := by
  obtain ⟨pre, start, mute, unjudged⟩ := begun.hist
  have out : u.ses.nextOut = c.1 := congrArg Prod.fst begun.counts
  have inn : u.ses.nextIn = c.2 := congrArg Prod.snd begun.counts
  have paid {x : Scene} (pays : Pays u x) : ∃ new, x.hist = new ++ .judged w.ses b :: w.hist ∧
      (∀ e ∈ new, e.isJudged = false) ∧ (x.ses.nextOut, x.ses.nextIn) = (wrapU32 (c.1 + answers new), c.2) := by
    obtain ⟨new, hist, plain, spent⟩ := pays.said
    refine ⟨new ++ pre, ?_, ?_, ?_⟩
    · rw [hist, start, List.append_assoc]
    · intro e mem
      exact (List.mem_append.mp mem).elim (plain e) (unjudged e)
    · rw [spent, out, spending_eq fits, pays.count, inn]
      rw [answers, answers, List.countP_append, show List.countP Event.goesOut pre = 0 from mute,
        Nat.add_zero]
  cases s with
  | kept pays =>
    obtain ⟨new, hist, plain, counts⟩ := paid pays
    refine .kept ?_
    rw [hist, sinceJudged_append plain, counts]
  | @ended x pays why =>
    obtain ⟨new, hist, plain, counts⟩ := paid pays
    obtain ⟨more, hist', ended, quiet, plain'⟩ := endSession_hist x why
    have since : sinceJudged (x.endSession why).hist = more ++ new := by
      rw [hist', hist, ← List.append_assoc]
      refine sinceJudged_append fun e mem => ?_
      exact (List.mem_append.mp mem).elim (plain' e) (plain e)
    have policy : x.ses.endResets why = w.ses.endResets why :=
      endResets_cfg (pays.cfg.trans begun.cfg) why
    by_cases resets : w.ses.endResets why = true
    · have said : Event.ended why ∈ sinceJudged (x.endSession why).hist := by
        rw [since]
        exact List.mem_append_left new ended
      refine .restarted said resets ?_
      rw [endSession_counts, policy, if_pos resets]
    · refine .kept ?_
      rw [endSession_counts, policy, if_neg resets, counts, since]
      rw [answers, answers, List.countP_append, show List.countP Event.goesOut more = 0 from quiet,
        Nat.zero_add]

/-! ### The ways to refuse -/

variable {A J : Type} [Application A] [Journal J] {x : World A J} {m : Inbound}

omit [Application A] [Journal J] in
theorem weighs_lift {y : World A J} {f : Scene → Scene × Except Refusal Link}
    (h : Weighs u (f y.toScene)) : Weighs u (World.seen (y.lift f)) := h

/-- A Logon that gets as far as its number is judged under the counts that `141=Y` leaves. -/
theorem judge_arrived (arr : x.ses.arrives P b = some m) (logon : m.isLogon) :
    ∃ u, Begun (x.ses.countsOn P b) x.toScene b u ∧ Weighs u (World.seen (x.judge P b)) := by
  obtain ⟨-, -, reset⟩ := Inbound.eq_of_isLogon logon
  rw [World.judge_of_arrives arr]
  generalize x.ses.faultOn P b = fault
  unfold World.judgeSequence
  generalize hu : ({ x.toScene with
    ses := x.ses.noteSkew (viewOf P b), hist := .judged x.ses b :: x.hist } : Scene).restartOn m = u
  have ledger := World.noteSkew_ledger x.ses (viewOf P b)
  have begun : Begun (x.ses.countsOn P b) x.toScene b u := by
    have counts : x.ses.countsOn P b = if m.isLogon && m.resetSeq then (1, 1)
        else (x.ses.nextOut, x.ses.nextIn) := by
      simp only [Session.countsOn, Session.restartsOn, arr, Option.any_some]
    rw [counts, ← hu]
    unfold Scene.restartOn
    split
    · exact ⟨World.noteSkew_cfg x.ses _, rfl, [.restarted _], rfl, rfl, by simp [Event.isJudged]⟩
    · refine ⟨World.noteSkew_cfg x.ses _, ?_, [], rfl, rfl, List.forall_mem_nil _⟩
      exact Prod.ext (congrArg Ledger.nextOut ledger) (congrArg Ledger.nextIn ledger)
  refine ⟨u, begun, ?_⟩
  dsimp only
  split
  · exact .inl (Scene.judgeTooLow_spares m)
  · split
    · rename_i high
      exact absurd high.1 (by simp [Inbound.checkTooHigh, logon])
    · unfold World.judgeInOrder
      have taken : Pays u (u.upd (·.consume m)) := by
        have same : u.ses.consume m = u.ses.accept m.seq := by
          unfold Session.consume
          rw [if_pos (by simp [logon])]
        refine .upd ?_ ?_ ?_ <;> rw [same] <;> rfl
      refine taken.weighs ?_
      cases fault with
      | some f => exact .inl (Scene.sendReject_spares _)
      | none =>
        dsimp only
        unfold World.judgeAccepted
        rw [if_pos logon]
        exact weighs_lift (Scene.judgeLogon_weighs m b)

/-- A message that does not get as far as its number spares the counts, unless a tag of it is
unreadable on a session that is logged on. -/
theorem judge_unarrived (arr : x.ses.arrives P b = none) {w : Scene}
    (start : w = ⟨x.ses, .judged x.ses b :: x.hist⟩) :
    Spares w (Scene.orEnd (World.seen (x.judge P b))).1 ∨
      x.ses.state = .loggedOn ∧ ∃ n, badTagNumber P b = some n ∧
        Spares (w.upd fun s => { s with nextIn := wrapU32 (n + 1) })
          (Scene.orEnd (World.seen (x.judge P b))).1 := by
  subst start
  have unread := World.judge_unread arr
  generalize x.judge P b = r at unread
  cases unread with
  | ignored => exact .inl (.kept (.refl _))
  | garbled => exact .inl (Scene.garbled_spares b)
  | wrongBegin => exact .inl (.kept (Scene.cut_pays _))
  | @refused why s ledger cfg =>
    have same : Pays (⟨x.ses, .judged x.ses b :: x.hist⟩ : Scene) ⟨s, .judged x.ses b :: x.hist⟩ :=
      @Pays.upd ⟨x.ses, .judged x.ses b :: x.hist⟩ (fun _ => s) cfg (congrArg Ledger.nextIn ledger)
        (congrArg Ledger.nextOut ledger)
    exact .inl (.ended same _)
  | badTag live bad =>
    obtain spared | ⟨n, number, spared⟩ := Scene.judgeBadTag_spares (P := P)
      (w := ⟨x.ses, .judged x.ses b :: x.hist⟩) bad
    · exact .inl spared
    · exact .inr ⟨live, n, number, spared⟩

theorem mem_sinceJudged {e : Event} {new h : List Event} (mem : e ∈ new)
    (plain : ∀ e ∈ new, e.isJudged = false) : e ∈ sinceJudged (new ++ h) := by
  unfold sinceJudged
  rw [since_append_of_forall plain]
  exact List.mem_append_left _ mem

/-- A Logon that is accepted is not refused. -/
theorem LogsOn.accepts (on : LogsOn u (World.seen (x.judge P b))) : x.acceptsLogon P b := by
  obtain ⟨link, ok⟩ := on.link
  obtain ⟨new, hist, mem, plain⟩ := on.hist
  unfold World.acceptsLogon
  rcases judged : x.judge P b with ⟨y, why | link'⟩
  · rw [judged] at ok
    cases ok
  · rw [judged] at hist
    have grown : y.hist = new ++ u.hist := hist
    dsimp only
    rw [grown]
    exact List.contains_iff_mem.mpr (mem_sinceJudged mem plain)

/-- The counts after the judgement of a Logon that is not accepted. -/
theorem judgeOrEnd_counted (fits : x.ses.nextOut < u32Size) (logon : asLogon P b)
    (refused : x.acceptsLogon P b = false) {v : Scene} (judged : v = (x.judgeOrEnd P b).1.toScene) :
    Counted (wrapU32 ((x.ses.countsOn P b).1 + answers (sinceJudged v.hist)),
        (x.ses.countsOn P b).2) x.ses v ∨
      x.ses.findsFault P b ∧ ∃ n, numberOf P b = some n ∧
        Counted (wrapU32 ((x.ses.countsOn P b).1 + answers (sinceJudged v.hist)),
          wrapU32 (n + 1)) x.ses v := by
  have small : (x.ses.countsOn P b).1 < u32Size := by
    unfold Session.countsOn
    split
    · exact one_lt_u32Size
    · exact fits
  have ended : v = (Scene.orEnd (World.seen (x.judge P b))).1 := by
    rw [judged, ← World.judgeOrEnd_eq]
    rfl
  cases arr : x.ses.arrives P b with
  | some m =>
    obtain ⟨u, begun, spared | on⟩ := judge_arrived arr (isLogon_of_asLogon arr logon)
    · exact .inl (begun.spares small (ended ▸ spared))
    · rw [on.accepts] at refused
      cases refused
  | none =>
    have counts : x.ses.countsOn P b = (x.ses.nextOut, x.ses.nextIn) := by
      simp [Session.countsOn, Session.restartsOn, arr]
    rw [counts] at small ⊢
    obtain spared | ⟨live, n, bad, spared⟩ := judge_unarrived arr rfl
    · have begun : Begun (x.ses.nextOut, x.ses.nextIn) x.toScene b
          ⟨x.ses, .judged x.ses b :: x.hist⟩ :=
        ⟨rfl, rfl, [], rfl, rfl, List.forall_mem_nil _⟩
      exact .inl (begun.spares small (ended ▸ spared))
    · have begun : Begun (x.ses.nextOut, wrapU32 (n + 1)) x.toScene b
          (Scene.upd ⟨x.ses, .judged x.ses b :: x.hist⟩ fun s =>
            { s with nextIn := wrapU32 (n + 1) }) :=
        ⟨rfl, rfl, [], rfl, rfl, List.forall_mem_nil _⟩
      refine .inr ⟨?_, n, ?_, begun.spares small (ended ▸ spared)⟩
      · simp [Session.findsFault, live, bad]
      · unfold badTagNumber at bad
        split at bad
        · split at bad
          · exact bad
          · cases bad
        · cases bad

/-! ### The rest of the call -/

/-- A resend in progress moves no count, unless it cannot be sent. -/
theorem advanceReplay_counted (w : Scene) (j : J) (link : Link) {s : Session}
    (cfg : w.ses.cfg = s.cfg) :
    Counted (w.ses.nextOut, w.ses.nextIn) s (w.advanceReplay P j link).1 := by
  unfold Scene.advanceReplay
  split
  · have next : (w.continueReplay P j).1.ses.cfg = w.ses.cfg ∧
        ((w.continueReplay P j).1.ses.nextOut, (w.continueReplay P j).1.ses.nextIn) =
          (w.ses.nextOut, w.ses.nextIn) := by
      refine ⟨deeds_cfg (Scene.continueReplay_deeds (P := P) (L := True) j w).1, ?_⟩
      unfold Scene.continueReplay
      split
      · rfl
      · rename_i r owes
        obtain ⟨-, ledger, -⟩ := Scene.replayLoop_replaying (P := P) j
          (max w.ses.cfg.resendBatch 1) w r r owes (.refl r)
        generalize Scene.replayLoop P j (max w.ses.cfg.resendBatch 1) w r = y at ledger ⊢
        obtain ⟨v, left⟩ := y
        have counts : (v.ses.nextOut, v.ses.nextIn) = (w.ses.nextOut, w.ses.nextIn) :=
          Prod.ext (congrArg Ledger.nextOut ledger) (congrArg Ledger.nextIn ledger)
        cases left <;> exact counts
    generalize w.continueReplay P j = y at next ⊢
    obtain ⟨v, sent⟩ := y
    obtain ⟨same, counts⟩ := next
    cases sent with
    | true => exact .kept counts
    | false =>
      obtain ⟨new, hist, ended, -, plain⟩ := endSession_hist v .cannotSend
      have policy := endResets_cfg (same.trans cfg) .cannotSend
      by_cases resets : s.endResets .cannotSend = true
      · have said : Event.ended .cannotSend ∈ sinceJudged (v.endSession .cannotSend).hist := by
          rw [hist]
          exact mem_sinceJudged ended plain
        refine .restarted said resets ?_
        rw [endSession_counts, policy, if_pos resets]
      · refine .kept ?_
        rw [endSession_counts, policy, if_neg resets, counts]
  · exact .kept rfl

/-- Where no held message is due, the call ends with the counts that the judgement left. -/
theorem receivedInner_counted (alive : x.ses.Alive) {y : World A J}
    (judged : y = (x.judgeOrEnd P b).1) (idle : ∀ q ∈ y.ses.queue, q.seq ≠ y.ses.nextIn) :
    Counted (y.ses.nextOut, y.ses.nextIn) x.ses (x.receivedInner P b).1.toScene := by
  unfold World.receivedInner
  rw [if_neg (not_or.mpr alive)]
  have cfg : y.ses.cfg = x.ses.cfg := judged ▸ turns_cfg (World.judgeOrEnd_turns b alive)
  generalize x.judgeOrEnd P b = r at judged
  obtain ⟨z, link⟩ := r
  obtain rfl : y = z := judged
  cases link with
  | dropped => exact .kept rfl
  | up =>
    have undue : (y.ses.queue.findIdx? fun q => q.seq == y.ses.nextIn) = none := by
      rw [List.findIdx?_eq_none_iff]
      intro q mem
      exact beq_false_of_ne (idle q mem)
    have drained : y.drain P queued = (y, .up) := by
      unfold queued World.drain
      rw [undue]
    dsimp only
    rw [drained]
    exact advanceReplay_counted y.toScene y.journal .up cfg

/-- **What a refused Logon costs.** The outbound count moves by the numbers of the answers. The
inbound count stays, or passes the number of a Logon in which a session that is logged on found a
fault. Both count from where they were before the call, or from 1 where `141=Y` was read on a
Logon that nothing had refused by then; and both are at 1 where the session ended and its reset
policy says so. The rest of the call moves neither, until a held message is due.

`x` is the session as a call meets it, with the application and the journal that it is driven with.
The counts of a reachable session fit their width (`reachable_fits`). -/
theorem refused_logon_counts (fits : x.ses.nextOut < u32Size) (logon : asLogon P b)
    (refused : x.acceptsLogon P b = false) :
    let v := (x.judgeOrEnd P b).1
    let out := wrapU32 ((x.ses.countsOn P b).1 + answers (sinceJudged v.hist))
    (Counted (out, (x.ses.countsOn P b).2) x.ses v.toScene ∨
      x.ses.findsFault P b ∧ ∃ n, numberOf P b = some n ∧
        Counted (out, wrapU32 (n + 1)) x.ses v.toScene) ∧
    (x.ses.Alive → (∀ q ∈ v.ses.queue, q.seq ≠ v.ses.nextIn) →
      Counted (v.ses.nextOut, v.ses.nextIn) x.ses (x.receivedInner P b).1.toScene) :=
  ⟨judgeOrEnd_counted fits logon refused rfl, fun alive idle => receivedInner_counted alive rfl idle⟩

end Refusing

namespace Setting

/-- The counts restart under no policy. -/
def never : ResetPolicy := ⟨false, false, false⟩

/-- The acceptor with a reset policy, resumed at 7 out and 5 in, on a new connection. -/
def resumedAt (policy : ResetPolicy) : World Silent NoJournal :=
  (⟨⟨.resume acceptor { config with reset := policy } 7 5, []⟩, .silent, .noJournal⟩ :
    World Silent NoJournal).run acceptor [.connect, .tick now]

theorem resumedAt_reachable (policy : ResetPolicy) : World.Reachable acceptor (resumedAt policy) :=
  World.Reachable.run acceptor (.init (.resume _ (by decide) (by decide)) _ _) _
    (by simp [Call.fits])

/-- A Logon of the counterparty without its `108=`. -/
def logonWithout108 (fields : List (ℕ × Bytes)) : Bytes := theirs "A" 9 ((98, ascii "0") :: fields)

end Setting

open Setting

theorem refused_logon_counts_resumed :
    ((resumedAt never).judgeOrEnd acceptor (logonWithout108 [])).1.ses.nextOut = 7 ∧
      ((resumedAt never).judgeOrEnd acceptor (logonWithout108 [])).1.ses.nextIn = 5 := by
  have unfaulted : (resumedAt never).ses.findsFault acceptor (logonWithout108 []) = false := by
    decide +kernel
  have counts : (resumedAt never).ses.countsOn acceptor (logonWithout108 []) = (7, 5) := by
    decide +kernel
  have unanswered : answers (sinceJudged
      ((resumedAt never).judgeOrEnd acceptor (logonWithout108 [])).1.hist) = 0 := by decide +kernel
  obtain ⟨kept | ⟨fault, -⟩, -⟩ := @refused_logon_counts acceptor (logonWithout108 []) _ _ _ _
    (resumedAt never) (by decide +kernel) (by decide +kernel) (by decide +kernel)
  · cases kept with
    | kept same =>
      rw [counts, unanswered] at same
      exact Prod.mk.inj same
    | @restarted why ended policy same => exact absurd policy (by cases why <;> decide +kernel)
  · rw [unfaulted] at fault
    cases fault

/-- What the refusal of a Logon would cost if neither `141=Y` nor a reset policy counted. -/
def CostsAnswers (w : World Silent NoJournal) (b : Bytes) (n : ℕ) : Prop :=
  let v := (w.perform acceptor (.receivedWith b)).1
  v.ses.nextOut = wrapU32 (w.ses.nextOut + answers (sinceJudged v.hist)) ∧
    (v.ses.nextIn = w.ses.nextIn ∨ v.ses.nextIn = wrapU32 (n + 1))

instance (w : World Silent NoJournal) (b : Bytes) (n : ℕ) : Decidable (CostsAnswers w b n) :=
  inferInstanceAs (Decidable (_ ∧ _))

/-- `141=Y` on a Logon that is refused for its missing `108=` leaves both counts at 1, and so does the
same Logon without it under `ResetOnDisconnect`. -/
theorem refused_logon_restarts :
    (¬ ∀ (w : World Silent NoJournal) (b : Bytes) (n : ℕ), World.Reachable acceptor w →
      asLogon acceptor b → w.acceptsLogon acceptor b = false → numberOf acceptor b = some n →
      CostsAnswers w b n) ∧
    ∃ w : World Silent NoJournal, World.Reachable acceptor w ∧ w.ses.cfg.reset.onDisconnect ∧
      w.acceptsLogon acceptor (logonWithout108 []) = false ∧ ¬ CostsAnswers w (logonWithout108 []) 9 := by
  refine ⟨fun h => ?_, resumedAt ⟨false, false, true⟩, resumedAt_reachable _, by decide +kernel,
    by decide +kernel, by decide +kernel⟩
  have costs := h (resumedAt never) (logonWithout108 [(141, ascii "Y")]) 9 (resumedAt_reachable _)
    (by decide +kernel) (by decide +kernel) (by decide +kernel)
  exact absurd costs (by decide +kernel)

end Fixbolt
