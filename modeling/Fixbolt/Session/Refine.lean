import Fixbolt.Session.Resend
import Fixbolt.Session.Settle

/-!
# Every call is a run of moves

`judge` and the calls of a session as runs of `Acting`, then of `Replaying`, on the books.
`reachable_moves` is what the properties of whole runs rest on.
-/

namespace Fixbolt

open History Relation

namespace World

variable {P : Params} {R : Rules} {A J : Type} [Application A]
  [Journal J] {w v : World A J} {s : Session} {b : Bytes} {m : Inbound}

/-- What an application may answer. -/
def Answers (A : Type) [Application A] (R : Bytes → Header → Bytes → Prop) : Prop :=
  ∀ (a : A) (b : Bytes) (hdr : Header) (bytes : Bytes),
    (Application.onMessage a b hdr).2 = some bytes → R b hdr bytes

/-- A message about to be judged past its number, with what its number was found to be. -/
structure InOrder (P : Params) (w : Scene) (s : Session) (b : Bytes) (m : Inbound) : Prop
    extends Judging P w s b m where
  notLow : m.checkTooLow → m.countAt s ≤ m.seq
  notHigh : m.checkTooHigh → m.seq ≤ m.countAt s
  out : m.isLogon → w.ses.nextOut = if m.resetSeq then 1 else s.nextOut
  exact_ : m.isLogon = false → ∃ h, w.hist = .judged s b :: h ∧ w.ses.ledger = s.ledger
  cfg : w.ses.cfg = s.cfg

/-- The number of a message that is neither a Logon nor a SequenceReset is consumed. -/
theorem InOrder.consumed {w : Scene} (o : InOrder P w s b m) (reset : m.isSequenceReset = false)
    (logon : m.isLogon = false) : m.Consumed s := by
  by_cases hout : m.isLogout
  · exact .inl hout
  · by_cases hresend : m.isResendRequest
    · exact .inr (.inl hresend)
    · have skips : m.skipsSequencing = false := by simp [Inbound.skipsSequencing, *]
      have low := o.notLow (by simp [Inbound.checkTooLow, skips])
      have high := o.notHigh (by simp [Inbound.checkTooHigh, skips, logon])
      exact .inr (.inr ⟨by simp [reset], by omega⟩)

/-- An application message: `v` is the world once it consumed it. -/
theorem judgeApplication_settles (hA : Answers A R.answers) (o : InOrder P w.toScene s b m)
    (app : m.isApplication) (fault : s.faultOn P b = none)
    (ledger : v.ses.ledger = w.ses.ledger.advance m.seq) (hist : v.hist = w.hist)
    (cfg : v.ses.cfg = s.cfg) :
    Settles P R w.books ((v.judgeApplication b).1.toScene, (v.judgeApplication b).2) := by
  obtain ⟨logon, logout, resend, reset⟩ := Inbound.eq_of_isApplication app
  obtain ⟨h, hh, hl⟩ := o.exact_ logon
  have consumed := o.consumed reset logon
  have inOrder : m.seq = w.ses.ledger.nextIn := by
    have seq : m.seq = m.countAt s := by simpa [Inbound.Consumed, logout, resend, reset] using consumed
    rw [seq, hl, Inbound.countAt, logon]
    rfl
  have alive : v.ses.ledger.Alive := by
    rw [ledger]
    exact o.alive
  unfold judgeApplication
  split
  · -- nothing can be laid out, so the message is consumed and the session ends
    have stays : m.isLogout → s.faultOn P b ≠ none := by simp [logout]
    have step : Acting P R w.books v.books := by
      rw [Scene.books, Scene.books, ledger, hist]
      exact .advanced o.now o.arr consumed stays o.count o.queue o.gap o.alive
    exact .refused (.single step) (.unanswered (by rw [hist]; exact o.now) o.arr consumed
      (congrArg Ledger.nextIn ledger) ((congrArg Ledger.queue ledger).trans o.queue))
  · have handed : Acting P R w.books ⟨v.ses.ledger, .delivered v.ses b :: w.hist⟩ := by
      rw [Scene.books, hh, ledger]
      exact .delivered hl.symm o.arr app fault inOrder ledger cfg o.alive
    rw [← hist] at handed
    dsimp only
    generalize hr : Application.onMessage v.app b _ = r
    cases ha : r.2 with
    | none => exact .up (.single handed) alive
    | some bytes =>
      refine .up (.tail (.single handed) ?_) alive
      exact .replied rfl alive rfl (hA _ _ _ _ (by rw [hr, ha]))

/-- The scene of a result. -/
def seen {α : Type} (r : World A J × α) : Scene × α := (r.1.toScene, r.2)

/-- A message in order and without fault that is neither a Logon nor a SequenceReset. -/
theorem judgeConsumed_settles (hA : Answers A R.answers) (o : InOrder P w.toScene s b m)
    (reset : m.isSequenceReset = false) (logon : m.isLogon = false) (fault : s.faultOn P b = none)
    (ledger : v.ses.ledger = w.ses.ledger.advance m.seq) (hist : v.hist = w.hist)
    (cfg : v.ses.cfg = s.cfg) :
    Settles P R w.books (seen (v.judgeAccepted P m b)) := by
  unfold judgeAccepted
  rw [if_neg (by simp [logon])]
  split
  · rename_i logout
    exact Scene.judgeLogout_settles o.toJudging logout fault ledger hist
  · rename_i logout
    have consumed := o.consumed reset logon
    have step : Acting P R w.books v.books := by
      rw [Scene.books, Scene.books, ledger, hist]
      exact .advanced o.now o.arr consumed (fun h => absurd h logout) o.count o.queue o.gap
        o.alive
    have answering : Answering P v.toScene s b m :=
      { now := hist ▸ o.now
        arr := o.arr
        alive := by
          rw [← Session.ledger_alive, ledger]
          exact o.alive
        consumed := consumed
        count := congrArg Ledger.nextIn ledger
        queue := (congrArg Ledger.queue ledger).trans o.queue
        out := by
          obtain ⟨-, -, same⟩ := o.exact_ logon
          exact (congrArg Ledger.nextOut ledger).trans (congrArg Ledger.nextOut same) }
    split
    · exact .after (.single step) (Scene.judgeTestRequest_settles answering)
    · split
      · rename_i resend
        exact .after (.single step) (Scene.judgeResendRequest_settles answering resend fault)
      · rw [if_neg (by simp [reset])]
        split
        · rename_i app
          exact judgeApplication_settles hA o app fault ledger hist cfg
        · exact .up (.single step) answering.alive

theorem judgeInOrder_settles (hA : Answers A R.answers) (o : InOrder P w.toScene s b m) :
    Settles P R w.books (seen (w.judgeInOrder P m (s.faultOn P b) b)) := by
  unfold judgeInOrder
  generalize hv : ({ w with ses := w.ses.consume m } : World A J) = v
  have hist : v.hist = w.hist := by rw [← hv]
  have cfg : v.ses.cfg = w.ses.cfg := by
    rw [← hv]
    exact w.ses.consume_cfg m
  have ledger : v.ses.ledger =
      if m.isSequenceReset || m.isLogon then w.ses.ledger else w.ses.ledger.advance m.seq := by
    rw [← hv]
    exact w.ses.consume_ledger m
  dsimp only
  by_cases stays : (m.isSequenceReset || m.isLogon) = true
  · rw [if_pos stays] at ledger
    have books : v.books = w.books := by rw [Scene.books, ledger, hist]; rfl
    have j := o.toJudging.holds (.of_ledger o.alive ledger hist cfg)
    rw [← books]
    cases hf : s.faultOn P b with
    | some f => exact Scene.sendReject_settles _ j.alive j.unmoved fun _ => j.unmoved
    | none =>
      unfold judgeAccepted
      by_cases logon : m.isLogon = true
      · have out := (congrArg Ledger.nextOut ledger).trans (o.out logon)
        have notLow := o.notLow (by
          simp [Inbound.checkTooLow, Inbound.skipsSequencing, Inbound.eq_of_isLogon logon])
        rw [if_pos logon]
        exact Scene.judgeLogon_settles j logon hf notLow out
      · have reset : m.isSequenceReset = true := by simpa [logon] using stays
        obtain ⟨-, logout, resend⟩ := Inbound.eq_of_isSequenceReset reset
        have test : m.isTestRequest = false := by
          have ht : m.msgType = ascii "4" := by simpa [Inbound.isSequenceReset] using reset
          simp only [Inbound.isTestRequest, ht]
          decide
        obtain ⟨h, hh, hl⟩ := o.exact_ (by simpa using logon)
        rw [if_neg logon, if_neg (by simp [logout]), if_neg (by simp [test]),
          if_neg (by simp [resend]), if_pos reset]
        exact Scene.judgeSequenceReset_settles j (hist.trans hh) (ledger.trans hl) reset hf
  · rw [if_neg stays] at ledger
    obtain ⟨reset, logon⟩ : m.isSequenceReset = false ∧ m.isLogon = false := by simpa using stays
    cases hf : s.faultOn P b with
    | none => exact judgeConsumed_settles hA o reset logon hf ledger hist (cfg.trans o.cfg)
    | some f =>
      have consumed := o.consumed reset logon
      have step : Acting P R w.books v.books := by
        rw [Scene.books, Scene.books, ledger, hist]
        exact .advanced o.now o.arr consumed (fun _ => by simp [hf]) o.count o.queue o.gap o.alive
      have now : judging v.hist = some (s, b) := hist ▸ o.now
      have count := congrArg Ledger.nextIn ledger
      have queue := (congrArg Ledger.queue ledger).trans o.queue
      have alive : v.ses.Alive := by
        rw [← Session.ledger_alive, ledger]
        exact o.alive
      exact .after (.single step) (Scene.sendReject_settles _ alive
        (.unanswered now o.arr consumed count queue)
        fun ends => .faulted now o.arr consumed hf ends count queue)

/-- What `judgeSequence` is given: a message that arrived at `s`, and nothing done about it. -/
theorem judgeSequence_settles (hA : Answers A R.answers) {h : List Event} (alive : w.ses.Alive)
    (hist : w.hist = .judged s b :: h) (ledger : w.ses.ledger = s.ledger)
    (cfg : w.ses.cfg = s.cfg) (arr : s.arrives P b = some m) :
    Settles P R w.books (seen (w.judgeSequence P m (s.faultOn P b) b)) := by
  unfold judgeSequence
  generalize hv : ({ w with toScene := w.toScene.restartOn m } : World A J) = v
  have start : ReflTransGen (Acting P R) w.books v.books ∧ Judging P v.toScene s b m ∧
      v.ses.cfg = s.cfg ∧ (m.isLogon → v.ses.nextOut = if m.resetSeq then 1 else s.nextOut) ∧
      (m.isLogon = false → v.hist = .judged s b :: h ∧ v.ses.ledger = s.ledger) := by
    have queue : w.ses.queue = s.queue := congrArg Ledger.queue ledger
    have gap : w.ses.resendFrom = s.resendFrom ∧ w.ses.resendTo = s.resendTo :=
      ⟨congrArg Ledger.resendFrom ledger, congrArg Ledger.resendTo ledger⟩
    by_cases resets : (m.isLogon && m.resetSeq) = true
    · have hr : v = { w with toScene := (w.upd (·.restartCounts)).logRestart } := by
        rw [← hv, Scene.restartOn, if_pos resets]
      have step : Acting P R w.books v.books := by
        rw [hr, Scene.books, hist]
        have after : (w.ses.restartCounts).ledger = w.ses.ledger.restart := rfl
        have := Acting.restarted (R := R) (h := h) ledger.symm arr resets after
        simpa [Scene.books, Scene.logRestart, Scene.log, Scene.upd, hist, after] using this
      obtain ⟨logon, reset⟩ : m.isLogon = true ∧ m.resetSeq = true := by simpa using resets
      have count : m.countAt s = 1 := by simp [Inbound.countAt, resets]
      refine ⟨.single step, ⟨?_, arr, ?_, ?_, ?_, ?_, ?_⟩, ?_, ?_, ?_⟩ <;> rw [hr]
      · exact (judging_restarted _).trans (hist ▸ judging_judged s b)
      · exact alive
      · exact count.symm
      · exact queue
      · exact gap
      · exact ⟨_, lastSeen_restarted _, rfl, rfl⟩
      · exact cfg
      · exact fun _ => by rw [if_pos reset]; rfl
      · simp [logon]
    · have hr : v = w := by
        rw [← hv, Scene.restartOn, if_neg resets]
      have count : m.countAt s = s.nextIn := by rw [Inbound.countAt, if_neg resets]
      rw [hr]
      refine ⟨.refl, ⟨hist ▸ judging_judged s b, arr, alive, ?_, queue, gap, ?_⟩, cfg, ?_,
        fun _ => ⟨hist, ledger⟩⟩
      · exact (congrArg Ledger.nextIn ledger).trans count.symm
      · exact ⟨s, hist ▸ lastSeen_judged s b, (congrArg Ledger.nextIn ledger).symm, queue.symm⟩
      · intro logon
        rw [if_neg (by simpa [logon] using resets)]
        exact congrArg Ledger.nextOut ledger
  obtain ⟨acts, j, hcfg, out, exact_⟩ := start
  dsimp only
  refine .after acts ?_
  split
  · exact Scene.judgeTooLow_settles j
  · rename_i low
    split
    · rename_i high
      exact Scene.tooHigh_settles j ⟨.inl high.1, j.count ▸ high.2⟩
    · rename_i high
      refine judgeInOrder_settles hA ⟨j, fun h => ?_, fun h => ?_, out, ?_, hcfg⟩
      · exact j.count ▸ not_lt.mp (not_and.mp low h)
      · exact j.count ▸ not_lt.mp (not_and.mp high h)
      · exact fun h => ⟨_, exact_ h⟩

theorem noteSkew_ledger (s : Session) (view : MessageView) : (s.noteSkew view).ledger = s.ledger := by
  unfold Session.noteSkew
  split <;> rfl

theorem noteSkew_cfg (s : Session) (view : MessageView) : (s.noteSkew view).cfg = s.cfg := by
  unfold Session.noteSkew
  split <;> rfl

theorem faultOf_noteSkew (s : Session) (view : MessageView) (t : Bytes) :
    (s.noteSkew view).faultOf P view t = s.faultOf P view t := by
  unfold Session.noteSkew
  split <;> rfl

theorem identityRefusal_noteSkew (s : Session) (view : MessageView) :
    (s.noteSkew view).identityRefusal view = s.identityRefusal view := by
  unfold Session.noteSkew
  split <;> rfl

/-- A message whose frame and `BeginString` are right. -/
theorem judgeHeader_settles (hA : Answers A R.answers) {h : List Event} {n : ℕ} (alive : w.ses.Alive)
    (hist : w.hist = .judged w.ses b :: h) (whole : (frameOf P b).outcome = .ok (.complete n))
    (third : ((viewOf P b).fieldAt 2).map (·.1) = some 35)
    (begin_ : ((viewOf P b).get 8).any w.ses.cfg.beginString.isMatch) :
    Settles P R w.books (seen (w.judgeHeader P (viewOf P b) b)) := by
  have unmoved : ∀ why, Closing P w.ses.ledger w.hist why := fun _ =>
    .unmoved (hist ▸ lastSeen_judged w.ses b) rfl rfl
  unfold judgeHeader
  split
  · exact .refused .refl (unmoved _)
  · rename_i refusal
    generalize hv : ({ w with ses := w.ses.noteSkew (viewOf P b) } : World A J) = v
    have ledger : v.ses.ledger = w.ses.ledger := by rw [← hv]; exact noteSkew_ledger _ _
    have same : v.hist = w.hist := by rw [← hv]
    have cfg : v.ses.cfg = w.ses.cfg := by rw [← hv]; exact noteSkew_cfg _ _
    have books : v.books = w.books := by rw [Scene.books, ledger, same]; rfl
    have identity : v.ses.identityRefusal (viewOf P b) = w.ses.identityRefusal (viewOf P b) := by
      rw [← hv]
      exact identityRefusal_noteSkew _ _
    have fault : v.ses.faultOf P (viewOf P b) (((viewOf P b).get 35).getD []) =
        w.ses.faultOn P b := by
      rw [← hv]
      exact faultOf_noteSkew _ _ _
    have closing : ∀ why, Closing P v.ses.ledger v.hist why := by
      rw [ledger, same]
      exact unmoved
    rw [← books]
    dsimp only
    split
    · exact .refused .refl (closing _)
    · rename_i known
      split
      · exact .refused .refl (closing _)
      · rename_i seq number
        have arr : w.ses.arrives P b = some (Inbound.read (viewOf P b) seq) := by
          rw [identity] at known
          simp [Session.arrives, whole, third, begin_, refusal, known, number]
        rw [fault]
        refine judgeSequence_settles hA ?_ (same.trans hist) ledger cfg arr
        rw [← Session.ledger_alive, ledger]
        exact alive

/-- A message that arrives is judged by its number. -/
theorem judge_of_arrives (arr : w.ses.arrives P b = some m) :
    w.judge P b = ({ w with
      ses := w.ses.noteSkew (viewOf P b), hist := .judged w.ses b :: w.hist } :
        World A J).judgeSequence P m (w.ses.faultOn P b) b := by
  unfold Session.arrives at arr
  dsimp only at arr
  split at arr
  · rename_i whole
    split at arr
    · rename_i right
      obtain ⟨third, begin_, refusal, known⟩ := right
      obtain ⟨seq, number, rfl⟩ := Option.map_eq_some_iff.mp arr
      unfold judge
      simp only [whole, judgeFrame, third, begin_, judgeHeader, refusal, identityRefusal_noteSkew,
        known, number, faultOf_noteSkew, Session.faultOn, ne_eq, not_true_eq_false, if_false,
        Bool.not_true, Bool.false_eq_true]
    · cases arr
  · cases arr

theorem judge_settles (hA : Answers A R.answers) (alive : w.ses.Alive) (b : Bytes) :
    Settles P R ⟨w.ses.ledger, .judged w.ses b :: w.hist⟩ (seen (w.judge P b)) := by
  unfold judge
  generalize hv : ({ w with hist := .judged w.ses b :: w.hist } : World A J) = v
  have ses : v.ses = w.ses := by rw [← hv]
  have hist : v.hist = .judged v.ses b :: w.hist := by rw [← hv]
  have books : (⟨w.ses.ledger, .judged w.ses b :: w.hist⟩ : Books) = v.books := by
    rw [Scene.books, hist, ses]
  have unmoved : ∀ why, Closing P v.ses.ledger v.hist why := fun _ =>
    .unmoved (hist ▸ lastSeen_judged v.ses b) rfl rfl
  rw [← ses] at alive
  rw [books]
  dsimp only
  split
  · exact .up .refl alive
  · rename_i whole
    unfold judgeFrame
    split
    · exact Scene.garbled_settles _ alive unmoved
    · rename_i third
      split
      · split
        · exact Scene.logoutWith_settles _ alive (unmoved _)
        · exact .refused .refl (unmoved _)
      · rename_i begin_
        exact judgeHeader_settles hA alive hist whole (not_not.mp third) (by simpa using begin_)
  · rename_i bad
    split
    · exact Scene.judgeBadTag_settles alive hist rfl ‹_› bad
    · exact Scene.garbled_settles _ alive unmoved
  · exact Scene.garbled_settles _ alive unmoved

/-! ### Calls -/

theorem judgeOrEnd_eq (w : World A J) (b : Bytes) :
    seen (w.judgeOrEnd P b) = Scene.orEnd (seen (w.judge P b)) := by
  unfold judgeOrEnd
  rcases w.judge P b with ⟨v, link | why⟩ <;> rfl

/-- What a stretch of a call does: its moves, and what they mean for the link. -/
structure Leads (P : Params) (R : Rules) (x : Books)
    (r : Scene × Link) : Prop where
  acts : ReflTransGen (Acting P R) x r.1.books
  link : r.2 = .up ↔ r.1.ses.Alive

theorem judgeOrEnd_leads (hA : Answers A R.answers) (alive : w.ses.Alive) (b : Bytes) :
    Leads P R ⟨w.ses.ledger, .judged w.ses b :: w.hist⟩ (seen (w.judgeOrEnd P b)) := by
  have h := judge_settles (P := P) hA alive b
  rw [judgeOrEnd_eq]
  exact ⟨h.acts, h.link⟩

@[simp] theorem judging_ended_books (l : Ledger) (h : List Event) (why : DropReason)
    (resets : Option Session) : judging (Books.ended l h why resets).hist = judging h := by
  cases resets with
  | none => exact judging_ended why
  | some t => exact (judging_restarted t).trans (judging_ended why)

/-- A call that has begun to judge goes on judging. -/
theorem acts_judging {x y : Books} (h : ReflTransGen (Acting P R) x y)
    (hx : (judging x.hist).isSome) : (judging y.hist).isSome := by
  induction h with
  | refl => exact hx
  | tail _ step ih => cases step <;> simp_all

theorem drain_leads (hA : Answers A R.answers) (hd : R.drains) (rounds : ℕ) (w : World A J) (alive : w.ses.Alive)
    (within : (judging w.hist).isSome) :
    Leads P R w.books (seen (w.drain P rounds)) := by
  induction rounds generalizing w with
  | zero => exact ⟨.refl, iff_of_true rfl alive⟩
  | succ rounds ih =>
    unfold drain
    split
    · exact ⟨.refl, iff_of_true rfl alive⟩
    · rename_i i hi
      obtain ⟨hlt, hseq, -⟩ := List.findIdx?_eq_some_iff_getElem.mp hi
      have slot : w.ses.queue[i]? = some w.ses.queue[i] := List.getElem?_eq_getElem hlt
      generalize hb : ((w.ses.queue[i]?.map (·.bytes)).getD []) = b
      have due : w.ses.ledger.queue[i]? = some ⟨w.ses.ledger.nextIn, b⟩ := by
        have hs : w.ses.queue[i].seq = w.ses.nextIn := by simpa using hseq
        have hbytes : w.ses.queue[i].bytes = b := by simpa [slot] using hb
        rw [← hbytes]
        exact slot.trans (congrArg some (by rw [show w.ses.ledger.nextIn = _ from hs.symm]))
      have step : Acting P R w.books
          ⟨(w.release i).ses.ledger, .judged (w.release i).ses b :: (w.release i).hist⟩ :=
        .judgedHeld hd within alive due rfl
      have next := judgeOrEnd_leads (P := P) (w := w.release i) hA alive b
      generalize (w.release i).judgeOrEnd P b = r at next ⊢
      obtain ⟨v, link⟩ := r
      cases link with
      | dropped => exact ⟨(ReflTransGen.single step).trans next.acts, next.link⟩
      | up =>
        have moved := (ReflTransGen.single step).trans next.acts
        have rest := ih v (next.link.mp rfl) (acts_judging moved within)
        exact ⟨moved.trans rest.acts, rest.link⟩

end World

/-! ### A resend in progress -/

section Replays

variable {P : Params} {J : Type} [Journal J] {w w' : Scene}

namespace Scene

theorem sendAs_old {from_ : ℕ} {extra : List (ℕ × Bytes)}
    (h : w.sendAs P .gapFill (some from_) extra = some w') (owes : w.ses.owed.isSome)
    (dup : extra.lookup 43 = some (ascii "Y")) :
    Replaying w.books w'.books ∧ w'.ses.ledger = w.ses.ledger := by
  obtain ⟨bytes, rfl⟩ := sendAs_eq h
  refine ⟨?_, rfl⟩
  exact .filled (l := w.ses.ledger) owes
    ((Session.slotsFor_lookup w.ses (some from_) extra (by decide)).trans dup)

theorem replay_replaying {j : J} {seq : ℕ} (h : w.replay P j seq = some (some w'))
    (owes : w.ses.owed.isSome) (covers : ∀ r ∈ w.ses.owed, r.Covers seq) : Replaying w.books w'.books ∧ w'.ses.ledger = w.ses.ledger := by
  unfold replay at h
  split at h
  · cases h
  · split at h
    · cases h
    · split at h
      · cases h
      · obtain rfl := Option.some.inj (Option.some.inj h)
        exact ⟨.replayed (l := w.ses.ledger) owes covers, rfl⟩

theorem replayLoop_replaying (j : J) (budget : ℕ) (w : Scene) (r o : Replay)
    (owes : w.ses.owed = some o) (within : r.Within o) :
    ReflTransGen Replaying w.books (replayLoop P j budget w r).1.books ∧
      (replayLoop P j budget w r).1.ses.ledger = w.ses.ledger ∧
      ∀ q ∈ (replayLoop P j budget w r).2, q.Within o := by
  induction budget generalizing w r with
  | zero => exact ⟨.refl, rfl, fun q hq => Option.some.inj hq ▸ within⟩
  | succ budget ih =>
    have still : ∀ {v : Scene}, v.ses.ledger = w.ses.ledger → v.ses.owed = some o := fun hl =>
      (congrArg Ledger.owed hl).trans owes
    have isSome : ∀ {v : Scene}, v.ses.ledger = w.ses.ledger → v.ses.owed.isSome := fun hl =>
      Option.isSome_of_eq_some (still hl)
    unfold replayLoop
    split
    · exact ⟨.refl, rfl, fun q hq => Option.some.inj hq ▸ within⟩
    · rename_i more
      split
      · exact ⟨.refl, rfl, nofun⟩
      · rename_i v hv
        have covers : ∀ q ∈ w.ses.owed, q.Covers r.next := by
          intro q hq
          obtain rfl := Option.some.inj (owes.symm.trans hq)
          exact within.covers (.inl ⟨le_rfl, not_lt.mp more⟩)
        obtain ⟨step, hl⟩ := replay_replaying hv (isSome rfl) covers
        have next : r.stop < u32Max → r.next ≤ wrapU32 (r.next + 1) := fun small => by
          rw [wrapU32, Nat.mod_eq_of_lt (by unfold u32Size; unfold u32Max at small; omega)]
          omega
        obtain ⟨rest, hr, left⟩ := ih v _ (still hl) (within.stepTo next)
        exact ⟨rest.head step, hr.trans hl, left⟩
      · dsimp only
        generalize hu : (w.upd fun s =>
          { s with
            resendBeyondJournal := wrapU32 (s.resendBeyondJournal +
              lostBelowFloor j r.next (fillEnd j r.next r.stop)) }) = u
        have hl : u.ses.ledger = w.ses.ledger := by rw [← hu]; rfl
        have hb : u.books = w.books := by rw [← hu]; rfl
        have next : r.stop < u32Max → r.next ≤ fillEnd j r.next r.stop := fun small =>
          (fillEnd_bounds j small (not_lt.mp more)).1.le
        cases hf : u.fill P r.next (fillEnd j r.next r.stop) with
        | none => exact ⟨hb ▸ .refl, hl, nofun⟩
        | some v =>
          obtain ⟨step, hv⟩ := sendAs_old hf (isSome hl) rfl
          obtain ⟨rest, hr, left⟩ := ih v { r with next := fillEnd j r.next r.stop }
            (still (hv.trans hl)) (within.stepTo next)
          exact ⟨hb ▸ rest.head step, hr.trans (hv.trans hl), left⟩

/-- The next batch of what is owed. -/
theorem continueReplay_replaying (j : J) (w : Scene) :
    ReflTransGen Replaying w.books (w.continueReplay P j).1.books ∧
      (w.continueReplay P j).1.ses.state = w.ses.state ∧
      ((w.continueReplay P j).2 = false → (w.continueReplay P j).1.ses.owed.isSome) := by
  unfold continueReplay
  split
  · exact ⟨.refl, rfl, nofun⟩
  · rename_i r hr
    have loop := replayLoop_replaying (P := P) j (max w.ses.cfg.resendBatch 1) w r r hr (.refl r)
    generalize replayLoop P j (max w.ses.cfg.resendBatch 1) w r = x at loop ⊢
    obtain ⟨v, left⟩ := x
    obtain ⟨steps, hl, within⟩ := loop
    have owes : v.ses.owed = some r := (congrArg Ledger.owed hl).trans hr
    have still : v.ses.owed.isSome := Option.isSome_of_eq_some owes
    have state : v.ses.state = w.ses.state := congrArg Ledger.state hl
    cases left with
    | none => exact ⟨steps, state, fun _ => still⟩
    | some q =>
      refine ⟨steps.tail (.progressed (l := v.ses.ledger) still ?_), state, nofun⟩
      intro p hp o ho
      obtain rfl := Option.some.inj (owes.symm.trans ho)
      dsimp only at hp
      split at hp
      · exact Option.some.inj hp ▸ within q rfl
      · cases hp

theorem advanceReplay_replaying (j : J) (w : Scene) (link : Link) :
    ReflTransGen Replaying w.books (w.advanceReplay P j link).1.books := by
  unfold advanceReplay
  split
  · have next := continueReplay_replaying (P := P) j w
    generalize w.continueReplay P j = x at next ⊢
    obtain ⟨v, ok⟩ := x
    obtain ⟨steps, -, still⟩ := next
    cases ok with
    | true => exact steps
    | false =>
      obtain ⟨resets, shows, hb⟩ := v.endSession_books .cannotSend
      exact steps.tail (hb ▸ .gaveUp (still rfl) shows)
  · exact .refl

theorem advanceReplay_link (j : J) (w : Scene) {link : Link} (up : link = .up ↔ w.ses.Alive) :
    (w.advanceReplay P j link).2 = .up ↔ (w.advanceReplay P j link).1.ses.Alive := by
  unfold advanceReplay
  split
  · have next := continueReplay_replaying (P := P) j w
    generalize w.continueReplay P j = x at next ⊢
    obtain ⟨v, ok⟩ := x
    have state : v.ses.state = w.ses.state := next.2.1
    cases ok with
    | true => rwa [Session.Alive, state]
    | false => exact iff_of_false (by simp) (v.endSession_dead _)
  · exact up

end Scene

end Replays

/-! ### The calls -/

section Calls

variable {P : Params} {R : Rules} {w w' : Scene} {s : Session}
  {c : Call} {h : List Event}

/-- A scene at the start of a call. -/
structure Called (w : Scene) (s : Session) (c : Call) (h : List Event) : Prop where
  hist : w.hist = .called s c :: h
  ledger : s.ledger = w.ses.ledger

theorem Called.unmoved (k : Called w s c h) {why : Option DropReason} :
    Closing P w.ses.ledger w.hist why :=
  .unmoved (k.hist ▸ lastSeen_called s c) (congrArg Ledger.nextIn k.ledger)
    (congrArg Ledger.queue k.ledger)

namespace Scene

theorem connect_acts (k : Called w s .connect h) (same : s = w.ses) :
    ReflTransGen (Acting P R) w.books (w.connect P).1.books := by
  subst same
  unfold connect
  dsimp only
  split
  · rename_i restarts
    have after : (w.ses.connected P).ledger = (w.ses.ledger.connected P.speaksFirst).restart := by
      simp [Session.connected, restarts, Session.ledger, Ledger.connected, Ledger.restart]
    have step := Acting.connectedAnew (P := P) (R := R) (h := h) (s := w.ses) rfl after
    rw [← after, ← k.hist] at step
    exact .single step
  · rename_i restarts
    have after : (w.ses.connected P).ledger = w.ses.ledger.connected P.speaksFirst := by
      simp [Session.connected, restarts, Session.ledger, Ledger.connected]
    have step := Acting.connected (P := P) (R := R) (h := h) (s := w.ses) rfl
    rw [← after, ← k.hist] at step
    exact .single step

theorem disconnectWith_acts (k : Called w s c h) (closes : c.closes) (why : DropReason) :
    ReflTransGen (Acting P R) w.books (w.disconnectWith why).1.books := by
  unfold disconnectWith
  split
  · exact .single (endSession_acting k.unmoved)
  · have step := Acting.closed (P := P) (R := R) (h := h) closes k.ledger
    rw [← k.hist] at step
    exact .single step

/-- What the boundary check at the top of a tick leaves. -/
theorem roll_acts (k : Called w s c h) {n : ℕ} (tick : c.ticks = some n)
    (rolls : w.ses.rolls n = s.rolls n) :
    ReflTransGen (Acting P R) w.books
        ((w.upd fun s => { s with nowMs := n }).roll n).books ∧
      ∀ why, Closing P ((w.upd fun s => { s with nowMs := n }).roll n).ses.ledger
        ((w.upd fun s => { s with nowMs := n }).roll n).hist why := by
  by_cases hr : w.ses.rolls n = true
  · have hroll : (w.upd fun s => { s with nowMs := n }).roll n =
        (w.upd fun s => { s with nowMs := n }.rolled n).logRestart := by
      unfold roll
      exact if_pos hr
    have after : ({ w.ses with nowMs := n }.rolled n).ledger =
        { w.ses.ledger.rolled with nowMs := n } := by
      have hr' : ({ w.ses with nowMs := n } : Session).rolls n = true := hr
      simp [Session.rolled, hr', Session.ledger, Ledger.rolled, Ledger.restart]
    rw [hroll]
    have step := Acting.rolled (P := P) (R := R) (h := h) tick k.ledger (rolls ▸ hr) after
    rw [← k.hist, ← after] at step
    exact ⟨.single step, fun _ => .unmoved (lastSeen_restarted _) rfl rfl⟩
  · have hroll : (w.upd fun s => { s with nowMs := n }).roll n =
        (w.upd fun s => { s with nowMs := n }.rolled n) := by
      unfold roll
      exact if_neg hr
    have after : ({ w.ses with nowMs := n }.rolled n).ledger = { w.ses.ledger with nowMs := n } := by
      have hr' : ¬ ({ w.ses with nowMs := n } : Session).rolls n = true := hr
      simp [Session.rolled, hr', Session.ledger]
    rw [hroll]
    have step := Acting.ticked (P := P) (R := R) (h := h) tick k.ledger
    rw [← k.hist, ← after] at step
    refine ⟨.single step, fun _ => .unmoved (s := s) (k.hist ▸ lastSeen_called s c) ?_ ?_⟩
    · exact (congrArg Ledger.nextIn k.ledger).trans (congrArg Ledger.nextIn after).symm
    · exact (congrArg Ledger.queue k.ledger).trans (congrArg Ledger.queue after).symm

theorem tickHeartbeat_acts (n : ℕ) (alive : w.ses.Alive)
    (closing : ∀ why, Closing P w.ses.ledger w.hist why) :
    ReflTransGen (Acting P R) w.books (w.tickHeartbeat P n).1.books := by
  unfold tickHeartbeat
  split
  · exact .refl
  · dsimp only
    split
    · exact .single (endSession_acting (closing _))
    · generalize hv : (if w.ses.beatMs * 12 * wrapU32 (w.ses.testRequests + 1) / 10 ≤
          n - w.ses.lastRecvMs then
        (w.upd fun s => { s with testRequests := wrapU32 (s.testRequests + 1) }).trySend P
          .testRequest [(112, ascii "TEST")]
        else w) = v
      have asked : ReflTransGen (Acting P R) w.books v.books ∧ v.ses.Alive := by
        split at hv
        · have sent := trySend_acts (R := R) (P := P)
            (w := w.upd fun s => { s with testRequests := wrapU32 (s.testRequests + 1) })
            .testRequest [(112, ascii "TEST")] alive (by decide)
          rw [hv] at sent
          exact ⟨sent.1, sent.2.alive⟩
        · exact hv ▸ ⟨.refl, alive⟩
      split
      · exact asked.1.trans
          (trySend_acts (R := R) .heartbeat [] asked.2 (by decide)).1
      · exact asked.1

theorem tickLive_acts (n : ℕ) (alive : w.ses.Alive)
    (closing : ∀ why, Closing P w.ses.ledger w.hist why) :
    ReflTransGen (Acting P R) w.books (w.tickLive P n).1.books := by
  unfold tickLive
  split
  · dsimp only
    generalize hv : (w.upd fun s =>
      { s with loggingOutSinceMs := some (w.ses.loggingOutSinceMs.getD n) }) = v
    have hb : v.books = w.books := by rw [← hv]; rfl
    have alive' : v.ses.Alive := by rw [← hv]; exact alive
    have closing' : ∀ why, Closing P v.ses.ledger v.hist why := by rw [← hv]; exact closing
    rw [← hb]
    split
    · exact .single (endSession_acting (closing' _))
    · exact tickHeartbeat_acts n alive' closing'
  · exact tickHeartbeat_acts n alive closing

theorem tickMustLogon_acts (n : ℕ) (owes : w.ses.state = .mustLogon) :
    ReflTransGen (Acting P R) w.books (w.tickMustLogon P n).1.books := by
  unfold tickMustLogon
  dsimp only
  generalize hv : (w.upd fun s =>
    { s with state := .awaitingLogon, beatMs := s.cfg.heartBtInt * 1000, lastRecvMs := n }) = v
  have spoke : Acting P R w.books v.books := by
    rw [← hv]
    exact .spoke (l := w.ses.ledger) owes
  have alive : v.ses.Alive := by
    rw [← hv]
    exact ⟨nofun, nofun⟩
  exact (trySend_acts (R := R) .logon _ alive (by decide)).1.head spoke

theorem tickAwaitingLogon_acts (n : ℕ) (closing : ∀ why, Closing P w.ses.ledger w.hist why) :
    ReflTransGen (Acting P R) w.books (w.tickAwaitingLogon n).1.books := by
  unfold tickAwaitingLogon
  dsimp only
  generalize hv : (w.upd fun s =>
    { s with awaitingLogonSinceMs := some (w.ses.awaitingLogonSinceMs.getD n) }) = v
  have hb : v.books = w.books := by rw [← hv]; rfl
  have closing' : ∀ why, Closing P v.ses.ledger v.hist why := by rw [← hv]; exact closing
  rw [← hb]
  split
  · exact .single (endSession_acting (closing' _))
  · exact .refl

theorem closeSchedule_acts (live : w.ses.state = .loggedOn)
    (closing : ∀ why, Closing P w.ses.ledger w.hist why) :
    ReflTransGen (Acting P R) w.books (w.closeSchedule P).1.books := by
  have alive : w.ses.Alive := by simp [Session.Alive, live]
  obtain ⟨acts, holds⟩ := trySend_acts (R := R) .logout [] alive (P := P) (by decide)
  exact acts.tail (cut_acting (holds.closing (closing none)))

theorem tickRolled_acts (n : ℕ) (closing : ∀ why, Closing P w.ses.ledger w.hist why) :
    ReflTransGen (Acting P R) w.books (w.tickRolled P n).1.books := by
  unfold tickRolled
  split
  · rename_i shut
    exact closeSchedule_acts shut.1 closing
  · split
    · exact .refl
    · exact .refl
    · exact tickAwaitingLogon_acts n closing
    · exact tickMustLogon_acts n ‹_›
    · exact tickLive_acts n (by simp [Session.Alive, *]) closing
    · exact tickLive_acts n (by simp [Session.Alive, *]) closing

theorem tickInner_acts (k : Called w s c h) {n : ℕ} (tick : c.ticks = some n)
    (rolls : w.ses.rolls n = s.rolls n) :
    ReflTransGen (Acting P R) w.books (w.tickInner P n).1.books := by
  obtain ⟨acts, closing⟩ := roll_acts (P := P) (R := R) k tick rolls
  exact acts.trans (tickRolled_acts n closing)

/-- A tick of either resolution, from the call on. -/
theorem tickAny_acts (k : Called w s c h) (same : s = w.ses) {n : ℕ} (tick : c.ticks = some n)
    (sub : ℕ) (resolution : Precision) :
    ReflTransGen (Acting P R) w.books ((w.setResolution sub resolution).tickInner P n).1.books :=
  tickInner_acts (w := w.setResolution sub resolution) ⟨k.hist, k.ledger⟩ tick (same ▸ rfl)

theorem sendOrdered_acts (which : Which) (extra : List (ℕ × Bytes)) (hw : which ≠ .gapFill) :
    ReflTransGen (Acting P R) w.books (w.sendOrdered P which extra).1.books := by
  unfold sendOrdered
  split
  · exact .refl
  · rename_i live
    have alive : w.ses.Alive := by
      rw [ne_eq, not_not] at live
      simp [Session.Alive, live]
    cases hs : w.send P which extra with
    | none => exact .refl
    | some v => exact .single ((send_sent hs).acting alive hw)

theorem setNextOut_acts {n : ℕ} (k : Called w s (.setNextOut n) h) (fits : n < u32Size) :
    ReflTransGen (Acting P R) w.books (w.setNextOut n).1.books := by
  unfold setNextOut
  split
  · exact .refl
  · rename_i pos
    have step := Acting.setOut (P := P) (R := R) (h := h) k.ledger pos fits
    rw [← k.hist] at step
    exact .single step

theorem setNextIn_acts {n : ℕ} (k : Called w s (.setNextIn n) h) (fits : n < u32Size) :
    ReflTransGen (Acting P R) w.books (w.setNextIn n).1.books := by
  unfold setNextIn
  split
  · exact .refl
  · rename_i pos
    have step := Acting.setIn (P := P) (R := R) (h := h) k.ledger pos fits
    rw [← k.hist] at step
    exact .single step

theorem sendSequenceReset_acts {n : ℕ} (k : Called w s c h) (announces : c.announces = some n)
    (fits : n < u32Size) :
    ReflTransGen (Acting P R) w.books (w.sendSequenceReset P n).1.books := by
  unfold sendSequenceReset
  split
  · exact .refl
  · split
    · exact .refl
    · rename_i v hs
      obtain ⟨bytes, rfl⟩ := sendAs_eq hs
      have step : Acting P R ⟨w.ses.ledger, .called s c :: h⟩
          ⟨{ w.ses.ledger with nextOut := n }, .emitted (.templated .gapFill
            (w.ses.slotsFor none [(36, renderU32 n), (123, ascii "N")]) bytes) ::
              .called s c :: h⟩ :=
        .announced announces k.ledger fits (Session.slotsFor_number w.ses _)
          (Session.slotsFor_lookup w.ses none _ (by decide))
      rw [← k.hist] at step
      exact .single step

theorem beginLogout_acts (text : Bytes) (closing : ∀ why, Closing P w.ses.ledger w.hist why) :
    ReflTransGen (Acting P R) w.books (w.beginLogout P text).1.books := by
  unfold beginLogout
  split
  · split
    · exact .single (endSession_acting (closing _))
    · exact .refl
  · rename_i live
    rw [ne_eq, not_not] at live
    cases hs : w.send P .logout (if text.isEmpty then [] else [(58, text)]) with
    | none => exact .single (endSession_acting (closing _))
    | some v =>
      have state : v.ses.state = .loggedOn := (congrArg Ledger.state (send_sent hs).ledger).trans live
      refine .tail (.single ((send_sent hs).acting (by simp [Session.Alive, live]) (by decide))) ?_
      exact .saidGoodbye (l := v.ses.ledger) state

theorem logoutNow_acts (text : Bytes) (closing : ∀ why, Closing P w.ses.ledger w.hist why) :
    ReflTransGen (Acting P R) w.books (w.logoutNow P text).1.books := by
  by_cases alive : w.ses.Alive
  · exact (logoutNow_settles text alive (closing none)).acts
  · unfold logoutNow
    rw [if_pos (by simpa [Session.Alive, or_iff_not_imp_left] using alive)]

end Scene

end Calls

namespace World

variable {P : Params} {R : Rules} {A J : Type} [Application A]
  [Journal J] {w : World A J} {s : Session} {c : Call} {h : List Event}

/-- What a call does to the books: moves of its own, and then of a resend. -/
def Calls (P : Params) (R : Rules) (x y : Books) : Prop :=
  ∃ z, ReflTransGen (Acting P R) x z ∧ ReflTransGen Replaying z y

theorem Calls.of_acts {x y : Books} (acts : ReflTransGen (Acting P R) x y) :
    Calls P R x y :=
  ⟨y, acts, .refl⟩

omit [Application A] in
theorem tellJournal_scene (w : World A J) : w.tellJournal.toScene = w.toScene := by
  unfold tellJournal
  split <;> rfl

omit [Application A] in
theorem markIn_scene (w : World A J) : w.markIn.toScene = w.toScene := by
  unfold markIn
  split <;> rfl

/-- The first half of a received message: it is judged, and after it what was held. -/
theorem judgeAndDrain_leads (hA : Answers A R.answers) (hd : R.drains)
    (k : Called w.toScene s c h) {b : Bytes} (incoming : c.incoming = some b) (alive : w.ses.Alive) {v : World A J}
    (up : w.judgeOrEnd P b = (v, .up)) :
    Leads P R w.books (seen (v.drain P queued)) := by
  have judged : Acting P R w.books ⟨w.ses.ledger, .judged w.ses b :: w.hist⟩ := by
    rw [Scene.books, k.hist]
    exact .judged incoming alive rfl
  have next := judgeOrEnd_leads (P := P) hA alive b
  rw [up] at next
  have acts := next.acts.head judged
  have within : (judging v.hist).isSome := acts_judging next.acts (by simp)
  have rest := drain_leads (P := P) hA hd queued v (next.link.mp rfl) within
  exact ⟨acts.trans rest.acts, rest.link⟩

theorem receivedInner_calls (hA : Answers A R.answers) (hd : R.drains)
    (k : Called w.toScene s c h) {b : Bytes} (incoming : c.incoming = some b) :
    Calls P R w.books (w.receivedInner P b).1.books := by
  unfold receivedInner
  split
  · exact .of_acts .refl
  · rename_i live
    have alive : w.ses.Alive := by simpa [Session.Alive, not_or] using live
    split
    · rename_i v hv
      have judged : Acting P R w.books ⟨w.ses.ledger, .judged w.ses b :: w.hist⟩ := by
        rw [Scene.books, k.hist]
        exact .judged incoming alive rfl
      have next := (judgeOrEnd_leads (P := P) hA alive b).acts
      rw [hv] at next
      exact .of_acts (next.head judged)
    · rename_i v hv
      have led := judgeAndDrain_leads hA hd k incoming alive hv
      generalize v.drain P queued = r at led ⊢
      obtain ⟨u, link⟩ := r
      exact ⟨u.books, led.acts, Scene.advanceReplay_replaying u.journal u.toScene link⟩

theorem receivedWith_scene (w : World A J) (b : Bytes) :
    (w.receivedWith P b).1.toScene = (w.receivedInner P b).1.toScene := by
  simp only [receivedWith, thenTell, tellJournal_scene, markIn_scene]

theorem receivedWith_calls (hA : Answers A R.answers) (hd : R.drains)
    (k : Called w.toScene s c h) {b : Bytes} (incoming : c.incoming = some b) :
    Calls P R w.books (w.receivedWith P b).1.books := by
  rw [receivedWith_scene]
  exact receivedInner_calls hA hd k incoming

omit [Application A] [Journal J] in
theorem received_calls (hd : R.drains) (k : Called w.toScene s c h) {b : Bytes}
    (incoming : c.incoming = some b) : Calls P R w.books (w.received P b).1.books :=
  receivedWith_calls (w := (⟨w.toScene, .silent, .noJournal⟩ : World Silent NoJournal))
    (fun _ _ _ _ h => by cases h) hd k incoming

omit [Application A] in
theorem sendApplication_acts {msg : Bytes} (k : Called w.toScene s (.sendApplication msg) h) :
    ReflTransGen (Acting P R) w.books (w.sendApplication P msg).1.books := by
  unfold sendApplication
  split
  · exact .refl
  · rename_i live
    split
    · exact .refl
    · dsimp only
      split
      · exact .refl
      · rename_i bytes _
        rw [tellJournal_scene]
        rw [ne_eq, not_not] at live
        have step : Acting P R ⟨w.ses.ledger, .called s (.sendApplication msg) :: h⟩
            ⟨w.ses.ledger.spend, .emitted (.originated w.ses.nextOut bytes) ::
              .stored w.ses.nextOut bytes (Journal.put w.journal w.ses.nextOut bytes).2 ::
              .called s (.sendApplication msg) :: h⟩ :=
          .originated k.ledger live
        rw [← k.hist] at step
        exact .single step

omit [Application A] in
theorem thenTell_books (r : World A J × Link) : (thenTell r).1.books = r.1.books :=
  congrArg Scene.books (tellJournal_scene r.1)

omit [Application A] in
/-- A tick of either resolution, and the next batch of a resend. -/
theorem tickWithAny_calls (k : Called w.toScene s c h) (same : s = w.ses) {n : ℕ}
    (tick : c.ticks = some n) (sub : ℕ) (resolution : Precision) :
    Calls P R w.books (thenTell (({ w with
      toScene := w.setResolution sub resolution } : World A J).tickAfterInner P n)).1.books := by
  rw [thenTell_books]
  exact ⟨_, Scene.tickAny_acts k same tick sub resolution, Scene.advanceReplay_replaying _ _ _⟩

omit [Application A] in
theorem thenTell_calls {x : Books} {r : World A J × Link}
    (acts : ReflTransGen (Acting P R) x r.1.books) :
    Calls P R x (thenTell r).1.books := by
  rw [thenTell_books]
  exact .of_acts acts

/-- **Every call is a run of moves**: of the session's own, and then of a resend in progress. -/
theorem perform_calls (hA : Answers A R.answers) (hd : R.drains) (w : World A J) (c : Call) (fits : c.fits) :
    Calls P R ⟨w.ses.ledger, .called w.ses c :: w.hist⟩ (w.perform P c).1.books := by
  unfold perform
  generalize hv : ({ w with hist := .called w.ses c :: w.hist } : World A J) = v
  have books : (⟨w.ses.ledger, .called w.ses c :: w.hist⟩ : Books) = v.books := by rw [← hv]; rfl
  have same : w.ses = v.ses := by rw [← hv]
  have k : Called v.toScene w.ses c w.hist := ⟨by rw [← hv], by rw [← hv]⟩
  have closing : ∀ why, Closing P v.ses.ledger v.hist why := fun _ => k.unmoved
  rw [books]
  cases c with
  | connect => exact .of_acts (Scene.connect_acts k same)
  | disconnect => exact .of_acts (Scene.disconnectWith_acts k rfl _)
  | disconnectWith why => exact .of_acts (Scene.disconnectWith_acts k rfl why)
  | noteDropReason why =>
    have still : (v.upd (·.noteDropReason why)).books = v.books := by
      unfold Scene.upd Session.noteDropReason
      dsimp only
      split <;> rfl
    exact .of_acts (still ▸ .refl)
  | tick n => exact .of_acts (Scene.tickAny_acts k same rfl 0 .millis)
  | tickAt n sub => exact .of_acts (Scene.tickAny_acts k same rfl sub .nanos)
  | tickWith n => exact tickWithAny_calls k same rfl 0 .millis
  | tickAtWith n sub => exact tickWithAny_calls k same rfl sub .nanos
  | received b => exact received_calls hd k rfl
  | receivedWith b => exact receivedWith_calls hA hd k rfl
  | sendApplication msg => exact .of_acts (sendApplication_acts k)
  | sendHeartbeat => exact .of_acts (Scene.sendOrdered_acts _ _ (by decide))
  | sendTestRequest id => exact .of_acts (Scene.sendOrdered_acts _ _ (by decide))
  | sendResendRequest from_ upTo => exact .of_acts (Scene.sendOrdered_acts _ _ (by decide))
  | beginLogout text => exact .of_acts (Scene.beginLogout_acts text closing)
  | beginLogoutWith text => exact thenTell_calls (Scene.beginLogout_acts text closing)
  | logoutNow text => exact .of_acts (Scene.logoutNow_acts text closing)
  | logoutNowWith text => exact thenTell_calls (Scene.logoutNow_acts text closing)
  | setNextOut n => exact .of_acts (Scene.setNextOut_acts k (by simpa [Call.fits] using fits))
  | setNextIn n => exact .of_acts (Scene.setNextIn_acts k (by simpa [Call.fits] using fits))
  | sendSequenceReset n =>
    exact .of_acts (Scene.sendSequenceReset_acts k rfl (by simpa [Call.fits] using fits))
  | sendSequenceResetWith n =>
    exact thenTell_calls (Scene.sendSequenceReset_acts k rfl (by simpa [Call.fits] using fits))

theorem Calls.moves {x y : Books} (h : Calls P R x y) :
    ReflTransGen (Move P R) x y := by
  obtain ⟨z, acts, replays⟩ := h
  exact (ReflTransGen.mono (fun _ _ => Move.acting) _ _ acts).trans
    (ReflTransGen.mono (fun _ _ => Move.replaying) _ _ replays)

theorem perform_moves (hA : Answers A R.answers) (hd : R.drains) (w : World A J) (c : Call) (fits : c.fits) :
    ReflTransGen (Move P R) w.books (w.perform P c).1.books :=
  (perform_calls hA hd w c fits).moves.head (.called rfl)

/-- **Every reachable session has moved there**: from the books of a session just made. -/
theorem reachable_moves (hA : Answers A R.answers) (hd : R.drains) (h : Reachable P w) :
    ∃ s, Initial P s ∧ ReflTransGen (Move P R) ⟨s.ledger, []⟩ w.books := by
  induction h with
  | init hs => exact ⟨_, hs, .refl⟩
  | step _ c fits ih =>
    obtain ⟨s, hs, moves⟩ := ih
    exact ⟨s, hs, moves.trans (perform_moves hA hd _ c fits)⟩

end World

/-! ### Histories grow -/

section Growth

variable {P : Params} {R : Rules} {x y : Books}

/-- `h'` is `h` and what happened since, in the same call. -/
inductive GoesOn (h : List Event) : List Event → Prop
  | refl : GoesOn h h
  | cons {e : Event} {h' : List Event} (he : e.isCall = false) (rest : GoesOn h h') :
    GoesOn h (e :: h')

theorem Books.ended_goesOn (l : Ledger) (h : List Event) (why : DropReason)
    (resets : Option Session) : GoesOn h (Books.ended l h why resets).hist := by
  cases resets with
  | none => exact .cons rfl .refl
  | some t => exact .cons rfl (.cons rfl .refl)

theorem Books.ended_dead (l : Ledger) (h : List Event) (why : DropReason)
    (resets : Option Session) : ¬ (Books.ended l h why resets).led.Alive := by
  cases resets <;> exact fun alive => alive.1 rfl

/-- A move within a call adds events, and no call. -/
theorem Acting.goesOn (h : Acting P R x y) : GoesOn x.hist y.hist := by
  cases h with
  | ended => exact Books.ended_goesOn _ _ _ _
  | askFailed => exact Books.ended_goesOn _ _ _ _
  | peerLeft => exact Books.ended_goesOn _ _ _ _
  | originated => exact .cons rfl (.cons rfl .refl)
  | replied => exact .cons rfl (.cons rfl .refl)
  | connectedAnew => exact .cons rfl .refl
  | rolled => exact .cons rfl .refl
  | announced => exact .cons rfl .refl
  | sent => exact .cons rfl .refl
  | judged => exact .cons rfl .refl
  | judgedHeld => exact .cons rfl .refl
  | restarted => exact .cons rfl .refl
  | loggedOn => exact .cons rfl .refl
  | held => exact .cons rfl .refl
  | asked => exact .cons rfl .refl
  | delivered => exact .cons rfl .refl
  | _ => exact .refl

theorem Replaying.goesOn (h : Replaying x y) : GoesOn x.hist y.hist := by
  cases h with
  | gaveUp => exact Books.ended_goesOn _ _ _ _
  | progressed => exact .refl
  | _ => exact .cons rfl .refl

theorem GoesOn.append {h h' : List Event} (g : GoesOn h h') : ∃ new, h' = new ++ h := by
  induction g with
  | refl => exact ⟨[], rfl⟩
  | cons _ _ ih =>
    obtain ⟨new, rfl⟩ := ih
    exact ⟨_ :: new, rfl⟩

theorem GoesOn.callOf {h h' : List Event} (g : GoesOn h h') :
    Fixbolt.callOf h' = Fixbolt.callOf h := by
  induction g with
  | refl => rfl
  | cons he _ ih => rw [callOf_cons he, ih]

theorem GoesOn.sinceCall {h h' : List Event} (g : GoesOn h h') {e : Event}
    (hm : e ∈ Fixbolt.sinceCall h) : e ∈ Fixbolt.sinceCall h' := by
  induction g with
  | refl => exact hm
  | cons he _ ih =>
    rw [sinceCall_cons he]
    exact List.mem_cons_of_mem _ ih

theorem GoesOn.split {h h' tail : List Event} (g : GoesOn h h')
    (hs : h = Fixbolt.sinceCall h ++ tail) : h' = Fixbolt.sinceCall h' ++ tail := by
  induction g with
  | refl => exact hs
  | cons he _ ih => rw [sinceCall_cons he, List.cons_append, ← ih]

/-- What is said of every event of a longer history is said of those of a shorter. -/
theorem GoesOn.forall_mem {h h' : List Event} (g : GoesOn h h') {K : Event → Prop}
    (hK : ∀ e ∈ h', K e) : ∀ e ∈ h, K e := by
  obtain ⟨new, rfl⟩ := g.append
  exact fun e he => hK e (List.mem_append_right new he)

theorem isConnect_of_isCall {e : Event} (h : e.isCall = false) : e.isConnect = false := by
  cases e <;> first | rfl | cases h

theorem isConnect_of_ticks {s : Session} {c : Call} {n : ℕ} (h : c.ticks = some n) :
    (Event.called s c).isConnect = false := by
  cases c <;> first | rfl | cases h

theorem GoesOn.mem_sinceConnect {h h' : List Event} (g : GoesOn h h') {e : Event}
    (hm : e ∈ sinceConnect h) : e ∈ sinceConnect h' := by
  induction g with
  | refl => exact hm
  | cons he _ ih =>
    rw [sinceConnect_cons (isConnect_of_isCall he)]
    exact List.mem_cons_of_mem _ ih

/-- A call that receives nothing judges nothing. -/
theorem acting_idle {x y : Books} {s : Session} {c : Call} (h : Acting P R x y)
    (now : callOf x.hist = some (s, c)) (quiet : c.incoming = none)
    (idle : judging x.hist = none) : judging y.hist = none := by
  cases h with
  | judged incoming =>
    obtain ⟨-, rfl⟩ : _ ∧ _ = c := by simpa using now
    simp [quiet] at incoming
  | judgedHeld drains within => simp [idle] at within
  | ended => exact (World.judging_ended_books _ _ _ _).trans idle
  | askFailed => exact (World.judging_ended_books _ _ _ _).trans idle
  | peerLeft => exact (World.judging_ended_books _ _ _ _).trans idle
  | originated => rfl
  | connectedAnew => rfl
  | rolled => rfl
  | announced => rfl
  | restarted => simp at idle
  | delivered => simp at idle
  | sent => exact (judging_emitted _).trans idle
  | asked => exact (judging_emitted _).trans idle
  | loggedOn => exact judging_loggedOn.trans idle
  | held => exact (judging_held _ _).trans idle
  | replied => simpa using idle
  | _ => exact idle

theorem replaying_idle {x y : Books} (h : Replaying x y) (idle : judging x.hist = none) :
    judging y.hist = none := by
  cases h with
  | gaveUp => exact (World.judging_ended_books _ _ _ _).trans idle
  | progressed => exact idle
  | _ => exact (judging_emitted _).trans idle

theorem GoesOn.trans {h h' h'' : List Event} (g : GoesOn h h') (g' : GoesOn h' h'') :
    GoesOn h h'' := by
  induction g' with
  | refl => exact g
  | cons he _ ih => exact .cons he ih

theorem acts_goOn {x y : Books} (acts : ReflTransGen (Acting P R) x y) : GoesOn x.hist y.hist := by
  induction acts with
  | refl => exact .refl
  | tail _ step ih => exact ih.trans step.goesOn

theorem replays_goOn {x y : Books} (replays : ReflTransGen Replaying x y) :
    GoesOn x.hist y.hist := by
  induction replays with
  | refl => exact .refl
  | tail _ step ih => exact ih.trans step.goesOn

/-- What is true of all events and their pasts is true of those of a shorter history. -/
theorem GoesOn.always {h h' : List Event} (g : GoesOn h h') {S : Event → List Event → Prop}
    (ok : Always S h') : Always S h := by
  obtain ⟨new, rfl⟩ := g.append
  exact ok.of_suffix

/-- What holds along a call: it starts at the call's own event, is kept by every move, and the
events of the call so far are among those of the whole call. -/
theorem World.Calls.induction {I : Books → Prop} {K : Event → Prop} (h : World.Calls P R x y)
    (start : I x)
    (act : ∀ u v, Acting P R u v → callOf u.hist = callOf x.hist →
      (∀ e ∈ sinceCall v.hist, K e) → I u → I v)
    (replay : ∀ u v, Replaying u v → (∀ e ∈ sinceCall v.hist, K e) → I u → I v)
    (hK : ∀ e ∈ sinceCall y.hist, K e) : I y := by
  obtain ⟨z, acts, replays⟩ := h
  have sub : ∀ {u v : List Event}, GoesOn u v → (∀ e ∈ sinceCall v, K e) →
      ∀ e ∈ sinceCall u, K e :=
    fun g hK e he => hK e (g.sinceCall he)
  have first : (∀ e ∈ sinceCall z.hist, K e) → I z ∧ callOf z.hist = callOf x.hist := by
    clear replays
    induction acts with
    | refl => exact fun _ => ⟨start, rfl⟩
    | tail _ step ih =>
      intro hz
      obtain ⟨hi, hc⟩ := ih (sub step.goesOn hz)
      exact ⟨act _ _ step hc hz hi, step.goesOn.callOf.trans hc⟩
  induction replays with
  | refl => exact (first hK).1
  | tail _ step ih => exact replay _ _ step hK (ih (sub step.goesOn hK))

end Growth

end Fixbolt
