import Fixbolt.Session.Deeds

/-!
# What is noted along the way

`Adds p` says of a stretch of a session that everything noted in it is of the kind `p`. A kind that
`Admits` whatever a session notes by itself (messages of its own other than a Logon, messages held,
replayed and delivered, the end of a connection, a restart of the counts) is kept by every function
of the source except the acceptance of a Logon and the Logon that opens a connection.
-/

namespace Fixbolt

open History

/-- A kind of event that admits what a session notes when it neither begins a call nor takes up,
accepts or sends a Logon. -/
structure Admits (p : Event → Prop) : Prop where
  held : ∀ n b, p (.held n b)
  ended : ∀ why, p (.ended why)
  restarted : ∀ s, p (.restarted s)
  delivered : ∀ s b, p (.delivered s b)
  stored : ∀ n b kept, p (.stored n b kept)
  templated : ∀ which slots bytes, which ≠ .logon → p (.emitted (.templated which slots bytes))
  reply : ∀ n b, p (.emitted (.reply n b))
  originated : ∀ n b, p (.emitted (.originated n b))
  replayed : ∀ n b, p (.emitted (.replayed n b))

/-- Everything noted in between is of a kind. -/
def Adds (p : Event → Prop) (w v : Scene) : Prop :=
  ∃ new, v.hist = new ++ w.hist ∧ ∀ e ∈ new, p e

/-- Everything noted by a judgement is of a kind, the end after a refusal included. -/
def Added (p : Event → Prop) (w : Scene) (r : Scene × Except Refusal Link) : Prop :=
  Adds p w (Scene.orEnd r).1

section Adds

variable {P : Params} {p : Event → Prop} {w w' v : Scene} {r : Scene × Except Refusal Link}

namespace Adds

theorem of_hist (hist : v.hist = w.hist) : Adds p w v := ⟨[], hist, List.forall_mem_nil _⟩

theorem refl (w : Scene) : Adds p w w := of_hist rfl

theorem trans (h : Adds p w w') (h' : Adds p w' v) : Adds p w v := by
  obtain ⟨new, hist, kind⟩ := h
  obtain ⟨more, hist', kind'⟩ := h'
  refine ⟨more ++ new, ?_, ?_⟩
  · rw [hist', hist, List.append_assoc]
  · intro e mem
    exact (List.mem_append.mp mem).elim (kind' e) (kind e)

theorem upd (f : Session → Session) : Adds p w (w.upd f) := of_hist rfl

theorem one {e : Event} (kind : p e) (hist : v.hist = e :: w.hist) : Adds p w v :=
  ⟨[e], hist, List.forall_mem_singleton.mpr kind⟩

end Adds

namespace Scene

theorem sendAs_adds (a : Admits p) {which : Which} (other : which ≠ .logon) {number : Option ℕ}
    {extra : List (ℕ × Bytes)} (h : w.sendAs P which number extra = some v) : Adds p w v := by
  obtain ⟨bytes, rfl⟩ := sendAs_eq h
  exact .one (a.templated which _ bytes other) rfl

theorem trySend_adds (a : Admits p) {which : Which} (other : which ≠ .logon)
    (extra : List (ℕ × Bytes)) : Adds p w (w.trySend P which extra) := by
  unfold trySend
  cases h : w.send P which extra with
  | none => exact .refl w
  | some v => exact sendAs_adds a other h

theorem endSession_adds (a : Admits p) (why : DropReason) : Adds p w (w.endSession why) := by
  have ended : Adds p w ((w.upd (·.endWith why)).log (.ended why)) := .one (a.ended why) rfl
  unfold endSession
  split
  · exact ended.trans (.one (a.restarted _) rfl)
  · exact ended

theorem refused_added (a : Admits p) {why : Refusal} : Added p w (w, .error why) :=
  endSession_adds a why.toDropReason

theorem cut_adds (a : Admits p) (extra : List (ℕ × Bytes)) :
    Adds p w (w.trySend P .logout extra).cut :=
  (trySend_adds a (by decide) extra).trans (.upd _)

theorem logoutNow_adds (a : Admits p) (text : Bytes) : Adds p w (w.logoutNow P text).1 := by
  unfold logoutNow
  split
  · exact .refl w
  · exact cut_adds a _

theorem garbled_adds (a : Admits p) (b : Bytes) : Adds p w (w.garbled b).1 := by
  unfold garbled
  split
  · exact endSession_adds a _
  · exact .refl w

theorem sendReject_adds (a : Admits p) (q : Reject) : Adds p w (w.sendReject P q).1 := by
  unfold sendReject
  cases h : w.send P .reject q.slots with
  | none => exact endSession_adds a _
  | some v =>
    have said : Adds p w v := sendAs_adds a (by decide) h
    dsimp only
    split
    · exact said.trans (cut_adds a [])
    · exact said

theorem enqueue_adds (a : Admits p) (seq : ℕ) (b : Bytes) : Adds p w (w.enqueue seq b) := by
  unfold enqueue
  split
  · exact .refl w
  · split
    · exact .refl w
    · exact .one (a.held seq b) rfl

theorem tooHigh_adds (a : Admits p) (seq : ℕ) (b : Bytes) :
    Adds p w (w.tooHigh P seq b).1 := by
  refine (enqueue_adds a seq b).trans ?_
  unfold tooHigh
  generalize w.enqueue seq b = v
  dsimp only
  split
  · exact .refl v
  · generalize hu : (v.upd fun s => { s with resendFrom := s.nextIn, resendTo := seq - 1 }) = u
    have asking : Adds p v u := hu ▸ .upd _
    cases h : u.send P .resendRequest [(7, renderU32 v.ses.nextIn), (16, ascii "0")] with
    | none => exact asking.trans (endSession_adds a _)
    | some x => exact asking.trans (sendAs_adds a (by decide) h)

/-! ### The message types -/

theorem placeLogon_added (a : Admits p) (m : Inbound) (b : Bytes) :
    (∃ link, (w.placeLogon P m b).2 = .ok link) ∧ Adds p w (w.placeLogon P m b).1 := by
  unfold placeLogon
  split
  · exact ⟨⟨_, rfl⟩, tooHigh_adds a m.seq b⟩
  · exact ⟨⟨_, rfl⟩, .upd _⟩

theorem judgeLogout_added (a : Admits p) : Added p w (w.judgeLogout P) := by
  unfold judgeLogout
  split
  · exact endSession_adds a _
  · cases h : w.send P .logout [] with
    | none => exact refused_added a
    | some v => exact (sendAs_adds a (by decide) h).trans (endSession_adds a .peerLogout)

theorem judgeTestRequest_added (a : Admits p) (m : Inbound) :
    Added p w (w.judgeTestRequest P m) := by
  unfold judgeTestRequest
  cases h : w.send P .heartbeat [(112, m.testReqId.getD [])] with
  | none => exact refused_added a
  | some v => exact sendAs_adds a (by decide) h

theorem judgeResendRequest_added (m : Inbound) : Added p w (w.judgeResendRequest m) := by
  unfold judgeResendRequest
  split
  · dsimp only
    split
    · exact .upd _
    · exact .refl w
  · exact .refl w

theorem judgeSequenceReset_added (a : Admits p) (m : Inbound) :
    Added p w (w.judgeSequenceReset P m) := by
  unfold judgeSequenceReset
  split
  · exact .refl w
  · split
    · exact .upd _
    · split
      · exact sendReject_adds a _
      · exact .refl w

theorem judgeTooLow_adds (a : Admits p) (m : Inbound) : Adds p w (w.judgeTooLow P m).1 := by
  unfold judgeTooLow
  split
  · exact cut_adds a _
  · split
    · exact .refl w
    · split
      · exact sendReject_adds a _
      · split
        · exact sendReject_adds a _
        · exact .refl w

theorem judgeBadTag_adds (a : Admits p) (view : MessageView) (pos : ℕ) (b : Bytes) :
    Adds p w (w.judgeBadTag P view pos b).1 := by
  unfold judgeBadTag
  dsimp only
  split
  · exact garbled_adds a b
  · refine Adds.trans ?_ (sendReject_adds a _)
    unfold skipBadTag
    split
    · split
      · exact .upd _
      · exact .refl w
    · exact .refl w

/-! ### A resend in progress -/

section Replays

variable {J : Type} [Journal J]

theorem replay_adds (a : Admits p) {j : J} {seq : ℕ} (h : w.replay P j seq = some (some v)) :
    Adds p w v := by
  unfold replay at h
  split at h
  · cases h
  · split at h
    · cases h
    · split at h
      · cases h
      · rename_i bytes _
        obtain rfl := Option.some.inj (Option.some.inj h)
        exact .one (a.replayed seq bytes) rfl

theorem replayLoop_adds (a : Admits p) (j : J) (budget : ℕ) (w : Scene) (q : Replay) :
    Adds p w (replayLoop P j budget w q).1 := by
  induction budget generalizing w q with
  | zero => exact .refl w
  | succ budget ih =>
    unfold replayLoop
    split
    · exact .refl w
    · split
      · exact .refl w
      · rename_i v hv
        exact (replay_adds a hv).trans (ih v _)
      · dsimp only
        generalize hu : (w.upd fun s =>
          { s with
            resendBeyondJournal := wrapU32 (s.resendBeyondJournal +
              lostBelowFloor j q.next (fillEnd j q.next q.stop)) }) = u
        have counted : Adds p w u := hu ▸ .upd _
        cases hf : u.fill P q.next (fillEnd j q.next q.stop) with
        | none => exact counted
        | some v => exact (counted.trans (sendAs_adds a (by decide) hf)).trans (ih v _)

theorem advanceReplay_adds (a : Admits p) (j : J) (link : Link) :
    Adds p w (w.advanceReplay P j link).1 := by
  unfold advanceReplay
  split
  · have next : Adds p w (w.continueReplay P j).1 := by
      unfold continueReplay
      split
      · exact .refl w
      · rename_i q _
        have loop := replayLoop_adds (P := P) a j (max w.ses.cfg.resendBatch 1) w q
        generalize replayLoop P j (max w.ses.cfg.resendBatch 1) w q = x at loop ⊢
        obtain ⟨v, left⟩ := x
        cases left with
        | none => exact loop
        | some left => exact loop.trans (.upd _)
    generalize w.continueReplay P j = x at next ⊢
    obtain ⟨v, ok⟩ := x
    cases ok with
    | true => exact next
    | false => exact next.trans (endSession_adds a _)
  · exact .refl w

end Replays

/-! ### The clock and orders -/

theorem roll_adds (a : Admits p) (n : ℕ) : Adds p w (w.roll n) := by
  unfold roll
  dsimp only
  split
  · exact .one (a.restarted _) rfl
  · exact .upd _

theorem tickHeartbeat_adds (a : Admits p) (n : ℕ) : Adds p w (w.tickHeartbeat P n).1 := by
  unfold tickHeartbeat
  split
  · exact .refl w
  · dsimp only
    split
    · exact endSession_adds a _
    · generalize hv : (if w.ses.beatMs * 12 * wrapU32 (w.ses.testRequests + 1) / 10 ≤
          n - w.ses.lastRecvMs then
        (w.upd fun s => { s with testRequests := wrapU32 (s.testRequests + 1) }).trySend P
          .testRequest [(112, ascii "TEST")] else w) = v
      have probed : Adds p w v := by
        rw [← hv]
        split
        · exact (Adds.upd _).trans (trySend_adds a (by decide) _)
        · exact .refl w
      split
      · exact probed.trans (trySend_adds a (by decide) [])
      · exact probed

theorem tickLive_adds (a : Admits p) (n : ℕ) : Adds p w (w.tickLive P n).1 := by
  unfold tickLive
  split
  · dsimp only
    refine (Adds.upd fun s =>
      { s with loggingOutSinceMs := some (w.ses.loggingOutSinceMs.getD n) }).trans ?_
    split
    · exact endSession_adds a _
    · exact tickHeartbeat_adds a n
  · exact tickHeartbeat_adds a n

/-- A tick on which this end does not owe the Logon. -/
theorem tickRolled_adds (a : Admits p) (n : ℕ) (owes : w.ses.state ≠ .mustLogon) :
    Adds p w (w.tickRolled P n).1 := by
  unfold tickRolled
  split
  · exact (trySend_adds a (by decide) []).trans (.upd _)
  · split
    · exact .refl w
    · exact .refl w
    · unfold tickAwaitingLogon
      dsimp only
      refine (Adds.upd fun s =>
        { s with awaitingLogonSinceMs := some (w.ses.awaitingLogonSinceMs.getD n) }).trans ?_
      split
      · exact endSession_adds a _
      · exact .refl _
    · exact absurd ‹_› owes
    · exact tickLive_adds a n
    · exact tickLive_adds a n

theorem tickInner_adds (a : Admits p) (n : ℕ) (owes : w.ses.state ≠ .mustLogon) :
    Adds p w (w.tickInner P n).1 := by
  have rolled := roll_rolled w n
  refine (Adds.upd _).trans ((roll_adds a n).trans (tickRolled_adds a n ?_))
  rw [rolled.state]
  exact owes

theorem sendOrdered_adds (a : Admits p) {which : Which} (other : which ≠ .logon)
    (extra : List (ℕ × Bytes)) : Adds p w (w.sendOrdered P which extra).1 := by
  unfold sendOrdered
  split
  · exact .refl w
  · cases h : w.send P which extra with
    | none => exact .refl w
    | some v => exact sendAs_adds a other h

theorem beginLogout_adds (a : Admits p) (text : Bytes) : Adds p w (w.beginLogout P text).1 := by
  unfold beginLogout
  split
  · split
    · exact endSession_adds a _
    · exact .refl w
  · cases h : w.send P .logout (if text.isEmpty then [] else [(58, text)]) with
    | none => exact endSession_adds a _
    | some v => exact (sendAs_adds a (by decide) h).trans (.upd _)

theorem sendSequenceReset_adds (a : Admits p) (n : ℕ) :
    Adds p w (w.sendSequenceReset P n).1 := by
  unfold sendSequenceReset
  split
  · exact .refl w
  · cases h : w.sendAs P .gapFill none [(36, renderU32 n), (123, ascii "N")] with
    | none => exact .refl w
    | some v => exact (sendAs_adds a (by decide) h).trans (.upd _)

theorem disconnectWith_adds (a : Admits p) (why : DropReason) :
    Adds p w (w.disconnectWith why).1 := by
  unfold disconnectWith
  split
  · exact endSession_adds a why
  · exact .upd _

end Scene

/-! ### Calls -/

namespace World

variable {A J : Type} [Journal J] {x : World A J}

theorem judgeApplication_adds [Application A] (a : Admits p) (b : Bytes) :
    Added p x.toScene (seen (x.judgeApplication b)) := by
  unfold judgeApplication
  split
  · exact Scene.refused_added a
  · dsimp only
    generalize Application.onMessage x.app b _ = answer
    obtain ⟨app, reply⟩ := answer
    have handed : Adds p x.toScene (x.log (.delivered x.ses b)) := .one (a.delivered _ _) rfl
    cases reply with
    | none => exact handed
    | some bytes =>
      refine handed.trans ⟨[.emitted (.reply _ bytes), .stored _ bytes _], rfl, ?_⟩
      exact List.forall_mem_cons.mpr ⟨a.reply _ _, List.forall_mem_singleton.mpr (a.stored _ _ _)⟩

theorem sendApplication_adds (a : Admits p) (msg : Bytes) :
    Adds p x.toScene (x.sendApplication P msg).1.toScene := by
  unfold sendApplication
  split
  · exact .refl _
  · split
    · exact .refl _
    · dsimp only
      split
      · exact .refl _
      · rename_i bytes _
        rw [tellJournal_scene]
        refine ⟨[.emitted (.originated _ bytes), .stored _ bytes _], rfl, ?_⟩
        exact List.forall_mem_cons.mpr
          ⟨a.originated _ _, List.forall_mem_singleton.mpr (a.stored _ _ _)⟩

theorem tickAfterInner_adds (a : Admits p) (n : ℕ) (owes : x.ses.state ≠ .mustLogon) :
    Adds p x.toScene (x.tickAfterInner P n).1.toScene :=
  (Scene.tickInner_adds a n owes).trans (Scene.advanceReplay_adds a x.journal _)

/-- **A call that receives nothing and makes no connection**, from the note of the call on. -/
theorem perform_adds [Application A] (a : Admits p) (w : World A J) (c : Call)
    (own : c.incoming = none) (other : c ≠ .connect) (owes : w.ses.state ≠ .mustLogon) :
    Adds p ⟨w.ses, .called w.ses c :: w.hist⟩ (w.perform P c).1.toScene := by
  unfold perform
  generalize hk : ({ w with hist := .called w.ses c :: w.hist } : World A J) = k
  rw [show (⟨w.ses, .called w.ses c :: w.hist⟩ : Scene) = k.toScene by rw [← hk]]
  have owes : k.ses.state ≠ .mustLogon := by
    rw [← hk]
    exact owes
  have told {r : World A J × Link} (h : Adds p k.toScene r.1.toScene) :
      Adds p k.toScene (thenTell r).1.toScene := by
    unfold thenTell
    rw [tellJournal_scene]
    exact h
  cases c with
  | connect => exact absurd rfl other
  | received b | receivedWith b => cases own
  | disconnect => exact Scene.disconnectWith_adds a _
  | disconnectWith why => exact Scene.disconnectWith_adds a why
  | noteDropReason why => exact .upd _
  | tick n => exact (Adds.upd _).trans (Scene.tickInner_adds a n owes)
  | tickAt n sub => exact (Adds.upd _).trans (Scene.tickInner_adds a n owes)
  | tickWith n => exact told ((Adds.upd _).trans (tickAfterInner_adds a n owes))
  | tickAtWith n sub => exact told ((Adds.upd _).trans (tickAfterInner_adds a n owes))
  | sendApplication msg => exact sendApplication_adds a msg
  | sendHeartbeat => exact Scene.sendOrdered_adds a (by decide) _
  | sendTestRequest id => exact Scene.sendOrdered_adds a (by decide) _
  | sendResendRequest from_ upTo => exact Scene.sendOrdered_adds a (by decide) _
  | beginLogout text => exact Scene.beginLogout_adds a text
  | beginLogoutWith text => exact told (Scene.beginLogout_adds a text)
  | logoutNow text => exact Scene.logoutNow_adds a text
  | logoutNowWith text => exact told (Scene.logoutNow_adds a text)
  | setNextOut n =>
    show Adds p k.toScene (k.setNextOut n).1
    unfold Scene.setNextOut
    split
    · exact .refl _
    · exact .upd _
  | setNextIn n =>
    show Adds p k.toScene (k.setNextIn n).1
    unfold Scene.setNextIn
    split
    · exact .refl _
    · exact .upd _
  | sendSequenceReset n => exact Scene.sendSequenceReset_adds a n
  | sendSequenceResetWith n => exact told (Scene.sendSequenceReset_adds a n)

/-! ### Bytes that are not judged by their number -/

/-- What judging does with bytes that do not get as far as their number. -/
inductive Unread (P : Params) (x : World A J) (b : Bytes) : World A J × Except Refusal Link → Prop
  | ignored : Unread P x b (x, .ok .up)
  | garbled : Unread P x b (x.lift fun c => (c.garbled b).map id .ok)
  | wrongBegin : Unread P x b (x.lift fun c => (c.logoutWith P .incorrectBeginString).map id .ok)
  | refused {why : Refusal} {s : Session} (ledger : s.ledger = x.ses.ledger)
      (cfg : s.cfg = x.ses.cfg) : Unread P x b ({ x with ses := s }, .error why)
  | badTag {pos : ℕ} (live : x.ses.state = .loggedOn)
      (bad : (frameOf P b).outcome = .error (.badTag pos)) :
      Unread P x b (x.lift fun c => (c.judgeBadTag P (viewOf P b) pos b).map id .ok)

theorem judge_unread [Application A] {b : Bytes} (arr : x.ses.arrives P b = none) :
    Unread P { x with hist := .judged x.ses b :: x.hist } b (x.judge P b) := by
  unfold judge
  generalize hy : ({ x with hist := .judged x.ses b :: x.hist } : World A J) = y
  have ses : y.ses = x.ses := by rw [← hy]
  rw [← ses] at arr
  dsimp only
  split
  · exact .ignored
  · rename_i whole
    unfold judgeFrame
    split
    · exact .garbled
    · rename_i third
      split
      · split
        · exact .wrongBegin
        · exact .refused rfl rfl
      · rename_i begin_
        unfold judgeHeader
        split
        · exact .refused rfl rfl
        · rename_i refusal
          have ledger := noteSkew_ledger y.ses (viewOf P b)
          have cfg := noteSkew_cfg y.ses (viewOf P b)
          dsimp only
          rw [identityRefusal_noteSkew]
          split
          · exact .refused ledger cfg
          · rename_i known
            split
            · exact .refused ledger cfg
            · rename_i seq number
              -- nothing refuses it: it gets as far as its number after all
              have begins : (viewOf P b).get 8 |>.any y.ses.cfg.beginString.isMatch := by
                simpa using begin_
              have arrived : y.ses.arrives P b = some (Inbound.read (viewOf P b) seq) := by
                simp [Session.arrives, whole, not_not.mp third, begins, refusal, known, number]
              rw [arr] at arrived
              cases arrived
  · split
    · exact .badTag ‹_› ‹_›
    · exact .garbled
  · exact .garbled

end World

end Adds

end Fixbolt
