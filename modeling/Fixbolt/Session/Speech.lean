import Fixbolt.Session.Saying

/-!
# What a session says, it manages to say

`Spoken` is a stretch of a session in which nothing failed to be said. As long as the names of the
session fit, every function of it keeps to that: here those that need neither the application nor
the journal, and the replay of what the journal holds.
-/

namespace Fixbolt

/-- From one scene to a later one of the same session, nothing failed to be said. -/
structure Spoken (w v : Scene) : Prop where
  cfg : v.ses.cfg = w.ses.cfg
  out : v.ses.out = w.ses.out
  reason : v.ses.lastDropReason = some .cannotSend → w.ses.lastDropReason = some .cannotSend
  hist : ∃ new, Event.ended .cannotSend ∉ new ∧ v.hist = new ++ w.hist

/-- Nothing failed to be said in judging a message, a refusal included. -/
def Speaks (w : Scene) (r : Scene × Except Refusal Link) : Prop := Spoken w (Scene.orEnd r).1

/-- A kept message does not rebuild at the instant of a session. -/
def Unrebuilt (P : Params) {J : Type} [Journal J] (j : J) (s : Session) : Prop :=
  ∃ seq kept, Journal.get j seq = some kept ∧
    asResend P.dict.toDictionary P.appScratch kept s.stampNow = none

section Walk

variable {P : Params} {w w' v : Scene} {r : Scene × Except Refusal Link}

namespace Spoken

theorem refl (w : Scene) : Spoken w w := ⟨rfl, rfl, id, [], List.not_mem_nil, rfl⟩

theorem trans (h : Spoken w w') (h' : Spoken w' v) : Spoken w v := by
  obtain ⟨new, none, hist⟩ := h.hist
  obtain ⟨new', none', hist'⟩ := h'.hist
  exact ⟨h'.cfg.trans h.cfg, h'.out.trans h.out, h.reason ∘ h'.reason, new' ++ new,
    fun mem => (List.mem_append.mp mem).elim none' none, by rw [hist', hist, List.append_assoc]⟩

/-- The session changes, but neither its names nor why it was ended. -/
theorem upd {f : Session → Session} (cfg : (f w.ses).cfg = w.ses.cfg)
    (out : (f w.ses).out = w.ses.out)
    (reason : (f w.ses).lastDropReason = w.ses.lastDropReason) : Spoken w (w.upd f) :=
  ⟨cfg, out, fun h => reason.symm.trans h, [], List.not_mem_nil, rfl⟩

/-- Something is noted. -/
theorem noted {e : Event} (other : e ≠ .ended .cannotSend) : Spoken w (w.log e) :=
  ⟨rfl, rfl, id, [e], fun mem => other (List.mem_singleton.mp mem).symm, rfl⟩

theorem equipped (h : Spoken w v) (e : w.ses.Equipped P) : v.ses.Equipped P :=
  ⟨h.cfg ▸ e.sized, by rw [h.out, h.cfg, e.own], h.out ▸ e.named⟩

end Spoken

namespace Scene

theorem sendAs_spoken {which : Which} {number : Option ℕ} {extra : List (ℕ × Bytes)}
    (h : w.sendAs P which number extra = some w') : Spoken w w' := by
  obtain ⟨bytes, rfl⟩ := sendAs_eq h
  exact .trans (.upd (f := (·.sent number)) rfl rfl rfl) (.noted nofun)

theorem send_spoken {which : Which} {extra : List (ℕ × Bytes)}
    (h : w.send P which extra = some w') : Spoken w w' := sendAs_spoken h

/-- **What a session decides to say goes out.** -/
theorem send_decided {which : Which} {number : Option ℕ} {extra : List (ℕ × Bytes)}
    (e : w.ses.Equipped P) (d : w.ses.Decides which number extra) :
    ∃ w', w.sendAs P which number extra = some w' :=
  sendAs_fits e (d.holds e.sized).1 (d.holds e.sized).2

theorem trySend_spoken (which : Which) (extra : List (ℕ × Bytes)) :
    Spoken w (w.trySend P which extra) := by
  unfold trySend
  cases h : w.send P which extra with
  | none => exact .refl w
  | some w' => exact send_spoken h

theorem endSession_spoken {why : DropReason} (other : why ≠ .cannotSend) :
    Spoken w (w.endSession why) := by
  have ended : Spoken w ((w.upd (·.endWith why)).log (.ended why)) := by
    have event : Event.ended why ≠ .ended .cannotSend := fun h => other (Event.ended.inj h)
    exact ⟨rfl, rfl, fun h => absurd (Option.some.inj h) other, [.ended why],
      fun mem => event (List.mem_singleton.mp mem).symm, rfl⟩
  unfold endSession
  dsimp only
  split
  · exact ended.trans (.noted nofun)
  · exact ended

theorem speaks_refused {why : Refusal} (other : why.toDropReason ≠ .cannotSend) :
    Speaks w (w, .error why) := endSession_spoken other

theorem speaks_upd {f : Session → Session} {link : Link} (cfg : (f w.ses).cfg = w.ses.cfg)
    (out : (f w.ses).out = w.ses.out)
    (reason : (f w.ses).lastDropReason = w.ses.lastDropReason) :
    Speaks w (w.upd f, .ok link) := Spoken.upd cfg out reason

theorem speaks_ended {why : DropReason} {link : Link} (other : why ≠ .cannotSend) :
    Speaks w (w.endSession why, .ok link) := endSession_spoken other

theorem cut_spoken (extra : List (ℕ × Bytes)) : Spoken w (w.trySend P .logout extra).cut :=
  (trySend_spoken .logout extra).trans (.upd rfl rfl rfl)

theorem garbled_spoken (b : Bytes) : Spoken w (w.garbled b).1 := by
  unfold garbled
  split
  · exact endSession_spoken nofun
  · exact .refl w

theorem logoutNow_spoken (text : Bytes) : Spoken w (w.logoutNow P text).1 := by
  unfold logoutNow
  split
  · exact .refl w
  · exact cut_spoken _

theorem sendReject_spoken {r : Reject} (e : w.ses.Equipped P)
    (d : w.ses.Decides .reject none r.slots) : Spoken w (w.sendReject P r).1 := by
  obtain ⟨w', sent⟩ := send_decided e d
  have said : w.send P .reject r.slots = some w' := sent
  unfold sendReject
  rw [said]
  dsimp only
  split
  · exact (send_spoken said).trans (cut_spoken [])
  · exact send_spoken said

theorem enqueue_spoken (seq : ℕ) (b : Bytes) : Spoken w (w.enqueue seq b) := by
  unfold enqueue
  split
  · exact .refl w
  · split
    · exact .refl w
    · exact .trans (.upd (f := fun s => { s with queue := s.queue.set _ ⟨seq, b⟩ }) rfl rfl rfl) (.noted (by simp))

theorem tooHigh_spoken (e : w.ses.Equipped P) (seq : ℕ) (b : Bytes) :
    Spoken w (w.tooHigh P seq b).1 := by
  have held := enqueue_spoken (w := w) seq b
  unfold tooHigh
  generalize w.enqueue seq b = u at held ⊢
  dsimp only
  split
  · exact held
  · have asks : Spoken u (u.upd fun s => { s with resendFrom := s.nextIn, resendTo := seq - 1 }) :=
      .upd rfl rfl rfl
    obtain ⟨w', sent⟩ := send_decided ((held.trans asks).equipped e)
      (.resendRequest u.ses.nextIn 0)
    have said : (u.upd fun s => { s with resendFrom := s.nextIn, resendTo := seq - 1 }).send P
      .resendRequest [(7, renderU32 u.ses.nextIn), (16, ascii "0")] = some w' := sent
    rw [said]
    exact (held.trans asks).trans (send_spoken said)

/-! ### Each type of message -/

section Types

variable {view : MessageView} {seq : ℕ}

theorem owe_spoken (before : ℕ) (want : Option ℕ) : Spoken w (w.upd (·.owe before want)) := by
  have same : (w.ses.owe before want).cfg = w.ses.cfg ∧ (w.ses.owe before want).out = w.ses.out ∧
      (w.ses.owe before want).lastDropReason = w.ses.lastDropReason := by
    unfold Session.owe
    split
    · split
      · exact ⟨rfl, rfl, rfl⟩
      · exact ⟨rfl, rfl, rfl⟩
    · exact ⟨rfl, rfl, rfl⟩
  exact .upd same.1 same.2.1 same.2.2

theorem noteDropReason_spoken {why : DropReason} (other : why ≠ .cannotSend) :
    Spoken w (w.upd (·.noteDropReason why)) := by
  have same : (w.ses.noteDropReason why).cfg = w.ses.cfg ∧
      (w.ses.noteDropReason why).out = w.ses.out ∧
      ((w.ses.noteDropReason why).lastDropReason = some .cannotSend →
        w.ses.lastDropReason = some .cannotSend) := by
    unfold Session.noteDropReason
    split
    · exact ⟨rfl, rfl, fun h => absurd (Option.some.inj h) other⟩
    · exact ⟨rfl, rfl, id⟩
  exact ⟨same.1, same.2.1, same.2.2, [], List.not_mem_nil, rfl⟩

theorem placeLogon_speaks (e : w.ses.Equipped P) (m : Inbound) (b : Bytes) :
    Speaks w (w.placeLogon P m b) := by
  unfold placeLogon
  split
  · exact tooHigh_spoken e m.seq b
  · exact speaks_upd rfl rfl rfl

theorem logonAccepted_speaks (e : w.ses.Equipped P) (b : Bytes) {encrypt heartBt : Bytes}
    (encrypts : (Inbound.read view seq).encrypt = some encrypt)
    (beats : (Inbound.read view seq).heartBt = some heartBt) :
    Speaks w (w.logonAccepted P (.read view seq) b encrypt heartBt) := by
  unfold logonAccepted
  dsimp only
  generalize hv : (w.upd fun s =>
    { s with beatMs := ((asU32? heartBt).map (· * 1000)).getD 0, state := .loggedOn }).log
      .loggedOn = v
  have agreed : Spoken w v := hv ▸ .trans (.upd (f := fun s =>
    { s with beatMs := ((asU32? heartBt).map (· * 1000)).getD 0, state := .loggedOn }) rfl rfl rfl) (.noted nofun)
  obtain ⟨u, answered, said⟩ : ∃ u, (if P.speaksFirst then some v
      else v.send P .logon (logonAnswer v.ses (.read view seq) encrypt heartBt)) = some u ∧
        Spoken v u := by
    split
    · exact ⟨v, rfl, .refl v⟩
    · obtain ⟨u, sent⟩ := send_decided (agreed.equipped e) (.answer encrypts beats)
      exact ⟨u, sent, sendAs_spoken sent⟩
  rw [answered]
  have owes := (agreed.trans said).trans
    (owe_spoken w.ses.nextOut (Inbound.read view seq).nextExpected)
  exact owes.trans (placeLogon_speaks (owes.equipped e) _ b)

theorem judgeLogon_speaks (e : w.ses.Equipped P) (b : Bytes) :
    Speaks w (w.judgeLogon P (.read view seq) b) := by
  unfold judgeLogon
  split
  · exact speaks_refused nofun
  · split
    · rename_i encrypt heartBt encrypts beats
      dsimp only
      have named : Spoken w
          (w.upd fun s => { s with peerApplVerId := (Inbound.read view seq).theirApplVerId }) := .upd rfl rfl rfl
      split
      · have reason : Spoken
            (w.upd fun s => { s with peerApplVerId := (Inbound.read view seq).theirApplVerId })
            ((w.upd fun s => { s with peerApplVerId := (Inbound.read view seq).theirApplVerId }).upd
              (·.noteDropReason .nextExpectedTooHigh)) := noteDropReason_spoken nofun
        exact (named.trans reason).trans (logoutNow_spoken _)
      · exact named.trans (logonAccepted_speaks (named.equipped e) b encrypts beats)
    · exact speaks_refused nofun

theorem judgeLogout_speaks (e : w.ses.Equipped P) : Speaks w (w.judgeLogout P) := by
  unfold judgeLogout
  split
  · exact speaks_ended nofun
  · obtain ⟨u, sent⟩ := send_decided e .goodbye
    have said : w.send P .logout [] = some u := sent
    rw [said]
    exact (send_spoken said).trans (endSession_spoken nofun)

theorem judgeTestRequest_speaks (e : w.ses.Equipped P) :
    Speaks w (w.judgeTestRequest P (.read view seq)) := by
  obtain ⟨u, sent⟩ := send_decided e (.reply view seq)
  have said : w.send P .heartbeat [(112, (Inbound.read view seq).testReqId.getD [])] = some u := sent
  unfold judgeTestRequest
  rw [said]
  exact send_spoken said

theorem judgeResendRequest_speaks (m : Inbound) : Speaks w (w.judgeResendRequest m) := by
  unfold judgeResendRequest
  split
  · dsimp only
    split
    · exact speaks_upd rfl rfl rfl
    · exact .refl w
  · exact .refl w

theorem judgeSequenceReset_speaks (e : w.ses.Equipped P) :
    Speaks w (w.judgeSequenceReset P (.read view seq)) := by
  unfold judgeSequenceReset
  split
  · exact .refl w
  · split
    · exact speaks_upd rfl rfl rfl
    · split
      · exact sendReject_spoken e (.reject view seq .valueIsIncorrect none)
      · exact .refl w

theorem judgeTooLow_spoken (e : w.ses.Equipped P) :
    Spoken w (w.judgeTooLow P (.read view seq)).1 := by
  unfold judgeTooLow
  split
  · exact cut_spoken _
  · split
    · exact .refl w
    · split
      · exact sendReject_spoken e (.reject view seq .requiredTagMissing (some 122))
      · split
        · exact sendReject_spoken e (.reject view seq .sendingTimeAccuracyProblem none)
        · exact .refl w

theorem judgeBadTag_spoken (e : w.ses.Equipped P) (pos : ℕ) (b : Bytes) :
    Spoken w (w.judgeBadTag P view pos b).1 := by
  have skipped (n : Option ℕ) : Spoken w (w.skipBadTag n) := by
    unfold skipBadTag
    split
    · split
      · exact .upd rfl rfl rfl
      · exact .refl w
    · exact .refl w
  unfold judgeBadTag
  dsimp only
  split
  · exact garbled_spoken b
  · exact (skipped _).trans (sendReject_spoken ((skipped _).equipped e) (.badTag view _))

end Types

/-! ### Replays -/

section Replays

variable {J : Type} [Journal J]

/-- A replay says what it has to say, at the instant it began at, or meets a message that does not
rebuild. -/
theorem replayLoop_speaks (e : w.ses.Equipped P) (j : J) (budget : ℕ) (q : Replay) :
    Spoken w (replayLoop P j budget w q).1 ∧
      (replayLoop P j budget w q).1.ses.stampNow = w.ses.stampNow ∧
      ((replayLoop P j budget w q).2 = none → Unrebuilt P j w.ses) := by
  induction budget generalizing w q with
  | zero => exact ⟨.refl w, rfl, by rintro ⟨⟩⟩
  | succ budget ih =>
    unfold replayLoop
    split
    · exact ⟨.refl w, rfl, by rintro ⟨⟩⟩
    · cases replayed : w.replay P j q.next with
      | none =>
        refine ⟨.refl w, rfl, fun _ => ?_⟩
        unfold replay at replayed
        cases kept : Journal.get j q.next with
        | none => simp [kept] at replayed
        | some bytes =>
          have named : w.ses.out.isNone = false := by
            rw [← Option.not_isSome, e.named]
            rfl
          simp only [kept, named, Bool.false_eq_true, if_false] at replayed
          split at replayed
          · rename_i fails
            exact ⟨q.next, bytes, kept, fails⟩
          · cases replayed
      | some r =>
        cases r with
        | some u =>
          have said : Spoken w u ∧ u.ses.stampNow = w.ses.stampNow := by
            unfold replay at replayed
            split at replayed
            · cases replayed
            · split at replayed
              · cases replayed
              · split at replayed
                · cases replayed
                · obtain rfl := Option.some.inj (Option.some.inj replayed)
                  exact ⟨.trans (.upd (f := fun s => { s with lastSentMs := s.nowMs }) rfl rfl rfl)
                    (.noted (by simp)), rfl⟩
          obtain ⟨rest, stamp, fails⟩ := ih (said.1.equipped e)
            { q with next := wrapU32 (q.next + 1) }
          refine ⟨said.1.trans rest, stamp.trans said.2, fun stuck => ?_⟩
          obtain ⟨seq, kept, holds, fails⟩ := fails stuck
          exact ⟨seq, kept, holds, said.2 ▸ fails⟩
        | none =>
          dsimp only
          generalize hu : w.upd (fun s =>
            { s with
              resendBeyondJournal := wrapU32 (s.resendBeyondJournal +
                lostBelowFloor j q.next (fillEnd j q.next q.stop)) }) = u
          have counted : Spoken w u ∧ u.ses.stampNow = w.ses.stampNow := hu ▸ ⟨.upd rfl rfl rfl, rfl⟩
          obtain ⟨v, sent⟩ := send_decided (counted.1.equipped e)
            (.fill q.next (fillEnd j q.next q.stop))
          have filled : u.fill P q.next (fillEnd j q.next q.stop) = some v := sent
          have same : v.ses.stampNow = w.ses.stampNow := by
            obtain ⟨bytes, rfl⟩ := sendAs_eq sent
            exact counted.2
          obtain ⟨rest, stamp, fails⟩ := ih ((counted.1.trans (sendAs_spoken sent)).equipped e)
            { q with next := fillEnd j q.next q.stop }
          rw [filled]
          refine ⟨(counted.1.trans (sendAs_spoken sent)).trans rest, stamp.trans same, fun stuck => ?_⟩
          obtain ⟨seq, kept, holds, fails⟩ := fails stuck
          exact ⟨seq, kept, holds, same ▸ fails⟩

theorem advanceReplay_speaks (e : w.ses.Equipped P) (j : J) (link : Link) :
    Spoken w (w.advanceReplay P j link).1 ∨ Unrebuilt P j (w.advanceReplay P j link).1.ses := by
  unfold advanceReplay
  split
  · unfold continueReplay
    cases w.ses.owed with
    | none => exact .inl (.refl w)
    | some q =>
      dsimp only
      obtain ⟨said, stamp, fails⟩ := replayLoop_speaks e j (max w.ses.cfg.resendBatch 1) q
      generalize replayLoop P j (max w.ses.cfg.resendBatch 1) w q = x at said stamp fails ⊢
      obtain ⟨v, left⟩ := x
      cases left with
      | none =>
        obtain ⟨seq, kept, holds, fails⟩ := fails rfl
        refine .inr ⟨seq, kept, holds, ?_⟩
        have same : (v.endSession .cannotSend).ses.stampNow = v.ses.stampNow := by
          unfold endSession
          dsimp only
          split
          · rfl
          · rfl
        rw [show (v.endSession .cannotSend).ses.stampNow = w.ses.stampNow from same.trans stamp]
        exact fails
      | some q' =>
        have left : Spoken v
            (v.upd fun s => { s with owed := if q'.next ≤ q'.stop then some q' else none }) := .upd rfl rfl rfl
        exact .inl (said.trans left)
  · exact .inl (.refl w)

end Replays

/-! ### The clock -/

theorem roll_spoken (n : ℕ) : Spoken w (w.roll n) := by
  have rolled : Spoken w (w.upd (·.rolled n)) := by
    have same : (w.ses.rolled n).cfg = w.ses.cfg ∧ (w.ses.rolled n).out = w.ses.out ∧
        (w.ses.rolled n).lastDropReason = w.ses.lastDropReason := by
      unfold Session.rolled
      split
      · exact ⟨rfl, rfl, rfl⟩
      · exact ⟨rfl, rfl, rfl⟩
    exact .upd same.1 same.2.1 same.2.2
  unfold roll
  dsimp only
  split
  · exact rolled.trans (.noted nofun)
  · exact rolled

theorem tickHeartbeat_spoken (n : ℕ) : Spoken w (w.tickHeartbeat P n).1 := by
  unfold tickHeartbeat
  split
  · exact .refl w
  · dsimp only
    split
    · exact endSession_spoken nofun
    · generalize hv : (if w.ses.beatMs * 12 * wrapU32 (w.ses.testRequests + 1) / 10 ≤
          n - w.ses.lastRecvMs then
        (w.upd fun s => { s with testRequests := wrapU32 (s.testRequests + 1) }).trySend P
          .testRequest [(112, ascii "TEST")] else w) = v
      have probed : Spoken w v := by
        rw [← hv]
        split
        · exact .trans (.upd (f := fun s => { s with testRequests := wrapU32 (s.testRequests + 1) }) rfl rfl rfl)
            (trySend_spoken _ _)
        · exact .refl w
      split
      · exact probed.trans (trySend_spoken _ _)
      · exact probed

theorem tickLive_spoken (n : ℕ) : Spoken w (w.tickLive P n).1 := by
  unfold tickLive
  split
  · dsimp only
    have since : Spoken w (w.upd fun s =>
        { s with loggingOutSinceMs := some (w.ses.loggingOutSinceMs.getD n) }) := .upd rfl rfl rfl
    split
    · exact since.trans (endSession_spoken nofun)
    · exact since.trans (tickHeartbeat_spoken n)
  · exact tickHeartbeat_spoken n

theorem tickRolled_spoken (n : ℕ) : Spoken w (w.tickRolled P n).1 := by
  unfold tickRolled
  split
  · refine (trySend_spoken (P := P) .logout []).trans ?_
    exact ⟨rfl, rfl, nofun, [], List.not_mem_nil, rfl⟩
  · split
    · exact .refl w
    · exact .refl w
    · unfold tickAwaitingLogon
      dsimp only
      have since : Spoken w (w.upd fun s =>
          { s with awaitingLogonSinceMs := some (w.ses.awaitingLogonSinceMs.getD n) }) := .upd rfl rfl rfl
      split
      · exact since.trans (endSession_spoken nofun)
      · exact since
    · have opens : Spoken w (w.upd fun s =>
          { s with state := .awaitingLogon, beatMs := s.cfg.heartBtInt * 1000, lastRecvMs := n }) :=
        .upd rfl rfl rfl
      exact opens.trans (trySend_spoken .logon _)
    · exact tickLive_spoken n
    · exact tickLive_spoken n

theorem tickInner_spoken (n : ℕ) : Spoken w (w.tickInner P n).1 :=
  .trans (.upd (f := fun s => { s with nowMs := n }) rfl rfl rfl) ((roll_spoken n).trans (tickRolled_spoken n))

end Scene

end Walk

end Fixbolt
