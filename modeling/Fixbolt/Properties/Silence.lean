import Fixbolt.Properties.Setting

/-!
# A session whose link was dropped is silent

A call that answers `dropped` has left the session where no entry point speaks, listens or hands
anything over: until the next connection it sends nothing, judges nothing, holds nothing, stores
nothing in the journal and shows the application nothing, whatever calls still come. One message
escapes this: the SequenceReset that an operator orders is laid out in any state.

* `Event.Quiet`: what may still happen;
* `World.dropped_dead`: only a dead session answers `dropped`;
* `World.perform_mute`, `World.run_mute`: one call, and a run;
* `silent_after_drop`: both together.
-/

namespace Fixbolt

/-- The SequenceReset that an operator orders. -/
def Call.ordersReset : Call → Bool
  | .sendSequenceReset _ | .sendSequenceResetWith _ => true
  | _ => false

/-- What may happen to a session that has no link: it is called, its end is noted, its counts
restart, and it lays out a SequenceReset if it was ordered to. -/
inductive Event.Quiet (ordered : Prop) : Event → Prop
  | called (s : Session) (c : Call) : Quiet ordered (.called s c)
  | restarted (s : Session) : Quiet ordered (.restarted s)
  | ended (why : DropReason) : Quiet ordered (.ended why)
  | reset (slots : List (ℕ × Bytes)) (bytes : Bytes) (h : ordered) :
    Quiet ordered (.emitted (.templated .gapFill slots bytes))

theorem Event.Quiet.mono {o o' : Prop} (h : o → o') {e : Event} (quiet : e.Quiet o) :
    e.Quiet o' := by
  cases quiet with
  | called s c => exact .called s c
  | restarted s => exact .restarted s
  | ended why => exact .ended why
  | reset slots bytes ordered => exact .reset slots bytes (h ordered)

namespace Session

theorem dead_iff {s : Session} :
    ¬ s.Alive ↔ s.state = .disconnected ∨ s.state = .awaitingLogout := by
  rw [Alive, not_and_or, not_not, not_not]

theorem not_loggedOn {s : Session} (dead : ¬ s.Alive) : s.state ≠ .loggedOn := by
  obtain is | is := dead_iff.mp dead <;> rw [is] <;> decide

end Session

/-- From `w` to `w'` nothing was said and nothing heard, and the session has no link. -/
structure Mute (ordered : Prop) (w w' : Scene) : Prop where
  dead : ¬ w'.ses.Alive
  queue : w'.ses.queue = w.ses.queue
  hist : ∃ new, w'.hist = new ++ w.hist ∧ ∀ e ∈ new, e.Quiet ordered

namespace Mute

variable {ordered ordered' : Prop} {u v w : Scene}

theorem refl (dead : ¬ w.ses.Alive) : Mute ordered w w := ⟨dead, rfl, [], rfl, by simp⟩

theorem mono (h : ordered → ordered') (m : Mute ordered v w) : Mute ordered' v w := by
  obtain ⟨new, eq, quiet⟩ := m.hist
  exact ⟨m.dead, m.queue, new, eq, fun e mem => (quiet e mem).mono h⟩

theorem trans (first : Mute ordered u v) (second : Mute ordered v w) : Mute ordered u w := by
  obtain ⟨new, eq, quiet⟩ := first.hist
  obtain ⟨new', eq', quiet'⟩ := second.hist
  refine ⟨second.dead, second.queue.trans first.queue, new' ++ new, ?_, ?_⟩
  · rw [eq', eq, List.append_assoc]
  · intro e mem
    exact (List.mem_append.mp mem).elim (quiet' e) (quiet e)

/-- A change of anything but the state and the queue. -/
theorem upd (dead : ¬ w.ses.Alive) {f : Session → Session} (state : (f w.ses).state = w.ses.state)
    (queue : (f w.ses).queue = w.ses.queue) : Mute ordered w (w.upd f) := by
  refine ⟨?_, queue, [], rfl, by simp⟩
  show ¬ Session.Alive (f w.ses)
  rwa [Session.Alive, state]

/-- One more quiet event. -/
theorem log (m : Mute ordered v w) {e : Event} (quiet : e.Quiet ordered) :
    Mute ordered v (w.log e) := by
  obtain ⟨new, eq, others⟩ := m.hist
  refine ⟨m.dead, m.queue, e :: new, ?_, ?_⟩
  · show e :: w.hist = _
    rw [eq, List.cons_append]
  · rintro e' (_ | ⟨_, mem⟩)
    · exact quiet
    · exact others e' mem

end Mute

namespace Scene

variable {P : Params} {ordered : Prop} {w : Scene}

theorem endSession_mute (w : Scene) (why : DropReason) : Mute ordered w (w.endSession why) := by
  have gone : Mute ordered w (w.upd (·.endWith why)) :=
    ⟨fun alive => alive.1 rfl, rfl, [], rfl, by simp⟩
  have ended := gone.log (.ended why)
  unfold endSession
  split
  · exact ended.log (.restarted _)
  · exact ended

theorem disconnectWith_mute (w : Scene) (why : DropReason) :
    Mute ordered w (w.disconnectWith why).1 := by
  unfold disconnectWith
  split
  · exact w.endSession_mute why
  · exact ⟨fun alive => alive.1 rfl, rfl, [], rfl, by simp⟩

/-- A tick moves the clock of a session without a link, and its counts at a boundary. -/
theorem tickInner_mute (dead : ¬ w.ses.Alive) (nowMs : ℕ) :
    Mute ordered w (w.tickInner P nowMs).1 ∧ (w.tickInner P nowMs).2 = .dropped := by
  have rolled : Mute ordered w ((w.upd fun s => { s with nowMs := nowMs }).roll nowMs) := by
    have clock : Mute ordered w (w.upd fun s => { s with nowMs := nowMs }) := .upd dead rfl rfl
    refine clock.trans ?_
    have counts : Mute ordered (w.upd fun s => { s with nowMs := nowMs })
        ((w.upd fun s => { s with nowMs := nowMs }).upd (·.rolled nowMs)) := by
      refine .upd clock.dead ?_ ?_
      all_goals
        unfold Session.rolled
        split <;> rfl
    unfold roll
    dsimp only
    split
    · exact counts.log (.restarted _)
    · exact counts
  unfold tickInner tickRolled
  generalize (w.upd fun s => { s with nowMs := nowMs }).roll nowMs = v at rolled ⊢
  have off := Session.not_loggedOn rolled.dead
  rw [if_neg fun on => off on.1]
  obtain is | is := Session.dead_iff.mp rolled.dead
  all_goals
    rw [is]
    exact ⟨rolled, rfl⟩

theorem setResolution_mute (dead : ¬ w.ses.Alive) (sub : ℕ) (resolution : Precision) :
    Mute ordered w (w.setResolution sub resolution) := .upd dead rfl rfl

theorem sendOrdered_mute (dead : ¬ w.ses.Alive) (which : Which) (extra : List (ℕ × Bytes)) :
    Mute ordered w (w.sendOrdered P which extra).1 := by
  unfold sendOrdered
  rw [if_pos (Session.not_loggedOn dead)]
  exact .refl dead

theorem logoutNow_mute (dead : ¬ w.ses.Alive) (text : Bytes) :
    Mute ordered w (w.logoutNow P text).1 := by
  unfold logoutNow
  rw [if_pos (Session.dead_iff.mp dead)]
  exact .refl dead

theorem beginLogout_mute (dead : ¬ w.ses.Alive) (text : Bytes) :
    Mute ordered w (w.beginLogout P text).1 := by
  unfold beginLogout
  rw [if_pos (Session.not_loggedOn dead)]
  split
  · exact w.endSession_mute _
  · exact .refl dead

/-- The one message that is laid out without a link. -/
theorem sendSequenceReset_mute (dead : ¬ w.ses.Alive) (n : ℕ) :
    Mute True w (w.sendSequenceReset P n).1 := by
  unfold sendSequenceReset
  split
  · exact .refl dead
  · split
    · exact .refl dead
    · rename_i v laid
      obtain ⟨bytes, rfl⟩ := sendAs_eq laid
      have counted : Mute True w (w.upd (·.sent none)) := .upd dead rfl rfl
      have sent := counted.log (.reset (w.ses.slotsFor none [(36, renderU32 n), (123, ascii "N")])
        bytes trivial)
      exact sent.trans (.upd (f := fun s => { s with nextOut := n }) sent.dead rfl rfl)

/-! ### Only a dead session answers `dropped` -/

theorem tickHeartbeat_drops (w : Scene) (nowMs : ℕ) :
    (w.tickHeartbeat P nowMs).2 = .dropped → ¬ (w.tickHeartbeat P nowMs).1.ses.Alive := by
  have up (p : Prop) [Decidable p] (x y : Scene) :
      (if p then (x, Link.up) else (y, Link.up)).2 = .up := by
    split <;> rfl
  unfold tickHeartbeat
  split
  · rintro ⟨⟩
  · dsimp only
    by_cases quiet : w.ses.beatMs * 24 / 10 ≤ nowMs - w.ses.lastRecvMs
    · rw [if_pos quiet]
      exact fun _ => endSession_dead _ _
    · rw [if_neg quiet]
      intro dropped
      rw [up] at dropped
      cases dropped

theorem tickLive_drops (w : Scene) (nowMs : ℕ) :
    (w.tickLive P nowMs).2 = .dropped → ¬ (w.tickLive P nowMs).1.ses.Alive := by
  unfold tickLive
  by_cases leaving : w.ses.state = .loggingOut
  · rw [if_pos leaving]
    dsimp only
    split
    · exact fun _ => endSession_dead _ _
    · exact tickHeartbeat_drops _ nowMs
  · rw [if_neg leaving]
    exact w.tickHeartbeat_drops nowMs

theorem tickInner_drops (w : Scene) (nowMs : ℕ) :
    (w.tickInner P nowMs).2 = .dropped → ¬ (w.tickInner P nowMs).1.ses.Alive := by
  unfold tickInner tickRolled
  generalize (w.upd fun s => { s with nowMs := nowMs }).roll nowMs = v
  split
  · exact fun _ alive => alive.2 rfl
  · split
    · rename_i is
      exact fun _ alive => alive.1 is
    · rename_i is
      exact fun _ alive => alive.2 is
    · unfold tickAwaitingLogon
      dsimp only
      split
      · exact fun _ => endSession_dead _ _
      · rintro ⟨⟩
    · rintro ⟨⟩
    · exact v.tickLive_drops nowMs
    · exact v.tickLive_drops nowMs

theorem logoutNow_drops (w : Scene) (text : Bytes) : ¬ (w.logoutNow P text).1.ses.Alive := by
  unfold logoutNow
  split
  · rename_i off
    exact Session.dead_iff.mpr off
  · exact cut_dead _

theorem beginLogout_drops (w : Scene) (text : Bytes) :
    (w.beginLogout P text).2 = .dropped → ¬ (w.beginLogout P text).1.ses.Alive := by
  unfold beginLogout
  split
  · split
    · exact fun _ => endSession_dead _ _
    · rename_i off
      exact fun _ alive => off alive.1
  · split
    · exact fun _ => endSession_dead _ _
    · rintro ⟨⟩

/-- A resend in progress drops the link only by ending the session. -/
theorem advanceReplay_drops {J : Type} [Journal J] (j : J) {link : Link}
    (h : link = .dropped → ¬ w.ses.Alive) :
    (w.advanceReplay P j link).2 = .dropped → ¬ (w.advanceReplay P j link).1.ses.Alive := by
  unfold advanceReplay
  split
  · rename_i up
    split
    · intro dropped
      cases up.1.symm.trans dropped
    · exact fun _ => endSession_dead _ _
  · exact h

end Scene

namespace World

variable {P : Params} {A J : Type} [Application A] [Journal J] {w : World A J} {ordered : Prop}

/-- Received bytes, on any session: the link that is answered is up exactly while it is alive. -/
theorem receivedInner_link (w : World A J) (bytes : Bytes) :
    (w.receivedInner P bytes).2 = .dropped → ¬ (w.receivedInner P bytes).1.ses.Alive := by
  unfold receivedInner
  split
  · rename_i off
    exact fun _ => Session.dead_iff.mpr off
  · rename_i live
    have alive : w.ses.Alive := by rwa [not_or] at live
    have free : Answers A Rules.free.answers := fun _ _ _ _ _ => trivial
    have judged := judgeOrEnd_leads (P := P) free alive bytes
    split
    · rename_i v found
      have link := judged.link
      rw [found] at link
      intro _ up
      exact absurd (link.mpr up) (by simp [seen])
    · rename_i v found
      rw [found] at judged
      have within : (judging v.hist).isSome := acts_judging judged.acts (by simp)
      have drained := drain_leads (P := P) free trivial queued v (judged.link.mp rfl) within
      generalize v.drain P queued = r at drained ⊢
      obtain ⟨u, link⟩ := r
      have moved := Scene.advanceReplay_link (P := P) u.journal u.toScene drained.link
      intro dropped up
      cases dropped.symm.trans (moved.mpr up)

theorem receivedWith_link (w : World A J) (bytes : Bytes)
    (dropped : (w.receivedWith P bytes).2 = .dropped) :
    ¬ (w.receivedWith P bytes).1.ses.Alive := by
  have same := congrArg Scene.ses (receivedWith_scene (P := P) w bytes)
  rw [same]
  exact w.receivedInner_link bytes dropped

omit [Application A] in
theorem tickAfterInner_link (w : World A J) (nowMs : ℕ) :
    (w.tickAfterInner P nowMs).2 = .dropped → ¬ (w.tickAfterInner P nowMs).1.ses.Alive :=
  Scene.advanceReplay_drops w.journal (w.toScene.tickInner_drops nowMs)

omit [Application A] in
theorem thenTell_link {r : World A J × Link} (h : r.2 = .dropped → ¬ r.1.ses.Alive)
    (dropped : (thenTell r).2 = .dropped) : ¬ (thenTell r).1.ses.Alive := by
  have same := congrArg Scene.ses (tellJournal_scene r.1)
  show ¬ r.1.tellJournal.ses.Alive
  rw [same]
  exact h dropped

omit [Application A] in
theorem sendApplication_up (w : World A J) (msg : Bytes) : (w.sendApplication P msg).2 = .up := by
  unfold sendApplication
  split
  · rfl
  · split
    · rfl
    · dsimp only
      split <;> rfl

/-- **A call that answers `dropped` has left a dead session.** -/
theorem dropped_dead (w : World A J) (c : Call) (dropped : (w.perform P c).2 = .dropped) :
    ¬ (w.perform P c).1.ses.Alive := by
  unfold perform at dropped ⊢
  generalize ({ w with hist := .called w.ses c :: w.hist } : World A J) = v at dropped ⊢
  cases c with
  | connect => cases dropped
  | disconnect => exact (@Scene.disconnectWith_mute True v.toScene _).dead
  | disconnectWith why => exact (@Scene.disconnectWith_mute True v.toScene why).dead
  | noteDropReason why => cases dropped
  | tick n => exact (v.setResolution 0 .millis).tickInner_drops n dropped
  | tickAt n sub => exact (v.setResolution sub .nanos).tickInner_drops n dropped
  | tickWith n => exact thenTell_link (tickAfterInner_link _ n) dropped
  | tickAtWith n sub => exact thenTell_link (tickAfterInner_link _ n) dropped
  | received b =>
    exact receivedWith_link (⟨v.toScene, .silent, .noJournal⟩ : World Silent NoJournal) b dropped
  | receivedWith b => exact v.receivedWith_link b dropped
  | sendApplication msg => cases dropped.symm.trans (v.sendApplication_up msg)
  | sendHeartbeat => cases dropped
  | sendTestRequest id => cases dropped
  | sendResendRequest from_ upTo => cases dropped
  | beginLogout text => exact v.beginLogout_drops text dropped
  | beginLogoutWith text => exact thenTell_link (v.beginLogout_drops text) dropped
  | logoutNow text => exact v.logoutNow_drops text
  | logoutNowWith text => exact thenTell_link (fun _ => v.logoutNow_drops text) dropped
  | setNextOut n => cases dropped
  | setNextIn n => cases dropped
  | sendSequenceReset n => cases dropped
  | sendSequenceResetWith n => cases dropped

/-! ### Nothing more is said -/

omit [Application A] in
theorem thenTell_mute {v : Scene} {a : A} {r : World A J × Link}
    (h : Mute ordered v r.1.toScene ∧ r.1.app = a) :
    Mute ordered v (thenTell r).1.toScene ∧ (thenTell r).1.app = a := by
  have app : r.1.tellJournal.app = r.1.app := by
    unfold tellJournal
    split <;> rfl
  show Mute ordered v r.1.tellJournal.toScene ∧ r.1.tellJournal.app = a
  rw [tellJournal_scene, app]
  exact h

/-- What is received is not even judged. -/
theorem receivedWith_mute (dead : ¬ w.ses.Alive) (bytes : Bytes) :
    Mute ordered w.toScene (w.receivedWith P bytes).1.toScene ∧
      (w.receivedWith P bytes).1.app = w.app := by
  have off : w.receivedInner P bytes = (w, .dropped) := if_pos (Session.dead_iff.mp dead)
  have app : w.markIn.app = w.app := by
    unfold markIn
    split <;> rfl
  unfold receivedWith
  rw [off]
  refine thenTell_mute ⟨?_, app⟩
  dsimp only
  rw [markIn_scene]
  exact .refl dead

omit [Application A] [Journal J] in
theorem tick_mute (dead : ¬ w.ses.Alive) (sub n : ℕ) (resolution : Precision) :
    Mute ordered w.toScene ((w.setResolution sub resolution).tickInner P n).1 ∧
      ((w.setResolution sub resolution).tickInner P n).2 = .dropped := by
  have clock := @Scene.setResolution_mute ordered _ dead sub resolution
  have ticked := @Scene.tickInner_mute P ordered _ clock.dead n
  exact ⟨clock.trans ticked.1, ticked.2⟩

omit [Application A] in
/-- Nor does a resend go on. -/
theorem tickWith_mute (dead : ¬ w.ses.Alive) (sub n : ℕ) (resolution : Precision) :
    Mute ordered w.toScene
        (thenTell (({ w with toScene := w.setResolution sub resolution } : World A J).tickAfterInner
          P n)).1.toScene ∧
      (thenTell (({ w with toScene := w.setResolution sub resolution } : World A J).tickAfterInner
        P n)).1.app = w.app := by
  obtain ⟨ticked, dropped⟩ : Mute ordered w.toScene
      ((w.setResolution sub resolution).tickInner P n).1 ∧ _ := tick_mute dead sub n resolution
  have stopped (j : J) : ((w.setResolution sub resolution).tickInner P n).1.advanceReplay P j
      ((w.setResolution sub resolution).tickInner P n).2 =
        (w.setResolution sub resolution).tickInner P n := by
    unfold Scene.advanceReplay
    rw [dropped, if_neg (by simp)]
    exact Prod.ext rfl dropped.symm
  refine thenTell_mute ⟨?_, rfl⟩
  show Mute ordered w.toScene (((w.setResolution sub resolution).tickInner P n).1.advanceReplay P _
    ((w.setResolution sub resolution).tickInner P n).2).1
  rw [stopped]
  exact ticked

/-- One call that is no connection. -/
theorem perform_mute (w : World A J) (c : Call) (dead : ¬ w.ses.Alive) (calm : c ≠ .connect) :
    Mute (c.ordersReset = true) w.toScene (w.perform P c).1.toScene ∧
      (w.perform P c).1.app = w.app := by
  unfold perform
  have called : Mute (c.ordersReset = true) w.toScene (w.toScene.log (.called w.ses c)) :=
    (Mute.refl dead).log (.called w.ses c)
  have app : ({ w with hist := .called w.ses c :: w.hist } : World A J).app = w.app := rfl
  revert called app
  generalize hv : ({ w with hist := .called w.ses c :: w.hist } : World A J) = v
  have same : w.toScene.log (.called w.ses c) = v.toScene := by rw [← hv]; rfl
  rw [same]
  intro called app
  have off := called.dead
  suffices step : Mute (c.ordersReset = true) v.toScene (v.dispatch P c).1.toScene ∧
      (v.dispatch P c).1.app = v.app from ⟨called.trans step.1, step.2.trans app⟩
  cases c with
  | connect => exact absurd rfl calm
  | disconnect => exact ⟨v.disconnectWith_mute _, rfl⟩
  | disconnectWith why => exact ⟨v.disconnectWith_mute why, rfl⟩
  | noteDropReason why =>
    refine ⟨.upd off ?_ ?_, rfl⟩
    all_goals
      split <;> rfl
  | tick n => exact ⟨(tick_mute off 0 n .millis).1, rfl⟩
  | tickAt n sub => exact ⟨(tick_mute off sub n .nanos).1, rfl⟩
  | tickWith n => exact tickWith_mute off 0 n .millis
  | tickAtWith n sub => exact tickWith_mute off sub n .nanos
  | received b =>
    have alone (w : World Silent NoJournal) (dead : ¬ w.ses.Alive) :
        Mute (Call.ordersReset (.received b) = true) w.toScene (w.receivedWith P b).1.toScene :=
      (receivedWith_mute dead b).1
    exact ⟨alone ⟨v.toScene, .silent, .noJournal⟩ off, rfl⟩
  | receivedWith b => exact receivedWith_mute off b
  | sendApplication msg =>
    have same : v.sendApplication P msg = (v, .up) := if_pos (Session.not_loggedOn off)
    show Mute _ v.toScene (v.sendApplication P msg).1.toScene ∧ (v.sendApplication P msg).1.app = _
    rw [same]
    exact ⟨.refl off, rfl⟩
  | sendHeartbeat => exact ⟨Scene.sendOrdered_mute off _ _, rfl⟩
  | sendTestRequest id => exact ⟨Scene.sendOrdered_mute off _ _, rfl⟩
  | sendResendRequest from_ upTo => exact ⟨Scene.sendOrdered_mute off _ _, rfl⟩
  | beginLogout text => exact ⟨Scene.beginLogout_mute off text, rfl⟩
  | beginLogoutWith text => exact thenTell_mute ⟨Scene.beginLogout_mute off text, rfl⟩
  | logoutNow text => exact ⟨Scene.logoutNow_mute off text, rfl⟩
  | logoutNowWith text => exact thenTell_mute ⟨Scene.logoutNow_mute off text, rfl⟩
  | setNextOut n =>
    refine ⟨?_, rfl⟩
    show Mute _ v.toScene (v.toScene.setNextOut n).1
    unfold Scene.setNextOut
    split
    · exact .refl off
    · exact .upd (f := fun s => { s with nextOut := n }) off rfl rfl
  | setNextIn n =>
    refine ⟨?_, rfl⟩
    show Mute _ v.toScene (v.toScene.setNextIn n).1
    unfold Scene.setNextIn
    split
    · exact .refl off
    · exact .upd (f := fun s => { s with nextIn := n }) off rfl rfl
  | sendSequenceReset n => exact ⟨(Scene.sendSequenceReset_mute off n).mono fun _ => rfl, rfl⟩
  | sendSequenceResetWith n =>
    exact thenTell_mute ⟨(Scene.sendSequenceReset_mute off n).mono fun _ => rfl, rfl⟩

/-- A run without a connection. -/
theorem run_mute (cs : List Call) (w : World A J) (dead : ¬ w.ses.Alive)
    (calm : ∀ c ∈ cs, c ≠ .connect) :
    Mute (∃ c ∈ cs, c.ordersReset) w.toScene (w.run P cs).toScene ∧ (w.run P cs).app = w.app := by
  induction cs generalizing w with
  | nil => exact ⟨.refl dead, rfl⟩
  | cons c cs ih =>
    obtain ⟨first, app⟩ := w.perform_mute (P := P) c dead (calm c List.mem_cons_self)
    obtain ⟨rest, app'⟩ := ih (w.perform P c).1 first.dead
      fun d mem => calm d (List.mem_cons_of_mem _ mem)
    have one : c.ordersReset = true → ∃ d ∈ c :: cs, d.ordersReset := fun h =>
      ⟨c, List.mem_cons_self, h⟩
    have later : (∃ d ∈ cs, d.ordersReset) → ∃ d ∈ c :: cs, d.ordersReset := by
      rintro ⟨d, mem, h⟩
      exact ⟨d, List.mem_cons_of_mem _ mem, h⟩
    exact ⟨(first.mono one).trans (rest.mono later), app'.trans app⟩

end World

/-- **After a call that answered `dropped`, and until the next connection, a session is silent**: it
sends nothing but a SequenceReset that is ordered, judges, holds and stores nothing, and hands
nothing over. -/
theorem silent_after_drop {P : Params} {A J : Type} [Application A] [Journal J] (w : World A J)
    (c : Call) (cs : List Call) (dropped : (w.perform P c).2 = .dropped)
    (calm : ∀ d ∈ cs, d ≠ .connect) :
    let v := (w.perform P c).1
    ¬ (v.run P cs).ses.Alive ∧ (v.run P cs).app = v.app ∧ (v.run P cs).ses.queue = v.ses.queue ∧
      ∃ new, (v.run P cs).hist = new ++ v.hist ∧ ∀ e ∈ new, e.Quiet (∃ d ∈ cs, d.ordersReset) := by
  obtain ⟨mute, app⟩ := (w.perform P c).1.run_mute (P := P) cs (w.dropped_dead c dropped) calm
  exact ⟨mute.dead, app, mute.queue, mute.hist⟩

open Setting in
/-- A Logout of the counterparty, and what still comes behind it. -/
theorem silent_after_drop_logout :
    let v := (loggedOn.perform acceptor (.receivedWith (theirs "5" 2 []))).1
    let cs := [.tickWith (now + 90000), .receivedWith (order 3), .sendApplication ours,
      .sendHeartbeat, .beginLogoutWith []]
    (v.run acceptor cs).app = v.app ∧
      ∃ new, (v.run acceptor cs).hist = new ++ v.hist ∧ ∀ e ∈ new, e.Quiet False := by
  have dropped : (loggedOn.perform acceptor (.receivedWith (theirs "5" 2 []))).2 = .dropped := by
    decide +kernel
  obtain ⟨-, app, -, new, eq, quiet⟩ := silent_after_drop loggedOn _ [.tickWith (now + 90000),
    .receivedWith (order 3), .sendApplication ours, .sendHeartbeat, .beginLogoutWith []] dropped
    (by decide)
  exact ⟨app, new, eq, fun e mem => (quiet e mem).mono (by decide)⟩

end Fixbolt
