import Fixbolt.Session.Refine

/-!
# What a session does while it judges

`Acting` of `Moves` sees a ledger. How a session ends depends on more of it: its configuration,
the reason it was dropped for, and whether a Logout of its own has gone out. A `Deed` is one thing
a session does to a whole `Scene` that sends no Logout, a `Leaving` one that does.
`judge_runs` shows that judging a message that is no accepted Logout is a run of them.
-/

namespace Fixbolt

open History Relation

/-- Of a session, what deeds leave as it is unless they say so. -/
def Session.standing (s : Session) : Config × State × Option DropReason × ℕ :=
  (s.cfg, s.state, s.lastDropReason, s.nextOut)

/-- An event that neither spends a number nor stores, opens, restarts or ends anything. -/
def Event.quiet : Event → Bool
  | emitted e => e.possDup
  | delivered _ _ | held _ _ => true
  | _ => false

/-- An event that is a resend only as `K` says. -/
def Event.Within (K : ℕ → Bytes → Prop) : Event → Prop
  | emitted (.replayed n bytes) => K n bytes
  | _ => True

/-- Nothing is resent. -/
def NoResend (_ : ℕ) (_ : Bytes) : Prop := False

/-- One thing a session does, other than saying goodbye. `L` says whether a Logout of the
counterparty may be accepted, `K` what may be resent. -/
inductive Deed (P : Params) (L : Prop) (K : ℕ → Bytes → Prop) : Scene → Scene → Prop
  | adjusted {w w' : Scene} (same : w'.ses.standing = w.ses.standing)
      (hist : w'.hist = w.hist ∨ ∃ e, e.quiet ∧ e.Within K ∧ w'.hist = e :: w.hist)
      (count : w.ses.state = .disconnected → w'.ses.nextIn = w.ses.nextIn := by exact fun _ => rfl) :
      Deed P L K w w'
  | said {w w' : Scene} {which : Which} {extra : List (ℕ × Bytes)}
      (ordinary : which ≠ .logout ∧ which ≠ .gapFill) (up : w.ses.state ≠ .disconnected)
      (sent : w.send P which extra = some w') : Deed P L K w w'
  | restarted {w : Scene} {s : Session} {b : Bytes} {h : List Event}
      (now : w.hist = .judged s b :: h) : Deed P L K w (w.upd (·.restartCounts)).logRestart
  | noted {w : Scene} (why : DropReason) (up : w.ses.state ≠ .disconnected) :
      Deed P L K w (w.upd (·.noteDropReason why))
  | spoke {w : Scene} {t : Session} (owes : w.ses.state = .mustLogon)
      (same : t.standing = { w.ses with state := .awaitingLogon }.standing) :
      Deed P L K w { w with ses := t }
  | loggedOn {w : Scene} {t : Session} (alive : w.ses.Alive)
      (same : t.standing = { w.ses with state := .loggedOn }.standing) :
      Deed P L K w ⟨t, .loggedOn :: w.hist⟩
  | ended {w : Scene} {why : DropReason} (up : w.ses.state ≠ .disconnected)
      (peer : why = .peerLogout → L) : Deed P L K w (w.endSession why)

/-- A session says goodbye: it cuts the link, waits for the answer, or answers. -/
inductive Leaving (P : Params) (L : Prop) : Scene → Scene → Prop
  | cut {w : Scene} {t : Session} {extra : List (ℕ × Bytes)} (alive : w.ses.Alive)
      (same : t.standing.1 = (w.trySend P .logout extra).ses.standing.1 ∧
        t.nextOut = (w.trySend P .logout extra).ses.nextOut) (state : t.state = .awaitingLogout) :
      Leaving P L w { w.trySend P .logout extra with ses := t }
  | waits {w w' : Scene} {extra : List (ℕ × Bytes)} (live : w.ses.state = .loggedOn)
      (sent : w.send P .logout extra = some w') :
      Leaving P L w (w'.upd fun s => { s with state := .loggingOut })
  | answers {w w' : Scene} (peer : L) (up : w.ses.state ≠ .disconnected)
      (sent : w.send P .logout [] = some w') : Leaving P L w (w'.endSession .peerLogout)

/-- One thing a session does. -/
inductive Act (P : Params) (L : Prop) (K : ℕ → Bytes → Prop) : Scene → Scene → Prop
  | deed {w w' : Scene} (h : Deed P L K w w') : Act P L K w w'
  | leaving {w w' : Scene} (h : Leaving P L w w') : Act P L K w w'

/-- What a resend of a number may say, from a journal. -/
def Resends (P : Params) {J : Type} [Journal J] (j : J) (n : ℕ) (bytes : Bytes) : Prop :=
  ∃ kept stamp, Journal.get j n = some kept ∧
    asResend P.dict.toDictionary P.appScratch kept stamp = some bytes

/-- Where judging a message leaves the session, a refusal included. -/
def Runs (P : Params) (L : Prop) (K : ℕ → Bytes → Prop) (w : Scene) (r : Scene × Except Refusal Link) : Prop :=
  ReflTransGen (Act P L K) w (Scene.orEnd r).1

section Deeds

variable {P : Params} {L : Prop} {K : ℕ → Bytes → Prop} {w w' v : Scene}
  {r : Scene × Except Refusal Link}

theorem Runs.refl {link : Link} : Runs P L K w (w, .ok link) := ReflTransGen.refl

theorem Runs.deed {link : Link} (h : Deed P L K w w') : Runs P L K w (w', .ok link) :=
  ReflTransGen.single (.deed h)

theorem Runs.leaving {link : Link} (h : Leaving P L w w') : Runs P L K w (w', .ok link) :=
  ReflTransGen.single (.leaving h)

theorem Runs.after (h : Deed P L K w w') (hr : Runs P L K w' r) : Runs P L K w r :=
  ReflTransGen.head (.deed h) hr

theorem Runs.of_eq {f : Session → Session} (same : (f w.ses).standing = w.ses.standing)
    (up : w.ses.state ≠ .disconnected) (hr : Runs P L K (w.upd f) r) : Runs P L K w r :=
  @Runs.after P L K _ (w.upd f) _ (.adjusted same (.inl rfl) fun h => absurd h up) hr

theorem Refusal.toDropReason_ne (why : Refusal) : why.toDropReason ≠ .peerLogout := by
  cases why <;> decide

theorem Runs.refused {why : Refusal} (up : w.ses.state ≠ .disconnected) :
    Runs P L K w (w, .error why) :=
  ReflTransGen.single (.deed (.ended up fun h => absurd h why.toDropReason_ne))

theorem Runs.ended {why : DropReason} {link : Link} (up : w.ses.state ≠ .disconnected)
    (other : why ≠ .peerLogout) : Runs P L K w (w.endSession why, .ok link) :=
  .deed (.ended up fun h => absurd h other)

namespace Scene

theorem send_state {which : Which} {extra : List (ℕ × Bytes)}
    (h : w.send P which extra = some w') : w'.ses.state = w.ses.state := by
  obtain ⟨bytes, rfl⟩ := sendAs_eq h
  rfl

theorem trySend_deeds (which : Which) (extra : List (ℕ × Bytes))
    (ordinary : which ≠ .logout ∧ which ≠ .gapFill) (up : w.ses.state ≠ .disconnected) :
    ReflTransGen (Deed P L K) w (w.trySend P which extra) := by
  unfold trySend
  cases h : w.send P which extra with
  | none => exact .refl
  | some w' => exact .single (.said ordinary up h)

theorem trySend_state (which : Which) (extra : List (ℕ × Bytes)) :
    (w.trySend P which extra).ses.state = w.ses.state := by
  unfold trySend
  cases h : w.send P which extra with
  | none => rfl
  | some w' => exact send_state h

theorem trySend_cfg (which : Which) (extra : List (ℕ × Bytes)) :
    (w.trySend P which extra).ses.cfg = w.ses.cfg := by
  unfold trySend
  cases h : w.send P which extra with
  | none => rfl
  | some w' => exact (send_sent h).cfg

theorem cut_runs (extra : List (ℕ × Bytes)) (alive : w.ses.Alive) {link : Link} :
    Runs P L K w ((w.trySend P .logout extra).cut, .ok link) :=
  .leaving (.cut alive ⟨rfl, rfl⟩ rfl)

theorem garbled_runs (b : Bytes) (alive : w.ses.Alive) :
    Runs P L K w ((w.garbled b).map id .ok) := by
  unfold garbled
  split
  · exact .ended alive.1 (by decide)
  · exact .refl

theorem logoutWith_runs (why : SessionText) (alive : w.ses.Alive) :
    Runs P L K w ((w.logoutWith P why).map id .ok) :=
  cut_runs _ alive

theorem logoutNow_runs (text : Bytes) (alive : w.ses.Alive) :
    Runs P L K w ((w.logoutNow P text).map id .ok) := by
  unfold logoutNow
  rw [if_neg (by simpa [Session.Alive] using alive)]
  exact cut_runs _ alive

theorem sendReject_runs (r : Reject) (alive : w.ses.Alive) :
    Runs P L K w ((w.sendReject P r).map id .ok) := by
  unfold sendReject
  cases h : w.send P .reject r.slots with
  | none => exact .ended alive.1 (by decide)
  | some w' =>
    have said : Deed P L K w w' := .said (by decide) alive.1 h
    dsimp only
    split
    · exact .after said (cut_runs _ ((send_sent h).alive.mpr alive))
    · exact .deed said

theorem enqueue_deed (seq : ℕ) (b : Bytes) : Deed P L K w (w.enqueue seq b) := by
  unfold enqueue
  split
  · exact .adjusted rfl (.inl rfl)
  · split
    · exact .adjusted rfl (.inl rfl)
    · exact .adjusted rfl (.inr ⟨.held seq b, rfl, trivial, rfl⟩)

theorem enqueue_state (seq : ℕ) (b : Bytes) : (w.enqueue seq b).ses.state = w.ses.state := by
  unfold enqueue
  split
  · rfl
  · split <;> rfl

theorem tooHigh_runs (seq : ℕ) (b : Bytes) (up : w.ses.state ≠ .disconnected) :
    Runs P L K w ((w.tooHigh P seq b).map id .ok) := by
  unfold tooHigh
  refine .after (enqueue_deed seq b) ?_
  rw [← enqueue_state seq b] at up
  generalize w.enqueue seq b = v at up ⊢
  dsimp only
  split
  · exact .refl
  · refine .of_eq (f := fun s => { s with resendFrom := s.nextIn, resendTo := seq - 1 }) rfl up ?_
    cases h : (v.upd fun s => { s with resendFrom := s.nextIn, resendTo := seq - 1 }).send P
        .resendRequest [(7, renderU32 v.ses.nextIn), (16, ascii "0")] with
    | some w' => exact .deed (.said (by decide) up h)
    | none => exact .ended up (by decide)

theorem owe_standing (s : Session) (before : ℕ) (want : Option ℕ) :
    (s.owe before want).standing = s.standing := by
  unfold Session.owe
  split
  · split <;> rfl
  · rfl

theorem placeLogon_runs (m : Inbound) (b : Bytes) (up : w.ses.state ≠ .disconnected) :
    Runs P L K w (w.placeLogon P m b) := by
  unfold placeLogon
  split
  · exact tooHigh_runs m.seq b up
  · exact .deed (.adjusted rfl (.inl rfl) fun h => absurd h up)

theorem logonAccepted_runs (m : Inbound) (b encrypt heartBt : Bytes) (alive : w.ses.Alive) :
    Runs P L K w (w.logonAccepted P m b encrypt heartBt) := by
  unfold logonAccepted
  dsimp only
  generalize hv : (w.upd fun s =>
    { s with beatMs := ((asU32? heartBt).map (· * 1000)).getD 0, state := .loggedOn }).log
      .loggedOn = v
  have on : v.ses.state = .loggedOn := by rw [← hv]; rfl
  have accepted : Deed P L K w v := hv ▸ .loggedOn alive rfl
  refine .after accepted ?_
  -- the answer, unless this end spoke first
  generalize ho : (if P.speaksFirst then some v
    else v.send P .logon (logonAnswer v.ses m encrypt heartBt)) = answer
  cases answer with
  | none => exact .refused (by rw [on]; decide)
  | some u =>
    have answered : u.ses.state = .loggedOn ∧ ReflTransGen (Act P L K) v u := by
      split at ho
      · obtain rfl := Option.some.inj ho
        exact ⟨on, .refl⟩
      · exact ⟨(send_state ho).trans on, .single (.deed (.said (by decide) (by rw [on]; decide) ho))⟩
    have up : u.ses.state ≠ .disconnected := by
      rw [answered.1]
      decide
    refine ReflTransGen.trans answered.2
      (Runs.of_eq (r := (u.upd (·.owe w.ses.nextOut m.nextExpected)).placeLogon P m b)
        (owe_standing _ _ _) up (placeLogon_runs m b ?_))
    have same := congrArg (·.2.1) (owe_standing u.ses w.ses.nextOut m.nextExpected)
    rwa [show (u.upd (·.owe w.ses.nextOut m.nextExpected)).ses.state = u.ses.state from same]

theorem judgeLogon_runs (m : Inbound) (b : Bytes) (alive : w.ses.Alive) :
    Runs P L K w (w.judgeLogon P m b) := by
  unfold judgeLogon
  split
  · exact .refused alive.1
  · split
    · dsimp only
      refine .of_eq (f := fun s => { s with peerApplVerId := m.theirApplVerId }) rfl alive.1 ?_
      generalize hv : (w.upd fun s => { s with peerApplVerId := m.theirApplVerId }) = v
      have av : v.ses.Alive := by
        rw [← hv]
        exact alive
      split
      · have state : (v.ses.noteDropReason .nextExpectedTooHigh).state = v.ses.state := by
          unfold Session.noteDropReason
          split <;> rfl
        refine .after (.noted .nextExpectedTooHigh av.1) (logoutNow_runs _ ?_)
        simpa only [Session.Alive, upd, state] using av
      · exact logonAccepted_runs m b _ _ av
    · exact .refused alive.1

theorem judgeTooLow_runs (m : Inbound) (alive : w.ses.Alive) :
    Runs P L K w ((w.judgeTooLow P m).map id .ok) := by
  unfold judgeTooLow
  split
  · exact cut_runs _ alive
  · split
    · exact .refl
    · split
      · exact sendReject_runs _ alive
      · split
        · exact sendReject_runs _ alive
        · exact .refl

theorem judgeSequenceReset_runs (m : Inbound) (alive : w.ses.Alive) :
    Runs P L K w (w.judgeSequenceReset P m) := by
  unfold judgeSequenceReset
  split
  · exact .refl
  · split
    · exact .deed (.adjusted rfl (.inl rfl) fun h => absurd h alive.1)
    · split
      · exact sendReject_runs _ alive
      · exact .refl

theorem judgeTestRequest_runs (m : Inbound) (alive : w.ses.Alive) :
    Runs P L K w (w.judgeTestRequest P m) := by
  unfold judgeTestRequest
  cases h : w.send P .heartbeat [(112, m.testReqId.getD [])] with
  | none => exact .refused alive.1
  | some w' => exact .deed (.said (by decide) alive.1 h)

theorem judgeResendRequest_runs (m : Inbound) : Runs P L K w (w.judgeResendRequest m) := by
  unfold judgeResendRequest
  split
  · dsimp only
    split
    · exact .deed (.adjusted rfl (.inl rfl))
    · exact .refl
  · exact .refl

theorem judgeLogout_runs (peer : L) (up : w.ses.state ≠ .disconnected) :
    Runs P L K w (w.judgeLogout P) := by
  unfold judgeLogout
  split
  · exact .deed (.ended up fun _ => peer)
  · split
    · exact .refused up
    · exact .leaving (.answers peer up ‹_›)

theorem judgeBadTag_runs (view : MessageView) (pos : ℕ) (b : Bytes) (alive : w.ses.Alive) :
    Runs P L K w ((w.judgeBadTag P view pos b).map id .ok) := by
  unfold judgeBadTag
  dsimp only
  split
  · exact garbled_runs b alive
  · unfold skipBadTag
    split
    · split
      · refine .of_eq (f := fun s => { s with nextIn := wrapU32 (_ + 1) }) rfl alive.1
          (sendReject_runs _ ?_)
        exact alive
      · exact sendReject_runs _ alive
    · exact sendReject_runs _ alive

/-! ### The clock -/

/-- The scene after the boundary check at the top of a tick. -/
structure Rolled (w v : Scene) (n : ℕ) : Prop where
  state : v.ses.state = w.ses.state
  cfg : v.ses.cfg = w.ses.cfg
  reason : v.ses.lastDropReason = w.ses.lastDropReason
  counts : w.ses.rolls n = true ∧ v.ses.nextOut = 1 ∧ v.ses.nextIn = 1 ∧
      v.hist = .restarted v.ses :: w.hist ∨
    w.ses.rolls n = false ∧ v.ses.nextOut = w.ses.nextOut ∧ v.ses.nextIn = w.ses.nextIn ∧
      v.hist = w.hist

theorem roll_rolled (w : Scene) (n : ℕ) :
    Rolled w ((w.upd fun s => { s with nowMs := n }).roll n) n := by
  by_cases rolls : w.ses.rolls n = true
  · have passed : ({ w.ses with nowMs := n } : Session).rolls n = true := rolls
    constructor <;> simp [roll, upd, Session.rolled, passed, logRestart, log, rolls]
  · have passed : ¬ ({ w.ses with nowMs := n } : Session).rolls n = true := rolls
    constructor <;> simp [roll, upd, Session.rolled, passed, rolls]

theorem tickHeartbeat_deeds (n : ℕ) (alive : w.ses.Alive) :
    ReflTransGen (Deed P L K) w (w.tickHeartbeat P n).1 := by
  unfold tickHeartbeat
  split
  · exact .refl
  · dsimp only
    split
    · exact .single (.ended alive.1 nofun)
    · generalize hv : (if w.ses.beatMs * 12 * wrapU32 (w.ses.testRequests + 1) / 10 ≤
          n - w.ses.lastRecvMs then
        (w.upd fun s => { s with testRequests := wrapU32 (s.testRequests + 1) }).trySend P
          .testRequest [(112, ascii "TEST")] else w) = v
      have state : v.ses.state = w.ses.state := by
        rw [← hv]
        split
        · exact trySend_state _ _
        · rfl
      have probed : ReflTransGen (Deed P L K) w v := by
        rw [← hv]
        split
        · exact .head (b := w.upd fun s => { s with testRequests := wrapU32 (s.testRequests + 1) })
            (.adjusted rfl (.inl rfl)) (trySend_deeds _ _ (by decide) alive.1)
        · exact .refl
      split
      · exact probed.trans (trySend_deeds .heartbeat [] (by decide) (by rw [state]; exact alive.1))
      · exact probed

theorem tickLive_deeds (n : ℕ) (alive : w.ses.Alive) :
    ReflTransGen (Deed P L K) w (w.tickLive P n).1 := by
  unfold tickLive
  split
  · dsimp only
    refine .head (b := w.upd fun s =>
      { s with loggingOutSinceMs := some (w.ses.loggingOutSinceMs.getD n) })
      (.adjusted rfl (.inl rfl)) ?_
    split
    · exact .single (.ended alive.1 nofun)
    · exact tickHeartbeat_deeds n alive
  · exact tickHeartbeat_deeds n alive

theorem tickMustLogon_deeds (n : ℕ) (owes : w.ses.state = .mustLogon) :
    ReflTransGen (Deed P L K) w (w.tickMustLogon P n).1 :=
  .head (b := w.upd fun s =>
      { s with state := .awaitingLogon, beatMs := s.cfg.heartBtInt * 1000, lastRecvMs := n })
    (.spoke owes rfl) (trySend_deeds _ _ (by decide) nofun)

theorem tickAwaitingLogon_deeds (n : ℕ) (up : w.ses.state ≠ .disconnected) :
    ReflTransGen (Deed P L K) w (w.tickAwaitingLogon n).1 := by
  unfold tickAwaitingLogon
  dsimp only
  refine .head (b := w.upd fun s =>
    { s with awaitingLogonSinceMs := some (w.ses.awaitingLogonSinceMs.getD n) })
    (.adjusted rfl (.inl rfl)) ?_
  split
  · exact .single (.ended up nofun)
  · exact .refl

/-- A tick says goodbye only when the window shuts on a session that is logged on. -/
theorem tickRolled_deeds (n : ℕ)
    (open_ : w.ses.state = .loggedOn → w.ses.cfg.schedule.contains n) :
    ReflTransGen (Deed P L K) w (w.tickRolled P n).1 := by
  unfold tickRolled
  rw [if_neg (by simpa using open_)]
  split
  · exact .refl
  · exact .refl
  · rename_i st
    exact tickAwaitingLogon_deeds n (by rw [st]; decide)
  · rename_i st
    exact tickMustLogon_deeds n st
  · rename_i st
    exact tickLive_deeds n ⟨by rw [st]; decide, by rw [st]; decide⟩
  · rename_i st
    exact tickLive_deeds n ⟨by rw [st]; decide, by rw [st]; decide⟩

theorem tickHeartbeat_up {n : ℕ} :
    (w.tickHeartbeat P n).2 = .up → (w.tickHeartbeat P n).1.ses.state = w.ses.state := by
  unfold tickHeartbeat
  split
  · exact fun _ => rfl
  · dsimp only
    split
    · exact nofun
    · generalize hv : (if w.ses.beatMs * 12 * wrapU32 (w.ses.testRequests + 1) / 10 ≤
          n - w.ses.lastRecvMs then
        (w.upd fun s => { s with testRequests := wrapU32 (s.testRequests + 1) }).trySend P
          .testRequest [(112, ascii "TEST")] else w) = v
      have state : v.ses.state = w.ses.state := by
        rw [← hv]
        split
        · exact trySend_state _ _
        · rfl
      intro _
      split
      · exact (trySend_state _ _).trans state
      · exact state

theorem tickLive_up {n : ℕ} :
    (w.tickLive P n).2 = .up → (w.tickLive P n).1.ses.state = w.ses.state := by
  unfold tickLive
  split
  · dsimp only
    split
    · exact nofun
    · exact tickHeartbeat_up
  · exact tickHeartbeat_up

/-- A tick that leaves the link up leaves the session connected. -/
theorem tickRolled_up {n : ℕ} :
    (w.tickRolled P n).2 = .up → (w.tickRolled P n).1.ses.state ≠ .disconnected := by
  unfold tickRolled
  split
  · exact nofun
  · split
    · exact nofun
    · exact nofun
    · rename_i st
      unfold tickAwaitingLogon
      dsimp only
      split
      · exact nofun
      · simp [upd, st]
    · unfold tickMustLogon
      simp [trySend_state, upd]
    · rename_i st
      intro up
      simp [tickLive_up up, st]
    · rename_i st
      intro up
      simp [tickLive_up up, st]

theorem closeSchedule_leaves (live : w.ses.state = .loggedOn) :
    Leaving P L w (w.closeSchedule P).1 :=
  .cut ⟨by rw [live]; decide, by rw [live]; decide⟩ ⟨rfl, rfl⟩ rfl

/-! ### What the session is ordered to say -/

theorem sendOrdered_deeds (which : Which) (extra : List (ℕ × Bytes))
    (ordinary : which ≠ .logout ∧ which ≠ .gapFill) :
    ReflTransGen (Deed P L K) w (w.sendOrdered P which extra).1 := by
  unfold sendOrdered
  split
  · exact .refl
  · rename_i live
    split
    · exact .single (.said ordinary (by rw [not_not.mp live]; decide) ‹_›)
    · exact .refl

theorem beginLogout_runs (text : Bytes) : ReflTransGen (Act P L K) w (w.beginLogout P text).1 := by
  unfold beginLogout
  split
  · split
    · exact .single (.deed (.ended ‹_› nofun))
    · exact .refl
  · rename_i live
    have live := not_not.mp live
    split
    · exact .single (.deed (.ended (by rw [live]; decide) nofun))
    · exact .single (.leaving (.waits live ‹_›))

/-! ### A resend in progress -/

section Replays

variable {J : Type} [Journal J]

theorem fill_deed {j : J} {from_ upto : ℕ} (h : w.fill P from_ upto = some w') :
    Deed P L (Resends P j) w w' ∧ w'.ses.state = w.ses.state := by
  obtain ⟨bytes, rfl⟩ := sendAs_eq h
  refine ⟨.adjusted rfl (.inr ⟨.emitted (.templated _ _ _), ?_, trivial, rfl⟩), rfl⟩
  simp only [Event.quiet, Emission.possDup,
    @Session.slotsFor_lookup w.ses (some from_) _ 43 (by decide)]
  rfl

theorem replay_deed {j : J} {seq : ℕ} (h : w.replay P j seq = some (some w')) :
    Deed P L (Resends P j) w w' ∧ w'.ses.state = w.ses.state := by
  unfold replay at h
  split at h
  · cases h
  · rename_i kept hkept
    split at h
    · cases h
    · split at h
      · cases h
      · rename_i bytes laid
        obtain rfl := Option.some.inj (Option.some.inj h)
        exact ⟨.adjusted rfl (.inr ⟨.emitted (.replayed seq bytes), rfl,
          ⟨kept, _, hkept, laid⟩, rfl⟩), rfl⟩

theorem replayLoop_deeds (j : J) (budget : ℕ) (w : Scene) (r : Replay) :
    ReflTransGen (Deed P L (Resends P j)) w (replayLoop P j budget w r).1 ∧
      (replayLoop P j budget w r).1.ses.state = w.ses.state := by
  induction budget generalizing w r with
  | zero => exact ⟨.refl, rfl⟩
  | succ budget ih =>
    unfold replayLoop
    split
    · exact ⟨.refl, rfl⟩
    · split
      · exact ⟨.refl, rfl⟩
      · rename_i v hv
        obtain ⟨deed, hs⟩ := replay_deed hv
        obtain ⟨rest, hr⟩ := ih v { r with next := wrapU32 (r.next + 1) }
        exact ⟨.head deed rest, hr.trans hs⟩
      · dsimp only
        generalize hu : (w.upd fun s =>
          { s with
            resendBeyondJournal := wrapU32 (s.resendBeyondJournal +
              lostBelowFloor j r.next (fillEnd j r.next r.stop)) }) = u
        have counted : Deed P L (Resends P j) w u := hu ▸ .adjusted rfl (.inl rfl)
        have hsu : u.ses.state = w.ses.state := by rw [← hu]; rfl
        cases hf : u.fill P r.next (fillEnd j r.next r.stop) with
        | none => exact ⟨.single counted, hsu⟩
        | some v =>
          obtain ⟨deed, hs⟩ := fill_deed (j := j) hf
          obtain ⟨rest, hr⟩ := ih v { r with next := fillEnd j r.next r.stop }
          exact ⟨.head counted (.head deed rest), hr.trans (hs.trans hsu)⟩

theorem continueReplay_deeds (j : J) (w : Scene) :
    ReflTransGen (Deed P L (Resends P j)) w (w.continueReplay P j).1 ∧
      (w.continueReplay P j).1.ses.state = w.ses.state := by
  unfold continueReplay
  split
  · exact ⟨.refl, rfl⟩
  · rename_i r hr
    have loop := replayLoop_deeds (P := P) (L := L)  j (max w.ses.cfg.resendBatch 1) w r
    generalize replayLoop P j (max w.ses.cfg.resendBatch 1) w r = x at loop ⊢
    obtain ⟨v, left⟩ := x
    obtain ⟨deeds, state⟩ := loop
    cases left with
    | none => exact ⟨deeds, state⟩
    | some q => exact ⟨.tail deeds (.adjusted rfl (.inl rfl)), state⟩

theorem advanceReplay_deeds (j : J) (link : Link) (up : link = .up → w.ses.state ≠ .disconnected) :
    ReflTransGen (Deed P L (Resends P j)) w (w.advanceReplay P j link).1 := by
  unfold advanceReplay
  split
  · rename_i owes
    have up := up owes.1
    have next := continueReplay_deeds (P := P) (L := L)  j w
    generalize w.continueReplay P j = x at next ⊢
    obtain ⟨v, ok⟩ := x
    obtain ⟨deeds, state⟩ := next
    cases ok with
    | true => exact deeds
    | false => exact .tail deeds (@Deed.ended _ _ _ _ .cannotSend (state ▸ up) nofun)
  · exact .refl

end Replays

end Scene

end Deeds

/-! ### Worlds -/

/-- One thing a session does with its journal at hand. -/
inductive Does (P : Params) (L : Prop) {A J : Type} [Journal J] : World A J → World A J → Prop
  | act {w : World A J} {v : Scene} (h : Act P L (Resends P w.journal) w.toScene v) (app : A) :
      Does P L w { w with toScene := v, app := app }
  | wrote {w : World A J} {e : Emission} {bytes : Bytes} (up : w.ses.state ≠ .disconnected)
      (fresh : e = .reply w.ses.nextOut bytes ∨ e = .originated w.ses.nextOut bytes) :
      Does P L w { w with
        ses := w.ses.spent (Journal.put w.journal w.ses.nextOut bytes).2
        journal := (Journal.put w.journal w.ses.nextOut bytes).1
        hist := .emitted e ::
          .stored w.ses.nextOut bytes (Journal.put w.journal w.ses.nextOut bytes).2 :: w.hist }

namespace World

variable {P : Params} {L : Prop} {A J : Type} [Application A] [Journal J] {u : World A J}
  {b : Bytes}

/-- A refusal ends the session. -/
def orEnd : World A J × Except Refusal Link → World A J
  | (w, .ok _) => w
  | (w, .error why) => { w with toScene := w.endSession why.toDropReason }

/-- Where judging a message leaves the world. -/
def Gives (P : Params) (L : Prop) (w : World A J) (r : World A J × Except Refusal Link) : Prop :=
  ReflTransGen (Does P L) w (orEnd r)

omit [Application A] in
theorem Does.acts {v : Scene} (acts : ReflTransGen (Act P L (Resends P u.journal)) u.toScene v) :
    ReflTransGen (Does P L) u { u with toScene := v } := by
  induction acts with
  | refl => exact .refl
  | tail _ act ih => exact ih.tail (.act act u.app)

omit [Application A] in
/-- What needs neither the application nor the journal. -/
theorem gives_lift {f : Scene → Scene × Except Refusal Link}
    (h : Runs P L (Resends P u.journal) u.toScene (f u.toScene)) : Gives P L u (u.lift f) := by
  have lifted : orEnd (u.lift f) = { u with toScene := (Scene.orEnd (f u.toScene)).1 } := by
    unfold lift
    rcases f u.toScene with ⟨v, link | why⟩ <;> rfl
  unfold Gives
  rw [lifted]
  exact Does.acts h

omit [Application A] in
theorem gives_refused {why : Refusal} (up : u.ses.state ≠ .disconnected) :
    Gives P L u (u, .error why) :=
  gives_lift (f := fun c => (c, .error why)) (.refused up)

omit [Application A] in
/-- The session changes in a way that has nothing to do with its ending. -/
theorem gives_of_eq {f : Session → Session} {r : World A J × Except Refusal Link}
    (same : (f u.ses).standing = u.ses.standing) (up : u.ses.state ≠ .disconnected)
    (hr : Gives P L { u with ses := f u.ses } r) : Gives P L u r :=
  ReflTransGen.head (.act (v := u.upd f)
    (.deed (.adjusted same (.inl rfl) fun h => absurd h up)) u.app) hr

theorem judgeApplication_gives (b : Bytes) (up : u.ses.state ≠ .disconnected) :
    Gives P L u (u.judgeApplication b) := by
  unfold judgeApplication
  split
  · exact gives_refused up
  · dsimp only
    generalize Application.onMessage u.app b _ = answer
    have handed : Does P L u { u with app := answer.1, hist := .delivered u.ses b :: u.hist } :=
      .act (v := u.log (.delivered u.ses b))
        (.deed (.adjusted rfl (.inr ⟨.delivered u.ses b, rfl, trivial, rfl⟩))) answer.1
    split
    · exact .single handed
    · exact .head handed (.single (.wrote up (.inl rfl)))

/-- A message in order; a Logout without fault is accepted. -/
theorem judgeInOrder_gives (m : Inbound) (fault : Option Fault) (b : Bytes) (alive : u.ses.Alive)
    (peer : m.isLogout → fault = none → L) : Gives P L u (u.judgeInOrder P m fault b) := by
  unfold judgeInOrder
  have same : (u.ses.consume m).standing = u.ses.standing := by
    unfold Session.consume
    split <;> rfl
  refine gives_of_eq (f := fun s => s.consume m) same alive.1 ?_
  generalize hv : ({ u with ses := u.ses.consume m } : World A J) = v
  have av : v.ses.Alive := by
    rw [Session.Alive, ← hv,
      show (u.ses.consume m).state = u.ses.state from congrArg (·.2.1) same]
    exact alive
  cases fault with
  | some f => exact gives_lift (Scene.sendReject_runs _ av)
  | none =>
    dsimp only
    unfold judgeAccepted
    split
    · exact gives_lift (Scene.judgeLogon_runs m b av)
    · split
      · exact gives_lift (Scene.judgeLogout_runs (peer ‹_› rfl) av.1)
      · split
        · exact gives_lift (Scene.judgeTestRequest_runs m av)
        · split
          · exact gives_lift (Scene.judgeResendRequest_runs m)
          · split
            · exact gives_lift (Scene.judgeSequenceReset_runs m av)
            · split
              · exact judgeApplication_gives b av.1
              · exact ReflTransGen.refl

theorem judgeSequence_gives (m : Inbound) (fault : Option Fault) {s : Session} {h : List Event}
    (hist : u.hist = .judged s b :: h) (alive : u.ses.Alive)
    (peer : m.isLogout → fault = none → L) : Gives P L u (u.judgeSequence P m fault b) := by
  unfold judgeSequence
  generalize hv : ({ u with toScene := u.toScene.restartOn m } : World A J) = v
  have start : ReflTransGen (Does P L) u v ∧ v.ses.Alive := by
    rw [← hv]
    unfold Scene.restartOn
    split
    · exact ⟨.single (.act (.deed (.restarted hist)) u.app), alive⟩
    · exact ⟨.refl, alive⟩
  refine ReflTransGen.trans start.1 ?_
  dsimp only
  split
  · exact gives_lift (Scene.judgeTooLow_runs m start.2)
  · split
    · exact gives_lift (Scene.tooHigh_runs m.seq b start.2.1)
    · exact judgeInOrder_gives m fault b start.2 peer

theorem judgeHeader_gives {h : List Event} {n : ℕ} (hist : u.hist = .judged u.ses b :: h)
    (alive : u.ses.Alive) (whole : (frameOf P b).outcome = .ok (.complete n))
    (third : ((viewOf P b).fieldAt 2).map (·.1) = some 35)
    (begin_ : ((viewOf P b).get 8).any u.ses.cfg.beginString.isMatch)
    (peer : ∀ m, u.ses.arrives P b = some m → m.isLogout → u.ses.faultOn P b = none → L) :
    Gives P L u (u.judgeHeader P (viewOf P b) b) := by
  unfold judgeHeader
  split
  · exact gives_refused alive.1
  · rename_i refusal
    have same : (u.ses.noteSkew (viewOf P b)).standing = u.ses.standing := by
      unfold Session.noteSkew
      split <;> rfl
    refine gives_of_eq (f := fun s => s.noteSkew (viewOf P b)) same alive.1 ?_
    have av : (u.ses.noteSkew (viewOf P b)).Alive := by
      rw [Session.Alive,
        show (u.ses.noteSkew (viewOf P b)).state = u.ses.state from congrArg (·.2.1) same]
      exact alive
    dsimp only
    rw [identityRefusal_noteSkew, faultOf_noteSkew]
    split
    · exact gives_refused (u := { u with ses := u.ses.noteSkew (viewOf P b) }) av.1
    · rename_i known
      split
      · exact gives_refused (u := { u with ses := u.ses.noteSkew (viewOf P b) }) av.1
      · rename_i seq number
        have arr : u.ses.arrives P b = some (Inbound.read (viewOf P b) seq) := by
          simp [Session.arrives, whole, third, begin_, refusal, known, number]
        exact judgeSequence_gives (u := { u with ses := u.ses.noteSkew (viewOf P b) }) _ _ hist av
          (peer _ arr)

/-- **Judging a message is a run of deeds.** -/
theorem judge_gives (b : Bytes) (alive : u.ses.Alive)
    (peer : ∀ m, u.ses.arrives P b = some m → m.isLogout → u.ses.faultOn P b = none → L) :
    Gives P L { u with hist := .judged u.ses b :: u.hist } (u.judge P b) := by
  unfold judge
  generalize hv : ({ u with hist := .judged u.ses b :: u.hist } : World A J) = v
  have ses : v.ses = u.ses := by rw [← hv]
  have hist : v.hist = .judged v.ses b :: u.hist := by rw [← hv]
  rw [← ses] at alive peer
  dsimp only
  split
  · exact ReflTransGen.refl
  · rename_i whole
    unfold judgeFrame
    split
    · exact gives_lift (Scene.garbled_runs b alive)
    · rename_i third
      split
      · split
        · exact gives_lift (Scene.logoutWith_runs _ alive)
        · exact gives_refused alive.1
      · rename_i begin_
        exact judgeHeader_gives hist alive whole (not_not.mp third) (by simpa using begin_) peer
  · split
    · exact gives_lift (Scene.judgeBadTag_runs _ _ b alive)
    · exact gives_lift (Scene.garbled_runs b alive)
  · exact gives_lift (Scene.garbled_runs b alive)

theorem judgeOrEnd_fst (u : World A J) (b : Bytes) :
    (u.judgeOrEnd P b).1 = orEnd (u.judge P b) := by
  unfold judgeOrEnd
  rcases u.judge P b with ⟨v, link | why⟩ <;> rfl

theorem judgeOrEnd_alive (b : Bytes) (alive : u.ses.Alive) :
    (u.judgeOrEnd P b).2 = .up ↔ (u.judgeOrEnd P b).1.ses.Alive :=
  (judgeOrEnd_leads (P := P) (R := .free) (fun _ _ _ _ _ => trivial) alive b).link

/-- A message is judged: it is noted, and then the session does what it does. -/
inductive Turn (P : Params) (L : Prop) : World A J → World A J → Prop
  | judges {w : World A J} (b : Bytes) (alive : w.ses.Alive) :
      Turn P L w { w with hist := .judged w.ses b :: w.hist }
  | does {w v : World A J} (h : Does P L w v) : Turn P L w v

theorem judgeOrEnd_turns (b : Bytes) (alive : u.ses.Alive) :
    ReflTransGen (Turn P True) u (u.judgeOrEnd P b).1 := by
  rw [judgeOrEnd_fst]
  exact .head (.judges b alive) (ReflTransGen.mono (fun _ _ => .does) _ _
    (judge_gives b alive fun _ _ _ _ => trivial))

theorem drain_turns (rounds : ℕ) (u : World A J) (alive : u.ses.Alive) :
    ReflTransGen (Turn P True) u (u.drain P rounds).1 ∧
      ((u.drain P rounds).2 = .up → (u.drain P rounds).1.ses.Alive) := by
  induction rounds generalizing u with
  | zero => exact ⟨.refl, fun _ => alive⟩
  | succ rounds ih =>
    unfold drain
    split
    · exact ⟨.refl, fun _ => alive⟩
    · rename_i i hi
      generalize ((u.ses.queue[i]?.map (·.bytes)).getD []) = b
      have freed : Turn P True u (u.release i) :=
        .does (.act (v := u.upd (·.release i)) (.deed (.adjusted rfl (.inl rfl))) u.app)
      have next := judgeOrEnd_turns (P := P) (u := u.release i) b alive
      have link := judgeOrEnd_alive (P := P) (u := u.release i) b alive
      generalize (u.release i).judgeOrEnd P b = r at next link ⊢
      obtain ⟨v, l⟩ := r
      cases l with
      | dropped => exact ⟨.head freed next, nofun⟩
      | up =>
        obtain ⟨rest, up⟩ := ih v (link.mp rfl)
        exact ⟨.head freed (next.trans rest), up⟩

/-- **Receiving bytes is a run of turns.** -/
theorem receivedInner_turns (b : Bytes) :
    ReflTransGen (Turn P True) u (u.receivedInner P b).1 := by
  unfold receivedInner
  split
  · exact .refl
  · rename_i up
    have alive : u.ses.Alive := not_or.mp up
    have next := judgeOrEnd_turns (P := P) b alive
    have link := judgeOrEnd_alive (P := P) b alive
    generalize u.judgeOrEnd P b = r at next link ⊢
    obtain ⟨v, l⟩ := r
    cases l with
    | dropped => exact next
    | up =>
      obtain ⟨rest, up⟩ := drain_turns (P := P) queued v (link.mp rfl)
      dsimp only
      generalize v.drain P queued = q at rest up ⊢
      refine next.trans (rest.trans ?_)
      have replays := Scene.advanceReplay_deeds (P := P) (L := True) (w := q.1.toScene)
        q.1.journal q.2 fun h => (up h).1
      exact ReflTransGen.mono (fun _ _ => .does) _ _
        (Does.acts (ReflTransGen.mono (fun _ _ => .deed) _ _ replays))

end World

end Fixbolt
