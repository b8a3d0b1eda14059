import Fixbolt.Session.Deeds

/-!
# What a session does to its clocks

A session keeps when it sent last, when it accepted something last and how often it has asked for an
answer since. A `Hush` is one thing it does that accepts nothing; `judge_hears` shows that judging a
message is a run of them, with one point between where the message is accepted, if it is.
-/

namespace Fixbolt

open History Relation

/-- Of a session, what it keeps of the time, and what it is made with. -/
structure Clocks where
  cfg : Config
  out : Option Outbound
  nowMs : ℕ
  sessionMark : Option ℕ
  beatMs : ℕ
  lastSentMs : ℕ
  lastRecvMs : ℕ
  testRequests : ℕ
deriving DecidableEq, Repr

namespace Session

/-- The clocks of a session. -/
def clocks (s : Session) : Clocks where
  cfg := s.cfg
  out := s.out
  nowMs := s.nowMs
  sessionMark := s.sessionMark
  beatMs := s.beatMs
  lastSentMs := s.lastSentMs
  lastRecvMs := s.lastRecvMs
  testRequests := s.testRequests

/-- What only a tick changes, if anything does. -/
def bearings (s : Session) : Config × Option Outbound × ℕ × Option ℕ :=
  (s.cfg, s.out, s.nowMs, s.sessionMark)

/-- A session between its two Logons and the end, its own goodbye included. -/
def Live (s : Session) : Prop := s.state = .loggedOn ∨ s.state = .loggingOut

instance (s : Session) : Decidable s.Live := inferInstanceAs (Decidable (_ ∨ _))

/-- Is the message in received bytes accepted, its fault aside? Its number is neither behind the
count nor ahead of it, where it is checked. -/
def accepts (P : Params) (s : Session) (bytes : Bytes) : Bool :=
  (s.arrives P bytes).any fun m =>
    decide (¬ (m.checkTooLow ∧ m.seq < m.countAt s) ∧ ¬ (m.checkTooHigh ∧ m.countAt s < m.seq))

theorem accepts_iff {P : Params} {s : Session} {b : Bytes} {m : Inbound}
    (arr : s.arrives P b = some m) : s.accepts P b = true ↔
      ¬ (m.checkTooLow ∧ m.seq < m.countAt s) ∧ ¬ (m.checkTooHigh ∧ m.countAt s < m.seq) := by
  rw [accepts, arr, Option.any_some, decide_eq_true_eq]

end Session

namespace Clocks

/-- Something is sent. -/
def sent (c : Clocks) : Clocks := { c with lastSentMs := c.nowMs }

/-- Something is accepted. -/
def heard (c : Clocks) : Clocks := { c with lastRecvMs := c.nowMs, testRequests := 0 }

end Clocks

/-- A TestRequest of this end. -/
def Emission.tests : Emission → Bool
  | templated .testRequest _ _ => true
  | _ => false

namespace Event

/-- An event that is no call, no judgement and no message sent. -/
def mute : Event → Bool
  | called _ _ | judged _ _ | emitted _ => false
  | _ => true

/-- When a message was accepted. -/
def heard (P : Params) : Event → Option ℕ
  | judged s b => if s.accepts P b then some s.nowMs else none
  | _ => none

/-- A TestRequest goes out. -/
def asks : Event → Bool
  | emitted e => e.tests
  | _ => false

end Event

/-- When the session accepted a message last. -/
def heardAt (P : Params) (h : List Event) : Option ℕ := newest (Event.heard P) h

/-- The call under way is a tick. -/
def ticking (h : List Event) : Bool := (callOf h).any fun c => c.2.ticks.isSome

/-- How many TestRequests the ticks have sent since a message was accepted last. -/
def probes (P : Params) : List Event → ℕ
  | [] => 0
  | e :: h =>
    if (e.heard P).isSome then 0
    else if e.asks && ticking h then probes P h + 1
    else probes P h

/-- A message was accepted just now. -/
structure Fresh (P : Params) (w : Scene) : Prop where
  recv : w.ses.lastRecvMs = w.ses.nowMs
  tests : w.ses.testRequests = 0
  hist : heardAt P w.hist = some w.ses.nowMs
  unasked : probes P w.hist = 0

/-- One thing a session does to its clocks, other than accepting a message. `T` says whether it may
send a TestRequest. -/
inductive Hush (P : Params) (T : Prop) : Scene → Scene → Prop
  | still {w v : Scene} (same : v.ses.clocks = w.ses.clocks) (live : v.ses.Live → w.ses.Live)
      (hist : ∃ new, (∀ e ∈ new, e.mute) ∧ v.hist = new ++ w.hist) : Hush P T w v
  | sent {w v : Scene} {e : Emission} (same : v.ses.clocks = w.ses.clocks.sent)
      (live : v.ses.Live → w.ses.Live) (asks : e.tests → T) (hist : v.hist = .emitted e :: w.hist) :
      Hush P T w v
  | agreed {w v : Scene} {beat : ℕ} (fresh : Fresh P w) (scaled : 1000 ∣ beat)
      (same : v.ses.clocks = { w.ses.clocks with beatMs := beat })
      (hist : v.hist = .loggedOn :: w.hist) : Hush P T w v

/-- Where a stretch of judging leaves the clocks, a refusal included. -/
def Hushed (P : Params) (w : Scene) (r : Scene × Except Refusal Link) : Prop :=
  ReflTransGen (Hush P False) w (Scene.orEnd r).1

section Hushes

variable {P : Params} {T : Prop} {w w' v : Scene} {r : Scene × Except Refusal Link}

/-- Mute events are no part of what was heard, called or asked. -/
theorem mute_append {new h : List Event} (mute : ∀ e ∈ new, e.mute) :
    heardAt P (new ++ h) = heardAt P h ∧ callOf (new ++ h) = callOf h ∧
      probes P (new ++ h) = probes P h := by
  induction new with
  | nil => exact ⟨rfl, rfl, rfl⟩
  | cons e new ih =>
    obtain ⟨heard, call, asked⟩ := ih fun x hx => mute x (List.mem_cons_of_mem e hx)
    have quiet := mute e List.mem_cons_self
    have deaf : e.heard P = none ∧ e.isCall = false ∧ e.asks = false := by
      cases e with
      | called s c | judged s b | emitted e => cases quiet
      | _ => exact ⟨rfl, rfl, rfl⟩
    refine ⟨(newest_cons_of_none deaf.1 _).trans heard, (callOf_cons deaf.2.1).trans call, ?_⟩
    rw [List.cons_append, probes, deaf.1, deaf.2.2]
    exact asked

namespace Hush

/-- The session changes in a way that has nothing to do with its clocks. -/
theorem upd {f : Session → Session} (same : (f w.ses).clocks = w.ses.clocks)
    (live : (f w.ses).Live → w.ses.Live) : Hush P T w (w.upd f) :=
  .still same live ⟨[], List.forall_mem_nil _, rfl⟩

/-- Nothing is heard. -/
theorem heardAt_eq (h : Hush P T w v) : heardAt P v.hist = heardAt P w.hist := by
  cases h with
  | still same live hist =>
    obtain ⟨new, mute, hist⟩ := hist
    rw [hist]
    exact (mute_append mute).1
  | sent same live asks hist =>
    rw [hist]
    exact newest_cons_of_none rfl w.hist
  | agreed fresh scaled same hist =>
    rw [hist]
    exact newest_cons_of_none rfl w.hist

/-- No call begins. -/
theorem callOf_eq (h : Hush P T w v) : callOf v.hist = callOf w.hist := by
  cases h with
  | still same live hist =>
    obtain ⟨new, mute, hist⟩ := hist
    rw [hist]
    exact (mute_append (P := P) mute).2.1
  | sent same live asks hist =>
    rw [hist]
    exact callOf_cons rfl
  | agreed fresh scaled same hist =>
    rw [hist]
    exact callOf_cons rfl

/-- No tick asks for an answer. -/
theorem probes_eq (h : Hush P T w v) (still : T → ticking w.hist = false) :
    probes P v.hist = probes P w.hist := by
  cases h with
  | still same live hist =>
    obtain ⟨new, mute, hist⟩ := hist
    rw [hist]
    exact (mute_append mute).2.2
  | @sent e same live asks hist =>
    rw [hist]
    show (if e.tests && ticking w.hist then probes P w.hist + 1 else probes P w.hist) = _
    refine if_neg fun both => ?_
    obtain ⟨tests, ticks⟩ := Bool.and_eq_true_iff.mp both
    rw [still (asks tests)] at ticks
    cases ticks
  | agreed fresh scaled same hist =>
    rw [hist]
    rfl

/-- The bearings stay, and so does what was accepted last. -/
theorem keeps (h : Hush P T w v) : v.ses.bearings = w.ses.bearings ∧
    v.ses.lastRecvMs = w.ses.lastRecvMs ∧ v.ses.testRequests = w.ses.testRequests := by
  have of_clocks {c : Clocks} (same : v.ses.clocks = c)
      (bearings : (c.cfg, c.out, c.nowMs, c.sessionMark) = w.ses.bearings)
      (recv : c.lastRecvMs = w.ses.lastRecvMs) (tests : c.testRequests = w.ses.testRequests) :
      v.ses.bearings = w.ses.bearings ∧ v.ses.lastRecvMs = w.ses.lastRecvMs ∧
        v.ses.testRequests = w.ses.testRequests := by
    subst same
    exact ⟨bearings, recv, tests⟩
  cases h with
  | still same live hist => exact of_clocks same rfl rfl rfl
  | sent same live asks hist => exact of_clocks same rfl rfl rfl
  | agreed fresh scaled same hist => exact of_clocks same rfl rfl rfl

/-- The time stays. -/
theorem now_eq (h : Hush P T w v) : v.ses.nowMs = w.ses.nowMs := congrArg (·.2.2.1) h.keeps.1

theorem fresh (h : Hush P False w v) (fresh : Fresh P w) : Fresh P v := by
  obtain ⟨-, recv, tests⟩ := h.keeps
  exact ⟨by rw [recv, h.now_eq, fresh.recv], by rw [tests, fresh.tests],
    by rw [h.heardAt_eq, h.now_eq, fresh.hist], by rw [h.probes_eq False.elim, fresh.unasked]⟩

end Hush

/-- What a run of hushes keeps. -/
theorem Hush.run_keeps (h : ReflTransGen (Hush P T) w v) : v.ses.bearings = w.ses.bearings ∧
    v.ses.lastRecvMs = w.ses.lastRecvMs ∧ v.ses.testRequests = w.ses.testRequests := by
  induction h with
  | refl => exact ⟨rfl, rfl, rfl⟩
  | tail _ step ih =>
    obtain ⟨bearings, recv, tests⟩ := step.keeps
    exact ⟨bearings.trans ih.1, recv.trans ih.2.1, tests.trans ih.2.2⟩

namespace Hushed

theorem refl {link : Link} : Hushed P w (w, .ok link) := ReflTransGen.refl

theorem single {link : Link} (h : Hush P False w w') : Hushed P w (w', .ok link) :=
  ReflTransGen.single h

theorem after (h : Hush P False w w') (hr : Hushed P w' r) : Hushed P w r :=
  ReflTransGen.head h hr

theorem upd {f : Session → Session} (hr : Hushed P (w.upd f) r)
    (same : (f w.ses).clocks = w.ses.clocks)
    (live : (f w.ses).Live → w.ses.Live) : Hushed P w r :=
  .after (.upd same live) hr

end Hushed

namespace Scene

/-! ### Sending and ending -/

theorem sendAs_hush {which : Which} {number : Option ℕ} {extra : List (ℕ × Bytes)}
    (h : w.sendAs P which number extra = some w') (asks : which = .testRequest → T) :
    Hush P T w w' := by
  obtain ⟨bytes, rfl⟩ := sendAs_eq h
  refine .sent rfl id (fun tests => asks ?_) rfl
  cases which with
  | testRequest => rfl
  | _ => cases tests

theorem send_hush {which : Which} {extra : List (ℕ × Bytes)} (h : w.send P which extra = some w')
    (asks : which = .testRequest → T) : Hush P T w w' := sendAs_hush h asks

theorem trySend_hushes (which : Which) (extra : List (ℕ × Bytes))
    (asks : which = .testRequest → T) :
    ReflTransGen (Hush P T) w (w.trySend P which extra) := by
  unfold trySend
  cases h : w.send P which extra with
  | none => exact .refl
  | some w' => exact .single (send_hush h asks)

theorem endSession_keeps (w : Scene) (why : DropReason) :
    (w.endSession why).ses.bearings = w.ses.bearings := by
  unfold endSession
  dsimp only
  split
  · rfl
  · rfl

theorem endSession_hush (why : DropReason) : Hush P T w (w.endSession why) := by
  unfold endSession
  dsimp only
  split
  · exact .still rfl (·.elim nofun nofun) ⟨[.restarted _, .ended why], by simp [Event.mute], rfl⟩
  · exact .still rfl (·.elim nofun nofun) ⟨[.ended why], by simp [Event.mute], rfl⟩

theorem hushed_refused {why : Refusal} : Hushed P w (w, .error why) :=
  ReflTransGen.single (endSession_hush why.toDropReason)

theorem hushed_ended {why : DropReason} {link : Link} : Hushed P w (w.endSession why, .ok link) :=
  .single (endSession_hush why)

theorem cut_hushed (extra : List (ℕ × Bytes)) {link : Link} :
    Hushed P w ((w.trySend P .logout extra).cut, .ok link) := by
  have shut : Hush P False (w.trySend P .logout extra) (w.trySend P .logout extra).cut :=
    .still rfl (·.elim nofun nofun) ⟨[], List.forall_mem_nil _, rfl⟩
  exact ReflTransGen.tail (trySend_hushes .logout extra nofun) shut

theorem garbled_hushed (b : Bytes) : Hushed P w ((w.garbled b).map id .ok) := by
  unfold garbled
  split
  · exact hushed_ended
  · exact .refl

theorem logoutWith_hushed (why : SessionText) : Hushed P w ((w.logoutWith P why).map id .ok) :=
  cut_hushed _

theorem logoutNow_hushed (text : Bytes) : Hushed P w ((w.logoutNow P text).map id .ok) := by
  unfold logoutNow
  split
  · exact .refl
  · exact cut_hushed _

theorem sendReject_hushed (r : Reject) : Hushed P w ((w.sendReject P r).map id .ok) := by
  unfold sendReject
  cases h : w.send P .reject r.slots with
  | none => exact hushed_ended
  | some w' =>
    dsimp only
    split
    · exact .after (send_hush h nofun) (cut_hushed _)
    · exact .single (send_hush h nofun)

theorem enqueue_hush (seq : ℕ) (b : Bytes) : Hush P T w (w.enqueue seq b) := by
  unfold enqueue
  split
  · exact .still rfl id ⟨[], List.forall_mem_nil _, rfl⟩
  · split
    · exact .still rfl id ⟨[], List.forall_mem_nil _, rfl⟩
    · exact .still rfl id ⟨[.held seq b], by simp [Event.mute], rfl⟩

theorem tooHigh_hushed (seq : ℕ) (b : Bytes) : Hushed P w ((w.tooHigh P seq b).map id .ok) := by
  unfold tooHigh
  refine .after (enqueue_hush seq b) ?_
  generalize w.enqueue seq b = v
  dsimp only
  split
  · exact .refl
  · refine .upd (f := fun s => { s with resendFrom := s.nextIn, resendTo := seq - 1 }) ?_ rfl id
    cases h : (v.upd fun s => { s with resendFrom := s.nextIn, resendTo := seq - 1 }).send P
        .resendRequest [(7, renderU32 v.ses.nextIn), (16, ascii "0")] with
    | some w' => exact .single (send_hush h nofun)
    | none => exact hushed_ended

/-! ### Judging -/

theorem placeLogon_hushed (m : Inbound) (b : Bytes) : Hushed P w (w.placeLogon P m b) := by
  unfold placeLogon
  split
  · exact tooHigh_hushed m.seq b
  · exact .single (.upd rfl id)

theorem owe_clocks (s : Session) (before : ℕ) (want : Option ℕ) :
    (s.owe before want).clocks = s.clocks ∧ ((s.owe before want).Live → s.Live) := by
  unfold Session.owe
  split
  · split
    · exact ⟨rfl, id⟩
    · exact ⟨rfl, id⟩
  · exact ⟨rfl, id⟩

theorem logonAccepted_hushed (m : Inbound) (b encrypt heartBt : Bytes) (fresh : Fresh P w) :
    Hushed P w (w.logonAccepted P m b encrypt heartBt) := by
  unfold logonAccepted
  dsimp only
  generalize hv : (w.upd fun s =>
    { s with beatMs := ((asU32? heartBt).map (· * 1000)).getD 0, state := .loggedOn }).log
      .loggedOn = v
  have scaled : 1000 ∣ ((asU32? heartBt).map (· * 1000)).getD 0 := by
    cases asU32? heartBt with
    | none => exact Nat.dvd_zero 1000
    | some n => exact Nat.dvd_mul_left 1000 n
  have agreed : Hush P False w v := hv ▸ .agreed fresh scaled rfl rfl
  refine .after agreed ?_
  generalize ho : (if P.speaksFirst then some v
    else v.send P .logon (logonAnswer v.ses m encrypt heartBt)) = answer
  cases answer with
  | none => exact hushed_refused
  | some u =>
    have answered : ReflTransGen (Hush P False) v u := by
      split at ho
      · exact Option.some.inj ho ▸ .refl
      · exact .single (send_hush ho nofun)
    have owes := owe_clocks u.ses w.ses.nextOut m.nextExpected
    have rest : Hushed P u ((u.upd (·.owe w.ses.nextOut m.nextExpected)).placeLogon P m b) :=
      .upd (placeLogon_hushed m b) owes.1 owes.2
    exact ReflTransGen.trans answered rest

theorem noteDropReason_clocks (s : Session) (why : DropReason) :
    (s.noteDropReason why).clocks = s.clocks ∧ ((s.noteDropReason why).Live → s.Live) := by
  unfold Session.noteDropReason
  split
  · exact ⟨rfl, id⟩
  · exact ⟨rfl, id⟩

theorem judgeLogon_hushed (m : Inbound) (b : Bytes) (fresh : Fresh P w) :
    Hushed P w (w.judgeLogon P m b) := by
  unfold judgeLogon
  split
  · exact hushed_refused
  · split
    · dsimp only
      have noted : Hush P False w (w.upd fun s => { s with peerApplVerId := m.theirApplVerId }) :=
        .upd rfl id
      refine .after noted ?_
      split
      · have why := noteDropReason_clocks
          (w.upd fun s => { s with peerApplVerId := m.theirApplVerId }).ses .nextExpectedTooHigh
        exact .upd (logoutNow_hushed _) why.1 why.2
      · exact logonAccepted_hushed m b _ _ (noted.fresh fresh)
    · exact hushed_refused

theorem judgeLogout_hushed : Hushed P w (w.judgeLogout P) := by
  unfold judgeLogout
  split
  · exact hushed_ended
  · split
    · exact hushed_refused
    · rename_i sent
      exact .after (send_hush sent nofun) hushed_ended

theorem judgeTestRequest_hushed (m : Inbound) : Hushed P w (w.judgeTestRequest P m) := by
  unfold judgeTestRequest
  cases h : w.send P .heartbeat [(112, m.testReqId.getD [])] with
  | none => exact hushed_refused
  | some w' => exact .single (send_hush h nofun)

theorem judgeResendRequest_hushed (m : Inbound) : Hushed P w (w.judgeResendRequest m) := by
  unfold judgeResendRequest
  split
  · dsimp only
    split
    · exact .single (.upd rfl id)
    · exact .refl
  · exact .refl

theorem judgeSequenceReset_hushed (m : Inbound) : Hushed P w (w.judgeSequenceReset P m) := by
  unfold judgeSequenceReset
  split
  · exact .refl
  · split
    · exact .single (.upd rfl id)
    · split
      · exact sendReject_hushed _
      · exact .refl

theorem judgeTooLow_hushed (m : Inbound) : Hushed P w ((w.judgeTooLow P m).map id .ok) := by
  unfold judgeTooLow
  split
  · exact cut_hushed _
  · split
    · exact .refl
    · split
      · exact sendReject_hushed _
      · split
        · exact sendReject_hushed _
        · exact .refl

theorem judgeBadTag_hushed (view : MessageView) (pos : ℕ) (b : Bytes) :
    Hushed P w ((w.judgeBadTag P view pos b).map id .ok) := by
  unfold judgeBadTag
  dsimp only
  split
  · exact garbled_hushed b
  · unfold skipBadTag
    split
    · split
      · exact .upd (f := fun s => { s with nextIn := wrapU32 (_ + 1) }) (sendReject_hushed _) rfl id
      · exact sendReject_hushed _
    · exact sendReject_hushed _

/-! ### A resend in progress -/

section Replays

variable {J : Type} [Journal J]

theorem fill_hush {from_ upto : ℕ} (h : w.fill P from_ upto = some w') : Hush P T w w' :=
  sendAs_hush h (by simp)

theorem replay_hush {j : J} {seq : ℕ} (h : w.replay P j seq = some (some w')) : Hush P T w w' := by
  unfold replay at h
  split at h
  · cases h
  · split at h
    · cases h
    · split at h
      · cases h
      · rename_i bytes _
        obtain rfl := Option.some.inj (Option.some.inj h)
        exact .sent (e := .replayed seq bytes) rfl id nofun rfl

theorem replayLoop_hushes (j : J) (budget : ℕ) (w : Scene) (r : Replay) :
    ReflTransGen (Hush P T) w (replayLoop P j budget w r).1 := by
  induction budget generalizing w r with
  | zero => exact .refl
  | succ budget ih =>
    unfold replayLoop
    split
    · exact .refl
    · split
      · exact .refl
      · exact .head (replay_hush ‹_›) (ih _ _)
      · dsimp only
        refine .head (.upd (f := fun s =>
          { s with
            resendBeyondJournal := wrapU32 (s.resendBeyondJournal +
              lostBelowFloor j r.next (fillEnd j r.next r.stop)) }) rfl id) ?_
        split
        · exact .refl
        · exact .head (fill_hush ‹_›) (ih _ _)

theorem advanceReplay_hushes (j : J) (link : Link) :
    ReflTransGen (Hush P T) w (w.advanceReplay P j link).1 := by
  unfold advanceReplay
  split
  · unfold continueReplay
    cases w.ses.owed with
    | none => exact .refl
    | some r =>
      dsimp only
      have loop := replayLoop_hushes (P := P) (T := T) j (max w.ses.cfg.resendBatch 1) w r
      generalize replayLoop P j (max w.ses.cfg.resendBatch 1) w r = x at loop ⊢
      obtain ⟨v, left⟩ := x
      cases left with
      | none => exact .tail loop (endSession_hush .cannotSend)
      | some q =>
        have left : Hush P T v
            (v.upd fun s => { s with owed := if q.next ≤ q.stop then some q else none }) :=
          .upd rfl id
        exact .tail loop left
  · exact .refl

end Replays

end Scene

/-- Where judging a message leaves the clocks: nothing was accepted, or one message was at one
point. -/
inductive Hears (P : Params) (s : Session) (b : Bytes) : Scene → Scene → Prop
  | passed {w v : Scene} (deaf : s.accepts P b = false) (rest : ReflTransGen (Hush P False) w v) :
      Hears P s b w v
  | accepted {w u u' v : Scene} (hears : s.accepts P b = true)
      (before : ReflTransGen (Hush P False) w u) (same : u'.ses.clocks = u.ses.clocks.heard)
      (live : u'.ses.Live → u.ses.Live) (hist : u'.hist = u.hist)
      (rest : ReflTransGen (Hush P False) u' v) : Hears P s b w v

theorem Hears.head {s : Session} {b : Bytes} (h : Hears P s b w' v) (first : Hush P False w w') :
    Hears P s b w v := by
  cases h with
  | passed deaf rest => exact .passed deaf (.head first rest)
  | accepted hears before same live hist rest =>
    exact .accepted hears (.head first before) same live hist rest

/-- A message is judged, or something else is done. -/
inductive Listens (P : Params) : Scene → Scene → Prop
  | judges {w v : Scene} (b : Bytes)
      (hears : Hears P w.ses b ⟨w.ses, .judged w.ses b :: w.hist⟩ v) : Listens P w v
  | hushes {w v : Scene} (h : Hush P False w v) : Listens P w v

namespace World

variable {A J : Type} [Application A] [Journal J] {u : World A J} {b : Bytes}

omit [Application A] [Journal J] in
theorem hushed_lift {f : Scene → Scene × Except Refusal Link} (h : Hushed P u.toScene (f u.toScene)) :
    ReflTransGen (Hush P False) u.toScene (orEnd (u.lift f)).toScene := by
  have lifted : (orEnd (u.lift f)).toScene = (Scene.orEnd (f u.toScene)).1 := by
    unfold lift
    rcases f u.toScene with ⟨v, link | why⟩ <;> rfl
  rw [lifted]
  exact h

theorem judgeApplication_hushes (b : Bytes) :
    ReflTransGen (Hush P False) u.toScene (orEnd (u.judgeApplication b)).toScene := by
  unfold judgeApplication
  split
  · exact .single (Scene.endSession_hush _)
  · dsimp only
    generalize Application.onMessage u.app b _ = answer
    have handed : Hush P False u.toScene ⟨u.ses, .delivered u.ses b :: u.hist⟩ :=
      .still rfl id ⟨[.delivered u.ses b], by simp [Event.mute], rfl⟩
    split
    · exact .single handed
    · rename_i bytes _
      refine .head handed ?_
      have stored (kept : Bool) : Hush P False ⟨u.ses, .delivered u.ses b :: u.hist⟩
          ⟨u.ses, .stored u.ses.nextOut bytes kept :: .delivered u.ses b :: u.hist⟩ :=
        .still rfl id ⟨[.stored u.ses.nextOut bytes kept], by simp [Event.mute], rfl⟩
      exact .head (stored _) (.single (.sent (e := .reply u.ses.nextOut bytes) rfl id nofun rfl))

theorem judgeAccepted_hushes (m : Inbound) (b : Bytes) (fresh : Fresh P u.toScene) :
    ReflTransGen (Hush P False) u.toScene (orEnd (u.judgeAccepted P m b)).toScene := by
  unfold judgeAccepted
  split
  · exact hushed_lift (Scene.judgeLogon_hushed m b fresh)
  · split
    · exact hushed_lift Scene.judgeLogout_hushed
    · split
      · exact hushed_lift (Scene.judgeTestRequest_hushed m)
      · split
        · exact hushed_lift (Scene.judgeResendRequest_hushed m)
        · split
          · exact hushed_lift (Scene.judgeSequenceReset_hushed m)
          · split
            · exact judgeApplication_hushes b
            · exact .refl

theorem judgeSequence_hears (m : Inbound) (fault : Option Fault) {s : Session} {h : List Event}
    (arr : s.arrives P b = some m) (hist : u.hist = .judged s b :: h) (count : u.ses.nextIn = s.nextIn)
    (now : u.ses.nowMs = s.nowMs) :
    Hears P s b u.toScene (orEnd (u.judgeSequence P m fault b)).toScene := by
  have heard := Session.accepts_iff arr
  unfold judgeSequence
  generalize hv : ({ u with toScene := u.toScene.restartOn m } : World A J) = v
  have start : Hush P False u.toScene v.toScene ∧ v.ses.nextIn = m.countAt s := by
    rw [← hv]
    unfold Scene.restartOn Inbound.countAt
    split
    · exact ⟨.still rfl id ⟨[.restarted _], by simp [Event.mute], rfl⟩, rfl⟩
    · exact ⟨.still rfl id ⟨[], List.forall_mem_nil _, rfl⟩, count⟩
  obtain ⟨began, counted⟩ := start
  have started : v.ses.nowMs = s.nowMs ∧ heardAt P v.hist = heardAt P u.hist ∧
      probes P v.hist = probes P u.hist :=
    ⟨began.now_eq.trans now, began.heardAt_eq, began.probes_eq False.elim⟩
  dsimp only
  rw [counted]
  split
  · rename_i low
    refine .passed ?_ (.head began (hushed_lift (Scene.judgeTooLow_hushed m)))
    rw [← Bool.not_eq_true, heard]
    exact fun in_ => in_.1 low
  · rename_i notLow
    split
    · rename_i high
      refine .passed ?_ (.head began (hushed_lift (Scene.tooHigh_hushed m.seq b)))
      rw [← Bool.not_eq_true, heard]
      exact fun in_ => in_.2 high
    · rename_i notHigh
      have hears : s.accepts P b = true := heard.mpr ⟨notLow, notHigh⟩
      have same : (v.ses.consume m).clocks = v.ses.clocks.heard ∧
          ((v.ses.consume m).Live → v.ses.Live) := by
        unfold Session.consume
        split
        · exact ⟨rfl, id⟩
        · exact ⟨rfl, id⟩
      have fresh : Fresh P (⟨v.ses.consume m, v.hist⟩ : Scene) := by
        have heard : v.ses.clocks.heard.lastRecvMs = v.ses.clocks.heard.nowMs := rfl
        have taken : (Event.judged s b).heard P = some s.nowMs := by simp [Event.heard, hears]
        refine ⟨?_, congrArg Clocks.testRequests same.1, ?_, ?_⟩
        · rw [← same.1] at heard
          exact heard
        · have now' : (v.ses.consume m).nowMs = v.ses.nowMs := congrArg Clocks.nowMs same.1
          rw [show (⟨v.ses.consume m, v.hist⟩ : Scene).ses.nowMs = v.ses.nowMs from now',
            started.2.1, hist, started.1]
          exact newest_cons_of_some taken h
        · rw [show (⟨v.ses.consume m, v.hist⟩ : Scene).hist = v.hist from rfl, started.2.2, hist,
            probes, taken]
          rfl
      refine @Hears.accepted _ _ _ _ _ ⟨v.ses.consume m, v.hist⟩ _ hears (.single began) same.1
        same.2 rfl ?_
      unfold judgeInOrder
      cases fault with
      | some f =>
        exact hushed_lift (u := { v with ses := v.ses.consume m })
          (f := fun c => (c.sendReject P (m.reject f.1 f.2)).map id .ok) (Scene.sendReject_hushed _)
      | none => exact judgeAccepted_hushes (u := { v with ses := v.ses.consume m }) m b fresh

theorem noteSkew_clocks (s : Session) (view : MessageView) :
    (s.noteSkew view).clocks = s.clocks ∧ ((s.noteSkew view).Live → s.Live) ∧
      (s.noteSkew view).nextIn = s.nextIn := by
  unfold Session.noteSkew
  split
  · exact ⟨rfl, id, rfl⟩
  · exact ⟨rfl, id, rfl⟩

/-- **Judging a message accepts it where the session would accept it**, and else is a run of
hushes. -/
theorem judge_hears (b : Bytes) :
    Hears P u.ses b ⟨u.ses, .judged u.ses b :: u.hist⟩ (orEnd (u.judge P b)).toScene := by
  unfold judge
  generalize hv : ({ u with hist := .judged u.ses b :: u.hist } : World A J) = v
  have ses : v.ses = u.ses := by rw [← hv]
  have hist : v.hist = .judged v.ses b :: u.hist := by rw [← hv]
  rw [show (⟨u.ses, .judged u.ses b :: u.hist⟩ : Scene) = v.toScene by rw [← hv], ← ses]
  -- What refuses the message before its number is looked at makes it no message that arrives.
  have deaf (none : v.ses.arrives P b = none) {w : Scene}
      (rest : ReflTransGen (Hush P False) v.toScene w) : Hears P v.ses b v.toScene w :=
    .passed (by rw [Session.accepts, none]; rfl) rest
  dsimp only
  split
  · rename_i whole
    exact deaf (by simp [Session.arrives, whole]) .refl
  · rename_i whole
    unfold judgeFrame
    split
    · rename_i third
      exact deaf (by simp [Session.arrives, whole, third]) (hushed_lift (Scene.garbled_hushed b))
    · rename_i third
      split
      · rename_i begin_
        have none : v.ses.arrives P b = none := by
          have other : ((viewOf P b).get 8).any v.ses.cfg.beginString.isMatch = false := by
            simpa using begin_
          simp [Session.arrives, whole, other]
        split
        · exact deaf none (hushed_lift (Scene.logoutWith_hushed _))
        · exact deaf none (.single (Scene.endSession_hush _))
      · rename_i begin_
        have right : ((viewOf P b).get 8).any v.ses.cfg.beginString.isMatch = true := by
          simpa using begin_
        unfold judgeHeader
        split
        · rename_i refusal
          exact deaf (by simp [Session.arrives, whole, refusal]) (.single (Scene.endSession_hush _))
        · rename_i refusal
          obtain ⟨clocks, live, count⟩ := noteSkew_clocks v.ses (viewOf P b)
          have noted : Hush P False v.toScene ⟨v.ses.noteSkew (viewOf P b), v.hist⟩ :=
            .still clocks live ⟨[], List.forall_mem_nil _, rfl⟩
          dsimp only
          rw [identityRefusal_noteSkew, faultOf_noteSkew]
          split
          · rename_i known
            exact deaf (by simp [Session.arrives, whole, known])
              (.head noted (.single (Scene.endSession_hush _)))
          · rename_i known
            split
            · rename_i number
              exact deaf (by simp [Session.arrives, whole, number])
                (.head noted (.single (Scene.endSession_hush _)))
            · rename_i seq number
              have arr : v.ses.arrives P b = some (Inbound.read (viewOf P b) seq) := by
                simp [Session.arrives, whole, not_not.mp third, right, refusal, known, number]
              exact (judgeSequence_hears (u := { v with ses := v.ses.noteSkew (viewOf P b) }) _ _ arr
                hist count (congrArg Clocks.nowMs clocks)).head noted
  · rename_i pos bad
    have none : v.ses.arrives P b = none := by simp [Session.arrives, bad]
    split
    · exact deaf none (hushed_lift (Scene.judgeBadTag_hushed _ pos b))
    · exact deaf none (hushed_lift (Scene.garbled_hushed b))
  · rename_i bad
    exact deaf (by simp [Session.arrives, bad]) (hushed_lift (Scene.garbled_hushed b))

theorem judgeOrEnd_listens (u : World A J) (b : Bytes) :
    Listens P u.toScene (u.judgeOrEnd P b).1.toScene := by
  rw [judgeOrEnd_fst]
  exact .judges b (judge_hears b)

theorem hushes_listen {w v : Scene} (h : ReflTransGen (Hush P False) w v) :
    ReflTransGen (Listens P) w v :=
  ReflTransGen.mono (fun _ _ => .hushes) _ _ h

theorem drain_listens (rounds : ℕ) (u : World A J) :
    ReflTransGen (Listens P) u.toScene (u.drain P rounds).1.toScene := by
  induction rounds generalizing u with
  | zero => exact .refl
  | succ rounds ih =>
    unfold drain
    split
    · exact .refl
    · rename_i i _
      generalize ((u.ses.queue[i]?.map (·.bytes)).getD []) = b
      have freed : Listens P u.toScene (u.release i).toScene :=
        .hushes (.still rfl id ⟨[], List.forall_mem_nil _, rfl⟩)
      have next := judgeOrEnd_listens (P := P) (u.release i) b
      generalize (u.release i).judgeOrEnd P b = r at next ⊢
      obtain ⟨v, l⟩ := r
      cases l with
      | dropped => exact .head freed (.single next)
      | up => exact .head freed (.head next (ih v))

/-- **Receiving bytes is judging them and what waited for them.** -/
theorem receivedInner_listens (u : World A J) (b : Bytes) :
    ReflTransGen (Listens P) u.toScene (u.receivedInner P b).1.toScene := by
  unfold receivedInner
  split
  · exact .refl
  · have next := judgeOrEnd_listens (P := P) u b
    generalize u.judgeOrEnd P b = r at next ⊢
    obtain ⟨v, l⟩ := r
    cases l with
    | dropped => exact .single next
    | up =>
      have rest := drain_listens (P := P) queued v
      dsimp only
      generalize v.drain P queued = q at rest ⊢
      exact .head next (rest.trans (hushes_listen (Scene.advanceReplay_hushes q.1.journal q.2)))

end World

/-! ### Calls -/

theorem Listens.keeps (h : Listens P w v) : v.ses.bearings = w.ses.bearings := by
  cases h with
  | judges b hears =>
    cases hears with
    | passed deaf rest => exact (Hush.run_keeps rest).1
    | accepted hears before same live hist rest =>
      rename_i u u'
      have heard : u'.ses.bearings = u.ses.bearings :=
        congrArg (fun c => (c.cfg, c.out, c.nowMs, c.sessionMark)) same
      exact (Hush.run_keeps rest).1.trans (heard.trans (Hush.run_keeps before).1)
  | hushes h => exact h.keeps.1

theorem Listens.run_keeps (h : ReflTransGen (Listens P) w v) :
    v.ses.bearings = w.ses.bearings := by
  induction h with
  | refl => rfl
  | tail _ step ih => exact step.keeps.trans ih

namespace Scene

theorem trySend_keeps (which : Which) (extra : List (ℕ × Bytes)) :
    (w.trySend P which extra).ses.bearings = w.ses.bearings :=
  (Hush.run_keeps (trySend_hushes (P := P) (T := True) (w := w) which extra (by simp))).1

theorem roll_clocks (w : Scene) (n : ℕ) :
    ((w.upd fun s => { s with nowMs := n }).roll n).ses.clocks =
      { w.ses.clocks with nowMs := n, sessionMark := some n } := by
  have rolled (s : Session) : (s.rolled n).clocks = { s.clocks with sessionMark := some n } := by
    unfold Session.rolled
    split
    · rfl
    · rfl
  unfold roll
  dsimp only
  split
  · exact rolled _
  · exact rolled _

/-- A tick past the boundary check keeps the bearings. -/
theorem tickRolled_keeps (w : Scene) (n : ℕ) :
    (w.tickRolled P n).1.ses.bearings = w.ses.bearings := by
  have heartbeat (w : Scene) : (w.tickHeartbeat P n).1.ses.bearings = w.ses.bearings := by
    unfold tickHeartbeat
    split
    · rfl
    · dsimp only
      split
      · exact endSession_keeps _ _
      · generalize hv : (if w.ses.beatMs * 12 * wrapU32 (w.ses.testRequests + 1) / 10 ≤
            n - w.ses.lastRecvMs then
          (w.upd fun s => { s with testRequests := wrapU32 (s.testRequests + 1) }).trySend P
            .testRequest [(112, ascii "TEST")] else w) = v
        have probed : v.ses.bearings = w.ses.bearings := by
          rw [← hv]
          split
          · exact trySend_keeps _ _
          · rfl
        split
        · exact (trySend_keeps .heartbeat []).trans probed
        · exact probed
  have live : (w.tickLive P n).1.ses.bearings = w.ses.bearings := by
    unfold tickLive
    split
    · dsimp only
      split
      · exact endSession_keeps _ _
      · exact heartbeat _
    · exact heartbeat _
  unfold tickRolled
  split
  · exact trySend_keeps _ _
  · split
    · rfl
    · rfl
    · unfold tickAwaitingLogon
      dsimp only
      split
      · exact endSession_keeps _ _
      · rfl
    · exact trySend_keeps _ _
    · exact live
    · exact live

/-- **A tick sets the time and the mark.** -/
theorem tickInner_keeps (w : Scene) (n : ℕ) :
    (w.tickInner P n).1.ses.bearings = (w.ses.cfg, w.ses.out, n, some n) := by
  have rolled := roll_clocks w n
  exact (tickRolled_keeps _ n).trans
    (congrArg (fun c : Clocks => (c.cfg, c.out, c.nowMs, c.sessionMark)) rolled)

end Scene

namespace World

variable {A J : Type} [Journal J]

omit [Journal J] in
theorem closes_hush (k : World A J) (why : DropReason) :
    Hush P T k.toScene (k.disconnectWith why).1 := by
  unfold Scene.disconnectWith
  split
  · exact Scene.endSession_hush why
  · exact .still rfl (·.elim nofun nofun) ⟨[], List.forall_mem_nil _, rfl⟩

theorem sendApplication_hushes (k : World A J) (msg : Bytes) :
    ReflTransGen (Hush P T) k.toScene (k.sendApplication P msg).1.toScene := by
  unfold sendApplication
  split
  · exact .refl
  · split
    · exact .refl
    · dsimp only
      split
      · exact .refl
      · rename_i bytes _
        rw [tellJournal_scene]
        have stored (kept : Bool) : Hush P T k.toScene
            ⟨k.ses, .stored k.ses.nextOut bytes kept :: k.hist⟩ :=
          .still rfl id ⟨[.stored k.ses.nextOut bytes kept], by simp [Event.mute], rfl⟩
        exact .head (stored _)
          (.single (.sent (e := .originated k.ses.nextOut bytes) rfl id nofun rfl))

/-- What neither ticks nor receives only hushes. -/
theorem perform_hushes (w : World A J) (c : Call) [Application A] (still : c.ticks = none)
    (own : c.incoming = none) :
    ReflTransGen (Hush P True) (⟨w.ses, .called w.ses c :: w.hist⟩ : Scene)
      (w.perform P c).1.toScene := by
  unfold perform
  generalize hk : ({ w with hist := .called w.ses c :: w.hist } : World A J) = k
  rw [show (⟨w.ses, .called w.ses c :: w.hist⟩ : Scene) = k.toScene by rw [← hk]]
  have stays {v : Scene} (same : v.ses.clocks = k.ses.clocks) (live : v.ses.Live → k.ses.Live)
      (hist : ∃ new, (∀ e ∈ new, e.mute) ∧ v.hist = new ++ k.hist) :
      ReflTransGen (Hush P True) k.toScene v := .single (.still same live hist)
  have ordered (which : Which) (extra : List (ℕ × Bytes)) :
      ReflTransGen (Hush P True) k.toScene (k.sendOrdered P which extra).1 := by
    unfold Scene.sendOrdered
    split
    · exact .refl
    · split
      · rename_i sent
        exact .single (Scene.send_hush sent fun _ => trivial)
      · exact .refl
  have begun (text : Bytes) : ReflTransGen (Hush P True) k.toScene (k.beginLogout P text).1 := by
    unfold Scene.beginLogout
    split
    · split
      · exact .single (Scene.endSession_hush _)
      · exact .refl
    · rename_i on
      split
      · exact .single (Scene.endSession_hush _)
      · rename_i v sent
        have said : Hush P True k.toScene v := Scene.send_hush sent nofun
        have live : v.ses.Live := .inl ((Scene.send_state sent).trans (not_not.mp on))
        have waits : Hush P True v (v.upd fun s => { s with state := .loggingOut }) :=
          .still rfl (fun _ => live) ⟨[], List.forall_mem_nil _, rfl⟩
        exact .tail (.single said) waits
  have cut (text : Bytes) : ReflTransGen (Hush P True) k.toScene (k.logoutNow P text).1 := by
    unfold Scene.logoutNow
    split
    · exact .refl
    · have shut : Hush P True (k.trySend P .logout [(58, text)])
          (k.trySend P .logout [(58, text)]).cut :=
        .still rfl (·.elim nofun nofun) ⟨[], List.forall_mem_nil _, rfl⟩
      exact .tail (Scene.trySend_hushes .logout _ nofun) shut
  have reset (n : ℕ) : ReflTransGen (Hush P True) k.toScene (k.sendSequenceReset P n).1 := by
    unfold Scene.sendSequenceReset
    split
    · exact .refl
    · split
      · exact .refl
      · rename_i v sent
        have told : Hush P True v (v.upd fun s => { s with nextOut := n }) := .upd rfl id
        exact .tail (.single (Scene.sendAs_hush sent (by simp))) told
  cases c with
  | connect =>
    show ReflTransGen (Hush P True) k.toScene (k.connect P).1
    have dead : ¬ (k.ses.connected P).Live := by
      unfold Session.connected Session.Live
      cases P.speaksFirst <;> simp
    unfold Scene.connect
    dsimp only
    split
    · exact stays rfl (fun live => absurd live dead)
        ⟨[.restarted (k.ses.connected P)], by simp [Event.mute], rfl⟩
    · exact stays rfl (fun live => absurd live dead) ⟨[], List.forall_mem_nil _, rfl⟩
  | disconnect => exact .single (closes_hush k _)
  | disconnectWith why => exact .single (closes_hush k why)
  | noteDropReason why =>
    have noted := Scene.noteDropReason_clocks k.ses why
    exact stays noted.1 noted.2 ⟨[], List.forall_mem_nil _, rfl⟩
  | tick n | tickAt n sub | tickWith n | tickAtWith n sub => cases still
  | received b | receivedWith b => cases own
  | sendApplication msg => exact sendApplication_hushes k msg
  | sendHeartbeat => exact ordered .heartbeat []
  | sendTestRequest id => exact ordered .testRequest _
  | sendResendRequest from_ upTo => exact ordered .resendRequest _
  | beginLogout text => exact begun text
  | beginLogoutWith text =>
    show ReflTransGen (Hush P True) k.toScene (k.lift (·.beginLogout P text)).1.tellJournal.toScene
    rw [tellJournal_scene]
    exact begun text
  | logoutNow text => exact cut text
  | logoutNowWith text =>
    show ReflTransGen (Hush P True) k.toScene (k.lift (·.logoutNow P text)).1.tellJournal.toScene
    rw [tellJournal_scene]
    exact cut text
  | setNextOut n =>
    show ReflTransGen (Hush P True) k.toScene (k.setNextOut n).1
    unfold Scene.setNextOut
    split
    · exact .refl
    · exact stays rfl id ⟨[], List.forall_mem_nil _, rfl⟩
  | setNextIn n =>
    show ReflTransGen (Hush P True) k.toScene (k.setNextIn n).1
    unfold Scene.setNextIn
    split
    · exact .refl
    · exact stays rfl id ⟨[], List.forall_mem_nil _, rfl⟩
  | sendSequenceReset n => exact reset n
  | sendSequenceResetWith n =>
    show ReflTransGen (Hush P True) k.toScene
      (k.lift fun c => ((c.sendSequenceReset P n).1, Link.up)).1.tellJournal.toScene
    rw [tellJournal_scene]
    exact reset n

theorem tickAfterInner_keeps (u : World A J) (n : ℕ) :
    (u.tickAfterInner P n).1.ses.bearings = (u.ses.cfg, u.ses.out, n, some n) :=
  (Hush.run_keeps (Scene.advanceReplay_hushes (P := P) (T := True)
    (w := (u.tickInner P n).1) u.journal (u.tickInner P n).2)).1.trans
      (Scene.tickInner_keeps u.toScene n)

/-- **Only a tick moves the time and the schedule's mark**, and it moves both to its instant; nothing
changes the configuration and the templates. -/
theorem perform_keeps [Application A] (w : World A J) (c : Call) :
    (w.perform P c).1.ses.bearings =
      (w.ses.cfg, w.ses.out, c.ticks.getD w.ses.nowMs, c.ticks.or w.ses.sessionMark) := by
  have told {u : World A J} : u.tellJournal.ses = u.ses := congrArg Scene.ses (tellJournal_scene u)
  have received (b : Bytes) {A J : Type} [Application A] [Journal J] (u : World A J) :
      (u.receivedWith P b).1.ses.bearings = u.ses.bearings := by
    have same : (u.receivedWith P b).1.toScene = (u.receivedInner P b).1.toScene :=
      (tellJournal_scene _).trans (markIn_scene _)
    rw [show (u.receivedWith P b).1.ses = (u.receivedInner P b).1.ses from congrArg Scene.ses same]
    exact Listens.run_keeps (receivedInner_listens (P := P) u b)
  cases ht : c.ticks with
  | none =>
    cases hi : c.incoming with
    | none => exact (Hush.run_keeps (perform_hushes (P := P) w c ht hi)).1
    | some b =>
      cases c with
      | received b =>
        exact received b (⟨⟨w.ses, .called w.ses (.received b) :: w.hist⟩, .silent, .noJournal⟩ :
          World Silent NoJournal)
      | receivedWith b =>
        exact received b { w with hist := .called w.ses (.receivedWith b) :: w.hist }
      | _ => cases hi
  | some n =>
    unfold perform
    generalize hk : ({ w with hist := .called w.ses c :: w.hist } : World A J) = k
    have ses : k.ses = w.ses := by rw [← hk]
    rw [← ses]
    cases c with
    | tick m =>
      obtain rfl := Option.some.inj ht
      exact Scene.tickInner_keeps (k.setResolution 0 .millis) m
    | tickAt m sub =>
      obtain rfl := Option.some.inj ht
      exact Scene.tickInner_keeps (k.setResolution sub .nanos) m
    | tickWith m =>
      obtain rfl := Option.some.inj ht
      exact (congrArg Session.bearings told).trans
        (tickAfterInner_keeps { k with toScene := k.setResolution 0 .millis } m)
    | tickAtWith m sub =>
      obtain rfl := Option.some.inj ht
      exact (congrArg Session.bearings told).trans
        (tickAfterInner_keeps { k with toScene := k.setResolution sub .nanos } m)
    | _ => cases ht

theorem perform_mark [Application A] (w : World A J) (c : Call) :
    (w.perform P c).1.ses.sessionMark = c.ticks.or w.ses.sessionMark :=
  congrArg (·.2.2.2) (perform_keeps w c)

end World

end Hushes

end Fixbolt
