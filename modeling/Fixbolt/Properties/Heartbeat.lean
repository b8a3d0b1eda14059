import Fixbolt.Properties.Speaking

/-!
# The heartbeat rules

What a session keeps of the time, read off its history: when it sent last, when it accepted a message
last, and how often its ticks have asked for an answer since. `reachable_paced` is that every run
keeps it so, and `heartbeat_discipline` is what one tick then does.
-/

namespace Fixbolt

open History Relation

/-! ### The time, read off a history -/

namespace Event

/-- The instant of a tick. -/
def ticked : Event → Option ℕ
  | called _ c => c.ticks
  | _ => none

/-- A message goes out. -/
def emits : Event → Bool
  | emitted _ => true
  | _ => false

/-- A Heartbeat goes out. -/
def beats : Event → Bool
  | emitted (.templated .heartbeat _ _) => true
  | _ => false

end Event

/-- The instant of the last tick. -/
def clockAt (h : List Event) : ℕ := (newest Event.ticked h).getD 0

/-- When a message went out last; the beginning of the scale when none has. -/
def sentAt : List Event → ℕ
  | [] => 0
  | e :: h => if e.emits then clockAt h else sentAt h

/-- The session tells the time as its history does, and its interval is in whole seconds. -/
structure Timed (w : Scene) : Prop where
  clock : w.ses.nowMs = clockAt w.hist
  sent : w.ses.lastSentMs = sentAt w.hist
  scaled : 1000 ∣ w.ses.beatMs

/-- The session knows when it accepted a message last, and how often it has asked since: once at
most. -/
structure Pulse (P : Params) (w : Scene) : Prop where
  recv : heardAt P w.hist = some w.ses.lastRecvMs
  tests : w.ses.testRequests = probes P w.hist
  one : w.ses.testRequests ≤ 1

/-- What every run keeps of the time. -/
structure Paced (P : Params) (w : Scene) : Prop extends Timed w where
  pulse : w.ses.Live → Pulse P w

section Runs

variable {P : Params} {T : Prop} {w w' v : Scene}

theorem mute_times {new h : List Event} (mute : ∀ e ∈ new, e.mute) :
    clockAt (new ++ h) = clockAt h ∧ sentAt (new ++ h) = sentAt h := by
  induction new with
  | nil => exact ⟨rfl, rfl⟩
  | cons e new ih =>
    obtain ⟨clock, sent⟩ := ih fun x hx => mute x (List.mem_cons_of_mem e hx)
    have quiet := mute e List.mem_cons_self
    have still : e.ticked = none ∧ e.emits = false := by
      cases e with
      | called s c | judged s b | emitted e => cases quiet
      | _ => exact ⟨rfl, rfl⟩
    refine ⟨(congrArg (·.getD 0) (newest_cons_of_none still.1 (new ++ h))).trans clock, ?_⟩
    rw [List.cons_append, sentAt, if_neg (by simp [still.2]), sent]

/-- Of a session, what the heartbeat rules read. -/
def Session.rhythm (s : Session) : ℕ × ℕ × ℕ × ℕ × ℕ :=
  (s.nowMs, s.lastSentMs, s.lastRecvMs, s.testRequests, s.beatMs)

/-- What has nothing to do with the clocks keeps the time. -/
theorem Timed.mute (t : Timed w) (same : v.ses.rhythm = w.ses.rhythm)
    (hist : ∃ new, (∀ e ∈ new, e.mute) ∧ v.hist = new ++ w.hist) : Timed v := by
  obtain ⟨new, mute, hist⟩ := hist
  obtain ⟨clock, sent⟩ := mute_times (h := w.hist) mute
  rw [← hist] at clock sent
  have beat : v.ses.beatMs = w.ses.beatMs := congrArg (·.2.2.2.2) same
  exact ⟨(congrArg (·.1) same).trans (t.clock.trans clock.symm),
    (congrArg (·.2.1) same).trans (t.sent.trans sent.symm), beat ▸ t.scaled⟩

theorem Paced.mute (p : Paced P w) (same : v.ses.rhythm = w.ses.rhythm)
    (live : v.ses.Live → w.ses.Live)
    (hist : ∃ new, (∀ e ∈ new, e.mute) ∧ v.hist = new ++ w.hist) : Paced P v := by
  refine ⟨p.toTimed.mute same hist, fun on => ?_⟩
  obtain ⟨new, mute, hist⟩ := hist
  obtain ⟨heard, -, asked⟩ := mute_append (P := P) (h := w.hist) mute
  rw [← hist] at heard asked
  have pulse := p.pulse (live on)
  have recv : v.ses.lastRecvMs = w.ses.lastRecvMs := congrArg (·.2.2.1) same
  have tests : v.ses.testRequests = w.ses.testRequests := congrArg (·.2.2.2.1) same
  exact ⟨by rw [heard, recv, pulse.recv], by rw [asked, tests, pulse.tests], tests ▸ pulse.one⟩

/-! ### What is not a tick -/

theorem rhythm_of_clocks {s t : Session} (same : s.clocks = t.clocks) : s.rhythm = t.rhythm :=
  congrArg (fun c : Clocks => (c.nowMs, c.lastSentMs, c.lastRecvMs, c.testRequests, c.beatMs)) same

theorem Hush.timed (h : Hush P T w v) (t : Timed w) : Timed v := by
  cases h with
  | still same live hist => exact t.mute (rhythm_of_clocks same) hist
  | @sent e same live asks hist =>
    have now : v.ses.nowMs = w.ses.nowMs := congrArg Clocks.nowMs same
    have last : v.ses.lastSentMs = w.ses.nowMs := congrArg Clocks.lastSentMs same
    have beat : v.ses.beatMs = w.ses.beatMs := congrArg Clocks.beatMs same
    have clock : clockAt v.hist = clockAt w.hist := by
      rw [hist]
      rfl
    refine ⟨by rw [now, clock, t.clock], ?_, beat ▸ t.scaled⟩
    rw [last, t.clock, hist]
    rfl
  | agreed fresh scaled same hist =>
    have now : v.ses.nowMs = w.ses.nowMs := congrArg Clocks.nowMs same
    have last : v.ses.lastSentMs = w.ses.lastSentMs := congrArg Clocks.lastSentMs same
    have beat : v.ses.beatMs = _ := congrArg Clocks.beatMs same
    refine ⟨?_, ?_, beat ▸ scaled⟩
    · rw [now, t.clock, hist]
      rfl
    · rw [last, t.sent, hist]
      rfl

theorem Hush.keepsPace (h : Hush P T w v) (still : T → ticking w.hist = false) (p : Paced P w) :
    Paced P v := by
  refine ⟨h.timed p.toTimed, fun on => ?_⟩
  obtain ⟨-, recv, tests⟩ := h.keeps
  have kept (pulse : Pulse P w) : Pulse P v :=
    ⟨by rw [h.heardAt_eq, recv, pulse.recv], by rw [h.probes_eq still, tests, pulse.tests],
      tests ▸ pulse.one⟩
  cases h with
  | still same live hist => exact kept (p.pulse (live on))
  | sent same live asks hist => exact kept (p.pulse (live on))
  | agreed fresh scaled same hist =>
    refine kept ⟨by rw [fresh.hist, fresh.recv], by rw [fresh.tests, fresh.unasked], ?_⟩
    rw [fresh.tests]
    exact Nat.zero_le 1

theorem Hush.run_timed (h : ReflTransGen (Hush P T) w v) (t : Timed w) : Timed v := by
  induction h with
  | refl => exact t
  | tail _ step ih => exact step.timed ih

theorem Hush.run_still (h : ReflTransGen (Hush P T) w v) (still : T → ticking w.hist = false) :
    heardAt P v.hist = heardAt P w.hist ∧ probes P v.hist = probes P w.hist ∧
      (T → ticking v.hist = false) := by
  induction h with
  | refl => exact ⟨rfl, rfl, still⟩
  | tail _ step ih =>
    obtain ⟨heard, asked, still⟩ := ih
    refine ⟨step.heardAt_eq.trans heard, (step.probes_eq still).trans asked, fun t => ?_⟩
    unfold ticking
    rw [step.callOf_eq]
    exact still t

theorem Hush.run_paced (h : ReflTransGen (Hush P T) w v) (still : T → ticking w.hist = false)
    (p : Paced P w) : Paced P v := by
  induction h with
  | refl => exact p
  | tail run step ih => exact step.keepsPace (Hush.run_still run still).2.2 ih

/-- Judging a message keeps the time: where it is accepted, the pulse begins anew. -/
theorem Hears.keepsPace {b : Bytes} (h : Hears P w.ses b ⟨w.ses, .judged w.ses b :: w.hist⟩ v)
    (p : Paced P w) : Paced P v := by
  have timed : Timed ⟨w.ses, .judged w.ses b :: w.hist⟩ := ⟨p.clock, p.sent, p.scaled⟩
  cases h with
  | passed deaf rest =>
    have none : (Event.judged w.ses b).heard P = none := by simp [Event.heard, deaf]
    refine Hush.run_paced rest False.elim ⟨timed, fun on => ?_⟩
    have pulse := p.pulse on
    refine ⟨(newest_cons_of_none none w.hist).trans pulse.recv, ?_, pulse.one⟩
    rw [probes, none]
    exact pulse.tests
  | accepted hears before same live hist rest =>
    rename_i u u'
    have some : (Event.judged w.ses b).heard P = some w.ses.nowMs := by simp [Event.heard, hears]
    obtain ⟨heard, asked, -⟩ := Hush.run_still before False.elim
    have kept := Hush.run_timed before timed
    have now : u'.ses.nowMs = u.ses.nowMs := congrArg Clocks.nowMs same
    have last : u'.ses.lastSentMs = u.ses.lastSentMs := congrArg Clocks.lastSentMs same
    have beat : u'.ses.beatMs = u.ses.beatMs := congrArg Clocks.beatMs same
    have recv : u'.ses.lastRecvMs = u.ses.nowMs := congrArg Clocks.lastRecvMs same
    have tests : u'.ses.testRequests = 0 := congrArg Clocks.testRequests same
    have unmoved : u.ses.nowMs = w.ses.nowMs := congrArg (·.2.2.1) (Hush.run_keeps before).1
    refine Hush.run_paced rest False.elim
      ⟨⟨by rw [now, hist, kept.clock], by rw [last, hist, kept.sent], beat ▸ kept.scaled⟩,
        fun _ => ⟨?_, ?_, by rw [tests]; exact Nat.zero_le 1⟩⟩
    · rw [hist, heard, recv, unmoved]
      exact newest_cons_of_some some w.hist
    · rw [tests, hist, asked, probes, some]
      rfl

theorem Listens.keepsPace (h : Listens P w v) (p : Paced P w) : Paced P v := by
  cases h with
  | judges b hears => exact hears.keepsPace p
  | hushes h => exact h.keepsPace False.elim p

theorem Listens.run_paced (h : ReflTransGen (Listens P) w v) (p : Paced P w) : Paced P v := by
  induction h with
  | refl => exact p
  | tail _ step ih => exact step.keepsPace ih

/-! ### Ticks -/

namespace Scene

theorem trySend_paced {which : Which} (other : which ≠ .testRequest) (extra : List (ℕ × Bytes))
    (p : Paced P w) : Paced P (w.trySend P which extra) :=
  Hush.run_paced (trySend_hushes (T := False) which extra other) False.elim p

theorem trySend_eq {which : Which} {extra : List (ℕ × Bytes)}
    (h : w.send P which extra = some w') : w.trySend P which extra = w' := by
  unfold trySend
  rw [h, Option.getD_some]

theorem endSession_paced (why : DropReason) (p : Paced P w) : Paced P (w.endSession why) :=
  (endSession_hush (T := False) why).keepsPace False.elim p

/-- **The heartbeat rules keep the time**: a TestRequest that is due goes out, and no second one is
due before the session ends. -/
theorem tickHeartbeat_paced (n : ℕ) (e : w.ses.Equipped P) (ticks : ticking w.hist = true)
    (live : w.ses.Live) (p : Paced P w) : Paced P (w.tickHeartbeat P n).1 := by
  have pulse := p.pulse live
  unfold tickHeartbeat
  split
  · exact p
  · dsimp only
    split
    · exact endSession_paced _ p
    · rename_i early
      generalize hv : (if w.ses.beatMs * 12 * wrapU32 (w.ses.testRequests + 1) / 10 ≤
          n - w.ses.lastRecvMs then
        (w.upd fun s => { s with testRequests := wrapU32 (s.testRequests + 1) }).trySend P
          .testRequest [(112, ascii "TEST")] else w) = v
      have probed : Paced P v := by
        rw [← hv]
        split
        · rename_i due
          have small := pulse.one
          have next : wrapU32 (w.ses.testRequests + 1) = w.ses.testRequests + 1 :=
            Nat.mod_eq_of_lt (by unfold u32Size; omega)
          -- a second one would be due with the end of the session
          have first : w.ses.testRequests = 0 := by
            rw [next] at due
            by_contra again
            rw [show w.ses.testRequests + 1 = 2 by omega, Nat.mul_assoc] at due
            exact early due
          obtain ⟨u, sent⟩ := send_decided (w := w.upd fun s =>
            { s with testRequests := wrapU32 (s.testRequests + 1) }) ⟨e.sized, e.own, e.named⟩
              .testRequest
          rw [trySend_eq sent]
          obtain ⟨bytes, rfl⟩ := sendAs_eq sent
          refine ⟨⟨p.clock, p.clock, p.scaled⟩, fun _ => ⟨pulse.recv, ?_, ?_⟩⟩
          · show wrapU32 (w.ses.testRequests + 1) =
              if (true && ticking w.hist) = true then probes P w.hist + 1 else probes P w.hist
            rw [next, ticks]
            exact congrArg (· + 1) pulse.tests
          · show wrapU32 (w.ses.testRequests + 1) ≤ 1
            rw [next, first]
        · exact p
      split
      · exact trySend_paced (by nofun) _ probed
      · exact probed

theorem tickLive_paced (n : ℕ) (e : w.ses.Equipped P) (ticks : ticking w.hist = true)
    (live : w.ses.Live) (p : Paced P w) : Paced P (w.tickLive P n).1 := by
  unfold tickLive
  split
  · dsimp only
    have since : Paced P (w.upd fun s =>
        { s with loggingOutSinceMs := some (w.ses.loggingOutSinceMs.getD n) }) :=
      p.mute rfl id ⟨[], List.forall_mem_nil _, rfl⟩
    split
    · exact endSession_paced _ since
    · exact tickHeartbeat_paced n ⟨e.sized, e.own, e.named⟩ ticks live since
  · exact tickHeartbeat_paced n e ticks live p

theorem tickRolled_paced (n : ℕ) (e : w.ses.Equipped P) (ticks : ticking w.hist = true)
    (p : Paced P w) : Paced P (w.tickRolled P n).1 := by
  unfold tickRolled
  split
  · exact (trySend_paced (by nofun) [] p).mute rfl (·.elim nofun nofun)
      ⟨[], List.forall_mem_nil _, rfl⟩
  · split
    · exact p
    · exact p
    · unfold tickAwaitingLogon
      dsimp only
      have since : Paced P (w.upd fun s =>
          { s with awaitingLogonSinceMs := some (w.ses.awaitingLogonSinceMs.getD n) }) :=
        p.mute rfl id ⟨[], List.forall_mem_nil _, rfl⟩
      split
      · exact endSession_paced _ since
      · exact since
    · refine trySend_paced (by nofun) _ ⟨⟨p.clock, p.sent, Nat.dvd_mul_left 1000 _⟩, ?_⟩
      exact (·.elim nofun nofun)
    · rename_i on
      exact tickLive_paced n e ticks (.inl on) p
    · rename_i out
      exact tickLive_paced n e ticks (.inr out) p

/-- A tick keeps the time, from the call on. -/
theorem tickInner_paced {s : Session} {c : Call} {h : List Event} {n : ℕ} (e : w.ses.Equipped P)
    (tick : c.ticks = some n) (hist : w.hist = .called s c :: h) (p : Paced P ⟨w.ses, h⟩) :
    Paced P (w.tickInner P n).1 := by
  have started : Paced P (w.upd fun s => { s with nowMs := n }) := by
    have clock : clockAt w.hist = n := by
      rw [hist]
      exact congrArg (·.getD 0) (newest_cons_of_some (f := Event.ticked) (e := .called s c) tick h)
    refine ⟨⟨clock.symm, ?_, p.scaled⟩, fun live => ?_⟩
    · show w.ses.lastSentMs = sentAt w.hist
      rw [hist]
      exact p.sent
    · obtain ⟨recv, tests, one⟩ := p.pulse live
      refine ⟨?_, ?_, one⟩
      · show heardAt P w.hist = some w.ses.lastRecvMs
        rw [hist]
        exact recv
      · show w.ses.testRequests = probes P w.hist
        rw [hist]
        exact tests
  have rolled (s : Session) : (s.rolled n).rhythm = s.rhythm ∧ (s.rolled n).state = s.state ∧
      (s.rolled n).cfg = s.cfg ∧ (s.rolled n).out = s.out := by
    unfold Session.rolled
    split
    · exact ⟨rfl, rfl, rfl, rfl⟩
    · exact ⟨rfl, rfl, rfl, rfl⟩
  have ticks : ticking w.hist = true := by
    rw [hist]
    show c.ticks.isSome = true
    rw [tick]
    rfl
  unfold tickInner roll
  generalize hu : (w.upd fun s => { s with nowMs := n }) = u at started ⊢
  have same : u.hist = w.hist ∧ u.ses.cfg = w.ses.cfg ∧ u.ses.out = w.ses.out := hu ▸ ⟨rfl, rfl, rfl⟩
  obtain ⟨rhythm, state, cfg, out⟩ := rolled u.ses
  have own : (u.ses.rolled n).Equipped P :=
    ⟨by rw [cfg, same.2.1]; exact e.sized, by rw [out, cfg, same.2.1, same.2.2]; exact e.own,
      by rw [out, same.2.2]; exact e.named⟩
  have ticking' : ticking u.hist = true := same.1.symm ▸ ticks
  have live (on : (u.ses.rolled n).Live) : u.ses.Live := by
    unfold Session.Live at on ⊢
    rwa [state] at on
  dsimp only
  split
  · exact tickRolled_paced n own ticking'
      (started.mute rhythm live ⟨[.restarted (u.ses.rolled n)], by simp [Event.mute], rfl⟩)
  · exact tickRolled_paced n own ticking'
      (started.mute rhythm live ⟨[], List.forall_mem_nil _, rfl⟩)

end Scene

namespace World

variable {A J : Type} [Application A] [Journal J]

/-- **Every call keeps the time.** -/
theorem perform_paced (w : World A J) (c : Call) (e : w.ses.Equipped P) (p : Paced P w.toScene) :
    Paced P (w.perform P c).1.toScene := by
  have received (b : Bytes) {A J : Type} [Application A] [Journal J] (u : World A J)
      (p : Paced P u.toScene) : Paced P (u.receivedWith P b).1.toScene := by
    rw [show (u.receivedWith P b).1.toScene = (u.receivedInner P b).1.toScene from
      (tellJournal_scene _).trans (markIn_scene _)]
    exact Listens.run_paced (receivedInner_listens u b) p
  have calls (still : c.ticks = none) : Paced P ⟨w.ses, .called w.ses c :: w.hist⟩ := by
    have clock : clockAt (.called w.ses c :: w.hist) = clockAt w.hist :=
      congrArg (·.getD 0)
        (newest_cons_of_none (f := Event.ticked) (e := .called w.ses c) still w.hist)
    refine ⟨⟨by rw [clock]; exact p.clock, p.sent, p.scaled⟩, fun live => ?_⟩
    exact ⟨(p.pulse live).recv, (p.pulse live).tests, (p.pulse live).one⟩
  cases ht : c.ticks with
  | none =>
    cases hi : c.incoming with
    | none =>
      refine Hush.run_paced (perform_hushes (P := P) w c ht hi) (fun _ => ?_) (calls ht)
      show c.ticks.isSome = false
      rw [ht]
      rfl
    | some b =>
      cases c with
      | received b =>
        exact received b (⟨⟨w.ses, .called w.ses (.received b) :: w.hist⟩, .silent, .noJournal⟩ :
          World Silent NoJournal) (calls rfl)
      | receivedWith b =>
        exact received b { w with hist := .called w.ses (.receivedWith b) :: w.hist } (calls rfl)
      | _ => cases hi
  | some n =>
    have inner (sub : ℕ) (res : Precision) : Paced P
        ((({ w with hist := .called w.ses c :: w.hist } : World A J).setResolution sub
          res).tickInner P n).1 :=
      Scene.tickInner_paced ⟨e.sized, e.own, e.named⟩ ht rfl
        (p.mute rfl id ⟨[], List.forall_mem_nil _, rfl⟩)
    have after (sub : ℕ) (res : Precision) : Paced P
        (({ ({ w with hist := .called w.ses c :: w.hist } : World A J) with
          toScene := ({ w with hist := .called w.ses c :: w.hist } : World A J).setResolution sub
            res } : World A J).tickAfterInner P n).1.toScene :=
      Hush.run_paced (Scene.advanceReplay_hushes (T := False) _ _) False.elim (inner sub res)
    cases c with
    | tick m =>
      obtain rfl := Option.some.inj ht
      exact inner 0 .millis
    | tickAt m sub =>
      obtain rfl := Option.some.inj ht
      exact inner sub .nanos
    | tickWith m =>
      obtain rfl := Option.some.inj ht
      show Paced P (World.tellJournal _).toScene
      rw [tellJournal_scene]
      exact after 0 .millis
    | tickAtWith m sub =>
      obtain rfl := Option.some.inj ht
      show Paced P (World.tellJournal _).toScene
      rw [tellJournal_scene]
      exact after sub .nanos
    | _ => cases ht

/-- **Every run keeps the time**, when the templates could be made of the names. -/
theorem reachable_paced {w : World A J} (h : Reachable P w) (sized : w.ses.cfg.Sized)
    (named : w.ses.out.isSome) : Paced P w.toScene := by
  induction h with
  | init init app journal =>
    cases init with
    | new cfg => exact ⟨⟨rfl, rfl, Nat.dvd_zero 1000⟩, (·.elim nofun nofun)⟩
    | resume cfg out in_ => exact ⟨⟨rfl, rfl, Nat.dvd_zero 1000⟩, (·.elim nofun nofun)⟩
    | resumeAt cfg last out in_ => exact ⟨⟨rfl, rfl, Nat.dvd_zero 1000⟩, (·.elim nofun nofun)⟩
  | @step w h c fits ih =>
    have kept := perform_keeps (P := P) w c
    have cfg : (w.perform P c).1.ses.cfg = w.ses.cfg := congrArg (·.1) kept
    have out : (w.perform P c).1.ses.out = w.ses.out := congrArg (·.2.1) kept
    rw [cfg] at sized
    rw [out] at named
    exact perform_paced w c (h.equipped sized named) (ih sized named)

end World

/-! ### One tick -/

namespace Scene

/-- What one tick does to a session that is logged on, by which of its thresholds has passed. -/
inductive Beat (w : Scene) (n : ℕ) : Scene × Link → Prop
  /-- Nothing was heard for too long. -/
  | timeout {v : Scene} (late : w.ses.beatMs * 24 / 10 ≤ n - w.ses.lastRecvMs)
      (why : v.ses.lastDropReason = some .heartbeatTimeout)
      (hist : ∃ new, (∀ e ∈ new, e.mute) ∧ v.hist = new ++ w.hist) : Beat w n (v, .dropped)
  /-- An answer is asked for. -/
  | probe {v : Scene} {slots : List (ℕ × Bytes)} {bytes : Bytes}
      (early : n - w.ses.lastRecvMs < w.ses.beatMs * 24 / 10) (owed : v.ses.owed = w.ses.owed)
      (unasked : w.ses.testRequests = 0)
      (hist : v.hist = .emitted (.templated .testRequest slots bytes) :: w.hist) : Beat w n (v, .up)
  /-- This end says that it is there. -/
  | beat {v : Scene} {slots : List (ℕ × Bytes)} {bytes : Bytes}
      (early : n - w.ses.lastRecvMs < w.ses.beatMs * 24 / 10) (owed : v.ses.owed = w.ses.owed)
      (unasked : w.ses.testRequests = 0)
      (hist : v.hist = .emitted (.templated .heartbeat slots bytes) :: w.hist) : Beat w n (v, .up)
  /-- Nothing is due. -/
  | rest {v : Scene} (early : n - w.ses.lastRecvMs < w.ses.beatMs * 24 / 10)
      (owed : v.ses.owed = w.ses.owed)
      (calm : w.ses.testRequests = 0 → n - w.ses.lastSentMs < w.ses.beatMs)
      (hist : v.hist = w.hist) : Beat w n (v, .up)

theorem endSession_timeout (why : DropReason) : (w.endSession why).ses.lastDropReason = some why ∧
    ∃ new, (∀ e ∈ new, e.mute) ∧ (w.endSession why).hist = new ++ w.hist := by
  unfold endSession
  dsimp only
  split
  · exact ⟨rfl, [.restarted _, .ended why], by simp [Event.mute], rfl⟩
  · exact ⟨rfl, [.ended why], by simp [Event.mute], rfl⟩

theorem tickHeartbeat_beat (n : ℕ) (e : w.ses.Equipped P) (agreed : 0 < w.ses.beatMs)
    (one : w.ses.testRequests ≤ 1) : w.Beat n (w.tickHeartbeat P n) := by
  have next : wrapU32 (w.ses.testRequests + 1) = w.ses.testRequests + 1 :=
    Nat.mod_eq_of_lt (by unfold u32Size; omega)
  unfold tickHeartbeat
  rw [if_neg (Nat.ne_of_gt agreed)]
  dsimp only
  split
  · rename_i late
    exact .timeout late (endSession_timeout _).1 (endSession_timeout _).2
  · rename_i early
    have early := Nat.not_le.mp early
    by_cases due : w.ses.beatMs * 12 * wrapU32 (w.ses.testRequests + 1) / 10 ≤ n - w.ses.lastRecvMs
    · obtain ⟨u, sent⟩ := send_decided (w := w.upd fun s =>
        { s with testRequests := wrapU32 (s.testRequests + 1) }) ⟨e.sized, e.own, e.named⟩
          .testRequest
      rw [if_pos due, trySend_eq sent]
      obtain ⟨bytes, rfl⟩ := sendAs_eq sent
      have asked : ¬ (wrapU32 (w.ses.testRequests + 1) = 0 ∧ w.ses.beatMs ≤ n - w.ses.lastSentMs) := by
        rw [next]
        omega
      -- a second one would be due with the end of the session
      have first : w.ses.testRequests = 0 := by
        rw [next] at due
        by_contra again
        rw [show w.ses.testRequests + 1 = 2 by omega, Nat.mul_assoc] at due
        exact absurd due (Nat.not_le.mpr early)
      exact (if_neg asked) ▸ .probe early rfl first rfl
    · rw [if_neg due]
      split
      · rename_i silent
        obtain ⟨u, sent⟩ := send_decided e .heartbeat
        rw [trySend_eq sent]
        obtain ⟨bytes, rfl⟩ := sendAs_eq sent
        exact .beat early rfl silent.1 rfl
      · rename_i calm
        exact .rest early rfl (fun unasked => Nat.not_le.mp fun silent => calm ⟨unasked, silent⟩) rfl

theorem roll_mark {n : ℕ} (stays : w.ses.rolls n = false) :
    w.roll n = w.upd fun s => { s with sessionMark := some n } := by
  have same : w.ses.rolled n = { w.ses with sessionMark := some n } := by
    unfold Session.rolled
    simp only [stays, Bool.false_eq_true, if_false]
  unfold roll upd
  simp only [stays, same, Bool.false_eq_true, if_false]

/-- A tick of a session that is logged on and open always. -/
theorem tickInner_beat (n : ℕ) (e : w.ses.Equipped P) (on : w.ses.state = .loggedOn)
    (always : w.ses.cfg.schedule = .always) (agreed : 0 < w.ses.beatMs)
    (one : w.ses.testRequests ≤ 1) : w.Beat n (w.tickInner P n) := by
  generalize hu : (⟨{ w.ses with nowMs := n, sessionMark := some n }, w.hist⟩ : Scene) = u
  have stays : Session.rolls { w.ses with nowMs := n } n = false := by
    unfold Session.rolls
    rw [show ({ w.ses with nowMs := n } : Session).cfg.schedule = .always from always]
    cases w.ses.sessionMark <;> rfl
  have rolled : (w.upd fun s => { s with nowMs := n }).roll n = u :=
    (roll_mark (w := w.upd fun s => { s with nowMs := n }) stays).trans hu
  have state : u.ses.state = .loggedOn := hu ▸ on
  have open_ : u.ses.cfg.schedule = .always := hu ▸ always
  have live : u.tickRolled P n = u.tickHeartbeat P n := by
    unfold tickRolled
    rw [open_, Schedule.always_contains, if_neg (by simp), state]
    dsimp only
    unfold tickLive
    rw [if_neg (by rw [state]; nofun)]
  rw [tickInner, rolled, live]
  have own : u.ses.Equipped P := hu ▸ ⟨e.sized, e.own, e.named⟩
  have beat := tickHeartbeat_beat n own (hu ▸ agreed) (hu ▸ one)
  -- the clock and the mark are not what the thresholds are measured by
  generalize u.tickHeartbeat P n = r at beat ⊢
  subst hu
  cases beat with
  | timeout late why hist => exact .timeout late why hist
  | probe early owed unasked hist => exact .probe early owed unasked hist
  | beat early owed unasked hist => exact .beat early owed unasked hist
  | rest early owed calm hist => exact .rest early owed calm hist

theorem advanceReplay_idle {J : Type} [Journal J] {j : J} {link : Link}
    (idle : link = .up → w.ses.owed = none) : w.advanceReplay P j link = (w, link) := by
  unfold advanceReplay
  exact if_neg fun both => by rw [idle both.1] at both; cases both.2

end Scene

namespace World

variable {A J : Type} [Application A] [Journal J] {w : World A J}

/-- A tick, in whatever way it is made, when nothing is owed. -/
theorem perform_beat (e : w.ses.Equipped P) (on : w.ses.state = .loggedOn)
    (always : w.ses.cfg.schedule = .always) (agreed : 0 < w.ses.beatMs)
    (one : w.ses.testRequests ≤ 1) (idle : w.ses.owed = none) {c : Call} {n : ℕ}
    (tick : c.ticks = some n) :
    Scene.Beat ⟨w.ses, .called w.ses c :: w.hist⟩ n
      ((w.perform P c).1.toScene, (w.perform P c).2) := by
  have inner (sub : ℕ) (res : Precision) : Scene.Beat ⟨w.ses, .called w.ses c :: w.hist⟩ n
      (((⟨w.ses, .called w.ses c :: w.hist⟩ : Scene).setResolution sub res).tickInner P n) := by
    have beat := Scene.tickInner_beat (P := P)
      (w := (⟨w.ses, .called w.ses c :: w.hist⟩ : Scene).setResolution sub res) n
      ⟨e.sized, e.own, e.named⟩ on always agreed one
    generalize Scene.tickInner P _ n = r at beat ⊢
    cases beat with
    | timeout late why hist => exact .timeout late why hist
    | probe early owed unasked hist => exact .probe early owed unasked hist
    | beat early owed unasked hist => exact .beat early owed unasked hist
    | rest early owed calm hist => exact .rest early owed calm hist
  have still {s : Scene} {r : Scene × Link} (beat : s.Beat n r) (same : s.ses.owed = none)
      (up : r.2 = .up) : r.1.ses.owed = none := by
    cases beat with
    | timeout late why hist => cases up
    | probe early owed unasked hist => exact owed.trans same
    | beat early owed unasked hist => exact owed.trans same
    | rest early owed calm hist => exact owed.trans same
  have after (sub : ℕ) (res : Precision) (j : J) :
      Scene.advanceReplay P
        (((⟨w.ses, .called w.ses c :: w.hist⟩ : Scene).setResolution sub res).tickInner P n).1 j
        (((⟨w.ses, .called w.ses c :: w.hist⟩ : Scene).setResolution sub res).tickInner P n).2 =
      ((⟨w.ses, .called w.ses c :: w.hist⟩ : Scene).setResolution sub res).tickInner P n :=
    Scene.advanceReplay_idle (still (inner sub res) idle)
  have told (sub : ℕ) (res : Precision) : Scene.Beat ⟨w.ses, .called w.ses c :: w.hist⟩ n
      ((({ ({ w with hist := .called w.ses c :: w.hist } : World A J) with
          toScene := (⟨w.ses, .called w.ses c :: w.hist⟩ : Scene).setResolution sub
            res } : World A J).tickAfterInner P n).1.tellJournal.toScene,
        (({ ({ w with hist := .called w.ses c :: w.hist } : World A J) with
          toScene := (⟨w.ses, .called w.ses c :: w.hist⟩ : Scene).setResolution sub
            res } : World A J).tickAfterInner P n).2) := by
    rw [tellJournal_scene]
    have beat := inner sub res
    rw [← after sub res w.journal] at beat
    exact beat
  cases c with
  | tick m =>
    obtain rfl := Option.some.inj tick
    exact inner 0 .millis
  | tickAt m sub =>
    obtain rfl := Option.some.inj tick
    exact inner sub .nanos
  | tickWith m =>
    obtain rfl := Option.some.inj tick
    exact told 0 .millis
  | tickAtWith m sub =>
    obtain rfl := Option.some.inj tick
    exact told sub .nanos
  | _ => cases tick

/-- **The heartbeat rules, over any clock.** Of a session that is logged on with an interval, open
always and owing nothing, whatever calls and instants led there, a tick sends one message at most;
when it leaves the link up, something was sent less than an interval ago (a session that never sent
anything counts from the beginning of the scale) or a tick has asked for an answer since a message was
accepted last; ticks ask once at most between two accepted messages; no Heartbeat goes out while
they wait; and the tick drops the link, for this reason, exactly when the last accepted message is
2.4 intervals old. -/
theorem heartbeat_discipline (h : Reachable P w) (sized : w.ses.cfg.Sized)
    (named : w.ses.out.isSome) (on : w.ses.state = .loggedOn) (agreed : 0 < w.ses.beatMs)
    (idle : w.ses.owed = none) (always : w.ses.cfg.schedule = .always) {c : Call} {n : ℕ}
    (tick : c.ticks = some n) :
    ∃ t new, heardAt P w.hist = some t ∧ (w.perform P c).1.hist = new ++ w.hist ∧
      new.countP Event.emits ≤ 1 ∧
      ((w.perform P c).2 = .up → n < sentAt (w.perform P c).1.hist + w.ses.beatMs ∨
        0 < probes P (w.perform P c).1.hist) ∧
      probes P (w.perform P c).1.hist ≤ 1 ∧
      ((∃ e ∈ new, e.beats) → probes P (w.perform P c).1.hist = 0) ∧
      ((w.perform P c).2 = .dropped ↔ 10 * t + 24 * w.ses.beatMs ≤ 10 * n) ∧
      ((w.perform P c).2 = .dropped →
        (w.perform P c).1.ses.lastDropReason = some .heartbeatTimeout) := by
  have paced := reachable_paced h sized named
  have pulse := paced.pulse (.inl on)
  have beat := perform_beat (P := P) (h.equipped sized named) on always agreed pulse.one idle tick
  obtain ⟨k, scaled⟩ := paced.scaled
  have late : w.ses.beatMs * 24 / 10 ≤ n - w.ses.lastRecvMs ↔
      10 * w.ses.lastRecvMs + 24 * w.ses.beatMs ≤ 10 * n := by omega
  have asked : probes P (.called w.ses c :: w.hist) = w.ses.testRequests := pulse.tests.symm
  have clock : clockAt (.called w.ses c :: w.hist) = n :=
    congrArg (·.getD 0) (newest_cons_of_some (f := Event.ticked) (e := .called w.ses c) tick w.hist)
  have ticks : ticking (.called w.ses c :: w.hist) = true := by
    show c.ticks.isSome = true
    rw [tick]
    rfl
  refine ⟨w.ses.lastRecvMs, ?_⟩
  generalize (w.perform P c).2 = link at beat ⊢
  generalize (w.perform P c).1 = v at beat ⊢
  have up (early : n - w.ses.lastRecvMs < w.ses.beatMs * 24 / 10) :
      Link.up = .dropped ↔ 10 * w.ses.lastRecvMs + 24 * w.ses.beatMs ≤ 10 * n :=
    ⟨nofun, fun passed => absurd (late.mpr passed) (Nat.not_le.mpr early)⟩
  cases beat with
  | timeout passed why hist =>
    obtain ⟨new, mute, hist⟩ := hist
    have silent : ∀ e ∈ new ++ [.called w.ses c], e.emits = false ∧ e.beats = false := by
      intro e mem
      obtain mem | mem := List.mem_append.mp mem
      · have quiet := mute e mem
        cases e with
        | emitted e => cases quiet
        | _ => exact ⟨rfl, rfl⟩
      · obtain rfl := List.mem_singleton.mp mem
        exact ⟨rfl, rfl⟩
    refine ⟨new ++ [.called w.ses c], pulse.recv, by rw [hist, List.append_assoc]; rfl, ?_, nofun,
      ?_, ?_, ⟨fun _ => late.mp passed, fun _ => rfl⟩, fun _ => why⟩
    · rw [List.countP_eq_zero.mpr fun e mem => by rw [(silent e mem).1]; exact Bool.false_ne_true]
      exact Nat.zero_le 1
    · rw [hist, (mute_append mute).2.2, asked]
      exact pulse.one
    · rintro ⟨e, mem, beats⟩
      rw [(silent e mem).2] at beats
      cases beats
  | @probe _ slots bytes early owed unasked hist =>
    have more : probes P v.hist = w.ses.testRequests + 1 := by
      rw [hist, ← asked]
      show (if (true && ticking (.called w.ses c :: w.hist)) = true then _ else _) = _
      rw [ticks]
      rfl
    refine ⟨[.emitted (.templated .testRequest slots bytes), .called w.ses c], pulse.recv, hist,
      Nat.le_refl 1, fun _ => .inr (by rw [more]; exact Nat.succ_pos _),
      by rw [more, unasked], ?_, up early, nofun⟩
    rintro ⟨e, mem, beats⟩
    obtain rfl | mem := List.mem_cons.mp mem
    · cases beats
    · obtain rfl := List.mem_singleton.mp mem
      cases beats
  | @beat _ slots bytes early owed unasked hist =>
    have same : probes P v.hist = w.ses.testRequests := by
      rw [hist, ← asked]
      rfl
    refine ⟨[.emitted (.templated .heartbeat slots bytes), .called w.ses c], pulse.recv, hist,
      Nat.le_refl 1, fun _ => .inl ?_, by rw [same]; exact pulse.one, fun _ => by rw [same, unasked],
      up early, nofun⟩
    rw [hist, show sentAt (.emitted (.templated .heartbeat slots bytes) :: .called w.ses c :: w.hist) =
      clockAt (.called w.ses c :: w.hist) from rfl, clock]
    exact Nat.lt_add_of_pos_right agreed
  | rest early owed calm hist =>
    have same : probes P v.hist = w.ses.testRequests := by rw [hist, asked]
    have last : sentAt v.hist = w.ses.lastSentMs := by
      rw [hist]
      exact paced.sent.symm
    refine ⟨[.called w.ses c], pulse.recv, hist, Nat.zero_le 1, fun _ => ?_,
      by rw [same]; exact pulse.one, ?_, up early, nofun⟩
    · rw [same, last]
      by_cases unasked : w.ses.testRequests = 0
      · have quick : n - w.ses.lastSentMs < w.ses.beatMs := calm unasked
        exact .inl (by omega)
      · exact .inr (Nat.pos_of_ne_zero unasked)
    · rintro ⟨e, mem, beats⟩
      obtain rfl := List.mem_singleton.mp mem
      cases beats

open Setting in
theorem heartbeat_discipline_silent :
    (loggedOn.perform acceptor (.tick (now + 72000))).2 = .dropped := by
  have same : loggedOn.ses.cfg = config := by decide +kernel
  obtain ⟨t, new, heard, -, -, -, -, -, drops, -⟩ := heartbeat_discipline (P := acceptor)
    loggedOn_reachable (same.symm ▸ Config.acceptor_sized _ _ _) (by decide +kernel) (by decide +kernel)
    (by decide +kernel) (by decide +kernel) (by decide +kernel) (c := .tick (now + 72000)) rfl
  have at_ : heardAt acceptor loggedOn.hist = some now := by decide +kernel
  have beat : loggedOn.ses.beatMs = 30000 := by decide +kernel
  obtain rfl := Option.some.inj (at_.symm.trans heard)
  rw [drops, beat]
  omega

end World

end Runs

/-! ### Sessions that stay silent -/

namespace Setting

/-- An initiator that the counterparty logs on before its own first tick on the connection. -/
def greeted : World Silent NoJournal :=
  (fresh initiator config).run initiator [.tick now, .connect, .receivedWith (logon 1)]

/-- An initiator whose version does not fit: it has no templates. -/
def mute : Config :=
  { Config.initiator (ascii "FIXT.1.1") (ascii "S") (ascii "T") with
    defaultApplVerId := some (Name.new maxApplVerIdLen (ascii "FIX.5.0SP2-as-amended")) }

/-- It is logged on all the same. -/
def muted : World Silent NoJournal :=
  (fresh initiator mute).run initiator [.connect, .tick now,
    .receivedWith (frame (ascii "FIXT.1.1") [(35, ascii "A"), (49, ascii "T"), (56, ascii "S"),
      (34, ascii "1"), (52, stamp), (98, ascii "0"), (108, ascii "30"), (1137, ascii "9")])]

end Setting

open Setting in
/-- A session that has sent nothing yet stays silent on a clock near its beginning; one without
templates stays silent on any; and an ordered TestRequest does not hold a Heartbeat back. -/
theorem silent_sessions :
    (greeted.ses.state = .loggedOn ∧ greeted.ses.beatMs = 30000 ∧
      (greeted.perform initiator (.tick 5)).2 = .up ∧
      ((greeted.perform initiator (.tick 5)).1.hist.any Event.emits) = false) ∧
    (muted.ses.state = .loggedOn ∧ muted.ses.beatMs = 30000 ∧
      (muted.perform initiator (.tick (now + 30000))).2 = .up ∧
      ((muted.perform initiator (.tick (now + 30000))).1.hist.any Event.emits) = false) ∧
    ((since (fun e => (e.heard acceptor).isSome)
        (loggedOn.run acceptor [.sendTestRequest (ascii "X"), .tick (now + 30000)]).hist).any
          Event.asks ∧
      (loggedOn.run acceptor [.sendTestRequest (ascii "X"), .tick (now + 30000)]).hist.head?.any
        Event.beats) := by
  decide +kernel

end Fixbolt
