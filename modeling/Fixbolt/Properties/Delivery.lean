import Fixbolt.Properties.Count

/-!
# What reaches the application

A message that is delivered on a logged-on session has passed every check: `delivered_checked`.
The clock that its `52=` is held against is the last tick: `clock_is_lastTick`.
-/

namespace Fixbolt

open History Relation

variable {P : Params} {R : Rules}

/-! ### The clock -/

/-- The time an event sets the clock to. -/
def Event.ticks : Event → Option ℕ
  | .called _ c => c.ticks
  | _ => none

/-- The time of the last tick. -/
def lastTick (h : List Event) : Option ℕ := newest Event.ticks h

theorem lastTick_cons {e : Event} {h : List Event} (he : e.isCall = false) :
    lastTick (e :: h) = lastTick h := by
  refine newest_cons_of_none ?_ h
  cases e <;> first | rfl | cases he

theorem lastTick_called {s : Session} {c : Call} {h : List Event} (hc : c.ticks = none) :
    lastTick (.called s c :: h) = lastTick h :=
  newest_cons_of_none (show (Event.called s c).ticks = none from hc) h

theorem GoesOn.lastTick {h h' : List Event} (g : GoesOn h h') :
    Fixbolt.lastTick h' = Fixbolt.lastTick h := by
  induction g with
  | refl => rfl
  | cons he _ ih => rw [lastTick_cons he, ih]

theorem Books.ended_nowMs (l : Ledger) (h : List Event) (why : DropReason)
    (resets : Option Session) : (Books.ended l h why resets).led.nowMs = l.nowMs := by
  cases resets <;> rfl

/-- Only a tick moves the clock. -/
theorem acting_nowMs {x y : Books} (h : Acting P R x y) :
    y.led.nowMs = x.led.nowMs ∨
      ∃ s c, callOf x.hist = some (s, c) ∧ c.ticks = some y.led.nowMs := by
  cases h with
  | ticked tick => exact .inr ⟨_, _, rfl, tick⟩
  | rolled tick => exact .inr ⟨_, _, rfl, tick⟩
  | ended => exact .inl (Books.ended_nowMs _ _ _ _)
  | askFailed => exact .inl (Books.ended_nowMs _ _ _ _)
  | peerLeft => exact .inl (Books.ended_nowMs _ _ _ _)
  | _ => exact .inl rfl

theorem replaying_nowMs {x y : Books} (h : Replaying x y) : y.led.nowMs = x.led.nowMs := by
  cases h with
  | gaveUp => exact Books.ended_nowMs _ _ _ _
  | _ => rfl

theorem replays_nowMs {x y : Books} (h : ReflTransGen Replaying x y) :
    y.led.nowMs = x.led.nowMs := by
  induction h with
  | refl => rfl
  | tail _ step ih => exact (replaying_nowMs step).trans ih

/-- The rest of a tick leaves the clock at the tick. -/
theorem acts_nowMs {x y : Books} (h : ReflTransGen (Acting P R) x y) {s : Session} {c : Call}
    {n : ℕ} (now : callOf x.hist = some (s, c)) (tick : c.ticks = some n) (at_ : x.led.nowMs = n) :
    y.led.nowMs = n ∧ callOf y.hist = some (s, c) := by
  induction h with
  | refl => exact ⟨at_, now⟩
  | tail _ step ih =>
    obtain ⟨at_, now⟩ := ih
    refine ⟨?_, step.goesOn.callOf.trans now⟩
    obtain same | ⟨t, d, hd, tick'⟩ := acting_nowMs step
    · exact same.trans at_
    · obtain ⟨-, rfl⟩ : s = t ∧ c = d := by simpa [now] using hd
      exact Option.some.inj (tick'.symm.trans tick)

namespace Scene

variable {w : Scene}

theorem roll_clock (w : Scene) (n : ℕ) :
    ((w.upd fun s => { s with nowMs := n }).roll n).ses.nowMs = n ∧
      callOf ((w.upd fun s => { s with nowMs := n }).roll n).hist = callOf w.hist := by
  have rolled : ∀ s : Session, (s.rolled n).nowMs = s.nowMs := by
    intro s
    unfold Session.rolled
    split <;> rfl
  unfold roll
  dsimp only
  split
  · exact ⟨rolled _, callOf_cons rfl⟩
  · exact ⟨rolled _, rfl⟩

theorem tickInner_clock {s : Session} {c : Call} {h : List Event} {n : ℕ} (k : Called w s c h)
    (tick : c.ticks = some n) (rolls : w.ses.rolls n = s.rolls n) :
    (w.tickInner P n).1.ses.nowMs = n := by
  obtain ⟨at_, now⟩ := w.roll_clock n
  obtain ⟨-, closing⟩ := roll_acts (P := P) (R := .free) k tick rolls
  have called : callOf w.hist = some (s, c) := by
    rw [k.hist]
    rfl
  exact (acts_nowMs (tickRolled_acts (R := .free) n closing) (now.trans called) tick
    at_).1

theorem tickAny_clock {s : Session} {c : Call} {h : List Event} {n : ℕ} (k : Called w s c h)
    (same : s = w.ses) (tick : c.ticks = some n) (sub : ℕ) (resolution : Precision) :
    ((w.setResolution sub resolution).tickInner P n).1.ses.nowMs = n :=
  tickInner_clock (w := w.setResolution sub resolution) ⟨k.hist, k.ledger⟩ tick (same ▸ rfl)

end Scene

section Clock

variable {A J : Type} [Application A] [Journal J]

omit [Application A] in
theorem tickWithAny_clock {w : World A J} {s : Session} {c : Call} {h : List Event} {n : ℕ}
    (k : Called w.toScene s c h) (same : s = w.ses) (tick : c.ticks = some n) (sub : ℕ)
    (resolution : Precision) :
    (World.thenTell (({ w with
      toScene := w.setResolution sub resolution } : World A J).tickAfterInner P n)).1.ses.nowMs =
      n := by
  rw [World.thenTell, World.tellJournal_scene]
  exact (replays_nowMs (Scene.advanceReplay_replaying _ _ _)).trans
    (Scene.tickAny_clock k same tick sub resolution)

/-- The clock after a call: the tick's, or what it was. -/
theorem perform_nowMs (w : World A J) (c : Call) (fits : c.fits) :
    (w.perform P c).1.ses.nowMs = c.ticks.getD w.ses.nowMs := by
  cases hc : c.ticks with
  | none =>
    refine (World.perform_calls (P := P) (R := .free) (fun _ _ _ _ _ => trivial) trivial w c
      fits).induction (I := fun x => x.led.nowMs = w.ses.nowMs) (K := fun _ => True) rfl ?_ ?_
      fun _ _ => trivial
    · intro u v step now _ ih
      obtain same | ⟨t, d, hd, tick⟩ := acting_nowMs step
      · exact same.trans ih
      · have hcd : c = d := congrArg Prod.snd (Option.some.inj (now.symm.trans hd))
        simp [← hcd, hc] at tick
    · exact fun u v step _ ih => (replaying_nowMs step).trans ih
  | some n =>
    unfold World.perform
    generalize hv : ({ w with hist := .called w.ses c :: w.hist } : World A J) = v
    have same : w.ses = v.ses := by rw [← hv]
    have k : Called v.toScene w.ses c w.hist := ⟨by rw [← hv], by rw [← hv]⟩
    cases c with
    | tick t =>
      obtain rfl : t = n := Option.some.inj hc
      exact Scene.tickAny_clock k same rfl 0 .millis
    | tickAt t sub =>
      obtain rfl : t = n := Option.some.inj hc
      exact Scene.tickAny_clock k same rfl sub .nanos
    | tickWith t =>
      obtain rfl : t = n := Option.some.inj hc
      exact tickWithAny_clock k same rfl 0 .millis
    | tickAtWith t sub =>
      obtain rfl : t = n := Option.some.inj hc
      exact tickWithAny_clock k same rfl sub .nanos
    | _ => cases hc

end Clock

/-! ### What was checked of a message -/

/-- What a logged-on session asks of every message: sender, target, time and dictionary. -/
def Session.sound (P : Params) (s : Session) (b : Bytes) : Bool :=
  let view := viewOf P b
  s.senderOk view && s.targetOk view && s.timeOk view &&
    (validateWith P.dict view ((view.get 35).getD []) s.cfg.validation).isNone

/-- What holds of a message `b` when the session `t` hands it over, after the events `old`. -/
structure Checked (P : Params) (t : Session) (b : Bytes) (old : List Event) : Prop where
  loggedOn : .loggedOn ∈ sinceConnect old
  sender : t.senderOk (viewOf P b)
  target : t.targetOk (viewOf P b)
  time : t.timeOk (viewOf P b)
  tick : lastTick old = some t.nowMs
  open_ : t.cfg.schedule.contains t.nowMs
  valid : validateWith P.dict (viewOf P b) (((viewOf P b).get 35).getD []) t.cfg.validation = none

/-- Every delivered message was checked. -/
def DeliveredChecked (P : Params) : Event → List Event → Prop
  | .delivered t b, old => Checked P t b old
  | _, _ => True

/-- An application message that a session is to hand over next. -/
def Session.nextApplication (P : Params) (s : Session) (b : Bytes) : Bool :=
  (s.arrives P b).any fun m => m.isApplication && m.seq == s.nextIn

/-- No application message is in order while this end owes its Logon, and none that is not sound
while it waits for the answer to its Logout. -/
def Event.judgedAgreed (P : Params) : Event → Bool
  | .judged s b =>
    !s.nextApplication P b || s.state != .mustLogon && (s.state != .loggingOut || s.sound P b)
  | _ => true

/-- A session that exchanged Logons noted it on this connection. -/
def Agreed (x : Books) : Prop :=
  x.led.state = .loggedOn ∨ x.led.state = .loggingOut → .loggedOn ∈ sinceConnect x.hist

theorem Agreed.of_state {x y : Books} (h : Agreed x) (g : GoesOn x.hist y.hist)
    (state : y.led.state = .loggedOn ∨ y.led.state = .loggingOut →
      x.led.state = .loggedOn ∨ x.led.state = .loggingOut) : Agreed y :=
  fun hy => g.mem_sinceConnect (h (state hy))

theorem Agreed.dead {y : Books} (h : ¬ y.led.Alive) : Agreed y :=
  fun hy => absurd (by rcases hy with hy | hy <;> simp [Ledger.Alive, hy]) h

theorem acting_agreed {x y : Books} (h : Acting P R x y) (ih : Agreed x) : Agreed y := by
  have goes := h.goesOn
  cases h with
  | connected => cases P.speaksFirst <;> simp [Agreed, Ledger.connected]
  | connectedAnew => cases P.speaksFirst <;> simp [Agreed, Ledger.connected, Ledger.restart]
  | closed => exact .dead fun alive => alive.1 rfl
  | spoke => simp [Agreed]
  | saidGoodbye live => exact ih.of_state goes fun _ => .inl live
  | cut => exact .dead fun alive => alive.2 rfl
  | ended => exact .dead (Books.ended_dead _ _ _ _)
  | askFailed => exact .dead (Books.ended_dead _ _ _ _)
  | peerLeft => exact .dead (Books.ended_dead _ _ _ _)
  | loggedOn =>
    intro _
    rw [sinceConnect_cons rfl]
    exact List.mem_cons_self
  | _ => exact ih.of_state goes id

theorem replaying_agreed {x y : Books} (h : Replaying x y) (ih : Agreed x) : Agreed y := by
  have goes := h.goesOn
  cases h with
  | gaveUp => exact .dead (Books.ended_dead _ _ _ _)
  | _ => exact ih.of_state goes id

/-- A logged-on session that finds no fault in a message asked all its questions. -/
theorem sound_of_faultOn_none {s : Session} {b : Bytes} (live : s.state = .loggedOn)
    (fault : s.faultOn P b = none) : s.sound P b := by
  unfold Session.faultOn Session.faultOf at fault
  rw [if_neg (by simp [live])] at fault
  split at fault
  · cases fault
  · simp only [Option.orElse_eq_orElse, Option.orElse_eq_or, Option.or_eq_none_iff] at fault
    obtain ⟨scan, -, missing, groups, members, identity, time⟩ := fault
    obtain ⟨sender, target⟩ : s.senderOk (viewOf P b) = true ∧ s.targetOk (viewOf P b) = true := by
      by_contra h
      rw [if_neg (by simpa using h)] at identity
      cases identity
    have near : s.timeOk (viewOf P b) = true := by
      by_contra h
      rw [if_neg h] at time
      cases time
    simp [Session.sound, sender, target, near, validateWith, validateFault, scan, missing, groups,
      members]

/-- What is known of a session that refuses nothing outright. -/
theorem refusalOf_none {s : Session} {view : MessageView} (h : s.refusalOf view = none) :
    s.nowMs ≠ 0 ∧ s.cfg.schedule.contains s.nowMs ∧
      ¬ (s.state = .awaitingLogon ∧ view.get 35 ≠ some (ascii "A")) := by
  unfold Session.refusalOf at h
  split at h
  · cases h
  · split at h
    · cases h
    · split at h
      · cases h
      · exact ⟨‹_›, by simpa using ‹¬ (!_) = true›, ‹_›⟩

theorem arrives_refusal {s : Session} {b : Bytes} {m : Inbound} (arr : s.arrives P b = some m) :
    s.refusalOf (viewOf P b) = none := by
  unfold Session.arrives at arr
  dsimp only at arr
  split at arr
  · split at arr
    · rename_i all
      exact all.2.2.1
    · cases arr
  · cases arr

/-- A sound message on a session that agreed was checked. -/
theorem arrives_checked {s t : Session} {b : Bytes} {m : Inbound} {h : List Event}
    (arr : s.arrives P b = some m) (sound : s.sound P b) (agreed : .loggedOn ∈ sinceConnect h)
    (tick : s.nowMs = (lastTick h).getD 0) (cfg : t.cfg = s.cfg) (now : t.nowMs = s.nowMs) :
    Checked P t b h := by
  simp only [Session.sound, Bool.and_eq_true, Option.isNone_iff_eq_none] at sound
  obtain ⟨⟨⟨sender, target⟩, time⟩, valid⟩ := sound
  obtain ⟨ticked, open_, -⟩ := refusalOf_none (arrives_refusal arr)
  refine ⟨agreed, ?_, ?_, ?_, ?_, ?_, ?_⟩
  · simpa only [Session.senderOk, cfg] using sender
  · simpa only [Session.targetOk, cfg] using target
  · simpa only [Session.timeOk, cfg, now] using time
  · rw [now, tick] at *
    cases hl : lastTick h with
    | none => simp [hl] at ticked
    | some n => rfl
  · rw [cfg, now]
    exact open_
  · rw [cfg]
    exact valid

theorem arrives_not_awaiting {s : Session} {b : Bytes} {m : Inbound}
    (arr : s.arrives P b = some m) (app : m.isApplication) : s.state ≠ .awaitingLogon := by
  intro state
  have type : m.msgType ≠ ascii "A" := by
    simpa [Inbound.isLogon] using (Inbound.eq_of_isApplication app).1
  rw [(arrives_read arr).2] at type
  refine (refusalOf_none (arrives_refusal arr)).2.2 ⟨state, fun logon => type ?_⟩
  simp [Inbound.read, logon]

/-! ### Along a call -/

/-- Along a call of `c`: what was delivered was checked. A call that receives something finds the
Logons noted and the clock at the last tick; any other judges nothing. -/
structure Overseen (P : Params) (c : Call) (x : Books) : Prop where
  delivered : Always (DeliveredChecked P) x.hist
  ready : c.incoming = none ∧ judging x.hist = none ∨
    c.incoming.isSome ∧ Agreed x ∧ x.led.nowMs = (lastTick x.hist).getD 0

theorem delivered_ended {h : List Event} (ok : Always (DeliveredChecked P) h) (l : Ledger)
    (why : DropReason) (resets : Option Session) :
    Always (DeliveredChecked P) (Books.ended l h why resets).hist := by
  cases resets with
  | none => exact ⟨trivial, ok⟩
  | some t => exact ⟨trivial, trivial, ok⟩

theorem acting_delivered {x y : Books} {c : Call} (h : Acting P R x y) (o : Overseen P c x)
    (agreed : ∀ e ∈ sinceCall y.hist, e.judgedAgreed P) : Always (DeliveredChecked P) y.hist := by
  have ok := o.delivered
  cases h with
  | @delivered l h s t b m before arr app fault inOrder shows cfg alive =>
    refine ⟨?_, ok⟩
    have now : t.nowMs = s.nowMs :=
      (congrArg Ledger.nowMs shows).trans (congrArg Ledger.nowMs before).symm
    have state : l.state = s.state := (congrArg Ledger.state before).symm
    obtain ⟨-, noted, clock⟩ := o.ready.resolve_left fun idle => by simp at idle
    have next : s.nextApplication P b := by
      have count : s.nextIn = l.nextIn := congrArg Ledger.nextIn before
      simp [Session.nextApplication, arr, app, inOrder, count]
    have judged := agreed (.judged s b) (by
      rw [sinceCall_cons rfl, sinceCall_cons rfl]
      exact List.mem_cons_of_mem _ List.mem_cons_self)
    simp only [Event.judgedAgreed, next, Bool.not_true, Bool.false_or, Bool.and_eq_true,
      bne_iff_ne, ne_eq, Bool.or_eq_true] at judged
    obtain ⟨spoken, waits⟩ := judged
    have waiting := arrives_not_awaiting arr app
    rw [← before, Session.ledger_alive] at alive
    have live : s.state = .loggedOn ∨ s.state = .loggingOut := by
      cases hs : s.state <;> simp_all [Session.Alive]
    have sound : s.sound P b := by
      obtain live | leaving := live
      · exact sound_of_faultOn_none live fault
      · exact waits.resolve_left (not_not.mpr leaving)
    exact arrives_checked arr sound (noted (by simpa [state] using live))
      ((congrArg Ledger.nowMs before).trans clock) cfg now
  | ended => exact delivered_ended ok _ _ _
  | askFailed => exact delivered_ended ok _ _ _
  | peerLeft => exact delivered_ended ok _ _ _
  | originated => exact ⟨trivial, trivial, ok⟩
  | replied => exact ⟨trivial, trivial, ok⟩
  | connectedAnew => exact ⟨trivial, ok⟩
  | rolled => exact ⟨trivial, ok⟩
  | announced => exact ⟨trivial, ok⟩
  | sent => exact ⟨trivial, ok⟩
  | judged => exact ⟨trivial, ok⟩
  | judgedHeld => exact ⟨trivial, ok⟩
  | restarted => exact ⟨trivial, ok⟩
  | loggedOn => exact ⟨trivial, ok⟩
  | held => exact ⟨trivial, ok⟩
  | asked => exact ⟨trivial, ok⟩
  | _ => exact ok

theorem replaying_delivered {x y : Books} (h : Replaying x y)
    (ok : Always (DeliveredChecked P) x.hist) : Always (DeliveredChecked P) y.hist := by
  cases h with
  | gaveUp => exact delivered_ended ok _ _ _
  | progressed => exact ok
  | _ => exact ⟨trivial, ok⟩

theorem Call.ticks_of_incoming {c : Call} (h : c.incoming.isSome) : c.ticks = none := by
  cases c <;> first | rfl | cases h

theorem acting_overseen {x y : Books} {s : Session} {c : Call} (h : Acting P R x y)
    (now : callOf x.hist = some (s, c)) (agreed : ∀ e ∈ sinceCall y.hist, e.judgedAgreed P)
    (o : Overseen P c x) : Overseen P c y := by
  refine ⟨acting_delivered h o agreed, ?_⟩
  obtain ⟨quiet, idle⟩ | ⟨receives, noted, clock⟩ := o.ready
  · exact .inl ⟨quiet, acting_idle h now quiet idle⟩
  · refine .inr ⟨receives, acting_agreed h noted, ?_⟩
    rw [h.goesOn.lastTick, ← clock]
    refine (acting_nowMs h).resolve_right ?_
    rintro ⟨t, d, hd, tick⟩
    obtain ⟨-, rfl⟩ : s = t ∧ c = d := by simpa [now] using hd
    simp [Call.ticks_of_incoming receives] at tick

theorem replaying_overseen {x y : Books} {c : Call} (h : Replaying x y) (o : Overseen P c x) :
    Overseen P c y := by
  refine ⟨replaying_delivered h o.delivered, ?_⟩
  obtain ⟨quiet, idle⟩ | ⟨receives, noted, clock⟩ := o.ready
  · exact .inl ⟨quiet, replaying_idle h idle⟩
  · refine .inr ⟨receives, replaying_agreed h noted, ?_⟩
    rw [h.goesOn.lastTick, replaying_nowMs h]
    exact clock

/-! ### Along a run -/

section Run

variable {A J : Type} [Application A] [Journal J]

theorem perform_agreed (w : World A J) (c : Call) (fits : c.fits) (ih : Agreed w.books) :
    Agreed (w.perform P c).1.books := by
  by_cases hc : (Event.called w.ses c).isConnect = true
  · obtain rfl : c = .connect := by cases c <;> first | rfl | cases hc
    have state : (w.perform P .connect).1.ses.state =
        if P.speaksFirst then .mustLogon else .awaitingLogon := by
      unfold World.perform World.dispatch World.lift Scene.connect
      dsimp only
      split <;> rfl
    intro agreed
    simp only [Scene.books, Session.ledger, state] at agreed
    cases hs : P.speaksFirst <;> simp [hs] at agreed
  · refine (World.perform_calls (P := P) (R := .free) (fun _ _ _ _ _ => trivial) trivial w c
      fits).induction (I := Agreed) (K := fun _ => True) ?_ (fun _ _ step _ _ => acting_agreed step)
      (fun _ _ step _ => replaying_agreed step) fun _ _ => trivial
    intro agreed
    rw [sinceConnect_cons (by simpa using hc)]
    exact List.mem_cons_of_mem _ (ih agreed)

/-- The clock is the last tick's. -/
theorem perform_lastTick (w : World A J) (c : Call) (fits : c.fits)
    (ih : w.ses.nowMs = (lastTick w.hist).getD 0) :
    (w.perform P c).1.ses.nowMs = (lastTick (w.perform P c).1.hist).getD 0 := by
  have goes : lastTick (w.perform P c).1.hist = lastTick (.called w.ses c :: w.hist) :=
    (World.perform_calls (P := P) (R := .free) (fun _ _ _ _ _ => trivial) trivial w c
      fits).induction (I := fun x => lastTick x.hist = lastTick (.called w.ses c :: w.hist))
      (K := fun _ => True) rfl (fun _ _ step _ _ same => step.goesOn.lastTick.trans same)
      (fun _ _ step _ same => step.goesOn.lastTick.trans same) fun _ _ => trivial
  rw [perform_nowMs w c fits, goes]
  cases hc : c.ticks with
  | none => rw [lastTick_called hc, Option.getD_none, ih]
  | some n => rw [lastTick, newest_cons_of_some (show (Event.called w.ses c).ticks = some n from hc)]; rfl

/-- What a reachable session and its history are known by. -/
theorem reachable_overseen {w : World A J} (h : World.Reachable P w)
    (agreed : ∀ e ∈ w.hist, e.judgedAgreed P) :
    Always (DeliveredChecked P) w.hist ∧ Agreed w.books ∧
      w.ses.nowMs = (lastTick w.hist).getD 0 := by
  induction h with
  | init hs =>
    refine ⟨trivial, .dead fun alive => alive.1 ?_, ?_⟩ <;> cases hs <;> rfl
  | @step w _ c fits ih =>
    have hist := w.perform_hist (P := P) c fits
    have here : ∀ e ∈ sinceCall (w.perform P c).1.hist, e.judgedAgreed P := fun e he =>
      agreed e (mem_of_mem_since he)
    obtain ⟨delivered, noted, clock⟩ := ih fun e he => agreed e (by
      rw [hist]
      exact List.mem_append_right _ (List.mem_cons_of_mem _ he))
    refine ⟨?_, perform_agreed w c fits noted, perform_lastTick w c fits clock⟩
    refine ((World.perform_calls (P := P) (R := .free) (fun _ _ _ _ _ => trivial) trivial w c
      fits).induction (I := Overseen P c) (K := fun e => e.judgedAgreed P) ⟨⟨trivial, delivered⟩, ?_⟩
      (fun _ _ step now ok => acting_overseen step now ok)
      (fun _ _ step _ => replaying_overseen step) here).delivered
    cases hc : c.incoming with
    | none => exact .inl ⟨rfl, rfl⟩
    | some b =>
      have receives : c.incoming.isSome := by simp [hc]
      have connects : (Event.called w.ses c).isConnect = false := by
        cases c <;> first | rfl | cases hc
      refine .inr ⟨rfl, ?_, ?_⟩
      · intro live
        rw [sinceConnect_cons connects]
        exact List.mem_cons_of_mem _ (noted live)
      · rw [lastTick_called (Call.ticks_of_incoming receives)]
        exact clock

/-- **Only checked messages of an agreed session reach the application**, where none is in order
before this end sent its Logon, nor an unsound one after it sent its Logout. -/
theorem delivered_checked {w : World A J} (h : World.Reachable P w)
    (agreed : ∀ e ∈ w.hist, e.judgedAgreed P) (new : List Event) (t : Session) (b : Bytes)
    (old : List Event) (delivered : w.hist = new ++ .delivered t b :: old) :
    Checked P t b old := by
  have all := (reachable_overseen h agreed).1
  rw [delivered] at all
  exact all.of_append

end Run

/-- Was a message delivered last? -/
def endsInDelivery : List Event → Bool
  | .delivered _ _ :: _ => true
  | _ => false

theorem exists_of_endsInDelivery {h : List Event} (hd : endsInDelivery h) :
    ∃ t b old, h = .delivered t b :: old := by
  cases h with
  | nil => cases hd
  | cons e old =>
    cases e with
    | delivered t b => exact ⟨t, b, old, rfl⟩
    | _ => cases hd

open Setting in
theorem delivered_checked_order :
    ∃ t b old, (loggedOn.run acceptor [.receivedWith (order 2)]).hist = .delivered t b :: old ∧
      Checked acceptor t b old := by
  obtain ⟨t, b, old, last⟩ := exists_of_endsInDelivery
    (h := (loggedOn.run acceptor [.receivedWith (order 2)]).hist) (by decide +kernel)
  have reached := loggedOn_reachable.run _ [.receivedWith (order 2)] (by simp [Call.fits])
  exact ⟨t, b, old, last, delivered_checked reached (by decide +kernel) [] t b old last⟩

open Setting in
/-- An order that arrives before this end sent its Logon is handed to the application. -/
theorem order_before_logon :
    ¬ ∀ w : World Silent NoJournal, World.Reachable initiator w →
      ∀ new t b old, w.hist = new ++ .delivered t b :: old → Checked initiator t b old := by
  intro h
  obtain ⟨t, b, old, last⟩ := exists_of_endsInDelivery (h := ((fresh initiator config).run initiator
    [.tick now, .connect, .receivedWith (order 1)]).hist) (by decide +kernel)
  have checked := h _ ((fresh_reachable initiator config).run _
    [.tick now, .connect, .receivedWith (order 1)] (by simp [Call.fits])) [] t b old last
  have never : Event.loggedOn ∉ ((fresh initiator config).run initiator
    [.tick now, .connect, .receivedWith (order 1)]).hist := by decide +kernel
  rw [last] at never
  exact never (List.mem_cons_of_mem _ (mem_of_mem_since checked.loggedOn))

end Fixbolt
