import Fixbolt.Properties.Count
import Fixbolt.Session.Errands

/-!
# What makes a session logged on

* `Harmless`: received bytes that leave a session which is not logged on as little logged on, with
  what it holds;
* `receivedWith_off`, `perform_off`: they do, and so does every call that receives nothing;
* `perform_dead`: only a new connection brings a session back to life;
* `perform_cfg`: no call changes the configuration.
-/

namespace Fixbolt

open Relation

/-- Do bytes say `35=A` to a session? -/
def asLogon (P : Params) (b : Bytes) : Bool := (viewOf P b).get 35 == some (ascii "A")

/-- The `34=` of bytes, to a session. -/
def numberOf (P : Params) (b : Bytes) : Option ℕ := Inbound.number (viewOf P b) 34

/-- Can no number that the session meets in these bytes, or in those it holds, take its count around
to 0? -/
def CountsOn (P : Params) (s : Session) (b : Bytes) : Prop :=
  s.nextIn ≠ 0 ∧ numberOf P b ≠ some u32Max ∧ ∀ q ∈ s.queue, numberOf P q.bytes ≠ some u32Max

/-- The session takes `b` for no Logon, and holds none. One that lies in a free slot does not matter
as long as the count is not 0, the number of free slots. -/
structure Harmless (P : Params) (s : Session) (b : Bytes) : Prop where
  received : ∀ m, s.arrives P b = some m → m.isLogon = false
  held : ∀ q ∈ s.queue, asLogon P q.bytes → q.seq = 0 ∧ CountsOn P s b

/-- A message that says it is a Logon says `35=A`. -/
theorem asLogon_of_isLogon {P : Params} {s : Session} {b : Bytes} {m : Inbound}
    (arr : s.arrives P b = some m) (logon : m.isLogon) : asLogon P b := by
  have said : m.msgType = ((viewOf P b).get 35).getD [] :=
    congrArg Inbound.msgType (arrives_read arr).2
  have named : m.msgType = ascii "A" := by simpa [Inbound.isLogon] using logon
  rw [named] at said
  unfold asLogon
  cases there : (viewOf P b).get 35 with
  | none =>
    rw [there] at said
    exact absurd said (by decide)
  | some v =>
    rw [there] at said
    rw [show v = ascii "A" from said.symm]
    exact beq_self_eq_true _

theorem isLogon_of_asLogon {P : Params} {s : Session} {b : Bytes} {m : Inbound}
    (arr : s.arrives P b = some m) (logon : asLogon P b) : m.isLogon := by
  have named : m.msgType = ((viewOf P b).get 35).getD [] :=
    congrArg Inbound.msgType (arrives_read arr).2
  rw [eq_of_beq (by exact logon : ((viewOf P b).get 35 == some (ascii "A")) = true)] at named
  simpa [Inbound.isLogon] using named

/-! ### Along the moves of a call -/

theorem mem_release {l : Ledger} {i : ℕ} {q : Queued} (mem : q ∈ (l.release i).queue) :
    ∃ p ∈ l.queue, q = p ∨ q = { p with seq := 0 } := by
  obtain ⟨k, at_⟩ := List.mem_iff_getElem?.mp mem
  rw [Ledger.release, List.getElem?_modify] at at_
  obtain ⟨p, there, rfl⟩ := Option.map_eq_some_iff.mp at_
  refine ⟨p, List.mem_of_getElem? there, ?_⟩
  split
  · exact .inr rfl
  · exact .inl rfl

/-- Books of a session that is not logged on and meets no Logon. `z` says whether a Logon lies in one
of its free slots. -/
structure Off (P : Params) (z : Prop) (x : Books) : Prop where
  off : x.led.state ≠ .loggedOn
  now : ∃ s b, judging x.hist = some (s, b) ∧ (∀ m, s.arrives P b = some m → m.isLogon = false) ∧
    (z → numberOf P b ≠ some u32Max)
  slots : ∀ q ∈ x.led.queue, asLogon P q.bytes → q.seq = 0 ∧ z
  numbers : z → ∀ q ∈ x.led.queue, numberOf P q.bytes ≠ some u32Max
  count : z → x.led.nextIn ≠ 0

namespace Off

variable {P : Params} {R : Rules} {z : Prop} {x y : Books}

/-- The message under judgement stays the same, and so does what is held. -/
theorem keep (o : Off P z x) (off : y.led.state ≠ .loggedOn)
    (same : judging y.hist = judging x.hist) (queue : y.led.queue = x.led.queue)
    (count : z → y.led.nextIn ≠ 0) : Off P z y where
  off := off
  now := by rw [same]; exact o.now
  slots := by rw [queue]; exact o.slots
  numbers := by rw [queue]; exact o.numbers
  count := count

theorem ended {l : Ledger} {h : List Event} (o : Off P z ⟨l, h⟩) (l' : Ledger)
    (queue : l'.queue = l.queue) (count : z → l'.nextIn ≠ 0) (why : DropReason) (resets : Option Session) :
    Off P z (Books.ended l' h why resets) := by
  refine o.keep ?_ (World.judging_ended_books _ _ _ _) ?_ fun stale => ?_
  · cases resets <;> exact nofun
  · cases resets <;> exact queue
  · cases resets with
    | none => exact count stale
    | some t => exact Nat.one_ne_zero

/-- The number under judgement does not take the count around. -/
theorem passed {s : Session} {b : Bytes} {n : ℕ} (o : Off P z x)
    (now : judging x.hist = some (s, b)) (number : numberOf P b = some n) (stale : z) :
    wrapU32 (n + 1) ≠ 0 := by
  obtain ⟨s', b', now', -, fits⟩ := o.now
  obtain ⟨rfl, rfl⟩ := Prod.mk.inj (Option.some.inj (now'.symm.trans now))
  have not_max : n ≠ u32Max := fun eq => fits stale (by rw [number, eq])
  have small : n < u32Size := by
    obtain ⟨text, -, reads⟩ := Option.bind_eq_some_iff.mp number
    exact asU32?_lt reads
  have succ : n + 1 < u32Size := by
    have : u32Max + 1 = u32Size := by decide
    omega
  rw [wrapU32, Nat.mod_eq_of_lt succ]
  exact Nat.succ_ne_zero n

theorem no_logon {s : Session} {b : Bytes} {m : Inbound} (o : Off P z x)
    (now : judging x.hist = some (s, b)) (arr : s.arrives P b = some m) : m.isLogon = false := by
  obtain ⟨s', b', now', none, -⟩ := o.now
  obtain ⟨rfl, rfl⟩ := Prod.mk.inj (Option.some.inj (now'.symm.trans now))
  exact none m arr

/-- A held message is judged. -/
theorem take {l : Ledger} {h : List Event} {s : Session} {b : Bytes} {i : ℕ} (o : Off P z ⟨l, h⟩)
    (due : l.queue[i]? = some ⟨l.nextIn, b⟩) : Off P z ⟨l.release i, .judged s b :: h⟩ where
  off := o.off
  now := by
    have there : ⟨l.nextIn, b⟩ ∈ l.queue := List.mem_of_getElem? due
    refine ⟨s, b, judging_judged s b, fun m arr => ?_, fun stale => o.numbers stale _ there⟩
    by_contra logon
    rw [Bool.not_eq_false] at logon
    obtain ⟨free, stale⟩ := o.slots _ there (asLogon_of_isLogon arr logon)
    exact o.count stale free
  slots := by
    intro q mem logon
    obtain ⟨p, there, rfl | rfl⟩ := mem_release mem
    · exact o.slots q there logon
    · exact ⟨rfl, (o.slots p there logon).2⟩
  numbers := by
    intro stale q mem
    obtain ⟨p, there, rfl | rfl⟩ := mem_release mem
    · exact o.numbers stale q there
    · exact o.numbers stale p there
  count := o.count

/-- A message is held. -/
theorem hold {l : Ledger} {h : List Event} {s : Session} {b : Bytes} {m : Inbound} {i : ℕ}
    (o : Off P z ⟨l, h⟩) (now : judging h = some (s, b)) (arr : s.arrives P b = some m) :
    Off P z ⟨l.hold i m.seq b, .held m.seq b :: h⟩ where
  off := o.off
  now := by rw [judging_held]; exact o.now
  slots := by
    intro q mem logon
    obtain there | rfl := List.mem_or_eq_of_mem_set mem
    · exact o.slots q there logon
    · have taken := isLogon_of_asLogon arr logon
      rw [o.no_logon now arr] at taken
      exact absurd taken (by decide)
  numbers := by
    intro stale q mem
    obtain there | rfl := List.mem_or_eq_of_mem_set mem
    · exact o.numbers stale q there
    · obtain ⟨s', b', now', -, fits⟩ := o.now
      obtain ⟨rfl, rfl⟩ := Prod.mk.inj (Option.some.inj (now'.symm.trans now))
      exact fits stale
  count := o.count

/-- What a move keeps, in a call that has begun to judge. -/
theorem act (o : Off P z x) (a : Acting P R x y) : Off P z y := by
  have within := o.now
  cases a with
  | connected => simp at within
  | connectedAnew => simp at within
  | closed => simp at within
  | ticked => simp at within
  | rolled => simp at within
  | setOut => simp at within
  | setIn => simp at within
  | announced => simp at within
  | originated => simp at within
  | judged => simp at within
  | sent => exact o.keep o.off (judging_emitted _) rfl o.count
  | spoke owes => exact o.keep nofun rfl rfl o.count
  | saidGoodbye live => exact o.keep nofun rfl rfl o.count
  | cut closing => exact o.keep nofun rfl rfl o.count
  | ended closing shows => exact o.ended _ rfl o.count _ _
  | judgedHeld drains within alive due shows => exact o.take due
  | restarted => exact o.keep o.off (judging_restarted _) rfl fun _ => Nat.one_ne_zero
  | loggedOn now arr logon alive =>
    rw [o.no_logon now arr] at logon
    exact absurd logon (by decide)
  | owed => exact o.keep o.off rfl rfl o.count
  | held now arr => exact o.hold now arr
  | asked => exact o.keep o.off (judging_emitted _) rfl o.count
  | @askFailed l h s b m => exact Off.ended o (l.missing m.seq) rfl o.count _ _
  | advanced now arr => exact o.keep o.off rfl rfl (o.passed now (arrives_seq arr))
  | @skipped l h s b seq before live bad high =>
    refine o.keep o.off rfl rfl (o.passed (judging_judged s b) ?_)
    unfold badTagNumber at bad
    split at bad
    · exact (Option.ite_none_right_eq_some.mp bad).2
    · cases bad
  | moved before arr reset fault new up =>
    exact o.keep o.off rfl rfl fun _ => Nat.ne_zero_of_lt up
  | @peerLeft l h s b m why resets now arr =>
    exact Off.ended o (l.advance m.seq) rfl (o.passed now (arrives_seq arr)) _ _
  | delivered before arr =>
    exact o.keep o.off (judging_delivered _ _) rfl (o.passed (judging_judged _ _) (arrives_seq arr))
  | replied =>
    exact o.keep o.off ((judging_emitted _).trans (judging_stored _ _ _)) rfl o.count

theorem replay (o : Off P z x) (a : Replaying x y) : Off P z y := by
  cases a with
  | filled => exact o.keep o.off (judging_emitted _) rfl o.count
  | replayed => exact o.keep o.off (judging_emitted _) rfl o.count
  | progressed => exact o.keep o.off rfl rfl o.count
  | gaveUp => exact o.ended _ rfl o.count _ _

end Off

/-! ### Calls -/

section Calls

variable {P : Params} {A J : Type} [Application A] [Journal J] {w : World A J} {b : Bytes}

omit [Application A] [Journal J] in
/-- Where harmless bytes begin. -/
theorem Harmless.off (harmless : Harmless P w.ses b) (off : w.ses.state ≠ .loggedOn) :
    Off P (∃ q ∈ w.ses.queue, asLogon P q.bytes) ⟨w.ses.ledger, .judged w.ses b :: w.hist⟩ where
  off := off
  now := by
    refine ⟨w.ses, b, judging_judged _ _, harmless.received, ?_⟩
    rintro ⟨q, mem, logon⟩
    exact (harmless.held q mem logon).2.2.1
  slots q mem logon := ⟨(harmless.held q mem logon).1, q, mem, logon⟩
  numbers := by
    rintro ⟨q, mem, logon⟩
    exact (harmless.held q mem logon).2.2.2
  count := by
    rintro ⟨q, mem, logon⟩
    exact (harmless.held q mem logon).2.1

theorem acts_off {R : Rules} {z : Prop} {x y : Books} (acts : ReflTransGen (Acting P R) x y)
    (off : Off P z x) : Off P z y := by
  induction acts with
  | refl => exact off
  | tail _ act ih => exact ih.act act

theorem replays_off {z : Prop} {x y : Books} (replays : ReflTransGen Replaying x y)
    (off : Off P z x) : Off P z y := by
  induction replays with
  | refl => exact off
  | tail _ act ih => exact ih.replay act

theorem receivedInner_off (off : w.ses.state ≠ .loggedOn) (harmless : Harmless P w.ses b) :
    (w.receivedInner P b).1.ses.state ≠ .loggedOn := by
  have free : World.Answers A Rules.free.answers := fun _ _ _ _ _ => trivial
  unfold World.receivedInner
  split
  · exact off
  · rename_i live
    have alive : w.ses.Alive := not_or.mp live
    have led := World.judgeOrEnd_leads (P := P) (R := .free) free alive b
    have judged := acts_off led.acts (harmless.off off)
    generalize w.judgeOrEnd P b = r at led judged ⊢
    obtain ⟨v, link⟩ := r
    cases link with
    | dropped => exact judged.off
    | up =>
      obtain ⟨s, b', now, -⟩ := judged.now
      have within : (judging v.hist).isSome := Option.isSome_of_eq_some now
      have rest := World.drain_leads (P := P) (R := .free) free trivial queued v (led.link.mp rfl)
        within
      have drained := acts_off rest.acts judged
      dsimp only
      generalize v.drain P queued = q at drained ⊢
      obtain ⟨u, link⟩ := q
      exact (replays_off (Scene.advanceReplay_replaying u.journal u.toScene link) drained).off

/-- **Harmless bytes log nothing on.** -/
theorem receivedWith_off (off : w.ses.state ≠ .loggedOn) (harmless : Harmless P w.ses b) :
    (w.perform P (.receivedWith b)).1.ses.state ≠ .loggedOn := by
  unfold World.perform World.dispatch
  rw [show ∀ r : World A J, r.ses = r.toScene.ses from fun _ => rfl, World.receivedWith_scene]
  exact receivedInner_off (w := { w with hist := .called w.ses (.receivedWith b) :: w.hist }) off
    harmless

/-- What a move keeps, in a call that receives nothing. -/
theorem acting_off {R : Rules} {x y : Books} (a : Acting P R x y) (idle : judging x.hist = none)
    (off : x.led.state ≠ .loggedOn) : y.led.state ≠ .loggedOn := by
  cases a with
  | connected =>
    show (if P.speaksFirst then State.mustLogon else State.awaitingLogon) ≠ .loggedOn
    split <;> exact nofun
  | connectedAnew =>
    show (if P.speaksFirst then State.mustLogon else State.awaitingLogon) ≠ .loggedOn
    split <;> exact nofun
  | closed => exact nofun
  | spoke => exact nofun
  | saidGoodbye => exact nofun
  | cut => exact nofun
  | @ended l h why resets => cases resets <;> exact nofun
  | @askFailed l h s b m resets => cases resets <;> exact nofun
  | @peerLeft l h s b m why resets => cases resets <;> exact nofun
  | loggedOn now => exact absurd (now.symm.trans idle) nofun
  | _ => exact off

/-- **A call that receives nothing logs nothing on.** -/
theorem perform_off {c : Call} (own : c.incoming = none) (fits : c.fits)
    (off : w.ses.state ≠ .loggedOn) : (w.perform P c).1.ses.state ≠ .loggedOn := by
  have calls := World.perform_calls (P := P) (R := .free) (fun _ _ _ _ _ => trivial) trivial w c fits
  have kept : (judging (w.perform P c).1.books.hist = none ∧
      (w.perform P c).1.books.led.state ≠ .loggedOn) := by
    refine calls.induction (I := fun x => judging x.hist = none ∧ x.led.state ≠ .loggedOn)
      (K := fun _ => True) ⟨rfl, off⟩ ?_ ?_ fun _ _ => trivial
    · rintro u v act call - ⟨idle, off⟩
      exact ⟨acting_idle act call own idle, acting_off act idle off⟩
    · rintro u v act - ⟨idle, off⟩
      refine ⟨replaying_idle act idle, ?_⟩
      cases act with
      | @gaveUp l h resets => cases resets <;> exact nofun
      | _ => exact off
  exact kept.2

/-- What a move keeps of a dead session, in a call that is no new connection. -/
theorem acting_dead {R : Rules} {x y : Books} {s : Session} {c : Call} (a : Acting P R x y)
    (call : callOf x.hist = some (s, c)) (other : c ≠ .connect) (dead : ¬ x.led.Alive) :
    ¬ y.led.Alive := by
  cases a with
  | connected => exact absurd (congrArg Prod.snd (Option.some.inj call)).symm other
  | connectedAnew => exact absurd (congrArg Prod.snd (Option.some.inj call)).symm other
  | closed => exact fun alive => alive.1 rfl
  | spoke owes => exact absurd ⟨by simp [owes], by simp [owes]⟩ dead
  | saidGoodbye live => exact absurd ⟨by simp [live], by simp [live]⟩ dead
  | cut => exact fun alive => alive.2 rfl
  | ended => exact Books.ended_dead _ _ _ _
  | askFailed => exact Books.ended_dead _ _ _ _
  | peerLeft => exact Books.ended_dead _ _ _ _
  | loggedOn now arr logon alive => exact absurd alive dead
  | _ => exact dead

/-- **Only a new connection brings a session back to life.** -/
theorem perform_dead {c : Call} (other : c ≠ .connect) (fits : c.fits) (dead : ¬ w.ses.Alive) :
    ¬ (w.perform P c).1.ses.Alive := by
  have calls := World.perform_calls (P := P) (R := .free) (fun _ _ _ _ _ => trivial) trivial w c fits
  refine calls.induction (I := fun x => ¬ x.led.Alive) (K := fun _ => True) dead ?_ ?_
    fun _ _ => trivial
  · intro u v act call _ dead
    exact acting_dead act call other dead
  · intro u v act _ dead
    cases act with
    | gaveUp => exact Books.ended_dead _ _ _ _
    | _ => exact dead

end Calls

/-! ### The configuration -/

section Cfg

variable {P : Params} {L : Prop} {K : ℕ → Bytes → Prop} {w w' : Scene}

theorem endSession_cfg (w : Scene) (why : DropReason) : (w.endSession why).ses.cfg = w.ses.cfg := by
  unfold Scene.endSession
  dsimp only
  split <;> rfl

theorem Deed.cfg (d : Deed P L K w w') : w'.ses.cfg = w.ses.cfg := by
  cases d with
  | adjusted same => exact congrArg (·.1) same
  | said ordinary up sent => exact (Scene.send_sent sent).cfg
  | restarted => rfl
  | noted why up =>
    show (w.ses.noteDropReason why).cfg = w.ses.cfg
    unfold Session.noteDropReason
    split <;> rfl
  | spoke owes same => exact congrArg (·.1) same
  | loggedOn alive same => exact congrArg (·.1) same
  | ended => exact endSession_cfg w _

theorem Leaving.cfg (d : Leaving P L w w') : w'.ses.cfg = w.ses.cfg := by
  cases d with
  | cut alive same => exact same.1.trans (Scene.trySend_cfg _ _)
  | waits live sent => exact (Scene.send_sent sent).cfg
  | answers peer up sent => exact (endSession_cfg _ _).trans (Scene.send_sent sent).cfg

theorem acts_cfg (acts : ReflTransGen (Act P L K) w w') : w'.ses.cfg = w.ses.cfg := by
  induction acts with
  | refl => rfl
  | tail _ act ih =>
    cases act with
    | deed d => exact d.cfg.trans ih
    | leaving d => exact d.cfg.trans ih

theorem deeds_cfg (deeds : ReflTransGen (Deed P L K) w w') : w'.ses.cfg = w.ses.cfg :=
  acts_cfg (ReflTransGen.mono (fun _ _ => .deed) _ _ deeds)

theorem turns_cfg {A J : Type} [Journal J] {u v : World A J}
    (turns : ReflTransGen (World.Turn P L) u v) : v.ses.cfg = u.ses.cfg := by
  induction turns with
  | refl => rfl
  | tail _ turn ih =>
    cases turn with
    | judges => exact ih
    | does d =>
      cases d with
      | act h app => exact (acts_cfg (.single h)).trans ih
      | wrote => exact ih

theorem tickInner_cfg (w : Scene) (n : ℕ) : (w.tickInner P n).1.ses.cfg = w.ses.cfg :=
  (acts_cfg (World.tickRolled_acts (L := True) (K := NoResend) _ n)).trans (w.roll_rolled n).cfg

theorem tickAfterInner_cfg {A J : Type} [Journal J] (u : World A J) (n : ℕ) :
    (u.tickAfterInner P n).1.ses.cfg = u.ses.cfg :=
  (deeds_cfg (L := True) (Scene.advanceReplay_deeds _ _ fun up => Scene.tickRolled_up up)).trans
    (tickInner_cfg u.toScene n)

theorem logoutNow_cfg (w : Scene) (text : Bytes) : (w.logoutNow P text).1.ses.cfg = w.ses.cfg := by
  unfold Scene.logoutNow
  split
  · rfl
  · exact Scene.trySend_cfg _ _

theorem sendSequenceReset_cfg (w : Scene) (n : ℕ) :
    (w.sendSequenceReset P n).1.ses.cfg = w.ses.cfg := by
  unfold Scene.sendSequenceReset
  split
  · rfl
  · split
    · rfl
    · rename_i v sent
      obtain ⟨bytes, rfl⟩ := Scene.sendAs_eq sent
      rfl

theorem told_cfg {A J : Type} [Journal J] (r : World A J × Link) :
    (World.thenTell r).1.ses.cfg = r.1.ses.cfg :=
  congrArg (fun s : Scene => s.ses.cfg) (World.tellJournal_scene r.1)

/-- **No call changes the configuration.** -/
theorem perform_cfg {A J : Type} [Application A] [Journal J] (w : World A J) (c : Call) :
    (w.perform P c).1.ses.cfg = w.ses.cfg := by
  unfold World.perform
  show _ = ({ w with hist := .called w.ses c :: w.hist } : World A J).ses.cfg
  generalize ({ w with hist := .called w.ses c :: w.hist } : World A J) = k
  have ordered (which : Which) (extra : List (ℕ × Bytes))
      (ordinary : which ≠ .logout ∧ which ≠ .gapFill) :
      (k.sendOrdered P which extra).1.ses.cfg = k.ses.cfg :=
    deeds_cfg (L := True) (K := NoResend) (Scene.sendOrdered_deeds which extra ordinary)
  have logout (text : Bytes) : (k.beginLogout P text).1.ses.cfg = k.ses.cfg :=
    acts_cfg (L := True) (K := NoResend) (Scene.beginLogout_runs text)
  have closed (why : DropReason) : (k.disconnectWith why).1.ses.cfg = k.ses.cfg := by
    unfold Scene.disconnectWith
    split
    · exact endSession_cfg _ why
    · rfl
  cases c with
  | connect =>
    show (k.connect P).1.ses.cfg = k.ses.cfg
    unfold Scene.connect
    dsimp only
    split <;> rfl
  | disconnect => exact closed .transportClosed
  | disconnectWith why => exact closed why
  | noteDropReason why =>
    show (k.ses.noteDropReason why).cfg = k.ses.cfg
    unfold Session.noteDropReason
    split <;> rfl
  | tick n => exact tickInner_cfg (k.setResolution 0 .millis) n
  | tickAt n sub => exact tickInner_cfg (k.setResolution sub .nanos) n
  | tickWith n =>
    exact (told_cfg _).trans (tickAfterInner_cfg { k with toScene := k.setResolution 0 .millis } n)
  | tickAtWith n sub =>
    exact (told_cfg _).trans (tickAfterInner_cfg { k with toScene := k.setResolution sub .nanos } n)
  | received b =>
    have alone := turns_cfg (World.receivedInner_turns (P := P)
      (u := (⟨k.toScene, .silent, .noJournal⟩ : World Silent NoJournal)) b)
    rwa [show ∀ r : World Silent NoJournal, r.ses = r.toScene.ses from fun _ => rfl,
      ← World.receivedWith_scene] at alone
  | receivedWith b =>
    have next := turns_cfg (World.receivedInner_turns (P := P) (u := k) b)
    rwa [show ∀ r : World A J, r.ses = r.toScene.ses from fun _ => rfl,
      ← World.receivedWith_scene] at next
  | sendApplication msg =>
    show (k.sendApplication P msg).1.ses.cfg = k.ses.cfg
    unfold World.sendApplication
    split
    · rfl
    · split
      · rfl
      · dsimp only
        split
        · rfl
        · refine (congrArg (fun s : Scene => s.ses.cfg) (World.tellJournal_scene _)).trans ?_
          rfl
  | sendHeartbeat => exact ordered .heartbeat _ (by decide)
  | sendTestRequest id => exact ordered .testRequest _ (by decide)
  | sendResendRequest from_ upTo => exact ordered .resendRequest _ (by decide)
  | beginLogout text => exact logout text
  | beginLogoutWith text => exact (told_cfg _).trans (logout text)
  | logoutNow text => exact logoutNow_cfg k.toScene text
  | logoutNowWith text => exact (told_cfg _).trans (logoutNow_cfg k.toScene text)
  | setNextOut n =>
    show (k.setNextOut n).1.ses.cfg = k.ses.cfg
    unfold Scene.setNextOut
    split <;> rfl
  | setNextIn n =>
    show (k.setNextIn n).1.ses.cfg = k.ses.cfg
    unfold Scene.setNextIn
    split <;> rfl
  | sendSequenceReset n => exact sendSequenceReset_cfg k.toScene n
  | sendSequenceResetWith n => exact (told_cfg _).trans (sendSequenceReset_cfg k.toScene n)

end Cfg

end Fixbolt
