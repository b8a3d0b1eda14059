import Fixbolt.Session.Deeds

/-!
# What a call does, as a journal sees it

Of a session its journal sees the number that goes out next, and the messages stored and resent.
An `Errand` is one step of a world in that respect.

* `perform_errands`: every call is a run of errands, and then what the journal is told.
-/

namespace Fixbolt

open History Relation

/-- An event that spends no number, and neither resends, stores nor restarts anything. -/
def Event.idle : Event → Bool
  | emitted (.replayed _ _) => false
  | emitted e => e.possDup
  | called _ _ | stored _ _ _ | restarted _ => false
  | _ => true

/-- A call that is given the journal. -/
def Call.holdsJournal : Call → Bool
  | .receivedWith _ | .tickWith _ | .tickAtWith _ _ | .sendApplication _ | .beginLogoutWith _
  | .logoutNowWith _ | .sendSequenceResetWith _ => true
  | _ => false

/-- One step of a world, as its journal sees it. -/
inductive Errand (P : Params) {A J : Type} [Journal J] : World A J → World A J → Prop
  | idle {w : World A J} {v : Scene} {app : A} (out : v.ses.nextOut = w.ses.nextOut)
      (hist : v.hist = w.hist ∨ ∃ e, e.idle ∧ v.hist = e :: w.hist) :
      Errand P w { w with toScene := v, app := app }
  | resent {w : World A J} {v : Scene} {n : ℕ} {bytes : Bytes}
      (out : v.ses.nextOut = w.ses.nextOut) (kept : Resends P w.journal n bytes)
      (hist : v.hist = .emitted (.replayed n bytes) :: w.hist) :
      Errand P w { w with toScene := v }
  | spent {w : World A J} {v : Scene} {which : Which} {slots : List (ℕ × Bytes)} {bytes : Bytes}
      (fresh : which ≠ .gapFill) (number : slots.lookup 34 = some (renderU32 w.ses.nextOut))
      (out : v.ses.nextOut = wrapU32 (w.ses.nextOut + 1))
      (hist : v.hist = .emitted (.templated which slots bytes) :: w.hist) :
      Errand P w { w with toScene := v }
  | announced {w : World A J} {v : Scene} {s : Session} {c : Call} {h : List Event} {n : ℕ}
      {slots : List (ℕ × Bytes)} {bytes : Bytes} (found : w.hist = .called s c :: h)
      (announces : c.announces = some n) (pos : n ≠ 0) (before : w.ses.nextOut = s.nextOut)
      (fresh : slots.lookup 43 = none) (out : v.ses.nextOut = n)
      (hist : v.hist = .emitted (.templated .gapFill slots bytes) :: w.hist) :
      Errand P w { w with toScene := v }
  | set {w : World A J} {v : Scene} {s : Session} {h : List Event} {n : ℕ}
      (found : w.hist = .called s (.setNextOut n) :: h) (pos : n ≠ 0) (out : v.ses.nextOut = n)
      (hist : v.hist = w.hist) : Errand P w { w with toScene := v }
  | restarted {w : World A J} {v : Scene} (out : v.ses.nextOut = 1)
      (hist : v.hist = .restarted v.ses :: w.hist) : Errand P w { w with toScene := v }
  | wrote {w : World A J} {v : Scene} {e : Emission} {bytes : Bytes} {j : J} {kept : Bool}
      (fresh : e = .reply w.ses.nextOut bytes ∨ e = .originated w.ses.nextOut bytes)
      (put : Journal.put w.journal w.ses.nextOut bytes = (j, kept) ∨ j = w.journal ∧ kept = false)
      (out : v.ses.nextOut = wrapU32 (w.ses.nextOut + 1))
      (hist : v.hist = .emitted e :: .stored w.ses.nextOut bytes kept :: w.hist) :
      Errand P w { w with toScene := v, journal := j }

/-- An errand only adds to the history. -/
theorem Errand.grows {P : Params} {A J : Type} [Journal J] {x y : World A J} (h : Errand P x y) : ∃ new, y.hist = new ++ x.hist := by
  cases h with
  | idle out hist =>
    obtain hist | ⟨e, -, hist⟩ := hist
    · exact ⟨[], hist⟩
    · exact ⟨[e], hist⟩
  | resent out kept hist => exact ⟨[_], hist⟩
  | spent fresh number out hist => exact ⟨[_], hist⟩
  | announced found announces pos before fresh out hist => exact ⟨[_], hist⟩
  | set found pos out hist => exact ⟨[], hist⟩
  | restarted out hist => exact ⟨[_], hist⟩
  | wrote fresh put out hist => exact ⟨[_, _], hist⟩

namespace World

variable {P : Params} {L : Prop} {A J : Type} [Journal J] {u w : World A J}

/-- A run of errands. -/
def Errands (P : Params) (w w' : World A J) : Prop := ReflTransGen (Errand P) w w'

theorem Errands.idle {v : Scene} (out : v.ses.nextOut = u.ses.nextOut)
    (hist : v.hist = u.hist ∨ ∃ e, e.idle ∧ v.hist = e :: u.hist) :
    Errands P u { u with toScene := v } :=
  .single (.idle out hist)

theorem Errands.trans {x : World A J} (h : Errands P u w) (h' : Errands P w x) : Errands P u x :=
  ReflTransGen.trans h h'

theorem endSession_errands (u : World A J) (why : DropReason) :
    Errands P u { u with toScene := u.endSession why } := by
  unfold Scene.endSession
  dsimp only
  split
  · rename_i resets
    refine .tail (.single (@Errand.idle P A J _ u ⟨u.ses, .ended why :: u.hist⟩ u.app rfl
      (.inr ⟨.ended why, rfl, rfl⟩))) (.restarted ?_ rfl)
    simp [Scene.logRestart, Scene.log, Scene.upd, Session.endWith, resets]
  · rename_i keeps
    refine .idle ?_ (.inr ⟨.ended why, rfl, rfl⟩)
    simp [Scene.log, Scene.upd, Session.endWith, keeps]

theorem send_errands {which : Which} {extra : List (ℕ × Bytes)} {s : Scene} {t : Session}
    (fresh : which ≠ .gapFill) (sent : u.send P which extra = some s)
    (out : t.nextOut = s.ses.nextOut) :
    Errands P u { u with toScene := ⟨t, s.hist⟩ } := by
  obtain ⟨bytes, rfl⟩ := Scene.sendAs_eq sent
  refine .single (@Errand.spent P A J _ u ⟨t, _⟩ which (u.ses.slotsFor none extra) bytes fresh ?_ out rfl)
  exact Session.slotsFor_number _ _

theorem idle_of_quiet {e : Event} (quiet : e.quiet) :
    e.idle ∨ ∃ n bytes, e = .emitted (.replayed n bytes) := by
  cases e with
  | emitted e =>
    cases e with
    | replayed n bytes => exact .inr ⟨n, bytes, rfl⟩
    | _ => exact .inl quiet
  | _ => first | exact .inl rfl | cases quiet

theorem Deed.errands {v : Scene} (d : Deed P L (Resends P u.journal) u.toScene v) :
    Errands P u { u with toScene := v } := by
  cases d with
  | adjusted same hist =>
    have out : v.ses.nextOut = u.ses.nextOut := congrArg (·.2.2.2) same
    obtain hist | ⟨e, quiet, within, hist⟩ := hist
    · exact .idle out (.inl hist)
    · obtain idle | ⟨n, bytes, rfl⟩ := idle_of_quiet quiet
      · exact .idle out (.inr ⟨e, idle, hist⟩)
      · exact .single (.resent out within hist)
  | said ordinary up sent => exact send_errands ordinary.2 sent rfl
  | restarted => exact .single (.restarted rfl rfl)
  | noted why =>
    have out : (u.ses.noteDropReason why).nextOut = u.ses.nextOut := by
      unfold Session.noteDropReason
      split <;> rfl
    exact .idle out (.inl rfl)
  | spoke owes same => exact .idle (congrArg (·.2.2.2) same) (.inl rfl)
  | loggedOn alive same => exact .idle (congrArg (·.2.2.2) same) (.inr ⟨.loggedOn, rfl, rfl⟩)
  | ended => exact endSession_errands u _

theorem Leaving.errands {v : Scene} (d : Leaving P L u.toScene v) :
    Errands P u { u with toScene := v } := by
  cases d with
  | @cut t extra alive same state =>
    have out := same.2
    unfold Scene.trySend at out ⊢
    cases sent : u.send P .logout extra with
    | none =>
      rw [sent] at out
      exact .idle out (.inl rfl)
    | some s =>
      rw [sent] at out
      exact send_errands (by decide) sent out
  | waits live sent => exact send_errands (by decide) sent rfl
  | @answers s peer up sent =>
    exact (send_errands (by decide) sent rfl).trans
      (endSession_errands { u with toScene := s } .peerLogout)

theorem Act.errands {v : Scene} (a : Act P L (Resends P u.journal) u.toScene v) :
    Errands P u { u with toScene := v } := by
  cases a with
  | deed d => exact Deed.errands d
  | leaving d => exact Leaving.errands d

theorem acts_errands {v : Scene} (acts : ReflTransGen (Act P L (Resends P u.journal)) u.toScene v) :
    Errands P u { u with toScene := v } := by
  induction acts with
  | refl => exact .refl
  | @tail x y _ act ih => exact ih.trans (Act.errands (u := { u with toScene := x }) act)

theorem deeds_errands {v : Scene}
    (deeds : ReflTransGen (Deed P L (Resends P u.journal)) u.toScene v) :
    Errands P u { u with toScene := v } :=
  acts_errands (ReflTransGen.mono (fun _ _ => .deed) _ _ deeds)

theorem Does.errands (d : Does P L u w) : Errands P u w := by
  cases d with
  | act h app => exact (Act.errands h).trans (.single (.idle rfl (.inl rfl)))
  | wrote up fresh => exact .single (.wrote fresh (.inl rfl) rfl rfl)

theorem turns_errands (turns : ReflTransGen (Turn P L) u w) : Errands P u w := by
  induction turns with
  | refl => exact .refl
  | tail _ turn ih =>
    cases turn with
    | judges b alive => exact .tail ih (.idle rfl (.inr ⟨.judged _ b, rfl, rfl⟩))
    | does h => exact ih.trans (Does.errands h)

/-- What is done without the journal is done under the eyes of any. -/
theorem alone_errands {x y : World Silent NoJournal} (app : A) (j : J) (h : Errands P x y) :
    Errands P (⟨x.toScene, app, j⟩ : World A J) ⟨y.toScene, app, j⟩ := by
  induction h with
  | refl => exact .refl
  | tail _ errand ih =>
    refine .tail ih ?_
    cases errand with
    | idle out hist => exact .idle out hist
    | resent out kept =>
      obtain ⟨bytes, stamp, holds, -⟩ := kept
      cases holds
    | spent fresh number out hist => exact .spent fresh number out hist
    | announced found announces pos before fresh out hist =>
      exact .announced found announces pos before fresh out hist
    | set found pos out hist => exact .set found pos out hist
    | restarted out hist => exact .restarted out hist
    | wrote fresh put out hist =>
      have lost : _ = false := put.elim (fun h => (congrArg Prod.snd h).symm) And.right
      exact .wrote fresh (.inr ⟨rfl, lost⟩) out hist

/-! ### Calls -/

theorem connect_errands (u : World A J) :
    Errands P u { u with toScene := (u.connect P).1 } := by
  unfold Scene.connect
  dsimp only
  split
  · rename_i restarts
    refine .single (.restarted ?_ rfl)
    simp [Scene.logRestart, Scene.log, Scene.upd, Session.connected, restarts]
  · rename_i keeps
    refine .idle ?_ (.inl rfl)
    simp [Scene.upd, Session.connected, keeps]

theorem disconnectWith_errands (u : World A J) (why : DropReason) :
    Errands P u { u with toScene := (u.disconnectWith why).1 } := by
  unfold Scene.disconnectWith
  split
  · exact endSession_errands u why
  · exact .idle rfl (.inl rfl)

theorem roll_errands (u : World A J) (n : ℕ) :
    Errands P u { u with toScene := (u.upd fun s => { s with nowMs := n }).roll n } := by
  have r := u.roll_rolled n
  generalize (u.upd fun s => { s with nowMs := n }).roll n = v at r ⊢
  obtain ⟨-, out, -, hist⟩ | ⟨-, out, -, hist⟩ := r.counts
  · exact .single (.restarted out hist)
  · exact .idle out (.inl hist)

theorem tickRolled_acts (w : Scene) (n : ℕ) {K : ℕ → Bytes → Prop} :
    ReflTransGen (Act P L K) w (w.tickRolled P n).1 := by
  by_cases shut : w.ses.state = .loggedOn ∧ w.ses.cfg.schedule.contains n = false
  · unfold Scene.tickRolled
    rw [if_pos ⟨shut.1, by simp [shut.2]⟩]
    exact .single (.leaving (Scene.closeSchedule_leaves shut.1))
  · refine ReflTransGen.mono (fun _ _ => .deed) _ _ (Scene.tickRolled_deeds n fun live => ?_)
    by_contra closed
    exact shut ⟨live, by simpa using closed⟩

theorem tickInner_errands (u : World A J) (n : ℕ) :
    Errands P u { u with toScene := (u.tickInner P n).1 } :=
  (roll_errands u n).trans (acts_errands
    (u := { u with toScene := (u.upd fun s => { s with nowMs := n }).roll n })
    (tickRolled_acts (L := True) _ n))

theorem tickAfterInner_errands (u : World A J) (n : ℕ) :
    Errands P u (u.tickAfterInner P n).1 :=
  (tickInner_errands u n).trans (deeds_errands (L := True)
    (u := { u with toScene := (u.tickInner P n).1 })
    (Scene.advanceReplay_deeds _ _ fun up => Scene.tickRolled_up up))

theorem sendOrdered_errands (u : World A J) (which : Which) (extra : List (ℕ × Bytes))
    (ordinary : which ≠ .logout ∧ which ≠ .gapFill) :
    Errands P u { u with toScene := (u.sendOrdered P which extra).1 } :=
  deeds_errands (L := True) (Scene.sendOrdered_deeds which extra ordinary)

theorem logoutNow_errands (u : World A J) (text : Bytes) :
    Errands P u { u with toScene := (u.logoutNow P text).1 } := by
  by_cases alive : u.ses.Alive
  · exact acts_errands (L := True) (Scene.logoutNow_runs text alive)
  · unfold Scene.logoutNow
    rw [if_pos (by simpa [Session.Alive, or_iff_not_imp_left] using alive)]
    exact .refl

theorem sendSequenceReset_errands (u : World A J) {s : Session} {c : Call} {h : List Event} {n : ℕ}
    (found : u.hist = .called s c :: h) (announces : c.announces = some n)
    (before : u.ses.nextOut = s.nextOut) :
    Errands P u { u with toScene := (u.sendSequenceReset P n).1 } := by
  unfold Scene.sendSequenceReset
  split
  · exact .refl
  · rename_i pos
    split
    · exact .refl
    · rename_i v sent
      obtain ⟨bytes, rfl⟩ := Scene.sendAs_eq sent
      refine .single (.announced found announces pos before ?_ rfl rfl)
      rw [Session.slotsFor_lookup _ _ _ (by decide)]
      rfl

theorem setNextOut_errands (u : World A J) {s : Session} {h : List Event} {n : ℕ}
    (found : u.hist = .called s (.setNextOut n) :: h) :
    Errands P u { u with toScene := (u.setNextOut n).1 } := by
  unfold Scene.setNextOut
  split
  · exact .refl
  · exact .single (.set found ‹_› rfl rfl)

theorem setNextIn_errands (u : World A J) (n : ℕ) :
    Errands P u { u with toScene := (u.setNextIn n).1 } := by
  unfold Scene.setNextIn
  split
  · exact .refl
  · exact .idle rfl (.inl rfl)

theorem setResolution_errands (u : World A J) (sub : ℕ) (resolution : Precision) :
    Errands P u { u with toScene := u.setResolution sub resolution } :=
  .idle rfl (.inl rfl)

/-- What a journal is told after a call: the numbers spent, those consumed as well, or nothing. -/
inductive Told : Call → World A J → World A J → Prop
  | both {u : World A J} (b : Bytes) : Told (.receivedWith b) u u.markIn.tellJournal
  | spent {c : Call} {u : World A J} (own : c.incoming = none) : Told c u u.tellJournal
  | nothing {c : Call} {u : World A J} (holds : c.holdsJournal = false) : Told c u u
  | untouched {c : Call} {u : World A J} {h : List Event} (own : c.incoming = none)
      (found : u.hist = .called u.ses c :: h) : Told c u u

theorem noteDropReason_errands (u : World A J) (why : DropReason) :
    Errands P u { u with toScene := u.upd (·.noteDropReason why) } := by
  refine .idle ?_ (.inl rfl)
  unfold Scene.upd Session.noteDropReason
  dsimp only
  split <;> rfl

theorem sendApplication_errands {k : World A J} {s : Session} {msg : Bytes} {h : List Event}
    (found : k.hist = .called s (.sendApplication msg) :: h) (before : s = k.ses) :
    ∃ u : World A J, Errands P k u ∧ Told (.sendApplication msg) u (k.sendApplication P msg).1 := by
  have untouched : Told (.sendApplication msg) k k := .untouched rfl (before ▸ found)
  unfold World.sendApplication
  split
  · exact ⟨k, .refl, untouched⟩
  · split
    · exact ⟨k, .refl, untouched⟩
    · dsimp only
      split
      · exact ⟨k, .refl, untouched⟩
      · exact ⟨_, .single (.wrote (.inr rfl) (.inl rfl) rfl rfl), .spent rfl⟩

variable [Application A]

/-- **Every call is a run of errands**, and then what the journal is told. -/
theorem perform_errands (w : World A J) (c : Call) :
    ∃ u : World A J, Errands P { w with hist := .called w.ses c :: w.hist } u ∧
      Told c u (w.perform P c).1 := by
  unfold World.perform
  generalize hk : ({ w with hist := .called w.ses c :: w.hist } : World A J) = k
  have found : k.hist = .called w.ses c :: w.hist := by rw [← hk]
  have before : k.ses = w.ses := by rw [← hk]
  cases c with
  | connect => exact ⟨_, connect_errands k, .nothing rfl⟩
  | disconnect => exact ⟨_, disconnectWith_errands k _, .nothing rfl⟩
  | disconnectWith why => exact ⟨_, disconnectWith_errands k why, .nothing rfl⟩
  | noteDropReason why => exact ⟨_, noteDropReason_errands k why, .nothing rfl⟩
  | tick n =>
    exact ⟨_, (setResolution_errands k 0 .millis).trans (tickInner_errands _ n), .nothing rfl⟩
  | tickAt n sub =>
    exact ⟨_, (setResolution_errands k sub .nanos).trans (tickInner_errands _ n), .nothing rfl⟩
  | tickWith n =>
    exact ⟨_, (setResolution_errands k 0 .millis).trans (tickAfterInner_errands _ n), .spent rfl⟩
  | tickAtWith n sub =>
    exact ⟨_, (setResolution_errands k sub .nanos).trans (tickAfterInner_errands _ n), .spent rfl⟩
  | received b =>
    have turns := receivedInner_turns (P := P)
      (u := (⟨k.toScene, .silent, .noJournal⟩ : World Silent NoJournal)) b
    have alone := alone_errands k.app k.journal (turns_errands turns)
    rw [← receivedWith_scene] at alone
    exact ⟨_, alone, .nothing rfl⟩
  | receivedWith b => exact ⟨_, turns_errands (receivedInner_turns b), .both b⟩
  | sendApplication msg => exact sendApplication_errands found before.symm
  | sendHeartbeat => exact ⟨_, sendOrdered_errands k .heartbeat _ (by decide), .nothing rfl⟩
  | sendTestRequest id => exact ⟨_, sendOrdered_errands k .testRequest _ (by decide), .nothing rfl⟩
  | sendResendRequest from_ upTo =>
    exact ⟨_, sendOrdered_errands k .resendRequest _ (by decide), .nothing rfl⟩
  | beginLogout text =>
    exact ⟨_, acts_errands (L := True) (Scene.beginLogout_runs text), .nothing rfl⟩
  | beginLogoutWith text =>
    exact ⟨_, acts_errands (L := True) (Scene.beginLogout_runs text), .spent rfl⟩
  | logoutNow text => exact ⟨_, logoutNow_errands k text, .nothing rfl⟩
  | logoutNowWith text => exact ⟨_, logoutNow_errands k text, .spent rfl⟩
  | setNextOut n => exact ⟨_, setNextOut_errands k found, .nothing rfl⟩
  | setNextIn n => exact ⟨_, setNextIn_errands k n, .nothing rfl⟩
  | sendSequenceReset n =>
    exact ⟨_, sendSequenceReset_errands k found rfl (by rw [before]), .nothing rfl⟩
  | sendSequenceResetWith n =>
    exact ⟨_, sendSequenceReset_errands k found rfl (by rw [before]), .spent rfl⟩

end World

end Fixbolt
