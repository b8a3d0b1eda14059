import Fixbolt.Session.Adding
import Fixbolt.Properties.LoggingOn
import Fixbolt.Properties.Setting

/-!
# One Logon, one answer

An acceptor answers a Logon when it accepts it, and it accepts at most one for each that it takes up.
But it may take up one Logon twice: one that runs ahead of the count is answered and held, and when
the count comes to its number it is judged again.

* `Balanced`, `reachable_balanced`: no more Logons are answered, or accepted, than were taken up;
* `TakesUpReceived`: a message taken up is the one received, or no Logon;
* `logon_answered_once`: where that holds, no more are answered, or accepted, than were received;
* `logon_answered_twice`: a run in which one Logon is answered twice.
-/

namespace Fixbolt

open History Relation

namespace Event

/-- A Logon of this end goes out. -/
def saysLogon : Event → Bool
  | emitted (.templated .logon _ _) => true
  | _ => false

/-- A Logon is accepted. -/
def agrees : Event → Bool
  | loggedOn => true
  | _ => false

/-- A Logon is taken up. -/
def takesLogon (P : Params) : Event → Bool
  | judged _ b => asLogon P b
  | _ => false

/-- A call receives a Logon. -/
def bringsLogon (P : Params) : Event → Bool
  | called _ c => c.incoming.any (asLogon P)
  | _ => false

/-- A call receives these bytes. -/
def brings (b : Bytes) : Event → Bool
  | called _ c => c.incoming == some b
  | _ => false

/-- An event within a judgement. -/
def within : Event → Bool
  | called _ _ | judged _ _ => false
  | _ => true

/-- An event within a judgement that neither accepts nor sends a Logon. -/
def aside (e : Event) : Bool := e.within && !e.saysLogon && !e.agrees

end Event

/-- No more Logons were answered, or accepted, than were taken up. -/
structure Balanced (P : Params) (h : List Event) : Prop where
  said : h.countP Event.saysLogon ≤ h.countP (Event.takesLogon P)
  agreed : h.countP Event.agrees ≤ h.countP (Event.takesLogon P)

/-- A Logon is taken up as the call that received it begins, and not out of the queue. -/
def TakesUpReceived (P : Params) : Event → List Event → Prop
  | .judged _ b, old => asLogon P b → old.head?.any (·.brings b)
  | _, _ => True

instance decidableTakesUpReceived (P : Params) : ∀ e old, Decidable (TakesUpReceived P e old)
  | .judged _ _, _ => inferInstanceAs (Decidable (_ → _))
  | .called _ _, _ | .emitted _, _ | .delivered _ _, _ | .held _ _, _ | .stored _ _ _, _
  | .loggedOn, _ | .restarted _, _ | .ended _, _ => isTrue trivial

/-- A stretch within a judgement in which at most `k` Logons are answered and accepted. -/
def AtMost (k : ℕ) (w v : Scene) : Prop :=
  ∃ new, v.hist = new ++ w.hist ∧ (∀ e ∈ new, e.within) ∧
    new.countP Event.saysLogon ≤ k ∧ new.countP Event.agrees ≤ k

theorem admits_aside : Admits fun e => e.aside where
  held _ _ := rfl
  ended _ := rfl
  restarted _ := rfl
  delivered _ _ := rfl
  stored _ _ _ := rfl
  templated which _ _ other := by cases which <;> first | rfl | exact absurd rfl other
  reply _ _ := rfl
  originated _ _ := rfl
  replayed _ _ := rfl

section Answering

variable {P : Params} {k : ℕ} {w w' v : Scene} {r : Scene × Except Refusal Link}

theorem aside_spec {e : Event} (aside : e.aside) :
    e.within ∧ e.saysLogon = false ∧ e.agrees = false := by
  simpa [Event.aside, and_assoc] using aside

namespace AtMost

theorem trans {l : ℕ} (h : AtMost k w w') (h' : AtMost l w' v) : AtMost (k + l) w v := by
  obtain ⟨new, hist, inside, said, agreed⟩ := h
  obtain ⟨more, hist', inside', said', agreed'⟩ := h'
  refine ⟨more ++ new, ?_, ?_, ?_, ?_⟩
  · rw [hist', hist, List.append_assoc]
  · intro e mem
    exact (List.mem_append.mp mem).elim (inside' e) (inside e)
  · rw [List.countP_append]
    omega
  · rw [List.countP_append]
    omega

theorem of_adds (h : Adds (fun e => e.aside) w v) : AtMost 0 w v := by
  obtain ⟨new, hist, aside⟩ := h
  refine ⟨new, hist, fun e mem => (aside_spec (aside e mem)).1, ?_, ?_⟩
  · refine (List.countP_eq_zero.mpr fun e mem => ?_).le
    simp [(aside_spec (aside e mem)).2.1]
  · refine (List.countP_eq_zero.mpr fun e mem => ?_).le
    simp [(aside_spec (aside e mem)).2.2]

theorem mono {l : ℕ} (h : AtMost k w v) (le : k ≤ l) : AtMost l w v := by
  obtain ⟨new, hist, inside, said, agreed⟩ := h
  exact ⟨new, hist, inside, said.trans le, agreed.trans le⟩

/-- What is done before and after it neither answers nor accepts a Logon. -/
theorem among (before : Adds (fun e => e.aside) w w') (h : AtMost k w' v) : AtMost k w v :=
  ((of_adds before).trans h).mono (Nat.zero_add k).le

end AtMost

/-! ### One judgement -/

theorem logonAccepted_atMost (m : Inbound) (b encrypt heartBt : Bytes) :
    AtMost 1 w (Scene.orEnd (w.logonAccepted P m b encrypt heartBt)).1 := by
  unfold Scene.logonAccepted
  dsimp only
  generalize hv : (w.upd fun s =>
    { s with beatMs := ((asU32? heartBt).map (· * 1000)).getD 0, state := .loggedOn }).log
      .loggedOn = v
  have noted : v.hist = .loggedOn :: w.hist := by
    rw [← hv]
    rfl
  generalize ho : (if P.speaksFirst then some v
    else v.send P .logon (Scene.logonAnswer v.ses m encrypt heartBt)) = answer
  cases answer with
  | none =>
    have on : AtMost 1 w v := ⟨[.loggedOn], noted, by simp [Event.within], by decide, by decide⟩
    exact on.trans (.of_adds (Scene.endSession_adds admits_aside _))
  | some u =>
    have answered : AtMost 1 w u := by
      split at ho
      · obtain rfl := Option.some.inj ho
        exact ⟨[.loggedOn], noted, by simp [Event.within], by decide, by decide⟩
      · obtain ⟨bytes, hist⟩ := (Scene.send_sent ho).hist
        rw [noted] at hist
        generalize v.ses.slotsFor none _ = slots at hist
        exact ⟨[.emitted (.templated .logon slots bytes), .loggedOn], hist, by simp [Event.within],
          by simp [List.countP_cons, Event.saysLogon], by simp [List.countP_cons, Event.agrees]⟩
    obtain ⟨⟨link, ok⟩, placed⟩ := Scene.placeLogon_added (P := P)
      (w := u.upd (·.owe w.ses.nextOut m.nextExpected)) admits_aside m b
    dsimp only
    generalize (u.upd (·.owe w.ses.nextOut m.nextExpected)).placeLogon P m b = r at ok placed ⊢
    obtain ⟨t, res⟩ := r
    obtain rfl : res = .ok link := ok
    exact answered.trans (.of_adds (.trans (.upd _) placed))

theorem judgeLogon_atMost (m : Inbound) (b : Bytes) :
    AtMost 1 w (Scene.orEnd (w.judgeLogon P m b)).1 := by
  have aside {v : Scene} (h : Adds (fun e => e.aside) w v) : AtMost 1 w v :=
    (AtMost.of_adds h).mono (Nat.zero_le 1)
  unfold Scene.judgeLogon
  split
  · exact aside (Scene.refused_added admits_aside)
  · split
    · dsimp only
      split
      · exact aside ((Adds.upd _).trans ((Adds.upd _).trans (Scene.logoutNow_adds admits_aside _)))
      · exact .among (.upd _) (logonAccepted_atMost m b _ _)
    · exact aside (Scene.refused_added admits_aside)

variable {A J : Type} [Application A] [Journal J] {x : World A J} {b : Bytes}

/-- A message that is in order. -/
theorem judgeInOrder_atMost (m : Inbound) (fault : Option Fault) :
    AtMost m.isLogon.toNat x.toScene
      (Scene.orEnd (World.seen (x.judgeInOrder P m fault b))).1 := by
  unfold World.judgeInOrder
  generalize hy : ({ x with ses := x.ses.consume m } : World A J) = y
  have taken : Adds (fun e => e.aside) x.toScene y.toScene := by
    rw [← hy]
    exact .of_hist rfl
  have other {r : Scene × Except Refusal Link} (h : Added (fun e => e.aside) y.toScene r) :
      AtMost m.isLogon.toNat x.toScene (Scene.orEnd r).1 :=
    (AtMost.of_adds (taken.trans h)).mono (Nat.zero_le _)
  cases fault with
  | some f => exact other (Scene.sendReject_adds admits_aside _)
  | none =>
    dsimp only
    unfold World.judgeAccepted
    split
    · rename_i logon
      rw [logon]
      exact .among taken (judgeLogon_atMost m b)
    · split
      · exact other (Scene.judgeLogout_added admits_aside)
      · split
        · exact other (Scene.judgeTestRequest_added admits_aside m)
        · split
          · exact other (Scene.judgeResendRequest_added m)
          · split
            · exact other (Scene.judgeSequenceReset_added admits_aside m)
            · split
              · exact other (World.judgeApplication_adds admits_aside b)
              · exact other (.refl _)

theorem judgeSequence_atMost (m : Inbound) (fault : Option Fault) :
    AtMost m.isLogon.toNat x.toScene
      (Scene.orEnd (World.seen (x.judgeSequence P m fault b))).1 := by
  unfold World.judgeSequence
  generalize hy : ({ x with toScene := x.toScene.restartOn m } : World A J) = y
  have begun : Adds (fun e => e.aside) x.toScene y.toScene := by
    rw [← hy]
    unfold Scene.restartOn
    split
    · exact .one (admits_aside.restarted _) rfl
    · exact .refl _
  have other {r : Scene × Except Refusal Link} (h : Added (fun e => e.aside) y.toScene r) :
      AtMost m.isLogon.toNat x.toScene (Scene.orEnd r).1 :=
    (AtMost.of_adds (begun.trans h)).mono (Nat.zero_le _)
  dsimp only
  split
  · exact other (Scene.judgeTooLow_adds admits_aside m)
  · split
    · exact other (Scene.tooHigh_adds admits_aside m.seq b)
    · exact .among begun (judgeInOrder_atMost m fault)

/-- **One judgement** answers at most one Logon, and none unless it takes one up. -/
theorem judgeOrEnd_atMost (b : Bytes) :
    AtMost (asLogon P b).toNat ⟨x.ses, .judged x.ses b :: x.hist⟩
      (x.judgeOrEnd P b).1.toScene := by
  have ended : (x.judgeOrEnd P b).1.toScene = (Scene.orEnd (World.seen (x.judge P b))).1 := by
    rw [← World.judgeOrEnd_eq]
    rfl
  rw [ended]
  cases arr : x.ses.arrives P b with
  | some m =>
    have same : asLogon P b = m.isLogon := by
      refine Bool.eq_iff_iff.mpr ⟨fun logon => isLogon_of_asLogon arr logon, fun logon => ?_⟩
      exact asLogon_of_isLogon arr logon
    rw [World.judge_of_arrives arr, same]
    exact .among (.of_hist rfl) (judgeSequence_atMost m _)
  | none =>
    refine (AtMost.of_adds ?_).mono (Nat.zero_le _)
    have unread := World.judge_unread arr
    generalize x.judge P b = r at unread
    cases unread with
    | ignored => exact .refl _
    | garbled => exact Scene.garbled_adds admits_aside b
    | wrongBegin => exact Scene.cut_adds admits_aside _
    | refused ledger cfg => exact .trans (.of_hist rfl) (Scene.endSession_adds admits_aside _)
    | badTag live bad => exact Scene.judgeBadTag_adds admits_aside _ _ b

/-! ### A call, and a run -/

theorem sinceConnect_within {new h : List Event} (inside : ∀ e ∈ new, e.within) :
    sinceConnect (new ++ h) = new ++ sinceConnect h := by
  refine since_append_of_forall fun e mem => ?_
  have inside := inside e mem
  cases e with
  | called s c => cases inside
  | _ => rfl

/-- Up to `k` more Logons are answered and accepted. -/
theorem AtMost.balance (h : AtMost k w v)
    (said : (sinceConnect w.hist).countP Event.saysLogon + k ≤
      (sinceConnect w.hist).countP (Event.takesLogon P))
    (agreed : (sinceConnect w.hist).countP Event.agrees + k ≤
      (sinceConnect w.hist).countP (Event.takesLogon P)) : Balanced P (sinceConnect v.hist) := by
  obtain ⟨new, hist, inside, few, once⟩ := h
  rw [hist, sinceConnect_within inside]
  constructor
  · rw [List.countP_append, List.countP_append]
    omega
  · rw [List.countP_append, List.countP_append]
    omega

theorem Balanced.adds (bal : Balanced P (sinceConnect w.hist))
    (h : Adds (fun e => e.aside) w v) : Balanced P (sinceConnect v.hist) :=
  (AtMost.of_adds h).balance bal.said bal.agreed

theorem Balanced.judgeOrEnd (bal : Balanced P (sinceConnect x.hist)) (b : Bytes) :
    Balanced P (sinceConnect (x.judgeOrEnd P b).1.hist) := by
  have noted : sinceConnect (.judged x.ses b :: x.hist) = .judged x.ses b :: sinceConnect x.hist :=
    since_cons_of_neg rfl _
  have taken : (sinceConnect (.judged x.ses b :: x.hist)).countP (Event.takesLogon P) =
      (sinceConnect x.hist).countP (Event.takesLogon P) + (asLogon P b).toNat := by
    rw [noted, List.countP_cons]
    cases logon : asLogon P b <;> simp [Event.takesLogon, logon]
  refine (judgeOrEnd_atMost (P := P) (x := x) b).balance ?_ ?_
  · show (sinceConnect (.judged x.ses b :: x.hist)).countP _ + _ ≤
      (sinceConnect (.judged x.ses b :: x.hist)).countP _
    rw [taken, noted, List.countP_cons_of_neg Bool.false_ne_true]
    exact Nat.add_le_add_right bal.said _
  · show (sinceConnect (.judged x.ses b :: x.hist)).countP _ + _ ≤
      (sinceConnect (.judged x.ses b :: x.hist)).countP _
    rw [taken, noted, List.countP_cons_of_neg Bool.false_ne_true]
    exact Nat.add_le_add_right bal.agreed _

theorem Balanced.drain (rounds : ℕ) (x : World A J) (bal : Balanced P (sinceConnect x.hist)) :
    Balanced P (sinceConnect (x.drain P rounds).1.hist) := by
  induction rounds generalizing x with
  | zero => exact bal
  | succ rounds ih =>
    unfold World.drain
    split
    · exact bal
    · rename_i i due
      generalize ((x.ses.queue[i]?.map (·.bytes)).getD []) = b
      have next := Balanced.judgeOrEnd (x := x.release i) bal b
      generalize (x.release i).judgeOrEnd P b = r at next ⊢
      obtain ⟨y, link⟩ := r
      cases link with
      | dropped => exact next
      | up => exact ih y next

theorem Balanced.receivedInner (bal : Balanced P (sinceConnect x.hist)) (b : Bytes) :
    Balanced P (sinceConnect (x.receivedInner P b).1.hist) := by
  unfold World.receivedInner
  split
  · exact bal
  · have judged := bal.judgeOrEnd (P := P) b
    generalize x.judgeOrEnd P b = r at judged ⊢
    obtain ⟨y, link⟩ := r
    cases link with
    | dropped => exact judged
    | up =>
      have drained := Balanced.drain queued y judged
      dsimp only
      generalize y.drain P queued = q at drained ⊢
      obtain ⟨z, link⟩ := q
      exact drained.adds (Scene.advanceReplay_adds admits_aside z.journal link)

/-- A call that makes no connection is noted. -/
theorem Balanced.called (bal : Balanced P (sinceConnect w.hist)) {s : Session} {c : Call}
    (other : c ≠ .connect) : Balanced P (sinceConnect (.called s c :: w.hist)) := by
  have noted : sinceConnect (.called s c :: w.hist) = .called s c :: sinceConnect w.hist :=
    since_cons_of_neg (by cases c <;> first | rfl | exact absurd rfl other) _
  rw [noted]
  constructor
  · rw [List.countP_cons_of_neg Bool.false_ne_true, List.countP_cons_of_neg Bool.false_ne_true]
    exact bal.said
  · rw [List.countP_cons_of_neg Bool.false_ne_true, List.countP_cons_of_neg Bool.false_ne_true]
    exact bal.agreed

theorem Balanced.perform (w : World A J) (bal : Balanced P (sinceConnect w.hist)) (c : Call)
    (owes : w.ses.state ≠ .mustLogon) : Balanced P (sinceConnect (w.perform P c).1.hist) := by
  by_cases connects : c = .connect
  · subst connects
    have fresh {h : List Event} (s : Session) (hist : h = .called w.ses .connect :: w.hist ∨
        h = .restarted s :: .called w.ses .connect :: w.hist) : Balanced P (sinceConnect h) := by
      obtain rfl | rfl := hist
      · rw [sinceConnect, since_cons_of_pos rfl]
        exact ⟨le_rfl, le_rfl⟩
      · rw [sinceConnect, since_cons_of_neg rfl, since_cons_of_pos rfl]
        exact ⟨le_rfl, le_rfl⟩
    refine fresh (w.ses.connected P) ?_
    show (Scene.connect P ⟨w.ses, .called w.ses .connect :: w.hist⟩).1.hist = _ ∨
      (Scene.connect P ⟨w.ses, .called w.ses .connect :: w.hist⟩).1.hist = _
    unfold Scene.connect
    dsimp only
    split
    · exact .inr rfl
    · exact .inl rfl
  · have noted := bal.called (s := w.ses) connects
    cases own : c.incoming with
    | none => exact noted.adds (World.perform_adds admits_aside w c own connects owes)
    | some b =>
      cases c with
      | received b' =>
        obtain rfl := Option.some.inj own
        have inner := Balanced.receivedInner (x := (⟨⟨w.ses, .called w.ses (.received b') :: w.hist⟩,
          .silent, .noJournal⟩ : World Silent NoJournal)) noted b'
        rw [← World.receivedWith_scene] at inner
        exact inner
      | receivedWith b' =>
        obtain rfl := Option.some.inj own
        have inner := Balanced.receivedInner (x := ({ w with
          hist := .called w.ses (.receivedWith b') :: w.hist } : World A J)) noted b'
        rw [← World.receivedWith_scene] at inner
        exact inner
      | _ => cases own

/-- An acceptor never owes the Logon. -/
theorem move_not_owing {R : Rules} {x y : Books} (move : Move P R x y)
    (accepts : P.speaksFirst = false) (owes : x.led.state ≠ .mustLogon) :
    y.led.state ≠ .mustLogon := by
  have ended {l : Ledger} {h : List Event} {why : DropReason} {resets : Option Session} :
      (Books.ended l h why resets).led.state ≠ .mustLogon := by
    cases resets <;> exact nofun
  cases move with
  | called => exact owes
  | acting act =>
    cases act with
    | connected | connectedAnew =>
      show (if P.speaksFirst then State.mustLogon else State.awaitingLogon) ≠ .mustLogon
      rw [accepts]
      exact nofun
    | closed | spoke | saidGoodbye | cut | loggedOn => exact nofun
    | ended | askFailed | peerLeft => exact ended
    | _ => exact owes
  | replaying play =>
    cases play with
    | gaveUp => exact ended
    | _ => exact owes

theorem reachable_not_owing {w : World A J} (h : World.Reachable P w)
    (accepts : P.speaksFirst = false) : w.ses.state ≠ .mustLogon := by
  obtain ⟨s, init, moves⟩ :=
    World.reachable_moves (R := .free) (fun _ _ _ _ _ => trivial) trivial h
  have start : s.ledger.state ≠ .mustLogon := by cases init <;> exact nofun
  have run : ∀ y, ReflTransGen (Move P .free) ⟨s.ledger, []⟩ y → y.led.state ≠ .mustLogon := by
    intro y moves
    induction moves with
    | refl => exact start
    | tail _ move ih => exact move_not_owing move accepts ih
  exact run w.books moves

theorem reachable_balanced {w : World A J} (h : World.Reachable P w)
    (accepts : P.speaksFirst = false) : Balanced P (sinceConnect w.hist) := by
  induction h with
  | init => exact ⟨le_rfl, le_rfl⟩
  | step h c fits ih => exact ih.perform _ c (reachable_not_owing h accepts)

theorem bringsLogon_of_brings {e : Event} {b : Bytes} (brings : e.brings b)
    (logon : asLogon P b) : e.bringsLogon P := by
  cases e with
  | called s c =>
    show c.incoming.any (asLogon P) = true
    rw [eq_of_beq brings]
    exact logon
  | _ => cases brings

/-- Where every Logon is taken up as its call begins, no more are taken up than were received. A call
that received one and has not yet taken it up is one to spare. -/
theorem takes_le_brings {h : List Event} (received : Always (TakesUpReceived P) h) :
    h.countP (Event.takesLogon P) + (h.head?.any (Event.bringsLogon P)).toNat ≤
      h.countP (Event.bringsLogon P) := by
  induction h with
  | nil => exact le_rfl
  | cons e h ih =>
    have before := ih received.2
    rw [List.countP_cons, List.countP_cons, List.head?_cons, Option.any_some]
    cases e with
    | judged s b =>
      cases logon : asLogon P b with
      | false => simp [Event.takesLogon, Event.bringsLogon, logon] at before ⊢; omega
      | true =>
        have newest : h.head?.any (Event.bringsLogon P) = true := by
          have brought := received.1 logon
          cases head : h.head? with
          | none =>
            rw [head] at brought
            cases brought
          | some d =>
            rw [head] at brought
            exact bringsLogon_of_brings brought logon
        rw [newest] at before
        simpa [Event.takesLogon, Event.bringsLogon, logon] using before
    | called s c =>
      cases logon : c.incoming.any (asLogon P) <;>
        simp [Event.takesLogon, Event.bringsLogon, logon] at before ⊢ <;> omega
    | _ => simp [Event.takesLogon, Event.bringsLogon] at before ⊢; omega

/-- **One Logon is answered once.** On one connection of an acceptor on which no held Logon is taken
up, whatever else comes, no more Logons are answered, and none more accepted, than calls received
one. -/
theorem logon_answered_once {w : World A J} (h : World.Reachable P w)
    (accepts : P.speaksFirst = false)
    (received : Always (TakesUpReceived P) (sinceConnect w.hist)) :
    (sinceConnect w.hist).countP Event.saysLogon ≤
        (sinceConnect w.hist).countP (Event.bringsLogon P) ∧
      (sinceConnect w.hist).countP Event.agrees ≤
        (sinceConnect w.hist).countP (Event.bringsLogon P) := by
  obtain ⟨said, agreed⟩ := reachable_balanced h accepts
  have taken := takes_le_brings received
  omega

end Answering

open Setting

theorem logon_answered_once_loggedOn :
    (sinceConnect loggedOn.hist).countP Event.saysLogon ≤ 1 := by
  have once := (logon_answered_once loggedOn_reachable rfl (by decide +kernel)).1
  exact once.trans (by decide +kernel)

/-- The acceptor after a Logon that runs ahead, and the message that closes the gap. -/
def aheadThenClosed : World Silent NoJournal :=
  (fresh acceptor config).run acceptor
    [.connect, .tick now, .receivedWith (logon 2), .receivedWith (theirs "0" 1 [])]

/-- A Logon that runs ahead by one is answered, held, and answered again once the message before it
arrives. -/
theorem logon_answered_twice : ¬ ∀ w : World Silent NoJournal, World.Reachable acceptor w →
    (sinceConnect w.hist).countP Event.saysLogon ≤
      (sinceConnect w.hist).countP (Event.bringsLogon acceptor) := by
  intro h
  have reached : World.Reachable acceptor aheadThenClosed :=
    (fresh_reachable acceptor config).run _ _ (by simp [Call.fits])
  exact absurd (h _ reached) (by decide +kernel)

end Fixbolt
