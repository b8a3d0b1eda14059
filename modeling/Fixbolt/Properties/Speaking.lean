import Fixbolt.Properties.Setting
import Fixbolt.Session.Speech

/-!
# A session can say what it decides to say

Receiving bytes leaves nothing unsaid, and neither does any call: `perform_spoken`. What `CannotSend`
is left for is `Excused`; over a run, `says_what_it_decides`.
-/

namespace Fixbolt

section Walk

variable {P : Params}

/-! ### Received bytes -/

namespace World

variable {A J : Type} [Journal J] {u : World A J}

omit [Journal J] in
theorem speaks_lift {f : Scene → Scene × Except Refusal Link} (h : Speaks u.toScene (f u.toScene)) :
    Spoken u.toScene (orEnd (u.lift f)).toScene := by
  have lifted : (orEnd (u.lift f)).toScene = (Scene.orEnd (f u.toScene)).1 := by
    unfold lift
    rcases f u.toScene with ⟨v, link | why⟩ <;> rfl
  rw [lifted]
  exact h

section Judging

variable [Application A]

theorem judgeApplication_spoken (e : u.ses.Equipped P) (b : Bytes) :
    Spoken u.toScene (orEnd (u.judgeApplication b)).toScene := by
  have named : ¬ u.ses.out.isNone := by
    rw [← Option.not_isSome, e.named]
    exact Bool.false_ne_true
  have events (new : List Event) {s : Session} (cfg : s.cfg = u.ses.cfg) (out : s.out = u.ses.out)
      (reason : s.lastDropReason = u.ses.lastDropReason) (none : Event.ended .cannotSend ∉ new) :
      Spoken u.toScene ⟨s, new ++ u.hist⟩ :=
    ⟨cfg, out, fun h => reason.symm.trans h, new, none, rfl⟩
  unfold judgeApplication
  rw [if_neg named]
  dsimp only
  generalize Application.onMessage u.app b _ = answer
  split
  · exact events [.delivered u.ses b] rfl rfl rfl (by simp)
  · rename_i bytes _
    exact events (s := u.ses.spent _)
      [.emitted (.reply u.ses.nextOut bytes), .stored u.ses.nextOut bytes _, .delivered u.ses b]
      rfl rfl rfl (by simp)

theorem judgeAccepted_spoken (e : u.ses.Equipped P) (view : MessageView) (seq : ℕ) (b : Bytes) :
    Spoken u.toScene (orEnd (u.judgeAccepted P (.read view seq) b)).toScene := by
  unfold judgeAccepted
  split
  · exact speaks_lift (Scene.judgeLogon_speaks e b)
  · split
    · exact speaks_lift (Scene.judgeLogout_speaks e)
    · split
      · exact speaks_lift (Scene.judgeTestRequest_speaks e)
      · split
        · exact speaks_lift (Scene.judgeResendRequest_speaks _)
        · split
          · exact speaks_lift (Scene.judgeSequenceReset_speaks e)
          · split
            · exact judgeApplication_spoken e b
            · exact .refl _

theorem judgeSequence_spoken (e : u.ses.Equipped P) (view : MessageView) (seq : ℕ)
    {fault : Option Fault} (named : ∀ f, fault = some f → f.Named) (b : Bytes) :
    Spoken u.toScene (orEnd (u.judgeSequence P (.read view seq) fault b)).toScene := by
  unfold judgeSequence
  generalize hv : ({ u with toScene := u.toScene.restartOn (.read view seq) } : World A J) = v
  have started : Spoken u.toScene v.toScene := by
    rw [← hv]
    unfold Scene.restartOn
    split
    · exact .trans (.upd (f := (·.restartCounts)) rfl rfl rfl) (.noted nofun)
    · exact .refl _
  have equipped := started.equipped e
  dsimp only
  split
  · exact started.trans (speaks_lift (Scene.judgeTooLow_spoken equipped))
  · split
    · exact started.trans (speaks_lift (Scene.tooHigh_spoken equipped _ b))
    · have taken : Spoken v.toScene ⟨v.ses.consume (.read view seq), v.hist⟩ := by
        refine .upd (f := (·.consume (.read view seq))) ?_ ?_ ?_
        · unfold Session.consume
          split <;> rfl
        · unfold Session.consume
          split <;> rfl
        · unfold Session.consume
          split <;> rfl
      refine (started.trans taken).trans ?_
      unfold judgeInOrder
      cases fault with
      | some f =>
        obtain ⟨tag, tagged⟩ := named f rfl
        refine speaks_lift (u := { v with ses := v.ses.consume (.read view seq) })
          (f := fun c => (c.sendReject P ((Inbound.read view seq).reject f.1 f.2)).map id .ok) ?_
        rw [tagged]
        exact Scene.sendReject_spoken (taken.equipped equipped) (.reject view seq f.1 tag)
      | none =>
        exact judgeAccepted_spoken (u := { v with ses := v.ses.consume (.read view seq) })
          (taken.equipped equipped) view seq b

omit [Application A] [Journal J] in
theorem refusalOf_ne {s : Session} {view : MessageView} {why : Refusal}
    (h : s.refusalOf view = some why) : why.toDropReason ≠ .cannotSend := by
  unfold Session.refusalOf at h
  split at h
  · cases h
    nofun
  · split at h
    · cases h
      nofun
    · split at h
      · cases h
        nofun
      · cases h

omit [Application A] [Journal J] in
theorem identityRefusal_ne {s : Session} {view : MessageView} {why : Refusal}
    (h : s.identityRefusal view = some why) : why.toDropReason ≠ .cannotSend := by
  unfold Session.identityRefusal at h
  split at h
  · cases h
  · split at h
    · cases h
      nofun
    · split at h
      · cases h
        nofun
      · split at h
        · cases h
          nofun
        · cases h

/-- **Judging a message leaves nothing unsaid.** -/
theorem judge_spoken (e : u.ses.Equipped P) (b : Bytes) :
    Spoken u.toScene (orEnd (u.judge P b)).toScene := by
  unfold judge
  generalize hv : ({ u with hist := .judged u.ses b :: u.hist } : World A J) = v
  have noted : Spoken u.toScene v.toScene := by
    rw [← hv]
    exact ⟨rfl, rfl, id, [.judged u.ses b], by simp, rfl⟩
  have equipped := noted.equipped e
  refine noted.trans ?_
  dsimp only
  split
  · exact .refl _
  · unfold judgeFrame
    split
    · exact speaks_lift (Scene.garbled_spoken b)
    · split
      · split
        · exact speaks_lift (Scene.cut_spoken _)
        · exact Scene.endSession_spoken (by decide)
      · unfold judgeHeader
        split
        · rename_i why refused
          exact Scene.endSession_spoken (refusalOf_ne refused)
        · have skew : Spoken v.toScene ⟨v.ses.noteSkew (viewOf P b), v.hist⟩ := by
            refine .upd (f := (·.noteSkew (viewOf P b))) ?_ ?_ ?_
            · unfold Session.noteSkew
              split <;> rfl
            · unfold Session.noteSkew
              split <;> rfl
            · unfold Session.noteSkew
              split <;> rfl
          refine skew.trans ?_
          dsimp only
          split
          · rename_i why refused
            exact Scene.endSession_spoken (identityRefusal_ne refused)
          · split
            · exact Scene.endSession_spoken (by decide)
            · exact judgeSequence_spoken (u := { v with ses := v.ses.noteSkew (viewOf P b) })
                (skew.equipped equipped) _ _ (fun f h => faultOf_named h) b
  · split
    · exact speaks_lift (Scene.judgeBadTag_spoken equipped _ b)
    · exact speaks_lift (Scene.garbled_spoken b)
  · exact speaks_lift (Scene.garbled_spoken b)

theorem judgeOrEnd_spoken (e : u.ses.Equipped P) (b : Bytes) :
    Spoken u.toScene (u.judgeOrEnd P b).1.toScene := by
  rw [judgeOrEnd_fst]
  exact judge_spoken e b

theorem drain_spoken (e : u.ses.Equipped P) (rounds : ℕ) :
    Spoken u.toScene (u.drain P rounds).1.toScene := by
  induction rounds generalizing u with
  | zero => exact .refl _
  | succ rounds ih =>
    unfold drain
    split
    · exact .refl _
    · rename_i i _
      generalize ((u.ses.queue[i]?.map (·.bytes)).getD []) = b
      have freed : Spoken u.toScene (u.release i).toScene := ⟨rfl, rfl, id, [], List.not_mem_nil, rfl⟩
      have next := judgeOrEnd_spoken (freed.equipped e) b
      generalize (u.release i).judgeOrEnd P b = r at next ⊢
      obtain ⟨v, l⟩ := r
      cases l with
      | dropped => exact freed.trans next
      | up => exact (freed.trans next).trans (ih ((freed.trans next).equipped e))

/-- **Receiving bytes leaves nothing unsaid** but a kept message that does not rebuild. -/
theorem receivedInner_spoken (e : u.ses.Equipped P) (b : Bytes) :
    Spoken u.toScene (u.receivedInner P b).1.toScene ∨
      Unrebuilt P (u.receivedInner P b).1.journal (u.receivedInner P b).1.ses := by
  unfold receivedInner
  split
  · exact .inl (.refl _)
  · have next := judgeOrEnd_spoken e b
    generalize u.judgeOrEnd P b = r at next ⊢
    obtain ⟨v, l⟩ := r
    cases l with
    | dropped => exact .inl next
    | up =>
      have rest := drain_spoken (next.equipped e) queued
      dsimp only
      generalize v.drain P queued = q at rest ⊢
      have all := next.trans rest
      exact (Scene.advanceReplay_speaks (all.equipped e) q.1.journal q.2).imp_left all.trans

end Judging

theorem tickAfterInner_spoken (e : u.ses.Equipped P) (n : ℕ) :
    Spoken u.toScene (u.tickAfterInner P n).1.toScene ∨
      Unrebuilt P u.journal (u.tickAfterInner P n).1.ses := by
  have ticked := Scene.tickInner_spoken (P := P) (w := u.toScene) n
  exact (Scene.advanceReplay_speaks (ticked.equipped e) u.journal
    (u.tickInner P n).2).imp_left ticked.trans

/-! ### Calls -/

/-- The world that a call begins with. -/
def called (w : World A J) (c : Call) : World A J := { w with hist := .called w.ses c :: w.hist }

/-- What `CannotSend` is left for: an operator's text that is too long, a caller that names the
reason itself, and a kept message that does not rebuild. -/
def Excused (P : Params) [Application A] (w : World A J) : Call → Prop
  | .beginLogout text | .beginLogoutWith text => SessionText.maxLen < text.length
  | .disconnectWith why | .noteDropReason why => why = .cannotSend
  | .tickWith n =>
    let k := w.called (.tickWith n)
    Unrebuilt P w.journal
      (({ k with toScene := k.setResolution 0 .millis } : World A J).tickAfterInner P n).1.ses
  | .tickAtWith n sub =>
    let k := w.called (.tickAtWith n sub)
    Unrebuilt P w.journal
      (({ k with toScene := k.setResolution sub .nanos } : World A J).tickAfterInner P n).1.ses
  | .receivedWith b =>
    let r := ((w.called (.receivedWith b)).receivedInner P b).1
    Unrebuilt P r.journal r.ses
  | _ => False

theorem beginLogout_spoken {w : Scene} (e : w.ses.Equipped P) {text : Bytes}
    (short : text.length ≤ SessionText.maxLen) : Spoken w (w.beginLogout P text).1 := by
  unfold Scene.beginLogout
  split
  · split
    · exact Scene.endSession_spoken nofun
    · exact .refl w
  · have holds : sayings.Holds (if text.isEmpty then [] else [(58, text)]) ∧
        (if text.isEmpty then [] else [(58, text)] : List (ℕ × Bytes)).length ≤ 11 := by
      split
      · exact ⟨.nil, Nat.zero_le 11⟩
      · exact ⟨.cons short .nil, by simp⟩
    obtain ⟨u, said⟩ : ∃ u, w.send P .logout (if text.isEmpty then [] else [(58, text)]) = some u :=
      Scene.sendAs_fits e holds.1 holds.2
    rw [said]
    have waits : Spoken u (u.upd fun s => { s with state := .loggingOut }) := .upd rfl rfl rfl
    exact (Scene.send_spoken said).trans waits

/-- **One call leaves nothing unsaid**, unless it is one that `CannotSend` is left for. -/
theorem perform_spoken [Application A] (w : World A J) (e : w.ses.Equipped P) (c : Call)
    (plain : ¬ w.Excused P c) : Spoken w.toScene (w.perform P c).1.toScene := by
  unfold perform
  rw [show ({ w with hist := .called w.ses c :: w.hist } : World A J) = w.called c from rfl]
  generalize hk : w.called c = k
  have called : Spoken w.toScene k.toScene := by
    rw [← hk]
    exact ⟨rfl, rfl, id, [.called w.ses c], by simp, rfl⟩
  have equipped := called.equipped e
  have journal : k.journal = w.journal := by
    rw [← hk]
    rfl
  refine called.trans ?_
  have closed {why : DropReason} (other : why ≠ .cannotSend) :
      Spoken k.toScene (k.disconnectWith why).1 := by
    unfold Scene.disconnectWith
    have shut : Spoken k.toScene (k.upd fun s => { s with state := .disconnected }) := .upd rfl rfl rfl
    split
    · exact Scene.endSession_spoken other
    · exact shut
  have ordered (which : Which) (extra : List (ℕ × Bytes)) :
      Spoken k.toScene (k.sendOrdered P which extra).1 := by
    unfold Scene.sendOrdered
    split
    · exact .refl _
    · split
      · exact Scene.send_spoken ‹_›
      · exact .refl _
  have reset (n : ℕ) : Spoken k.toScene (k.sendSequenceReset P n).1 := by
    unfold Scene.sendSequenceReset
    split
    · exact .refl _
    · split
      · exact .refl _
      · rename_i u sent
        have counted : Spoken u (u.upd fun s => { s with nextOut := n }) := .upd rfl rfl rfl
        exact (Scene.sendAs_spoken sent).trans counted
  have told {u : World A J} (h : Spoken k.toScene u.toScene) :
      Spoken k.toScene u.tellJournal.toScene := by rwa [tellJournal_scene]
  have ticked (sub : ℕ) (p : Precision) (n : ℕ) :
      Spoken k.toScene ((k.setResolution sub p).tickInner P n).1 :=
    .trans (.upd (f := fun s => { s with nowSubMsNanos := sub, nowResolution := p }) rfl rfl rfl)
      (Scene.tickInner_spoken n)
  have tickedWith (sub : ℕ) (p : Precision) (n : ℕ) :
      Spoken k.toScene (({ k with toScene := k.setResolution sub p } : World A J).tickAfterInner P
          n).1.toScene ∨ Unrebuilt P k.journal
        (({ k with toScene := k.setResolution sub p } : World A J).tickAfterInner P n).1.ses := by
    have set : Spoken k.toScene (k.setResolution sub p) :=
      .upd (f := fun s => { s with nowSubMsNanos := sub, nowResolution := p }) rfl rfl rfl
    exact (tickAfterInner_spoken (u := { k with toScene := k.setResolution sub p })
      (set.equipped equipped) n).imp_left set.trans
  cases c with
  | connect =>
    show Spoken k.toScene (k.connect P).1
    have cleared : (k.ses.connected P).lastDropReason = none := rfl
    unfold Scene.connect
    dsimp only
    split
    · exact ⟨rfl, rfl, fun h => absurd (cleared.symm.trans h) nofun,
        [.restarted (k.ses.connected P)], by simp, rfl⟩
    · exact ⟨rfl, rfl, fun h => absurd (cleared.symm.trans h) nofun, [], List.not_mem_nil, rfl⟩
  | disconnect => exact closed nofun
  | disconnectWith why => exact closed plain
  | noteDropReason why => exact Scene.noteDropReason_spoken plain
  | tick n => exact ticked 0 .millis n
  | tickAt n sub => exact ticked sub .nanos n
  | tickWith n =>
    exact told ((tickedWith 0 .millis n).resolve_right fun fails =>
      plain (by rw [Excused, hk, ← journal]; exact fails))
  | tickAtWith n sub =>
    exact told ((tickedWith sub .nanos n).resolve_right fun fails =>
      plain (by rw [Excused, hk, ← journal]; exact fails))
  | received b =>
    have empty : ¬ Unrebuilt P
        ((⟨k.toScene, .silent, .noJournal⟩ : World Silent NoJournal).receivedInner P b).1.journal
        ((⟨k.toScene, .silent, .noJournal⟩ : World Silent NoJournal).receivedInner P b).1.ses :=
      fun ⟨_, _, holds, _⟩ => by cases holds
    have said := (receivedInner_spoken (P := P)
      (u := (⟨k.toScene, .silent, .noJournal⟩ : World Silent NoJournal)) equipped b).resolve_right
        empty
    have same : ((⟨k.toScene, .silent, .noJournal⟩ : World Silent NoJournal).receivedWith P
        b).1.toScene = _ := (tellJournal_scene _).trans (markIn_scene _)
    show Spoken k.toScene ((⟨k.toScene, .silent, .noJournal⟩ : World Silent NoJournal).receivedWith P
      b).1.toScene
    rw [same]
    exact said
  | receivedWith b =>
    have same : (k.receivedWith P b).1.toScene = (k.receivedInner P b).1.toScene :=
      (tellJournal_scene _).trans (markIn_scene _)
    show Spoken k.toScene (k.receivedWith P b).1.toScene
    rw [same]
    exact (receivedInner_spoken equipped b).resolve_right fun fails =>
      plain (by rw [Excused, hk]; exact fails)
  | sendApplication msg =>
    show Spoken k.toScene (k.sendApplication P msg).1.toScene
    unfold sendApplication
    split
    · exact .refl _
    · split
      · exact .refl _
      · dsimp only
        split
        · exact .refl _
        · rename_i bytes _
          rw [tellJournal_scene]
          exact ⟨rfl, rfl, id, [.emitted (.originated k.ses.nextOut bytes),
            .stored k.ses.nextOut bytes _], by simp, rfl⟩
  | sendHeartbeat => exact ordered .heartbeat []
  | sendTestRequest id => exact ordered .testRequest _
  | sendResendRequest from_ upTo => exact ordered .resendRequest _
  | beginLogout text =>
    exact beginLogout_spoken equipped (Nat.not_lt.mp plain)
  | beginLogoutWith text =>
    exact told (u := (k.lift (·.beginLogout P text)).1)
      (beginLogout_spoken equipped (Nat.not_lt.mp plain))
  | logoutNow text => exact Scene.logoutNow_spoken text
  | logoutNowWith text =>
    exact told (u := (k.lift (·.logoutNow P text)).1) (Scene.logoutNow_spoken text)
  | setNextOut n =>
    show Spoken k.toScene (k.setNextOut n).1
    have counted : Spoken k.toScene (k.upd fun s => { s with nextOut := n }) := .upd rfl rfl rfl
    unfold Scene.setNextOut
    split
    · exact .refl _
    · exact counted
  | setNextIn n =>
    show Spoken k.toScene (k.setNextIn n).1
    have counted : Spoken k.toScene (k.upd fun s => { s with nextIn := n }) := .upd rfl rfl rfl
    unfold Scene.setNextIn
    split
    · exact .refl _
    · exact counted
  | sendSequenceReset n => exact reset n
  | sendSequenceResetWith n =>
    exact told (u := (k.lift fun c => ((c.sendSequenceReset P n).1, Link.up)).1) (reset n)

/-! ### Runs -/

section Runs

variable [Application A]

theorem run_spoken (e : u.ses.Equipped P) (cs : List Call) :
    Spoken u.toScene (u.run P cs).toScene ∨
      ∃ before c after, cs = before ++ c :: after ∧ (u.run P before).Excused P c := by
  induction cs generalizing u with
  | nil => exact .inl (.refl _)
  | cons c cs ih =>
    by_cases excused : u.Excused P c
    · exact .inr ⟨[], c, cs, rfl, excused⟩
    · have first := perform_spoken u e c excused
      obtain rest | ⟨before, d, after, split, excused⟩ := ih (first.equipped e)
      · exact .inl (first.trans rest)
      · exact .inr ⟨c :: before, d, after, by rw [split]; rfl, excused⟩

/-- Calls leave the names and the templates as they are. -/
theorem run_names (u : World A J) (cs : List Call) :
    (u.run P cs).ses.cfg = u.ses.cfg ∧ (u.run P cs).ses.out = u.ses.out := by
  induction cs generalizing u with
  | nil => exact ⟨rfl, rfl⟩
  | cons c cs ih =>
    have kept := perform_keeps (P := P) u c
    obtain ⟨cfg, out⟩ := ih (u.perform P c).1
    exact ⟨cfg.trans (congrArg (·.1) kept), out.trans (congrArg (·.2.1) kept)⟩

theorem Initial.own {s : Session} (init : Initial P s) :
    s.out = Session.outboundOf P.dict.toDictionary s.cfg ∧ s.lastDropReason = none := by
  cases init with
  | new cfg => exact ⟨rfl, rfl⟩
  | resume cfg out in_ => exact ⟨rfl, rfl⟩
  | resumeAt cfg last out in_ => exact ⟨rfl, rfl⟩

/-- Wherever calls lead, the templates are those of the names. -/
theorem Reachable.equipped (h : Reachable P u) (sized : u.ses.cfg.Sized) (named : u.ses.out.isSome) :
    u.ses.Equipped P := by
  refine ⟨sized, ?_, named⟩
  clear sized named
  induction h with
  | init init app journal => exact init.own.1
  | @step w h c fits ih =>
    have kept := perform_keeps (P := P) w c
    rw [show (w.perform P c).1.ses.out = w.ses.out from congrArg (·.2.1) kept,
      show (w.perform P c).1.ses.cfg = w.ses.cfg from congrArg (·.1) kept]
    exact ih

/-- **A session can always say what it decided to say.** When its templates could be made of its
names, then wherever a run leads, everything it says of its own accord fits the arrays and the buffer
and is sent; `CannotSend` is reached only through a call it is left for; and making the templates can
fail for the DATA rule only. -/
theorem says_what_it_decides {s : Session} (init : Initial P s) (sized : s.cfg.Sized)
    (named : s.out.isSome) (app : A) (journal : J) (cs : List Call) :
    (∀ v : Scene,
      v.ses.cfg = ((⟨⟨s, []⟩, app, journal⟩ : World A J).run P cs).ses.cfg →
      v.ses.out = ((⟨⟨s, []⟩, app, journal⟩ : World A J).run P cs).ses.out →
      ∀ which number extra, v.ses.Decides which number extra →
        (v.ses.slotsFor number extra).length ≤ maxSlots ∧ (which = .reject → extra.length ≤ 12) ∧
          ∃ v', v.sendAs P which number extra = some v') ∧
    (((⟨⟨s, []⟩, app, journal⟩ : World A J).run P cs).ses.lastDropReason = some .cannotSend ∨
        .ended .cannotSend ∈ ((⟨⟨s, []⟩, app, journal⟩ : World A J).run P cs).hist →
      ∃ before c after, cs = before ++ c :: after ∧
        ((⟨⟨s, []⟩, app, journal⟩ : World A J).run P before).Excused P c) ∧
    ∀ which e, skeleton P.dict.toDictionary s.cfg.beginString.bytes s.cfg.senderCompId.bytes
      s.cfg.targetCompId.bytes which = .error e → ∃ tag, e = .dataWithoutLength tag := by
  have equipped : s.Equipped P := ⟨sized, init.own.1, named⟩
  refine ⟨fun v cfg out which number extra decides => ?_, fun unsaid => ?_, fun which e failed =>
    skeleton_error sized.beginString sized.sender sized.target failed⟩
  · obtain ⟨cfg', out'⟩ := run_names (P := P) (⟨⟨s, []⟩, app, journal⟩ : World A J) cs
    have same : v.ses.cfg = s.cfg := cfg.trans cfg'
    have own : v.ses.Equipped P :=
      ⟨same ▸ sized, by rw [out.trans out', same]; exact init.own.1, (out.trans out') ▸ named⟩
    obtain ⟨-, few⟩ := decides.holds own.sized
    refine ⟨?_, fun _ => few.trans (Nat.le_succ 11), Scene.send_decided own decides⟩
    exact (v.ses.slotsFor_length number extra).trans (by unfold maxSlots; omega)
  · refine (run_spoken equipped cs).resolve_left fun said => ?_
    obtain reason | ended := unsaid
    · exact absurd (init.own.2.symm.trans (said.reason reason)) nofun
    · obtain ⟨new, none, hist⟩ := said.hist
      rw [hist, List.append_nil] at ended
      exact none ended

open Setting in
theorem says_what_it_decides_heartbeat :
    ∃ v, loggedOn.toScene.sendAs acceptor .heartbeat none [] = some v := by
  have ran : loggedOn = (⟨⟨.new acceptor config, []⟩, .silent, .noJournal⟩ :
    World Silent NoJournal).run acceptor [.connect, .tick now, .receivedWith (logon 1)] := rfl
  have all := says_what_it_decides (P := acceptor) (.new config) (Config.acceptor_sized _ _ _)
    (by decide +kernel) Silent.silent NoJournal.noJournal
    [.connect, .tick now, .receivedWith (logon 1)]
  rw [← ran] at all
  exact (all.1 loggedOn.toScene rfl rfl .heartbeat none [] .heartbeat).2.2

open Setting in
/-- The engine may name the reason itself. -/
theorem cannotSend_named :
    (fresh acceptor config).ses.out.isSome ∧
      ((fresh acceptor config).run acceptor [.disconnectWith .cannotSend]).ses.lastDropReason =
        some .cannotSend := by
  decide +kernel

end Runs

end World

end Walk

end Fixbolt
