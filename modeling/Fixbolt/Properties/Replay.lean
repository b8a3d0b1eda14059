import Fixbolt.Properties.Count

/-!
# A resend ends with its connection

On each connection nothing goes out with `43=Y` before something was asked for on it, and at each
restart of the counts nothing is owed that the restarted count has not spent: `resends_asked` and
`restart_owes_nothing`, both read off `Resent`.
-/

namespace Fixbolt

open History Relation

variable {P : Params} {R : Rules}

/-- A message judged on this connection asked for a resend. -/
def AskedBack (P : Params) (h : List Event) : Prop :=
  ∃ s b m, .judged s b ∈ sinceConnect h ∧ s.arrives P b = some m ∧ m.asksBack s

/-- The numbers from `n` on are not among those that are still to be resent. -/
def Replay.staysBelow (r : Replay) (n : ℕ) : Bool := decide (r.stop < r.next) || decide (r.stop < n)

/-- What a resend may do: its messages were asked for on their connection, and at a restart it
covers no number that is to be spent again. -/
def Resent (P : Params) : Event → List Event → Prop
  | .emitted e, old => e.possDup → AskedBack P old
  | .restarted s, _ => s.owed.all (·.staysBelow s.nextOut)
  | _, _ => True

/-- No connection is made with a resend in progress, and no Logon with `141=Y` arrives during one
that is not done. -/
def Event.forgets (P : Params) : Event → Bool
  | .called s .connect => s.owed.isNone
  | .judged s b =>
    s.owed.all (·.staysBelow 1) || (s.arrives P b).all fun m => !(m.isLogon && m.resetSeq)
  | _ => true

/-- What is owed was asked for, and so was what was resent. -/
structure Owes (P : Params) (x : Books) : Prop where
  asked : x.led.owed.isSome → AskedBack P x.hist
  resent : Always (Resent P) x.hist

theorem GoesOn.askedBack {h h' : List Event} (g : GoesOn h h') (a : AskedBack P h) :
    AskedBack P h' := by
  obtain ⟨s, b, m, judged, rest⟩ := a
  exact ⟨s, b, m, g.mem_sinceConnect judged, rest⟩

/-- What happened in this call happened on this connection. -/
theorem mem_sinceConnect_of_sinceCall {h : List Event} {e : Event} (he : e ∈ sinceCall h) :
    e ∈ sinceConnect h := by
  induction h with
  | nil => cases he
  | cons d h ih =>
    by_cases hd : d.isCall = true
    · rw [sinceCall, since_cons_of_pos hd] at he
      cases he
    · have quiet : d.isCall = false := by simpa using hd
      rw [sinceCall_cons quiet] at he
      rw [sinceConnect_cons (isConnect_of_isCall quiet)]
      obtain rfl | he := List.mem_cons.mp he
      · exact List.mem_cons_self
      · exact List.mem_cons_of_mem _ (ih he)

/-- A move that notes nothing and asks for nothing. -/
theorem Owes.quiet {x y : Books} (o : Owes P x) (g : GoesOn x.hist y.hist)
    (owed : y.led.owed.isSome → x.led.owed.isSome) (resent : Always (Resent P) y.hist) : Owes P y :=
  ⟨fun h => g.askedBack (o.asked (owed h)), resent⟩

theorem resent_ended {h : List Event} (ok : Always (Resent P) h) {l : Ledger} {why : DropReason}
    {resets : Option Session} (shows : ShowsEnd l resets) :
    Always (Resent P) (Books.ended l h why resets).hist := by
  cases resets with
  | none => exact ⟨trivial, ok⟩
  | some t =>
    have none : t.owed = none := congrArg Ledger.owed (shows t rfl)
    refine ⟨?_, trivial, ok⟩
    simp [Resent, none]

theorem Books.ended_owed (l : Ledger) (h : List Event) (why : DropReason)
    (resets : Option Session) : (Books.ended l h why resets).led.owed = none := by
  cases resets <;> rfl

theorem Owes.ended {l l' : Ledger} {h : List Event} {why : DropReason} {resets : Option Session}
    (o : Owes P ⟨l, h⟩) (shows : ShowsEnd l' resets) : Owes P (Books.ended l' h why resets) := by
  refine ⟨fun owes => ?_, resent_ended o.resent shows⟩
  rw [Books.ended_owed] at owes
  cases owes

/-- A message that is not a resend goes out. -/
theorem resent_fresh {h : List Event} {e : Emission} (ok : Always (Resent P) h)
    (fresh : e.possDup = false) : Always (Resent P) (.emitted e :: h) :=
  ⟨fun dup => absurd dup (by simp [fresh]), ok⟩

/-- One move resends only what was asked for. -/
theorem acting_owes {x y : Books} (h : Acting P R x y) (forgets : ∀ e ∈ y.hist, e.forgets P)
    (o : Owes P x) : Owes P y := by
  have goes := h.goesOn
  have ok := o.resent
  cases h with
  | @connectedAnew l h s t before after =>
    have none : t.owed = none := by
      have := forgets _ (List.mem_cons_of_mem _ List.mem_cons_self)
      have same : t.owed = s.owed :=
        (congrArg Ledger.owed after).trans (congrArg Ledger.owed before).symm
      simpa [Event.forgets, same] using this
    exact o.quiet goes id ⟨by simp [Resent, none], ok⟩
  | @rolled l h s t c n tick before rolls after =>
    have none : t.owed = none := congrArg Ledger.owed after
    exact ⟨nofun, ⟨by simp [Resent, none], ok⟩⟩
  | @announced l h s c n slots bytes announces before fits number fresh =>
    exact o.quiet goes id (resent_fresh ok (by simp [Emission.possDup, fresh]))
  | originated => exact o.quiet goes id (resent_fresh ⟨trivial, ok⟩ rfl)
  | @sent l h which slots bytes alive which_ne =>
    refine o.quiet goes id (resent_fresh ok ?_)
    cases which <;> first | rfl | exact absurd rfl which_ne
  | ended closing shows => exact o.ended shows
  | askFailed now arr ahead count shows => exact o.ended shows
  | peerLeft now arr logout left fault count queue shows => exact o.ended shows
  | judged => exact o.quiet goes id ⟨trivial, ok⟩
  | judgedHeld => exact o.quiet goes id ⟨trivial, ok⟩
  | @restarted l h s t b m before arr resets after =>
    refine o.quiet goes id ⟨?_, ok⟩
    have owed : t.owed = s.owed :=
      (congrArg Ledger.owed after).trans (congrArg Ledger.owed before).symm
    have out : t.nextOut = 1 := congrArg Ledger.nextOut after
    have judged := forgets _ (List.mem_cons_of_mem _ List.mem_cons_self)
    simp only [Event.forgets, arr, Option.all_some, resets, Bool.not_true, Bool.or_false] at judged
    simpa only [Resent, owed, out] using judged
  | loggedOn => exact o.quiet goes id ⟨trivial, ok⟩
  | owed now arr alive asks =>
    exact ⟨fun _ => ⟨_, _, _, mem_sinceConnect_of_sinceCall (mem_sinceCall_of_judging now), arr,
      asks⟩, ok⟩
  | held => exact o.quiet goes id ⟨trivial, ok⟩
  | asked => exact o.quiet goes id (resent_fresh ok rfl)
  | delivered => exact o.quiet goes id ⟨trivial, ok⟩
  | replied => exact o.quiet goes id (resent_fresh ⟨trivial, ok⟩ rfl)
  | _ => exact o.quiet goes id ok

/-- Everything that is resent is owed. -/
theorem replaying_owes {x y : Books} (h : Replaying x y) (o : Owes P x) : Owes P y := by
  have goes := h.goesOn
  have ok := o.resent
  cases h with
  | filled owes => exact o.quiet goes id ⟨fun _ => o.asked owes, ok⟩
  | replayed owes => exact o.quiet goes id ⟨fun _ => o.asked owes, ok⟩
  | progressed owes => exact o.quiet goes (fun _ => owes) ok
  | gaveUp owes shows => exact o.ended shows

theorem Owes.called {l : Ledger} {h : List Event} {s : Session} {c : Call} (shows : s.ledger = l)
    (forgets : (Event.called s c).forgets P) (o : Owes P ⟨l, h⟩) : Owes P ⟨l, .called s c :: h⟩ := by
  refine ⟨fun owes => ?_, trivial, o.resent⟩
  by_cases hc : (Event.called s c).isConnect = true
  · obtain rfl : c = .connect := by cases c <;> first | rfl | cases hc
    have same : s.owed = l.owed := congrArg Ledger.owed shows
    simp only [Event.forgets, same, Option.isNone_iff_eq_none] at forgets
    simp [forgets] at owes
  · obtain ⟨t, b, m, judged, rest⟩ := o.asked owes
    refine ⟨t, b, m, ?_, rest⟩
    rw [sinceConnect_cons (by simpa using hc)]
    exact List.mem_cons_of_mem _ judged

theorem moves_owe {x y : Books} (h : ReflTransGen (Move P R) x y) (start : Owes P x)
    (forgets : ∀ e ∈ y.hist, e.forgets P) : Owes P y := by
  induction h with
  | refl => exact start
  | tail _ step ih =>
    cases step with
    | called shows =>
      exact .called shows (forgets _ List.mem_cons_self)
        (ih fun e he => forgets e (List.mem_cons_of_mem _ he))
    | acting step => exact acting_owes step forgets (ih (step.goesOn.forall_mem forgets))
    | replaying step => exact replaying_owes step (ih (step.goesOn.forall_mem forgets))

section Run

variable {A J : Type} [Application A] [Journal J]

theorem reachable_owes {w : World A J} (h : World.Reachable P w)
    (forgets : ∀ e ∈ w.hist, e.forgets P) : Owes P w.books := by
  obtain ⟨s, hs, moves⟩ :=
    World.reachable_moves (R := .free) (fun _ _ _ _ _ => trivial) trivial h
  refine moves_owe moves ⟨fun owes => ?_, trivial⟩ forgets
  cases hs <;> cases owes

/-- **A resend does not outlive its connection or its numbering.** While no connection is made with
a resend in progress and no Logon with `141=Y` arrives during one, each message with `43=Y` follows,
on its connection, a message that asked for a resend, and at each restart of the counts what is
owed stays below the restarted count. -/
theorem resends_asked {w : World A J} (h : World.Reachable P w)
    (forgets : ∀ e ∈ w.hist, e.forgets P) :
    (∀ new e old, w.hist = new ++ .emitted e :: old → e.possDup → AskedBack P old) ∧
      ∀ new s old, w.hist = new ++ .restarted s :: old → s.owed.all (·.staysBelow s.nextOut) := by
  have all : Always (Resent P) w.hist := (reachable_owes h forgets).resent
  constructor
  · intro new e old hist dup
    rw [hist] at all
    exact all.of_append dup
  · intro new s old hist
    rw [hist] at all
    exact all.of_append

end Run

/-- Did a message with `43=Y` go out? -/
def Event.resends : Event → Bool
  | .emitted e => e.possDup
  | _ => false

/-- A history that ends with a resend. -/
theorem exists_of_resends {h : List Event} (hd : h.head?.any Event.resends) :
    ∃ e old, h = .emitted e :: old ∧ e.possDup := by
  cases h with
  | nil => cases hd
  | cons d old =>
    cases d with
    | emitted e => exact ⟨e, old, rfl, hd⟩
    | _ => cases hd

open Setting in
theorem resends_asked_order :
    ∃ old, AskedBack acceptor old ∧ ∃ e, (threeSent.run acceptor
      [.receivedWith (theirs "2" 2 [(7, ascii "2"), (16, ascii "0")])]).hist = .emitted e :: old := by
  have reached := threeSent_reachable.run _
    [.receivedWith (theirs "2" 2 [(7, ascii "2"), (16, ascii "0")])] (by simp [Call.fits])
  obtain ⟨e, old, last, dup⟩ := exists_of_resends (h := (threeSent.run acceptor
    [.receivedWith (theirs "2" 2 [(7, ascii "2"), (16, ascii "0")])]).hist) (by decide +kernel)
  exact ⟨old, (resends_asked reached (by decide +kernel)).1 [] e old last dup, e, last⟩

open Setting in
/-- The link is cut while two orders are still to be resent: the first tick of the next connection
sends one of them. -/
theorem resend_outlives :
    ¬ ∀ w : World Silent KeepAll, World.Reachable acceptor w →
      ∀ new e old, w.hist = new ++ .emitted e :: old → e.possDup → AskedBack acceptor old := by
  intro h
  have reached := threeSent_reachable.run _
    [.receivedWith (theirs "2" 2 [(7, ascii "2"), (16, ascii "0")]), .logoutNow [], .connect,
      .tickWith now] (by simp [Call.fits])
  obtain ⟨e, old, last, dup⟩ := exists_of_resends (h := (threeSent.run acceptor
    [.receivedWith (theirs "2" 2 [(7, ascii "2"), (16, ascii "0")]), .logoutNow [], .connect,
      .tickWith now]).hist) (by decide +kernel)
  obtain ⟨s, b, m, judged, -⟩ := h _ reached [] e old last dup
  have quiet : (sinceConnect (threeSent.run acceptor
    [.receivedWith (theirs "2" 2 [(7, ascii "2"), (16, ascii "0")]), .logoutNow [], .connect,
      .tickWith now]).hist).all (fun d => d.focus.join.isNone) := by decide +kernel
  rw [last, sinceConnect_cons rfl, List.all_eq_true] at quiet
  cases quiet _ (List.mem_cons_of_mem _ judged)

end Fixbolt
