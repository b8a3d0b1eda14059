import Fixbolt.Properties.Count

/-!
# The outbound numbers of a connection

Every message that is not a resend spends one number, and on one connection these numbers are
consecutive: `fresh_consecutive`.
-/

namespace Fixbolt

open History Relation

variable {P : Params} {R : Rules}

/-- The `34=` of a message on its way out: of the session's own and of an application message it
laid out, the number it was laid out under; of the application's answer, what its bytes say. -/
def Emission.number (P : Params) : Emission → Option ℕ
  | .templated _ slots _ => (slots.lookup 34).bind asU32?
  | .reply _ bytes => Inbound.number (viewOf P bytes) 34
  | .originated seq _ => some seq
  | .replayed seq _ => some seq

/-- The number of a message that is not a resend. -/
def Event.freshNumber (P : Params) : Event → Option (Option ℕ)
  | .emitted e => if e.possDup then none else some (e.number P)
  | _ => none

/-- The numbers of the messages that are not resends, newest first. -/
def freshNumbers (P : Params) (h : List Event) : List (Option ℕ) :=
  h.filterMap (Event.freshNumber P)

/-- An application that writes the number it is given. -/
def WritesNumber (P : Params) (_ : Bytes) (hdr : Header) (bytes : Bytes) : Prop :=
  Inbound.number (viewOf P bytes) 34 = some hdr.seq

/-- A call that sets the outbound count. -/
def Call.setsOut : Call → Bool
  | .setNextOut _ | .sendSequenceReset _ | .sendSequenceResetWith _ => true
  | _ => false

/-- No one sets the outbound count, and no Logon with `141=Y` arrives. -/
def Event.leavesOut (P : Params) : Event → Bool
  | .called _ c => !c.setsOut
  | .judged s b => (s.arrives P b).all fun m => !(m.isLogon && m.resetSeq)
  | _ => true

/-- No boundary passes on a live session that already sent something on this connection, and
nothing goes out once the count has wrapped to 0. -/
def Event.onTime (P : Params) (older : List Event) : Event → Bool
  | .called s c => !(decide s.Alive && c.ticks.any s.rolls) || (freshNumbers P older).isEmpty
  | .emitted e => e.possDup || e.number P != some 0
  | _ => true

/-- Both, of an event and those before it on its connection. -/
def Consecutive (P : Params) (e : Event) (older : List Event) : Prop :=
  e.leavesOut P ∧ e.onTime P older

instance (P : Params) (e : Event) (older : List Event) : Decidable (Consecutive P e older) :=
  inferInstanceAs (Decidable (_ ∧ _))

/-- The numbers sent on this connection run from some first one, and a live session goes on from
the last. -/
def RunsOn (P : Params) (x : Books) : Prop :=
  ∃ start n, freshNumbers P (sinceConnect x.hist) = ((List.range' start n).map some).reverse ∧
    start + n ≤ u32Size ∧ (x.led.Alive → n = 0 ∨ x.led.nextOut = wrapU32 (start + n))

theorem freshNumbers_quiet {e : Event} {h : List Event} (hc : e.isConnect = false)
    (he : e.freshNumber P = none) :
    freshNumbers P (sinceConnect (e :: h)) = freshNumbers P (sinceConnect h) := by
  rw [sinceConnect_cons hc, freshNumbers, List.filterMap_cons_none he, freshNumbers]

theorem RunsOn.quiet {x y : Books} (h : RunsOn P x)
    (numbers : freshNumbers P (sinceConnect y.hist) = freshNumbers P (sinceConnect x.hist))
    (out : y.led.Alive → x.led.Alive ∧ y.led.nextOut = x.led.nextOut) : RunsOn P y := by
  obtain ⟨start, n, hn, fits, next⟩ := h
  refine ⟨start, n, numbers.trans hn, fits, fun alive => ?_⟩
  obtain ⟨was, same⟩ := out alive
  exact same ▸ next was

theorem RunsOn.spend {x y : Books} (h : RunsOn P x) (hx : x.led.Fits) (alive : x.led.Alive)
    (numbers : freshNumbers P (sinceConnect y.hist) =
      some x.led.nextOut :: freshNumbers P (sinceConnect x.hist))
    (pos : x.led.nextOut ≠ 0) (out : y.led.nextOut = wrapU32 (x.led.nextOut + 1)) :
    RunsOn P y := by
  obtain ⟨start, n, hn, fits, next⟩ := h
  have lt := hx.nextOut
  obtain rfl | next := next alive
  · refine ⟨x.led.nextOut, 1, ?_, lt, fun _ => .inr out⟩
    simpa [hn] using numbers
  · have last : x.led.nextOut = start + n := by
      obtain lt' | eq := fits.lt_or_eq
      · rw [next, wrapU32, Nat.mod_eq_of_lt lt']
      · rw [eq, wrapU32, Nat.mod_self] at next
        exact absurd next pos
    refine ⟨start, n + 1, ?_, by omega, fun _ => .inr ?_⟩
    · rw [numbers, hn, last, List.range'_concat]
      simp
    · rw [out, last, add_assoc]

theorem RunsOn.dead {x y : Books} (h : RunsOn P x)
    (numbers : freshNumbers P (sinceConnect y.hist) = freshNumbers P (sinceConnect x.hist))
    (dead : ¬ y.led.Alive) : RunsOn P y :=
  h.quiet numbers fun alive => absurd alive dead

theorem RunsOn.of_none {x : Books} (h : freshNumbers P (sinceConnect x.hist) = []) : RunsOn P x :=
  ⟨0, 0, h, by decide, fun _ => .inl rfl⟩

theorem possDup_templated {which : Which} {slots : List (ℕ × Bytes)} {bytes : Bytes}
    (h : which ≠ .gapFill) : (Emission.templated which slots bytes).possDup = false := by
  cases which <;> first | rfl | exact absurd rfl h

theorem freshNumbers_emitted {e : Emission} {h : List Event} {n : ℕ} (hd : e.possDup = false)
    (hn : e.number P = some n) :
    freshNumbers P (sinceConnect (.emitted e :: h)) = some n :: freshNumbers P (sinceConnect h) := by
  have fresh : (Event.emitted e).freshNumber P = some (some n) := by
    simp [Event.freshNumber, hd, hn]
  rw [sinceConnect_cons rfl, freshNumbers, List.filterMap_cons_some fresh, freshNumbers]

theorem freshNumbers_ended (l : Ledger) (h : List Event) (why : DropReason)
    (resets : Option Session) :
    freshNumbers P (sinceConnect (Books.ended l h why resets).hist) =
      freshNumbers P (sinceConnect h) := by
  cases resets with
  | none => exact freshNumbers_quiet rfl rfl
  | some t => exact (freshNumbers_quiet rfl rfl).trans (freshNumbers_quiet rfl rfl)

theorem number_templated {l : Ledger} {which : Which} {slots : List (ℕ × Bytes)} {bytes : Bytes}
    (hl : l.Fits) (number : slots.lookup 34 = some (renderU32 l.nextOut)) :
    (Emission.templated which slots bytes).number P = some l.nextOut := by
  simp [Emission.number, number, asU32?_renderU32 hl.nextOut]

/-- A message goes out under the next number. -/
theorem RunsOn.emit {l l' : Ledger} {h : List Event} {e : Emission} (ih : RunsOn P ⟨l, h⟩)
    (hx : l.Fits) (alive : l.Alive) (hd : e.possDup = false) (hn : e.number P = some l.nextOut)
    (ok : Always (Consecutive P) (sinceConnect (.emitted e :: h)))
    (out : l'.nextOut = wrapU32 (l.nextOut + 1)) : RunsOn P ⟨l', .emitted e :: h⟩ := by
  rw [sinceConnect_cons rfl] at ok
  have pos : l.nextOut ≠ 0 := fun h0 => by
    have := ok.1.2
    simp [Event.onTime, hd, hn, h0] at this
  exact ih.spend hx alive (freshNumbers_emitted hd hn) pos out

theorem isConnect_of_announces {s : Session} {c : Call} {n : ℕ} (h : c.announces = some n) :
    (Event.called s c).isConnect = false ∧ c.setsOut := by
  cases c <;> first | exact ⟨rfl, rfl⟩ | cases h

/-- One move keeps the numbers of a connection consecutive. -/
theorem acting_runsOn {x y : Books} (h : Acting P ⟨WritesNumber P, True⟩ x y) (hx : x.led.Fits)
    (ok : Always (Consecutive P) (sinceConnect y.hist)) (ih : RunsOn P x) : RunsOn P y := by
  have quiet : ∀ {e : Event} {h : List Event}, e.isConnect = false → e.freshNumber P = none →
      freshNumbers P (sinceConnect (e :: h)) = freshNumbers P (sinceConnect h) :=
    freshNumbers_quiet
  cases h with
  | connected => exact .of_none rfl
  | connectedAnew => exact .of_none rfl
  | closed => exact ih.dead rfl fun alive => alive.1 rfl
  | ticked => exact ih.quiet rfl fun alive => ⟨alive, rfl⟩
  | @rolled l h s t c n tick before rolls after =>
    have hc := isConnect_of_ticks (s := s) tick
    have numbers : freshNumbers P (sinceConnect (.restarted t :: .called s c :: h)) =
        freshNumbers P (sinceConnect h) := (quiet rfl rfl).trans (quiet hc rfl)
    by_cases alive : s.Alive
    · rw [sinceConnect_cons rfl, sinceConnect_cons hc] at ok
      have none := ok.2.1.2
      simp only [Event.onTime, alive, tick, rolls, decide_true, Option.any_some, Bool.and_self, Bool.not_true,
        Bool.false_or, List.isEmpty_iff] at none
      exact .of_none (numbers.trans none)
    · refine ih.dead ((quiet rfl rfl).trans rfl) fun live => alive ?_
      rw [← Session.ledger_alive, before]
      exact live
  | setOut =>
    rw [sinceConnect_cons rfl] at ok
    cases ok.1.1
  | setIn => exact ih.quiet rfl fun alive => ⟨alive, rfl⟩
  | announced announces =>
    obtain ⟨hc, sets⟩ := isConnect_of_announces announces
    rw [sinceConnect_cons rfl, sinceConnect_cons hc] at ok
    exact absurd sets (by simpa [Event.leavesOut] using ok.2.1.1)
  | @originated l h s msg bytes kept before live =>
    have alive : l.Alive := by simp [Ledger.Alive, live]
    have stored : RunsOn P ⟨l, .stored l.nextOut bytes kept :: _⟩ :=
      ih.quiet (quiet rfl rfl) fun alive => ⟨alive, rfl⟩
    exact stored.emit hx alive rfl rfl ok rfl
  | sent alive hw number =>
    exact ih.emit hx alive (possDup_templated hw) (number_templated hx number) ok rfl
  | spoke owes => exact ih.quiet rfl fun alive => ⟨by simp [Ledger.Alive, owes], rfl⟩
  | saidGoodbye live => exact ih.quiet rfl fun alive => ⟨by simp [Ledger.Alive, live], rfl⟩
  | cut => exact ih.dead rfl fun alive => alive.2 rfl
  | ended => exact ih.dead (freshNumbers_ended _ _ _ _) (Books.ended_dead _ _ _ _)
  | judged => exact ih.quiet (quiet rfl rfl) fun alive => ⟨alive, rfl⟩
  | judgedHeld => exact ih.quiet (quiet rfl rfl) fun alive => ⟨alive, rfl⟩
  | restarted before arr resets =>
    rw [sinceConnect_cons rfl, sinceConnect_cons rfl] at ok
    have none := ok.2.1.1
    simp only [Event.leavesOut, arr, Option.all_some, resets] at none
    cases none
  | loggedOn now arr logon alive => exact ih.quiet (quiet rfl rfl) fun _ => ⟨alive, rfl⟩
  | held => exact ih.quiet (quiet rfl rfl) fun alive => ⟨alive, rfl⟩
  | asked now arr ahead count open_ alive number =>
    exact ih.emit hx alive rfl (number_templated hx number) ok rfl
  | askFailed => exact ih.dead (freshNumbers_ended _ _ _ _) (Books.ended_dead _ _ _ _)
  | peerLeft => exact ih.dead (freshNumbers_ended _ _ _ _) (Books.ended_dead _ _ _ _)
  | delivered => exact ih.quiet (quiet rfl rfl) fun alive => ⟨alive, rfl⟩
  | @replied l h s b bytes hdr kept before alive number answer =>
    have written : (Emission.reply l.nextOut bytes).number P = some l.nextOut :=
      Eq.trans answer (congrArg some number)
    have stored : RunsOn P ⟨l, .stored l.nextOut bytes kept :: _⟩ :=
      ih.quiet (quiet rfl rfl) fun alive => ⟨alive, rfl⟩
    exact stored.emit hx alive rfl written ok rfl
  | _ => exact ih.quiet rfl fun alive => ⟨alive, rfl⟩

theorem replaying_runsOn {x y : Books} (h : Replaying x y) (ih : RunsOn P x) : RunsOn P y := by
  cases h with
  | filled owes dup =>
    refine ih.quiet (freshNumbers_quiet rfl ?_) fun alive => ⟨alive, rfl⟩
    simp [Event.freshNumber, Emission.possDup, dup]
  | replayed => exact ih.quiet (freshNumbers_quiet rfl rfl) fun alive => ⟨alive, rfl⟩
  | progressed => exact ih.quiet rfl fun alive => ⟨alive, rfl⟩
  | gaveUp => exact ih.dead (freshNumbers_ended _ _ _ _) (Books.ended_dead _ _ _ _)

/-- What is true of the events of a connection was true of those before the last one. -/
theorem always_sinceConnect_of_cons {S : Event → List Event → Prop} {e : Event} {h : List Event}
    (he : e.isConnect = false) (ok : Always S (sinceConnect (e :: h))) : Always S (sinceConnect h) := by
  rw [sinceConnect_cons he] at ok
  exact ok.2

theorem GoesOn.sinceConnect_always {S : Event → List Event → Prop} {h h' : List Event}
    (g : GoesOn h h') (ok : Always S (sinceConnect h')) : Always S (sinceConnect h) := by
  induction g with
  | refl => exact ok
  | cons he _ ih => exact ih (always_sinceConnect_of_cons (isConnect_of_isCall he) ok)

/-- The numbers of a connection are consecutive after every move. -/
theorem moves_runOn {x y : Books} (h : ReflTransGen (Move P ⟨WritesNumber P, True⟩) x y)
    (fits : x.led.Fits) (start : x.hist = [])
    (ok : Always (Consecutive P) (sinceConnect y.hist)) : RunsOn P y := by
  induction h with
  | refl => exact .of_none (by rw [start]; rfl)
  | tail before step ih =>
    have hx := moves_fit before fits
    cases step with
    | @called l h s c shows =>
      cases hc : (Event.called s c).isConnect with
      | true =>
        refine .of_none ?_
        rw [show sinceConnect (.called s c :: h) = [] from since_cons_of_pos hc h]
        rfl
      | false =>
        exact (ih (always_sinceConnect_of_cons hc ok)).quiet (freshNumbers_quiet hc rfl)
          fun alive => ⟨alive, rfl⟩
    | acting step => exact acting_runsOn step hx ok (ih (step.goesOn.sinceConnect_always ok))
    | replaying step => exact replaying_runsOn step (ih (step.goesOn.sinceConnect_always ok))

/-- **Outbound numbers are consecutive on a connection.** While no one sets the outbound count, no
Logon with `141=Y` arrives, no boundary passes on a live session that already sent something and
the count does not wrap, the messages of a connection that are not resends carry consecutive
numbers. -/
theorem fresh_consecutive {A J : Type} [Application A] [Journal J] {w : World A J}
    (writes : World.Answers A (WritesNumber P)) (h : World.Reachable P w)
    (ok : Always (Consecutive P) (sinceConnect w.hist)) :
    ∃ start n, (freshNumbers P (sinceConnect w.hist)).reverse =
      (List.range' start n).map some := by
  obtain ⟨s, hs, moves⟩ := World.reachable_moves (R := ⟨WritesNumber P, True⟩) writes trivial h
  obtain ⟨start, n, numbers, -, -⟩ := moves_runOn moves (initial_fits hs) rfl ok
  exact ⟨start, n, by rw [show freshNumbers P (sinceConnect w.hist) = _ from numbers,
    List.reverse_reverse]⟩

open Setting in
theorem fresh_consecutive_heartbeats :
    ∃ start n, (freshNumbers acceptor (sinceConnect (loggedOn.run acceptor
      [.sendHeartbeat, .receivedWith (theirs "1" 2 [(112, ascii "Q")])]).hist)).reverse =
      (List.range' start n).map some :=
  fresh_consecutive (fun _ _ _ _ h => by cases h)
    (loggedOn_reachable.run _ _ (by simp [Call.fits])) (by decide +kernel)

open Setting in
/-- When the window of the schedule shuts, the Logout carries the number of the Logon again. -/
theorem closing_logout_repeats :
    ¬ ∀ (cfg : Config) (calls : List Call), (∀ c ∈ calls, c.fits) →
      (∀ e ∈ sinceConnect ((fresh acceptor cfg).run acceptor calls).hist, e.leavesOut acceptor) →
      ∃ start n, (freshNumbers acceptor
        (sinceConnect ((fresh acceptor cfg).run acceptor calls).hist)).reverse =
        (List.range' start n).map some := by
  intro h
  let window : Schedule := ⟨some ⟨dayMs, 0, 43200000, Schedule.allDays⟩, 0⟩
  obtain ⟨start, n, numbers⟩ := h { config with schedule := window }
    [.connect, .tick now, .receivedWith (logon 1), .tick (now + 43200000)] (by decide)
    (by decide +kernel)
  have twice : (freshNumbers acceptor (sinceConnect ((fresh acceptor
      { config with schedule := window }).run acceptor [.connect, .tick now,
        .receivedWith (logon 1), .tick (now + 43200000)]).hist)).reverse = [some 1, some 1] := by
    decide +kernel
  rw [twice] at numbers
  have two : n = 2 := by simpa using (congrArg List.length numbers).symm
  subst two
  simp [List.range'] at numbers
  omega

end Fixbolt
