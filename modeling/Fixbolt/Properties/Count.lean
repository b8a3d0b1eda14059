import Fixbolt.Properties.Setting

/-!
# The inbound count

What moves `next_in`, and what does not.

* `acting_count`: each way the count can move in one step.
* `inbound_gap_free`: a call that moves the count up accounts for every number it passes.
* `received_in_order`: messages are delivered once and in order, where nothing moves it back.
-/

namespace Fixbolt

open History Relation

variable {P : Params} {R : Rules}

theorem number_lt {view : MessageView} {tag n : ℕ} (h : Inbound.number view tag = some n) :
    n < u32Size := by
  obtain ⟨v, -, hv⟩ := Option.bind_eq_some_iff.mp h
  exact asU32?_lt hv

/-- A message that arrives is what the bytes say under their number. -/
theorem arrives_read {s : Session} {b : Bytes} {m : Inbound} (h : s.arrives P b = some m) :
    Inbound.number (viewOf P b) 34 = some m.seq ∧ m = Inbound.read (viewOf P b) m.seq := by
  unfold Session.arrives at h
  dsimp only at h
  split at h
  · split at h
    · obtain ⟨seq, hs, rfl⟩ := Option.map_eq_some_iff.mp h
      exact ⟨hs, rfl⟩
    · cases h
  · cases h

theorem arrives_seq {s : Session} {b : Bytes} {m : Inbound} (h : s.arrives P b = some m) :
    Inbound.number (viewOf P b) 34 = some m.seq := (arrives_read h).1

/-- Why the inbound count moved from the books `x` to the books `y`. -/
inductive CountMoves (P : Params) (x y : Books) : Prop
  /-- A new connection, on a session that does not keep its counts. -/
  | connected {s t : Session} (now : callOf x.hist = some (s, .connect)) (count : y.led.nextIn = 1)
      (hist : y.hist = .restarted t :: x.hist)
  /-- A schedule boundary. -/
  | rolled {s t : Session} {c : Call} {n : ℕ} (now : callOf x.hist = some (s, c))
      (tick : c.ticks = some n) (rolls : s.rolls n) (count : y.led.nextIn = 1)
      (hist : y.hist = .restarted t :: x.hist)
  /-- An operator. -/
  | set {s : Session} {n : ℕ} (now : callOf x.hist = some (s, .setNextIn n))
      (count : y.led.nextIn = n)
  /-- The reset policy at the end of a connection. -/
  | ended {t : Session} {why : DropReason} (hist : y.hist = .restarted t :: .ended why :: x.hist)
      (count : y.led.nextIn = 1)
  /-- A Logon with `141=Y`. -/
  | restarted {s t : Session} {b : Bytes} {m : Inbound} (now : judging x.hist = some (s, b))
      (arr : s.arrives P b = some m) (resets : m.isLogon && m.resetSeq)
      (hist : y.hist = .restarted t :: x.hist) (count : y.led.nextIn = 1)
  /-- A message whose number was consumed. -/
  | consumed {s : Session} {b : Bytes} {m : Inbound} (now : judging x.hist = some (s, b))
      (arr : s.arrives P b = some m) (consumed : m.Consumed s) (old : x.led.nextIn = m.countAt s)
      (count : y.led.nextIn = wrapU32 (m.seq + 1))
  /-- A message with an unreadable tag. -/
  | skipped {s : Session} {b : Bytes} {seq : ℕ} (now : judging x.hist = some (s, b))
      (live : s.state = .loggedOn) (bad : badTagNumber P b = some seq)
      (old : s.nextIn = x.led.nextIn) (high : x.led.nextIn ≤ seq)
      (count : y.led.nextIn = wrapU32 (seq + 1))
  /-- A SequenceReset. -/
  | moved {s : Session} {b : Bytes} {m : Inbound} {n : ℕ} (now : judging x.hist = some (s, b))
      (arr : s.arrives P b = some m) (reset : m.isSequenceReset) (new : m.newSeqNo = some n)
      (old : s.nextIn = x.led.nextIn) (up : x.led.nextIn < n) (count : y.led.nextIn = n)

theorem countAt_of_not_logon {m : Inbound} {s : Session} (h : m.isLogon = false) :
    m.countAt s = s.nextIn := by
  simp [Inbound.countAt, h]

theorem Books.ended_count (l : Ledger) (h : List Event) (why : DropReason)
    (resets : Option Session) :
    (Books.ended l h why resets).led.nextIn = l.nextIn ∨
      ∃ t, (Books.ended l h why resets).hist = .restarted t :: .ended why :: h ∧
        (Books.ended l h why resets).led.nextIn = 1 := by
  cases resets with
  | none => exact .inl rfl
  | some t => exact .inr ⟨t, rfl, rfl⟩

/-- **What moves the inbound count.** -/
theorem acting_count {x y : Books} (h : Acting P R x y) :
    y.led.nextIn = x.led.nextIn ∨ CountMoves P x y := by
  cases h with
  | connectedAnew => exact .inr (.connected rfl rfl rfl)
  | rolled tick before rolls after => exact .inr (.rolled rfl tick rolls rfl rfl)
  | setIn => exact .inr (.set rfl rfl)
  | ended =>
    obtain same | ⟨t, hist, count⟩ := Books.ended_count _ _ _ _
    · exact .inl same
    · exact .inr (.ended hist count)
  | restarted before arr resets => exact .inr (.restarted rfl arr resets rfl rfl)
  | askFailed =>
    obtain same | ⟨t, hist, count⟩ := Books.ended_count _ _ _ _
    · exact .inl same
    · exact .inr (.ended hist count)
  | advanced now arr consumed stays count => exact .inr (.consumed now arr consumed count rfl)
  | skipped before live bad high =>
    exact .inr (.skipped rfl ((congrArg Ledger.state before).trans live) bad
      (congrArg Ledger.nextIn before) high rfl)
  | moved before arr reset fault new up =>
    exact .inr (.moved rfl arr reset new (congrArg Ledger.nextIn before) up rfl)
  | peerLeft now arr logout left fault count =>
    obtain same | ⟨t, hist, count⟩ := Books.ended_count _ _ _ _
    · exact .inr (.consumed now arr (.inl logout)
        (count.trans (countAt_of_not_logon (Inbound.eq_of_isLogout logout).1).symm) same)
    · exact .inr (.ended hist count)
  | delivered before arr app fault inOrder =>
    obtain ⟨logon, -, -, reset⟩ := Inbound.eq_of_isApplication app
    have old : _ = Inbound.countAt _ _ :=
      (congrArg Ledger.nextIn before).symm.trans (countAt_of_not_logon logon).symm
    exact .inr (.consumed rfl arr (.inr (.inr ⟨by simp [reset], inOrder.trans old⟩)) old rfl)
  | _ => exact .inl rfl

/-- A resend moves the inbound count only where it ends the session. -/
theorem replaying_count {x y : Books} (h : Replaying x y) :
    y.led.nextIn = x.led.nextIn ∨
      ∃ t why, y.hist = .restarted t :: .ended why :: x.hist ∧ y.led.nextIn = 1 := by
  cases h with
  | gaveUp =>
    obtain same | ⟨t, hist, count⟩ := Books.ended_count _ _ _ _
    · exact .inl same
    · exact .inr ⟨t, _, hist, count⟩
  | _ => exact .inl rfl

/-! ### The counts are u32s -/

/-- The counts and the end of the gap fit their type. -/
structure Ledger.Fits (l : Ledger) : Prop where
  nextOut : l.nextOut < u32Size
  nextIn : l.nextIn < u32Size
  resendTo : l.resendTo < u32Size

theorem wrapU32_lt (n : ℕ) : wrapU32 n < u32Size := Nat.mod_lt _ (by decide)

theorem one_lt_u32Size : 1 < u32Size := by decide

theorem zero_lt_u32Size : 0 < u32Size := by decide

theorem Ledger.Fits.restart {l : Ledger} (h : l.Fits) : l.restart.Fits :=
  ⟨one_lt_u32Size, one_lt_u32Size, h.resendTo⟩

theorem Ledger.Fits.spend {l : Ledger} (h : l.Fits) : l.spend.Fits :=
  ⟨wrapU32_lt _, h.nextIn, h.resendTo⟩

theorem Ledger.Fits.advance {l : Ledger} (h : l.Fits) (n : ℕ) : (l.advance n).Fits := by
  refine ⟨h.nextOut, wrapU32_lt _, ?_⟩
  unfold Ledger.advance
  dsimp only
  split
  · exact zero_lt_u32Size
  · exact h.resendTo

theorem Ledger.Fits.ended {l : Ledger} (h : l.Fits) (hist : List Event) (why : DropReason)
    (resets : Option Session) : (Books.ended l hist why resets).led.Fits := by
  cases resets with
  | none => exact ⟨h.nextOut, h.nextIn, h.resendTo⟩
  | some t => exact ⟨one_lt_u32Size, one_lt_u32Size, h.resendTo⟩

theorem Ledger.Fits.missing {l : Ledger} (h : l.Fits) {n : ℕ} (hn : n < u32Size) :
    (l.missing n).Fits :=
  ⟨h.nextOut, h.nextIn, (Nat.sub_le n 1).trans_lt hn⟩

/-- The counts stay in their type. -/
theorem move_fits {x y : Books} (h : Move P R x y) (hx : x.led.Fits) : y.led.Fits := by
  cases h with
  | called => exact hx
  | replaying h =>
    cases h with
    | gaveUp => exact hx.ended _ _ _
    | _ => exact ⟨hx.nextOut, hx.nextIn, hx.resendTo⟩
  | acting h =>
    cases h with
    | connectedAnew => exact ⟨one_lt_u32Size, one_lt_u32Size, hx.resendTo⟩
    | rolled => exact ⟨one_lt_u32Size, one_lt_u32Size, zero_lt_u32Size⟩
    | setOut _ _ fits => exact ⟨fits, hx.nextIn, hx.resendTo⟩
    | setIn _ _ fits => exact ⟨hx.nextOut, fits, hx.resendTo⟩
    | announced _ _ fits => exact ⟨fits, hx.nextIn, hx.resendTo⟩
    | originated => exact hx.spend
    | sent => exact hx.spend
    | ended => exact hx.ended _ _ _
    | restarted => exact hx.restart
    | asked now arr => exact (hx.missing (number_lt (arrives_seq arr))).spend
    | askFailed now arr => exact (hx.missing (number_lt (arrives_seq arr))).ended _ _ _
    | advanced => exact hx.advance _
    | skipped => exact ⟨hx.nextOut, wrapU32_lt _, hx.resendTo⟩
    | moved before arr reset fault new =>
      rw [(arrives_read arr).2] at new
      exact ⟨hx.nextOut, number_lt new, hx.resendTo⟩
    | peerLeft => exact (hx.advance _).ended _ _ _
    | delivered => exact hx.advance _
    | replied => exact hx.spend
    | _ => exact ⟨hx.nextOut, hx.nextIn, hx.resendTo⟩

theorem initial_fits {s : Session} (h : World.Initial P s) : s.ledger.Fits := by
  cases h with
  | new cfg => exact ⟨one_lt_u32Size, one_lt_u32Size, zero_lt_u32Size⟩
  | resume cfg out in_ => exact ⟨out.2, in_.2, zero_lt_u32Size⟩
  | resumeAt cfg mark out in_ => exact ⟨out.2, in_.2, zero_lt_u32Size⟩

theorem moves_fit {x y : Books} (h : ReflTransGen (Move P R) x y) (hx : x.led.Fits) :
    y.led.Fits := by
  induction h with
  | refl => exact hx
  | tail _ step ih => exact move_fits step ih

/-! ### Numbers passed in one call -/

/-- Does a judged message account for a number? It does for its own, and a SequenceReset for those
below its `36=`. -/
def Event.accountsFor (P : Params) (n : ℕ) : Event → Bool
  | .judged s b =>
    (s.arrives P b).any (fun m => m.seq == n || m.isSequenceReset && m.newSeqNo.any (n < ·)) ||
      badTagNumber P b == some n
  | _ => false

/-- The number of a Logout and of a ResendRequest is not checked: these jump to it. -/
def Event.jumpsOver (P : Params) (n : ℕ) : Event → Bool
  | .judged s b => (s.arrives P b).any fun m => (m.isLogout || m.isResendRequest) && n < m.seq
  | _ => false

/-- A number is accounted for in a call: a message judged in it accounts for it or jumps over it,
or it is 0, and the session ended under a reset policy when its count had wrapped. -/
def Accounted (P : Params) (h : List Event) (n : ℕ) : Prop :=
  (∃ e ∈ sinceCall h, e.accountsFor P n ∨ e.jumpsOver P n) ∨
    n = 0 ∧ ∃ t why, .ended why ∈ sinceCall h ∧ .restarted t ∈ sinceCall h

/-- A judged message neither restarts the count nor runs ahead of it under an unreadable tag. -/
def Event.keepsCount (P : Params) : Event → Bool
  | .judged s b =>
    (s.arrives P b).all (fun m => !(m.isLogon && m.resetSeq)) &&
      (s.state != .loggedOn || (badTagNumber P b).all (· ≤ s.nextIn))
  | _ => true

theorem wrapU32_le (n : ℕ) : wrapU32 n ≤ n := Nat.mod_le _ _

theorem Accounted.goesOn {h h' : List Event} {n : ℕ} (a : Accounted P h n) (g : GoesOn h h') :
    Accounted P h' n := by
  obtain ⟨e, he, ha⟩ | ⟨hn, t, why, he, hr⟩ := a
  · exact .inl ⟨e, g.sinceCall he, ha⟩
  · exact .inr ⟨hn, t, why, g.sinceCall he, g.sinceCall hr⟩

theorem Accounted.of_judging {h : List Event} {s : Session} {b : Bytes} {n : ℕ}
    (now : judging h = some (s, b))
    (a : (Event.judged s b).accountsFor P n ∨ (Event.judged s b).jumpsOver P n) :
    Accounted P h n :=
  .inl ⟨_, mem_sinceCall_of_judging now, a⟩

theorem Accounted.of_reset {h : List Event} {t : Session} {why : DropReason} :
    Accounted P (.restarted t :: .ended why :: h) 0 :=
  .inr ⟨rfl, t, why, .tail _ (.head _), .head _⟩

/-- One step of a call accounts for the numbers it passes. -/
theorem acting_accounted {x y : Books} {s : Session} {c : Call} {start : ℕ}
    (h : Acting P R x y) (now : callOf x.hist = some (s, c))
    (drives : c.incoming.isSome ∨ c.ticks.isSome) (noBoundary : ∀ t, c.ticks = some t → ¬ s.rolls t)
    (keeps : ∀ e ∈ sinceCall y.hist, e.keepsCount P)
    (ih : ∀ n, start ≤ n → n < x.led.nextIn → Accounted P x.hist n) :
    ∀ n, start ≤ n → n < y.led.nextIn → Accounted P y.hist n := by
  intro n low high
  have goes := h.goesOn
  have judgedKeeps : ∀ {t b}, judging x.hist = some (t, b) → (Event.judged t b).keepsCount P :=
    fun hj => keeps _ (goes.sinceCall (mem_sinceCall_of_judging hj))
  obtain same | moves := acting_count h
  · exact (ih n low (same ▸ high)).goesOn goes
  cases moves with
  | connected hc =>
    obtain ⟨rfl, rfl⟩ : s = _ ∧ c = _ := by simpa [now] using hc
    simp [Call.incoming, Call.ticks] at drives
  | rolled hc tick rolls =>
    obtain ⟨rfl, rfl⟩ : s = _ ∧ c = _ := by simpa [now] using hc
    exact absurd rolls (noBoundary _ tick)
  | set hc =>
    obtain ⟨rfl, rfl⟩ : s = _ ∧ c = _ := by simpa [now] using hc
    simp [Call.incoming, Call.ticks] at drives
  | ended hist count =>
    obtain rfl : n = 0 := by omega
    exact hist ▸ .of_reset
  | restarted hj arr resets =>
    have := judgedKeeps hj
    simp only [Event.keepsCount, arr, Option.all_some, resets] at this
    cases this
  | @consumed t b m hj arr consumed old count =>
    have le : n ≤ m.seq := by
      have := wrapU32_le (m.seq + 1)
      omega
    obtain rfl | lt := le.eq_or_lt
    · exact (Accounted.of_judging hj (.inl (by simp [Event.accountsFor, arr]))).goesOn goes
    · obtain logout | resend | ⟨-, inOrder⟩ := consumed
      · have jumps : (Event.judged t b).jumpsOver P n := by
          simp [Event.jumpsOver, arr, logout, lt]
        exact (Accounted.of_judging hj (.inr jumps)).goesOn goes
      · have jumps : (Event.judged t b).jumpsOver P n := by
          simp [Event.jumpsOver, arr, resend, lt]
        exact (Accounted.of_judging hj (.inr jumps)).goesOn goes
      · exact (ih n low (by omega)).goesOn goes
  | @skipped t b seq hj live bad old up count =>
    have le : n ≤ seq := by
      have := wrapU32_le (seq + 1)
      omega
    have next : seq ≤ t.nextIn := by
      have := judgedKeeps hj
      simp only [Event.keepsCount, live, bad, Bool.and_eq_true] at this
      simpa using this.2
    obtain rfl | lt := le.eq_or_lt
    · exact (Accounted.of_judging hj (.inl (by simp [Event.accountsFor, bad]))).goesOn goes
    · exact (ih n low (by omega)).goesOn goes
  | @moved t b m k hj arr reset new old up count =>
    have below : n < k := by omega
    exact (Accounted.of_judging hj (.inl (by simp [Event.accountsFor, arr, reset, new, below]))).goesOn
      goes

theorem replaying_accounted {x y : Books} {start : ℕ} (h : Replaying x y)
    (ih : ∀ n, start ≤ n → n < x.led.nextIn → Accounted P x.hist n) :
    ∀ n, start ≤ n → n < y.led.nextIn → Accounted P y.hist n := by
  intro n low high
  obtain same | ⟨t, why, hist, count⟩ := replaying_count h
  · exact (ih n low (same ▸ high)).goesOn h.goesOn
  · obtain rfl : n = 0 := by omega
    exact hist ▸ .of_reset

/-- **The inbound count passes no number unaccounted for.** In a call that receives bytes or moves
the clock, without a Logon with `141=Y`, without a schedule boundary and without an unreadable tag
ahead of the count, every number that the count passes is accounted for by a message judged in that
call. -/
theorem inbound_gap_free {A J : Type} [Application A] [Journal J] {w : World A J} {c : Call}
    (drives : c.incoming.isSome ∨ c.ticks.isSome)
    (noBoundary : ∀ t, c.ticks = some t → ¬ w.ses.rolls t)
    (keeps : ∀ e ∈ sinceCall (w.perform P c).1.hist, e.keepsCount P) {n : ℕ}
    (low : w.ses.nextIn ≤ n) (high : n < (w.perform P c).1.ses.nextIn) :
    Accounted P (w.perform P c).1.hist n := by
  have fits : c.fits := by
    obtain h | h := drives <;> cases c <;> first | rfl | cases h
  have calls := World.perform_calls (P := P) (R := .free)
    (fun _ _ _ _ _ => trivial) trivial w c fits
  refine calls.induction
    (I := fun x => ∀ n, w.ses.nextIn ≤ n → n < x.led.nextIn → Accounted P x.hist n)
    ?start ?act ?replay keeps n low high
  case start => exact fun n low high => absurd low (not_le.mpr high)
  case act => exact fun u v step now keeps ih => acting_accounted step now drives noBoundary keeps ih
  case replay => exact fun u v step _ ih => replaying_accounted step ih

open Setting in
theorem inbound_gap_free_order :
    Accounted acceptor (loggedOn.perform acceptor (.receivedWith (order 2))).1.hist 2 :=
  inbound_gap_free (.inl rfl) (by simp [Call.ticks]) (by decide +kernel) (by decide +kernel)
    (by decide +kernel)

open Setting in
/-- A ResendRequest numbered 5 on a session that expects 2 takes the count to 6: 3 never arrived,
and no SequenceReset spoke of it. -/
theorem resendRequest_jumps :
    ¬ ∀ (w : World Silent NoJournal) (c : Call), World.Reachable acceptor w →
      (c.incoming.isSome ∨ c.ticks.isSome) → (∀ t, c.ticks = some t → ¬ w.ses.rolls t) →
      (∀ e ∈ sinceCall (w.perform acceptor c).1.hist, e.keepsCount acceptor) →
      ∀ n, w.ses.nextIn ≤ n → n < (w.perform acceptor c).1.ses.nextIn →
        ∃ e ∈ sinceCall (w.perform acceptor c).1.hist, e.accountsFor acceptor n := by
  intro h
  have := h loggedOn (.receivedWith (theirs "2" 5 [(7, ascii "1"), (16, ascii "0")]))
    loggedOn_reachable (.inl rfl) (by simp [Call.ticks]) (by decide +kernel) 3 (by decide +kernel)
    (by decide +kernel)
  revert this
  decide +kernel

/-! ### Numbers delivered in a run -/

/-- The `34=` of a message handed to the application. -/
def Event.deliveredNumber (P : Params) : Event → Option ℕ
  | .delivered _ b => Inbound.number (viewOf P b) 34
  | _ => none

/-- The numbers delivered in a history, newest first. -/
def deliveredNumbers (P : Params) (h : List Event) : List ℕ := h.filterMap (Event.deliveredNumber P)

/-- Nothing restarts the count, and no message moves it back: a consumed one, and one with an
unreadable tag, is not numbered 4294967295, and a consumed one is not further behind the count than
the number before it. -/
def Event.goesForward (P : Params) : Event → Bool
  | .restarted _ => false
  | .judged s b =>
    (s.arrives P b).all (fun m =>
      !decide (m.Consumed s) || (m.countAt s ≤ m.seq + 1 && m.seq != u32Max)) &&
      (s.state != .loggedOn || badTagNumber P b != some u32Max)
  | _ => true

theorem badTagNumber_lt {b : Bytes} {n : ℕ} (h : badTagNumber P b = some n) : n < u32Size := by
  unfold badTagNumber at h
  split at h
  · split at h
    · exact number_lt h
    · cases h
  · cases h

theorem wrapU32_succ {n : ℕ} (h : n < u32Size) (hn : n ≠ u32Max) : wrapU32 (n + 1) = n + 1 := by
  have : n + 1 < u32Size := by
    simp only [u32Max, u32Size] at *
    omega
  exact Nat.mod_eq_of_lt this

theorem forward_consumed {s : Session} {b : Bytes} {m : Inbound}
    (forward : (Event.judged s b).goesForward P) (arr : s.arrives P b = some m)
    (consumed : m.Consumed s) : m.countAt s ≤ m.seq + 1 ∧ wrapU32 (m.seq + 1) = m.seq + 1 := by
  simp only [Event.goesForward, arr, Option.all_some, Bool.and_eq_true, Bool.or_eq_true,
    decide_eq_true consumed, Bool.not_true, Bool.false_eq_true, false_or, decide_eq_true_eq,
    bne_iff_ne] at forward
  exact ⟨forward.1.1, wrapU32_succ (number_lt (arrives_seq arr)) forward.1.2⟩

theorem forward_skipped {s : Session} {b : Bytes} {seq : ℕ}
    (forward : (Event.judged s b).goesForward P) (live : s.state = .loggedOn)
    (bad : badTagNumber P b = some seq) : wrapU32 (seq + 1) = seq + 1 := by
  simp only [Event.goesForward, live, bad, Bool.and_eq_true, bne_self_eq_false, Bool.false_or,
    bne_iff_ne, ne_eq, Option.some.injEq] at forward
  exact wrapU32_succ (badTagNumber_lt bad) forward.2

/-- What a call delivers lies between the count it found and the count it leaves. -/
structure Delivers (P : Params) (start : ℕ) (x : Books) : Prop where
  up : start ≤ x.led.nextIn
  increasing : (deliveredNumbers P (sinceCall x.hist)).Pairwise (· > ·)
  within : ∀ k ∈ deliveredNumbers P (sinceCall x.hist), start ≤ k ∧ k < x.led.nextIn

/-- A step that does not restart the count moves it forward, if at all. -/
theorem acting_up {x y : Books} {s : Session} {c : Call} (h : Acting P R x y)
    (now : callOf x.hist = some (s, c)) (receives : c.incoming.isSome)
    (forward : ∀ e ∈ sinceCall y.hist, e.goesForward P) : x.led.nextIn ≤ y.led.nextIn := by
  have goes := h.goesOn
  have judgedForward : ∀ {t b}, judging x.hist = some (t, b) →
      (Event.judged t b).goesForward P :=
    fun hj => forward _ (goes.sinceCall (mem_sinceCall_of_judging hj))
  have other : ∀ {t d}, callOf x.hist = some (t, d) → d.incoming.isSome := by
    intro t d hd
    obtain ⟨-, rfl⟩ : s = t ∧ c = d := by simpa [now] using hd
    exact receives
  obtain same | moves := acting_count h
  · exact same.ge
  cases moves with
  | connected hc => cases other hc
  | @rolled t r d n hc tick =>
    have := other hc
    cases d <;> simp [Call.incoming, Call.ticks] at this tick
  | set hc => cases other hc
  | ended hist =>
    have := forward (.restarted _) (by rw [hist, sinceCall_cons rfl]; exact .head _)
    cases this
  | restarted hj arr resets hist =>
    have := forward (.restarted _) (by rw [hist, sinceCall_cons rfl]; exact .head _)
    cases this
  | consumed hj arr consumed old count =>
    obtain ⟨up, next⟩ := forward_consumed (judgedForward hj) arr consumed
    omega
  | skipped hj live bad old high count =>
    have next := forward_skipped (judgedForward hj) live bad
    omega
  | moved hj arr reset new old up count => omega

theorem quiet_deliveredNumbers {e : Event} {h : List Event} (hc : e.isCall = false)
    (hd : e.deliveredNumber P = none) :
    deliveredNumbers P (sinceCall (e :: h)) = deliveredNumbers P (sinceCall h) := by
  rw [sinceCall_cons hc, deliveredNumbers, List.filterMap_cons_none hd, deliveredNumbers]

/-- What a step delivers, if anything: the message whose number the count was at. -/
theorem acting_delivers {x y : Books} (h : Acting P R x y) :
    deliveredNumbers P (sinceCall y.hist) = deliveredNumbers P (sinceCall x.hist) ∨
      ∃ s b m, judging x.hist = some (s, b) ∧ s.arrives P b = some m ∧ m.Consumed s ∧
        m.seq = x.led.nextIn ∧ y.led.nextIn = wrapU32 (m.seq + 1) ∧
        deliveredNumbers P (sinceCall y.hist) =
          m.seq :: deliveredNumbers P (sinceCall x.hist) := by
  have ends : ∀ (l : Ledger) (h : List Event) (why : DropReason) (r : Option Session),
      deliveredNumbers P (sinceCall (Books.ended l h why r).hist) =
        deliveredNumbers P (sinceCall h) := by
    intro l h why r
    cases r with
    | none => exact quiet_deliveredNumbers rfl rfl
    | some t => exact (quiet_deliveredNumbers rfl rfl).trans (quiet_deliveredNumbers rfl rfl)
  cases h with
  | @delivered l h s t b m before arr app fault inOrder =>
    refine .inr ⟨s, b, m, rfl, arr, ?_, inOrder, rfl, ?_⟩
    · obtain ⟨logon, -, -, reset⟩ := Inbound.eq_of_isApplication app
      refine .inr (.inr ⟨by simp [reset], ?_⟩)
      rw [countAt_of_not_logon logon]
      exact inOrder.trans (congrArg Ledger.nextIn before).symm
    · have number : (Event.delivered t b).deliveredNumber P = some m.seq := arrives_seq arr
      rw [sinceCall_cons rfl, deliveredNumbers, List.filterMap_cons_some number]
      rfl
  | ended => exact .inl (ends _ _ _ _)
  | askFailed => exact .inl (ends _ _ _ _)
  | peerLeft => exact .inl (ends _ _ _ _)
  | originated => exact .inl ((quiet_deliveredNumbers rfl rfl).trans (quiet_deliveredNumbers rfl rfl))
  | replied => exact .inl ((quiet_deliveredNumbers rfl rfl).trans (quiet_deliveredNumbers rfl rfl))
  | connectedAnew => exact .inl (quiet_deliveredNumbers rfl rfl)
  | rolled => exact .inl (quiet_deliveredNumbers rfl rfl)
  | announced => exact .inl (quiet_deliveredNumbers rfl rfl)
  | sent => exact .inl (quiet_deliveredNumbers rfl rfl)
  | judged => exact .inl (quiet_deliveredNumbers rfl rfl)
  | judgedHeld => exact .inl (quiet_deliveredNumbers rfl rfl)
  | restarted => exact .inl (quiet_deliveredNumbers rfl rfl)
  | loggedOn => exact .inl (quiet_deliveredNumbers rfl rfl)
  | held => exact .inl (quiet_deliveredNumbers rfl rfl)
  | asked => exact .inl (quiet_deliveredNumbers rfl rfl)
  | _ => exact .inl rfl

/-- A resend delivers nothing. -/
theorem replaying_delivers {x y : Books} (h : Replaying x y) :
    deliveredNumbers P (sinceCall y.hist) = deliveredNumbers P (sinceCall x.hist) := by
  cases h with
  | @gaveUp l h resets =>
    cases resets with
    | none => exact quiet_deliveredNumbers rfl rfl
    | some t => exact (quiet_deliveredNumbers rfl rfl).trans (quiet_deliveredNumbers rfl rfl)
  | progressed => rfl
  | _ => exact quiet_deliveredNumbers rfl rfl

section Run

variable {A J : Type} [Application A] [Journal J]

/-- A call adds its own event, and then what happened in it. -/
theorem World.perform_hist (w : World A J) (c : Call) (fits : c.fits) :
    (w.perform P c).1.hist = sinceCall (w.perform P c).1.hist ++ .called w.ses c :: w.hist := by
  have calls := World.perform_calls (P := P) (R := .free) (fun _ _ _ _ _ => trivial) trivial w c
    fits
  refine calls.induction (I := fun x => x.hist = sinceCall x.hist ++ .called w.ses c :: w.hist)
    (K := fun _ => True) rfl ?act ?replay (fun _ _ => trivial)
  case act => exact fun u v step _ _ ih => step.goesOn.split ih
  case replay => exact fun u v step _ ih => step.goesOn.split ih

/-- One call that receives bytes, and nothing that restarts the count or moves it back. -/
theorem received_delivers (w : World A J) (b : Bytes)
    (forward : ∀ e ∈ sinceCall (w.perform P (.receivedWith b)).1.hist, e.goesForward P) :
    Delivers P w.ses.nextIn (w.perform P (.receivedWith b)).1.books := by
  have calls := World.perform_calls (P := P) (R := .free) (fun _ _ _ _ _ => trivial) trivial w
    (.receivedWith b) rfl
  refine calls.induction (I := Delivers P w.ses.nextIn) ?start ?act ?replay forward
  case start => exact ⟨le_rfl, .nil, nofun⟩
  case act =>
    intro u v step now forward ih
    have up := acting_up step (now.trans (callOf_called _ _)) rfl forward
    obtain same | ⟨s, d, m, hj, arr, consumed, seq, count, numbers⟩ := acting_delivers step
    · exact ⟨ih.up.trans up, same ▸ ih.increasing,
        fun k hk => ⟨(ih.within k (same ▸ hk)).1, (ih.within k (same ▸ hk)).2.trans_le up⟩⟩
    · have fw := forward _ (step.goesOn.sinceCall (mem_sinceCall_of_judging hj))
      have next : v.led.nextIn = m.seq + 1 := count.trans (forward_consumed fw arr consumed).2
      refine ⟨ih.up.trans up, ?_, ?_⟩
      · rw [numbers]
        exact .cons (fun k hk => seq ▸ (ih.within k hk).2) ih.increasing
      · intro k hk
        rw [numbers, List.mem_cons] at hk
        obtain rfl | hk := hk
        · exact ⟨seq ▸ ih.up, by omega⟩
        · have := ih.within k hk
          exact ⟨this.1, by omega⟩
  case replay =>
    intro u v step forward ih
    have numbers := replaying_delivers (P := P) step
    obtain same | ⟨t, why, hist, -⟩ := replaying_count step
    · exact ⟨same ▸ ih.up, numbers ▸ ih.increasing, fun k hk => same ▸ ih.within k (numbers ▸ hk)⟩
    · have := forward (.restarted t) (by rw [hist, sinceCall_cons rfl]; exact .head _)
      cases this

theorem deliveredNumbers_append (xs ys : List Event) :
    deliveredNumbers P (xs ++ ys) = deliveredNumbers P xs ++ deliveredNumbers P ys :=
  List.filterMap_append

theorem run_delivers (w : World A J) (bs : List Bytes) :
    ∃ new, (w.run P (bs.map .receivedWith)).hist = new ++ w.hist ∧
      ((∀ e ∈ new, e.goesForward P) →
        w.ses.nextIn ≤ (w.run P (bs.map .receivedWith)).ses.nextIn ∧
        (deliveredNumbers P new).Pairwise (· > ·) ∧
        ∀ k ∈ deliveredNumbers P new,
          w.ses.nextIn ≤ k ∧ k < (w.run P (bs.map .receivedWith)).ses.nextIn) := by
  induction bs generalizing w with
  | nil => exact ⟨[], rfl, fun _ => ⟨le_rfl, .nil, nofun⟩⟩
  | cons b bs ih =>
    have first := w.perform_hist (P := P) (.receivedWith b) rfl
    have delivers := received_delivers (P := P) w b
    generalize hv : (w.perform P (.receivedWith b)).1 = v at first delivers
    obtain ⟨new, hist, rest⟩ := ih v
    have run : w.run P ((b :: bs).map .receivedWith) = v.run P (bs.map .receivedWith) := by
      rw [← hv]
      rfl
    rw [run]
    refine ⟨new ++ (sinceCall v.hist ++ [.called w.ses (.receivedWith b)]), ?_, fun forward => ?_⟩
    · rw [hist, List.append_assoc, List.append_assoc]
      exact congrArg (new ++ ·) first
    · obtain ⟨up, increasing, within⟩ := rest fun e he => forward e (by simp [he])
      have call := delivers fun e he => forward e (by simp [he])
      have older : deliveredNumbers P (sinceCall v.hist ++ [.called w.ses (.receivedWith b)]) =
          deliveredNumbers P (sinceCall v.hist) := by
        rw [deliveredNumbers_append]
        exact List.append_nil _
      have start : w.ses.nextIn ≤ v.ses.nextIn := call.up
      rw [deliveredNumbers_append, older]
      refine ⟨start.trans up, List.pairwise_append.mpr ⟨increasing, call.increasing, ?_⟩, ?_⟩
      · exact fun k hk l hl => (call.within l hl).2.trans_le (within k hk).1
      · intro k hk
        obtain hk | hk := List.mem_append.mp hk
        · exact ⟨start.trans (within k hk).1, (within k hk).2⟩
        · exact ⟨(call.within k hk).1, (call.within k hk).2.trans_le up⟩

/-- **Messages are delivered once, in order.** In every run of received messages in which nothing
restarts the count and no message moves it back, the numbers handed to the application strictly
increase, they lie between the count before and the count after, and the count never decreases. -/
theorem received_in_order {w : World A J} {bs : List Bytes} {new : List Event}
    (hist : (w.run P (bs.map .receivedWith)).hist = new ++ w.hist)
    (forward : ∀ e ∈ new, e.goesForward P) :
    w.ses.nextIn ≤ (w.run P (bs.map .receivedWith)).ses.nextIn ∧
      (deliveredNumbers P new).Pairwise (· > ·) ∧
      ∀ k ∈ deliveredNumbers P new,
        w.ses.nextIn ≤ k ∧ k < (w.run P (bs.map .receivedWith)).ses.nextIn := by
  obtain ⟨added, same, holds⟩ := run_delivers (P := P) w bs
  obtain rfl : new = added := List.append_cancel_right (hist.symm.trans same)
  exact holds forward

open Setting in
theorem received_in_order_orders :
    (deliveredNumbers acceptor
      ((loggedOn.run acceptor ([order 2, order 3].map .receivedWith)).hist.take 6)).Pairwise
        (· > ·) := by
  have hist : (loggedOn.run acceptor ([order 2, order 3].map .receivedWith)).hist =
      (loggedOn.run acceptor ([order 2, order 3].map .receivedWith)).hist.take 6 ++
        loggedOn.hist := by
    decide +kernel
  exact (received_in_order hist (by decide +kernel)).2.1

end Run

open Setting in
/-- The order 2, a ResendRequest numbered 1, and the order 2 again: it is delivered twice. -/
theorem order_delivered_twice :
    ¬ ∀ (w : World Silent NoJournal) (bs : List Bytes), World.Reachable acceptor w →
      ∀ new, (w.run acceptor (bs.map .receivedWith)).hist = new ++ w.hist →
        (∀ e ∈ new, !e.isRestart) →
        w.ses.nextIn ≤ (w.run acceptor (bs.map .receivedWith)).ses.nextIn ∧
        (deliveredNumbers acceptor new).Pairwise (· > ·) := by
  intro h
  let asks := theirs "2" 1 [(7, ascii "1"), (16, ascii "0")]
  let w := loggedOn.run acceptor ([order 2, asks, order 2].map .receivedWith)
  have := h loggedOn [order 2, asks, order 2] loggedOn_reachable
    (w.hist.take (w.hist.length - loggedOn.hist.length)) (by decide +kernel) (by decide +kernel)
  revert this
  decide +kernel

end Fixbolt
