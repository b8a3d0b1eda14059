import Fixbolt.Properties.Count
import Fixbolt.Session.Arithmetic

/-!
# The arithmetic stays in range

`Stays` says of a stretch of a call that it only adds to the history and, while every event so far
stays in range, overflows nothing and keeps the session `Steady`.

* `StaysInRange`: the events that no overflow follows from;
* `arithmetic_in_range`: in a run whose steps all stay in range nothing overflows, and both counts
  are at least 1.
-/

namespace Fixbolt

open History

variable {P : Params}

/-- How many messages the journal refused. -/
def refusals (h : List Event) : ℕ :=
  h.countP fun e => match e with
    | .stored _ _ kept => !kept
    | _ => false

/-- A gap fill, or a new number announced by one. -/
def Emission.isGapFill : Emission → Bool
  | .templated .gapFill _ _ => true
  | _ => false

/-- Does an event leave the counters in range? No message is sent under the number 4294967295, no
such number is consumed, and no more than 4294967295 messages are refused by the journal. -/
def StaysInRange (P : Params) : Event → List Event → Prop
  | .emitted e, _ => e.isGapFill ∨ e.spends ≠ some u32Max
  | .stored _ _ kept, old => kept = false → refusals old < u32Max
  | .judged s b, _ => (∀ m ∈ s.arrives P b, m.Consumed s → m.seq ≠ u32Max) ∧
      (s.state = .loggedOn → ∀ seq ∈ badTagNumber P b, s.nextIn ≤ seq → seq ≠ u32Max)
  | _, _ => True

instance : ∀ (e : Event) (old : List Event), Decidable (StaysInRange P e old)
  | .emitted _, _ => inferInstanceAs (Decidable (_ ∨ _))
  | .stored _ _ _, _ => inferInstanceAs (Decidable (_ → _))
  | .judged _ _, _ => inferInstanceAs (Decidable (_ ∧ _))
  | .called _ _, _ | .held _ _, _ | .delivered _ _, _ | .loggedOn, _ | .restarted _, _
  | .ended _, _ => isTrue trivial

/-- Can the schedule say where an instant belongs? An overnight window that an instant of the next
day is in has to start before 2^64. -/
def Schedule.Places (s : Schedule) (t : ℕ) : Prop :=
  ∀ w ∈ s.window, ∀ l ∈ checkedAddSigned t s.offsetMs, w.close ≤ w.open_ →
    l % w.periodMs < w.close → l - l % w.periodMs + w.open_ < 2 ^ 64

instance (s : Schedule) (t : ℕ) : Decidable (s.Places t) :=
  inferInstanceAs (Decidable (∀ w ∈ s.window, ∀ l ∈ checkedAddSigned t s.offsetMs, _ → _ → _))

/-- A configuration whose numbers fit their types. -/
structure Config.Fits (cfg : Config) : Prop where
  heartBtInt : cfg.heartBtInt < u32Size
  resendBatch : cfg.resendBatch < 2 ^ 16

/-- A session whose counters and counts are in range. -/
structure Steady (w : Scene) : Prop where
  cfg : w.ses.cfg.Fits
  out : 1 ≤ w.ses.nextOut ∧ w.ses.nextOut < u32Size
  in_ : 1 ≤ w.ses.nextIn ∧ w.ses.nextIn < u32Size
  tests : w.ses.testRequests ≤ 1
  beat : w.ses.beatMs ≤ u32Max * 1000
  owed : ∀ r ∈ w.ses.owed, r.stop < u32Max
  refused : w.ses.putsRefused = refusals w.hist
  clock : w.ses.nowMs ≠ 0 → w.ses.cfg.schedule.Places w.ses.nowMs

/-- A stretch of a call: the history grows, and in range nothing overflows. -/
structure Stays (P : Params) (w v : Scene) (ops : List Op) : Prop where
  grows : ∃ new, v.hist = new ++ w.hist
  fits : Steady w → Always (StaysInRange P) v.hist → AllFit ops ∧ Steady v

/-! ### Operations -/

section Ops

variable {ops more : List Op} {o : Op}

theorem allFit_nil : AllFit [] := fun o ho => by cases ho

theorem allFit_cons : AllFit (o :: ops) ↔ o.Fits ∧ AllFit ops := List.forall_mem_cons

theorem AllFit.append (h : AllFit ops) (h' : AllFit more) : AllFit (ops ++ more) := by
  intro o ho
  obtain ho | ho := List.mem_append.mp ho
  · exact h o ho
  · exact h' o ho

theorem allFit_startLocalOps {w : Window} {l : ℕ} (small : l < 2 ^ 64)
    (places : w.close ≤ w.open_ → l % w.periodMs < w.close →
      l - l % w.periodMs + w.open_ < 2 ^ 64) : AllFit (Schedule.startLocalOps w l) := by
  have le : l % w.periodMs ≤ l := Nat.mod_le _ _
  have before : w.open_ ≤ l % w.periodMs → AllFit [.add 64 (l - l % w.periodMs) w.open_] := by
    intro h
    refine allFit_cons.mpr ⟨?_, allFit_nil⟩
    show _ + _ < _
    omega
  refine allFit_cons.mpr ⟨le, ?_⟩
  split
  · split
    · rename_i inside
      exact before inside.1
    · exact allFit_nil
  · rename_i overnight
    split
    · exact before ‹_›
    · split
      · exact allFit_cons.mpr ⟨places (not_lt.mp overnight) ‹_›, allFit_nil⟩
      · exact allFit_nil

theorem checkedAddSigned_lt {t l : ℕ} {off : ℤ} (h : checkedAddSigned t off = some l) :
    l < 2 ^ 64 := by
  unfold checkedAddSigned at h
  split at h
  · obtain rfl := Option.some.inj h
    omega
  · cases h

theorem startLocal_lt {w : Window} {l start : ℕ} (h : Schedule.startLocal w l = some start)
    (fit : AllFit (Schedule.startLocalOps w l)) : start < 2 ^ 64 := by
  unfold Schedule.startLocal at h
  have tail := (allFit_cons.mp fit).2
  dsimp only at h tail
  split at h
  · rename_i lt
    rw [if_pos lt] at tail
    split at h
    · rw [if_pos ‹_›] at tail
      exact Option.some.inj h ▸ (allFit_cons.mp tail).1
    · cases h
  · rename_i overnight
    rw [if_neg overnight] at tail
    split at h
    · rw [if_pos ‹_›] at tail
      exact Option.some.inj h ▸ (allFit_cons.mp tail).1
    · rename_i past
      rw [if_neg past] at tail
      split at h
      · rw [if_pos ‹_›] at tail
        split at h
        · have := (allFit_cons.mp tail).1
          have sum : l - l % w.periodMs + w.open_ < 2 ^ 64 := this
          obtain rfl := Option.some.inj h
          omega
        · cases h
      · cases h

theorem allFit_sessionStartOps {s : Schedule} {t : ℕ} (places : s.Places t) :
    AllFit (s.sessionStartOps t) := by
  unfold Schedule.sessionStartOps
  split
  · exact allFit_nil
  · rename_i w hw
    split
    · exact allFit_nil
    · rename_i l hl
      have fit := allFit_startLocalOps (checkedAddSigned_lt hl) (places w hw l hl)
      refine fit.append ?_
      split
      · exact allFit_nil
      · rename_i start hs
        split
        · have small := startLocal_lt hs fit
          refine allFit_cons.mpr ⟨?_, allFit_nil⟩
          have : start / dayMs ≤ 2 ^ 64 / dayMs := Nat.div_le_div_right small.le
          have : 2 ^ 64 / dayMs + 5 < 2 ^ 64 := by decide
          show _ + _ < _
          omega
        · exact allFit_nil

end Ops

/-! ### Stretches -/

namespace Stays

variable {w v u : Scene} {ops more : List Op} {o : Op}

theorem refl (w : Scene) : Stays P w w [] := ⟨⟨[], rfl⟩, fun steady _ => ⟨allFit_nil, steady⟩⟩

theorem trans (h : Stays P w v ops) (h' : Stays P v u more) : Stays P w u (ops ++ more) := by
  obtain ⟨new, hist⟩ := h.grows
  obtain ⟨new', hist'⟩ := h'.grows
  refine ⟨⟨new' ++ new, by rw [hist', hist, List.append_assoc]⟩, fun steady good => ?_⟩
  obtain ⟨first, steady⟩ := h.fits steady (hist' ▸ good).of_suffix
  obtain ⟨second, steady⟩ := h'.fits steady good
  exact ⟨first.append second, steady⟩

/-- One operation that fits in range. -/
theorem op (fits : Steady w → Always (StaysInRange P) w.hist → o.Fits) : Stays P w w [o] :=
  ⟨⟨[], rfl⟩, fun steady good => ⟨allFit_cons.mpr ⟨fits steady good, allFit_nil⟩, steady⟩⟩

/-- Operations that fit in range. -/
theorem ops_ (fits : Steady w → AllFit ops) : Stays P w w ops :=
  ⟨⟨[], rfl⟩, fun steady _ => ⟨fits steady, steady⟩⟩

theorem cons (h : Stays P w v ops) (fits : Steady w → Always (StaysInRange P) w.hist → o.Fits) :
    Stays P w v (o :: ops) :=
  (op fits).trans h

/-- A change of the session. -/
theorem upd (f : Session → Session)
    (keeps : Steady w → Always (StaysInRange P) w.hist → Steady (w.upd f)) :
    Stays P w (w.upd f) [] :=
  ⟨⟨[], rfl⟩, fun steady good => ⟨allFit_nil, keeps steady good⟩⟩

/-- An event that is no refusal. -/
theorem log {e : Event} (keeps : refusals [e] = 0) : Stays P w (w.log e) [] := by
  refine ⟨⟨[e], rfl⟩, fun s _ => ⟨allFit_nil,
    ⟨s.cfg, s.out, s.in_, s.tests, s.beat, s.owed, ?_, s.clock⟩⟩⟩
  have split : refusals (e :: w.hist) = refusals [e] + refusals w.hist :=
    @List.countP_append _ _ [e] w.hist
  show w.ses.putsRefused = refusals (e :: w.hist)
  rw [split, keeps, Nat.zero_add]
  exact s.refused

/-- Fewer operations. -/
theorem nil (h : Stays P w v ops) : Stays P w v [] :=
  ⟨h.grows, fun steady good => ⟨allFit_nil, (h.fits steady good).2⟩⟩

end Stays

/-! ### What a session sends, and how it ends -/

theorem wrapU32_small {n : ℕ} (lt : n < u32Size) (ne : n ≠ u32Max) :
    n + 1 < 2 ^ 32 ∧ wrapU32 (n + 1) = n + 1 := by
  have size : u32Size = u32Max + 1 := by decide
  have width : u32Size = 2 ^ 32 := by decide
  exact ⟨by omega, wrapU32_succ lt ne⟩

theorem allFit_one : AllFit [o] ↔ o.Fits := by simp [AllFit]

namespace Scene

variable {w v : Scene} {s : Session} {b : Bytes} {m : Inbound}

theorem spends_of_sent {which : Which} {slots : List (ℕ × Bytes)} {bytes : Bytes}
    (fresh : which ≠ .gapFill) {old : List Event}
    (ok : StaysInRange P (.emitted (.templated which slots bytes)) old) :
    (slots.lookup 34).bind asU32? ≠ some u32Max := by
  obtain gap | ok := ok
  · cases which <;> first | exact absurd rfl fresh | cases gap
  · exact ok

/-- A message of the own goes out under the next number. -/
theorem send_stays {which : Which} {extra : List (ℕ × Bytes)} (fresh : which ≠ .gapFill)
    (sent : w.send P which extra = some v) : Stays P w v (w.sendOps P which extra) := by
  have ops : w.sendOps P which extra = [.add 32 w.ses.nextOut 1] := by
    rw [sendOps, sent]
    rfl
  obtain ⟨bytes, rfl⟩ := sendAs_eq sent
  rw [ops]
  refine ⟨⟨[_], rfl⟩, fun steady good => ?_⟩
  have number : asU32? (renderU32 w.ses.nextOut) = some w.ses.nextOut :=
    asU32?_renderU32 steady.out.2
  have ne : w.ses.nextOut ≠ u32Max := by
    intro last
    refine spends_of_sent fresh good.1 ?_
    rw [Session.slotsFor_number, Option.bind_some, number, last]
  obtain ⟨fits, next⟩ := wrapU32_small steady.out.2 ne
  refine ⟨allFit_one.mpr fits, steady.cfg, ?_, steady.in_, steady.tests, steady.beat, steady.owed,
    steady.refused, steady.clock⟩
  show 1 ≤ wrapU32 (w.ses.nextOut + 1) ∧ wrapU32 (w.ses.nextOut + 1) < u32Size
  exact ⟨by omega, wrapU32_lt _⟩

theorem trySend_stays (w : Scene) {which : Which} (extra : List (ℕ × Bytes))
    (fresh : which ≠ .gapFill) :
    Stays P w (w.trySend P which extra) (w.sendOps P which extra) := by
  unfold trySend
  cases sent : w.send P which extra with
  | none =>
    rw [sendOps, sent]
    exact .refl w
  | some v => exact send_stays fresh sent

theorem endSession_stays (w : Scene) (why : DropReason) : Stays P w (w.endSession why) [] := by
  have ended : Stays P w (w.upd (·.endWith why)) [] := by
    refine .upd _ fun s _ => ⟨s.cfg, ?_, ?_, s.tests, s.beat, fun r hr => (by cases hr), s.refused,
      s.clock⟩
    · show 1 ≤ (if _ then 1 else w.ses.nextOut) ∧ (if _ then 1 else w.ses.nextOut) < u32Size
      split
      · exact ⟨le_rfl, one_lt_u32Size⟩
      · exact s.out
    · show 1 ≤ (if _ then 1 else w.ses.nextIn) ∧ (if _ then 1 else w.ses.nextIn) < u32Size
      split
      · exact ⟨le_rfl, one_lt_u32Size⟩
      · exact s.in_
  have logged := ended.trans (.log (e := .ended why) rfl)
  unfold endSession
  dsimp only
  split
  · exact logged.trans (.log rfl)
  · exact logged

/-- A change that no counter sees. -/
theorem still_stays (f : Session → Session) (cfg : (f w.ses).cfg = w.ses.cfg)
    (ledger : (f w.ses).ledger = { w.ses.ledger with
      state := (f w.ses).state, queue := (f w.ses).queue, resendFrom := (f w.ses).resendFrom,
      resendTo := (f w.ses).resendTo })
    (tests : (f w.ses).testRequests = w.ses.testRequests ∨ (f w.ses).testRequests = 0)
    (beat : (f w.ses).beatMs = w.ses.beatMs)
    (refused : (f w.ses).putsRefused = w.ses.putsRefused) : Stays P w (w.upd f) [] := by
  refine .upd f fun s _ => ?_
  have out : (f w.ses).nextOut = w.ses.nextOut := congrArg Ledger.nextOut ledger
  have in_ : (f w.ses).nextIn = w.ses.nextIn := congrArg Ledger.nextIn ledger
  have owed : (f w.ses).owed = w.ses.owed := congrArg Ledger.owed ledger
  have now : (f w.ses).nowMs = w.ses.nowMs := congrArg Ledger.nowMs ledger
  refine ⟨?_, ?_, ?_, ?_, ?_, ?_, ?_, ?_⟩ <;> simp only [upd, cfg, out, in_, owed, now, beat, refused]
  · exact s.cfg
  · exact s.out
  · exact s.in_
  · obtain same | zero := tests
    · exact same ▸ s.tests
    · omega
  · exact s.beat
  · exact s.owed
  · exact s.refused
  · exact s.clock

theorem cut_stays (w : Scene) : Stays P w w.cut [] :=
  still_stays _ rfl rfl (.inl rfl) rfl rfl

theorem logoutWith_stays (w : Scene) (why : SessionText) :
    Stays P w (w.logoutWith P why).1 (w.logoutWithOps P why) := by
  have := (@trySend_stays P w .logout [(58, why.render)] (by decide)).trans
    (cut_stays _)
  rwa [List.append_nil] at this

theorem logoutNow_stays (w : Scene) (text : Bytes) :
    Stays P w (w.logoutNow P text).1 (w.logoutNowOps P text) := by
  unfold logoutNow logoutNowOps
  split
  · exact .refl w
  · have := (@trySend_stays P w .logout [(58, text)] (by decide)).trans
      (cut_stays _)
    rwa [List.append_nil] at this

theorem sendReject_stays (w : Scene) (r : Reject) :
    Stays P w (w.sendReject P r).1 (w.sendRejectOps P r) := by
  unfold sendReject sendRejectOps
  cases sent : w.send P .reject r.slots with
  | none =>
    have ops : w.sendOps P .reject r.slots = [] := by
      rw [sendOps, sent]
      rfl
    dsimp only
    rw [ops]
    exact endSession_stays w _
  | some v =>
    have first := send_stays (P := P) (by decide) sent
    dsimp only
    split
    · refine first.trans ?_
      have := (@trySend_stays P v .logout [] (by decide)).trans (cut_stays _)
      rwa [List.append_nil] at this
    · rw [List.append_nil]
      exact first

theorem enqueue_stays (w : Scene) (seq : ℕ) (bytes : Bytes) :
    Stays P w (w.enqueue seq bytes) [] := by
  unfold enqueue
  split
  · exact .refl w
  · split
    · exact .refl w
    · exact (still_stays _ rfl rfl (.inl rfl) rfl rfl).trans (.log rfl)

theorem enqueue_nextIn (w : Scene) (seq : ℕ) (bytes : Bytes) :
    (w.enqueue seq bytes).ses.nextIn = w.ses.nextIn := by
  unfold enqueue
  split
  · rfl
  · split <;> rfl

theorem tooHigh_stays (w : Scene) {seq : ℕ} (bytes : Bytes) (high : w.ses.nextIn < seq) :
    Stays P w (w.tooHigh P seq bytes).1 (w.tooHighOps P seq bytes) := by
  have queued := enqueue_stays (P := P) w seq bytes
  unfold tooHigh tooHighOps
  dsimp only
  split
  · exact queued
  · generalize ha : ((w.enqueue seq bytes).upd fun s =>
      { s with resendFrom := s.nextIn, resendTo := seq - 1 }) = asked
    have before : Stays P w asked [] := by
      rw [← ha]
      exact queued.trans (still_stays _ rfl rfl (.inl rfl) rfl rfl)
    cases sent : asked.send P .resendRequest
        [(7, renderU32 (w.enqueue seq bytes).ses.nextIn), (16, ascii "0")] with
    | some v =>
      exact before.trans (.cons (send_stays (by decide) sent) fun _ _ => Nat.one_le_of_lt high)
    | none =>
      have ops : asked.sendOps P .resendRequest
          [(7, renderU32 (w.enqueue seq bytes).ses.nextIn), (16, ascii "0")] = [] := by
        rw [sendOps, sent]
        rfl
      rw [ops]
      exact before.trans (.cons (endSession_stays asked _) fun _ _ => Nat.one_le_of_lt high)

theorem advancePast_stays (w : Scene) {seq : ℕ} (lt : seq < u32Size)
    (small : Always (StaysInRange P) w.hist → seq ≠ u32Max) :
    Stays P w (w.upd (·.advancePast seq)) (advancePastOps seq) := by
  refine ⟨⟨[], rfl⟩, fun s good => ?_⟩
  obtain ⟨fits, next⟩ := wrapU32_small lt (small good)
  refine ⟨allFit_one.mpr fits, s.cfg, s.out, ?_, s.tests, s.beat, s.owed, s.refused, s.clock⟩
  show 1 ≤ wrapU32 (seq + 1) ∧ wrapU32 (seq + 1) < u32Size
  exact ⟨by omega, wrapU32_lt _⟩

/-! ### What each message type does -/

/-- A session that judges the message `m`, which `s` was shown: what it may count past is not the
largest number. -/
structure Judged (P : Params) (w : Scene) (s : Session) (m : Inbound) : Prop where
  lt : m.seq < u32Size
  count : w.ses.nextIn = m.countAt s
  small : Always (StaysInRange P) w.hist → m.Consumed s → m.seq ≠ u32Max

theorem Judged.after {ops : List Op} (k : Judged P w s m) (h : Stays P w v ops)
    (count : v.ses.nextIn = w.ses.nextIn) : Judged P v s m := by
  obtain ⟨new, hist⟩ := h.grows
  exact ⟨k.lt, count.trans k.count, fun good => k.small (hist ▸ good).of_suffix⟩

theorem garbled_stays (w : Scene) (bytes : Bytes) : Stays P w (w.garbled bytes).1 [] := by
  unfold garbled
  split
  · exact endSession_stays w _
  · exact .refl w

theorem owe_stays (w : Scene) (before : ℕ) (want : Option ℕ) :
    Stays P w (w.upd (·.owe before want)) (w.oweOps before want) := by
  unfold Session.owe oweOps
  cases want with
  | none => exact .refl w
  | some want =>
    by_cases less : want < before
    · have owes : Stays P w
          (w.upd fun s => { s with owed := some ⟨want, wrapU32 (s.nextOut + u32Max)⟩ }) [] := by
        refine .upd _ fun s _ => ⟨s.cfg, s.out, s.in_, s.tests, s.beat, fun r hr => ?_, s.refused,
          s.clock⟩
        obtain rfl := Option.some.inj hr
        have size : u32Size = u32Max + 1 := by decide
        obtain ⟨low, high⟩ := s.out
        show (w.ses.nextOut + u32Max) % u32Size < u32Max
        rw [show w.ses.nextOut + u32Max = w.ses.nextOut - 1 + u32Size by omega,
          Nat.add_mod_right, Nat.mod_eq_of_lt (by omega)]
        omega
      have fits : Stays P w w [.sub w.ses.nextOut 1] := .op fun s _ => s.out.1
      have both := fits.trans owes
      simpa [upd, less] using both
    · have none : ¬ (some want).any (· < before) = true := by simpa using less
      rw [if_neg none]
      simpa [upd, less] using Stays.refl w

theorem owe_nextIn (w : Scene) (before : ℕ) (want : Option ℕ) :
    (w.upd (·.owe before want)).ses.nextIn = w.ses.nextIn := by
  unfold upd Session.owe
  dsimp only
  split
  · split <;> rfl
  · rfl

theorem placeLogon_stays (k : Judged P w s m) (logon : m.isLogon) (notLow : m.countAt s ≤ m.seq) :
    Stays P w (w.placeLogon P m b).1 (w.placeLogonOps P m b) := by
  unfold placeLogon placeLogonOps
  split
  · exact tooHigh_stays w b ‹_›
  · rename_i behind
    rw [k.count] at behind
    have consumed : m.Consumed s :=
      .inr (.inr ⟨by simp [(Inbound.eq_of_isLogon logon).2.2], by omega⟩)
    exact advancePast_stays w k.lt fun good => k.small good consumed

theorem logonAccepted_stays (k : Judged P w s m) (logon : m.isLogon)
    (notLow : m.countAt s ≤ m.seq) (encrypt heartBt : Bytes) :
    Stays P w (w.logonAccepted P m b encrypt heartBt).1
      (w.logonAcceptedOps P m b encrypt heartBt) := by
  unfold logonAccepted logonAcceptedOps
  dsimp only
  generalize hv : (w.upd fun s =>
    { s with beatMs := ((asU32? heartBt).map (· * 1000)).getD 0, state := .loggedOn }).log
      .loggedOn = v
  have bound : ∀ n, asU32? heartBt = some n → n ≤ u32Max := fun n hn => by
    have := asU32?_lt hn
    have size : u32Size = u32Max + 1 := by decide
    omega
  have first : Stays P w v ((asU32? heartBt).map fun n => Op.mul 64 n 1000).toList := by
    have paced : Stays P w v [] := by
      rw [← hv]
      refine Stays.trans (.upd _ fun s _ => ⟨s.cfg, s.out, s.in_, s.tests, ?_, s.owed, s.refused,
        s.clock⟩) (.log rfl)
      show ((asU32? heartBt).map (· * 1000)).getD 0 ≤ u32Max * 1000
      cases hn : asU32? heartBt with
      | none => exact Nat.zero_le _
      | some n => exact Nat.mul_le_mul_right 1000 (bound n hn)
    cases hn : asU32? heartBt with
    | none => exact paced
    | some n =>
      have small : u32Max * 1000 < 2 ^ 64 := by decide
      exact paced.cons fun _ _ => (Nat.mul_le_mul_right 1000 (bound n hn)).trans_lt small
  have same : v.ses.nextIn = w.ses.nextIn := by rw [← hv]; rfl
  have jv := k.after first same
  rw [List.append_assoc]
  refine first.trans ?_
  by_cases opened : P.speaksFirst = true
  · have owed := owe_stays (P := P) v w.ses.nextOut m.nextExpected
    simp only [if_pos opened, List.nil_append]
    exact owed.trans (placeLogon_stays (jv.after owed (owe_nextIn _ _ _)) logon notLow)
  · simp only [if_neg opened]
    cases sent : v.send P .logon (logonAnswer v.ses m encrypt heartBt) with
    | none =>
      rw [sendOps, sent]
      exact .refl v
    | some u =>
      have answered := send_stays (P := P) (by decide) sent
      have ju := jv.after answered (congrArg Ledger.nextIn (send_sent sent).ledger)
      have owed := owe_stays (P := P) u w.ses.nextOut m.nextExpected
      exact answered.trans
        (owed.trans (placeLogon_stays (ju.after owed (owe_nextIn _ _ _)) logon notLow))

theorem noteDropReason_stays (w : Scene) (why : DropReason) :
    Stays P w (w.upd (·.noteDropReason why)) [] := by
  refine still_stays _ ?_ ?_ (.inl ?_) ?_ ?_ <;> unfold Session.noteDropReason <;> split <;> rfl

theorem judgeLogon_stays (k : Judged P w s m) (logon : m.isLogon) (notLow : m.countAt s ≤ m.seq) :
    Stays P w (w.judgeLogon P m b).1 (w.judgeLogonOps P m b) := by
  unfold judgeLogon judgeLogonOps
  split
  · exact .refl w
  · cases he : m.encrypt with
    | none => exact .refl w
    | some encrypt =>
      cases hb : m.heartBt with
      | none => exact .refl w
      | some heartBt =>
        have noted : Stays P w (w.upd fun s => { s with peerApplVerId := m.theirApplVerId }) [] :=
          still_stays _ rfl rfl (.inl rfl) rfl rfl
        dsimp only
        split
        · refine noted.trans (Stays.trans (noteDropReason_stays _ _) (logoutNow_stays _ _))
        · exact noted.trans (logonAccepted_stays (k.after noted rfl) logon notLow _ _)

theorem judgeLogout_stays (w : Scene) : Stays P w (w.judgeLogout P).1 (w.judgeLogoutOps P) := by
  unfold judgeLogout judgeLogoutOps
  split
  · exact endSession_stays w _
  · cases sent : w.send P .logout [] with
    | none =>
      rw [sendOps, sent]
      exact .refl w
    | some v =>
      have := (send_stays (P := P) (by decide) sent).trans (endSession_stays v .peerLogout)
      rwa [List.append_nil] at this

theorem judgeTestRequest_stays (w : Scene) (m : Inbound) :
    Stays P w (w.judgeTestRequest P m).1 (w.judgeTestRequestOps P m) := by
  unfold judgeTestRequest judgeTestRequestOps
  cases sent : w.send P .heartbeat [(112, m.testReqId.getD [])] with
  | none =>
    rw [sendOps, sent]
    exact .refl w
  | some v => exact send_stays (by decide) sent

theorem judgeResendRequest_stays (w : Scene) (m : Inbound) :
    Stays P w (w.judgeResendRequest m).1 [] := by
  unfold judgeResendRequest
  split
  · rename_i begin_ _
    dsimp only
    split
    · show Stays P w
        (w.upd fun s => { s with owed := some ⟨begin_, resendEnd w.ses.nextOut m.endSeqNo⟩ }) []
      refine .upd _ fun s _ => ⟨s.cfg, s.out, s.in_, s.tests, s.beat, fun r hr => ?_, s.refused,
        s.clock⟩
      obtain rfl := Option.some.inj hr
      have size : u32Size = u32Max + 1 := by decide
      obtain ⟨low, high⟩ := s.out
      show resendEnd w.ses.nextOut m.endSeqNo < u32Max
      unfold resendEnd
      split
      · split <;> omega
      · omega
    · exact .refl w
  · exact .refl w

theorem judgeSequenceReset_stays (w : Scene) (m : Inbound) (fits : ∀ n ∈ m.newSeqNo, n < u32Size) :
    Stays P w (w.judgeSequenceReset P m).1 (w.judgeSequenceResetOps P m) := by
  unfold judgeSequenceReset judgeSequenceResetOps
  cases new : m.newSeqNo with
  | none => exact .refl w
  | some n =>
    dsimp only
    split
    · rename_i up
      show Stays P w (w.upd fun s => { s with nextIn := n }) []
      refine .upd _ fun s _ => ⟨s.cfg, s.out, ?_, s.tests, s.beat, s.owed, s.refused, s.clock⟩
      exact ⟨Nat.one_le_of_lt up, fits n new⟩
    · split
      · exact sendReject_stays w _
      · exact .refl w

theorem judgeTooLow_stays (w : Scene) (m : Inbound) :
    Stays P w (w.judgeTooLow P m).1 (w.judgeTooLowOps P m) := by
  unfold judgeTooLow judgeTooLowOps
  split
  · exact logoutWith_stays w _
  · split
    · exact .refl w
    · cases m.origSendingTime with
      | none => exact sendReject_stays w _
      | some orig =>
        dsimp only
        split
        · exact sendReject_stays w _
        · exact .refl w

/-- The number of a message with an unreadable tag is counted past. -/
theorem skipBadTag_stays (w : Scene) (seq : Option ℕ) (lt : ∀ n ∈ seq, n < u32Size)
    (small : Always (StaysInRange P) w.hist → ∀ n ∈ seq, w.ses.nextIn ≤ n → n ≠ u32Max) :
    Stays P w (w.skipBadTag seq) (w.skipBadTagOps seq) := by
  unfold skipBadTag skipBadTagOps
  cases seq with
  | none => exact .refl w
  | some seq =>
    dsimp only
    split
    · rename_i high
      refine ⟨⟨[], rfl⟩, fun s good => ?_⟩
      obtain ⟨fits, next⟩ := wrapU32_small (lt seq rfl) (small good seq rfl high)
      refine ⟨allFit_one.mpr fits, s.cfg, s.out, ?_, s.tests, s.beat, s.owed, s.refused, s.clock⟩
      show 1 ≤ wrapU32 (seq + 1) ∧ wrapU32 (seq + 1) < u32Size
      exact ⟨by omega, wrapU32_lt _⟩
    · exact .refl w

theorem number_lt {view : MessageView} {tag n : ℕ} (h : Inbound.number view tag = some n) :
    n < u32Size := by
  obtain ⟨value, -, reads⟩ := Option.bind_eq_some_iff.mp h
  exact asU32?_lt reads

theorem judgeBadTag_stays (w : Scene) (view : MessageView) (pos : ℕ)
    (small : Always (StaysInRange P) w.hist → (tagTextAt b pos).any isSignedInteger →
      ∀ seq ∈ Inbound.number view 34, w.ses.nextIn ≤ seq → seq ≠ u32Max) :
    Stays P w (w.judgeBadTag P view pos b).1 (w.judgeBadTagOps P view pos b) := by
  unfold judgeBadTag judgeBadTagOps
  dsimp only
  split
  · exact garbled_stays w b
  · rename_i signed
    have skipped := skipBadTag_stays w (Inbound.number view 34) (fun n hn => number_lt hn)
      fun good => small good (by simpa using signed)
    exact skipped.trans (sendReject_stays _ _)

/-! ### The clock -/

/-- The boundary check at the top of a tick. -/
theorem roll_stays (w : Scene) {n : ℕ} (now : w.ses.cfg.schedule.Places n)
    (marks : ∀ m ∈ w.ses.sessionMark, w.ses.cfg.schedule.Places m) :
    Stays P w ((w.upd fun s => { s with nowMs := n }).roll n)
      ((w.upd fun s => { s with nowMs := n }).rollOps n) := by
  have placed : Stays P w w ((w.upd fun s => { s with nowMs := n }).rollOps n) := by
    refine .ops_ fun _ => ?_
    unfold rollOps
    split
    · exact allFit_nil
    · rename_i mark hm
      exact (allFit_sessionStartOps (marks mark hm)).append (allFit_sessionStartOps now)
  have rolled : Stays P w (w.upd fun s => { s with nowMs := n }.rolled n) [] := by
    refine .upd _ fun s _ => ?_
    by_cases rolls : ({ w.ses with nowMs := n } : Session).rolls n = true
    · simp only [upd, Session.rolled, if_pos rolls]
      exact ⟨s.cfg, ⟨le_rfl, one_lt_u32Size⟩, ⟨le_rfl, one_lt_u32Size⟩, s.tests, s.beat,
        fun r hr => (by cases hr), s.refused, fun _ => now⟩
    · simp only [upd, Session.rolled, if_neg rolls]
      exact ⟨s.cfg, s.out, s.in_, s.tests, s.beat, s.owed, s.refused, fun _ => now⟩
  have both := placed.trans rolled
  rw [List.append_nil] at both
  unfold roll
  dsimp only
  split
  · have logged := both.trans (.log (e := .restarted (w.upd fun s =>
      { s with nowMs := n }.rolled n).ses) rfl)
    rw [List.append_nil] at logged
    exact logged
  · exact both

theorem tickAwaitingLogon_stays (w : Scene) (n : ℕ) :
    Stays P w (w.tickAwaitingLogon n).1 [] := by
  unfold tickAwaitingLogon
  dsimp only
  have noted : Stays P w
      (w.upd fun s => { s with awaitingLogonSinceMs := some (w.ses.awaitingLogonSinceMs.getD n) })
      [] :=
    still_stays _ rfl rfl (.inl rfl) rfl rfl
  split
  · exact noted.trans (endSession_stays _ _)
  · exact noted

theorem tickMustLogon_stays (w : Scene) (n : ℕ) :
    Stays P w (w.tickMustLogon P n).1 (w.tickMustLogonOps P n) := by
  unfold tickMustLogon tickMustLogonOps
  have size : u32Size = u32Max + 1 := by decide
  have paced : Stays P w (w.upd fun s =>
      { s with state := .awaitingLogon, beatMs := s.cfg.heartBtInt * 1000, lastRecvMs := n }) [] := by
    refine .upd _ fun s _ => ⟨s.cfg, s.out, s.in_, s.tests, ?_, s.owed, s.refused, s.clock⟩
    have := s.cfg.heartBtInt
    exact Nat.mul_le_mul_right 1000 (by omega)
  refine Stays.trans (.op fun s _ => ?_) (paced.trans (trySend_stays _ _ (by decide)))
  have := s.cfg.heartBtInt
  have small : u32Max * 1000 < 2 ^ 64 := by decide
  exact (Nat.mul_le_mul_right 1000 (show _ ≤ u32Max by omega)).trans_lt small

theorem beat_small {beat k : ℕ} (h : beat ≤ u32Max * 1000) (hk : k ≤ 24) :
    beat * k < 2 ^ 64 :=
  (Nat.mul_le_mul h hk).trans_lt (by decide)

/-- A Heartbeat, when one is due. -/
theorem beat_stays (w : Scene) (due : Prop) [Decidable due] :
    Stays P w (if due then (w.trySend P .heartbeat [], Link.up) else (w, Link.up)).1
      (if due then w.sendOps P .heartbeat [] else []) := by
  split
  · exact trySend_stays w [] (by decide)
  · exact .refl w

/-- The operations that say whether a TestRequest is due. -/
theorem due_fit {w : Scene} (s : Steady w) : AllFit [.add 32 w.ses.testRequests 1,
    .mul 64 w.ses.beatMs 12, .mul 64 (w.ses.beatMs * 12) (wrapU32 (w.ses.testRequests + 1))] := by
  have next : wrapU32 (w.ses.testRequests + 1) = w.ses.testRequests + 1 := by
    obtain zero | one : w.ses.testRequests = 0 ∨ w.ses.testRequests = 1 := by
      have := s.tests
      omega
    · rw [zero]
      decide
    · rw [one]
      decide
  have few : w.ses.testRequests + 1 ≤ 2 := Nat.succ_le_succ s.tests
  have twice : 12 * (w.ses.testRequests + 1) ≤ 24 := Nat.mul_le_mul_left 12 few
  rw [next]
  refine allFit_cons.mpr ⟨few.trans_lt (by decide), allFit_cons.mpr ⟨?_, allFit_one.mpr ?_⟩⟩
  · exact beat_small s.beat (by decide)
  · show w.ses.beatMs * 12 * (w.ses.testRequests + 1) < 2 ^ 64
    rw [Nat.mul_assoc]
    exact beat_small s.beat twice

/-- A TestRequest is due only when none is out. -/
theorem tests_zero {w : Scene} {quiet : ℕ} (s : Steady w) (inTime : ¬ w.ses.beatMs * 24 / 10 ≤ quiet)
    (due : w.ses.beatMs * 12 * wrapU32 (w.ses.testRequests + 1) / 10 ≤ quiet) :
    w.ses.testRequests = 0 := by
  by_contra some
  have one : w.ses.testRequests = 1 := by
    have := s.tests
    omega
  have two : wrapU32 (1 + 1) = 2 := by decide
  rw [one, two] at due
  exact inTime (by rwa [Nat.mul_assoc] at due)

theorem tickHeartbeat_stays (w : Scene) (n : ℕ) :
    Stays P w (w.tickHeartbeat P n).1 (w.tickHeartbeatOps P n) := by
  unfold tickHeartbeat tickHeartbeatOps
  by_cases off : w.ses.beatMs = 0
  · rw [if_pos off, if_pos off]
    exact .refl w
  · rw [if_neg off, if_neg off]
    dsimp only
    refine Stays.cons ?_ fun s _ => beat_small s.beat le_rfl
    by_cases late : w.ses.beatMs * 24 / 10 ≤ n - w.ses.lastRecvMs
    · rw [if_pos late, if_pos late]
      exact endSession_stays w _
    · rw [if_neg late, if_neg late]
      refine Stays.trans (.ops_ due_fit) ?_
      by_cases due : w.ses.beatMs * 12 * wrapU32 (w.ses.testRequests + 1) / 10 ≤
          n - w.ses.lastRecvMs
      · simp only [if_pos due]
        have counted : Stays P w
            (w.upd fun s => { s with testRequests := wrapU32 (s.testRequests + 1) })
            [.add 32 w.ses.testRequests 1] := by
          refine ⟨⟨[], rfl⟩, fun s _ => ⟨allFit_one.mpr ?_, s.cfg, s.out, s.in_, ?_, s.beat,
            s.owed, s.refused, s.clock⟩⟩
          · exact (Nat.succ_le_succ s.tests).trans_lt (by decide)
          · show wrapU32 (w.ses.testRequests + 1) ≤ 1
            rw [tests_zero s late due]
            decide
        exact (counted.trans (@trySend_stays _ _ .testRequest [(112, ascii "TEST")]
          (by decide))).trans (beat_stays _ _)
      · simp only [if_neg due]
        exact beat_stays w _

theorem tickLive_stays (w : Scene) (n : ℕ) :
    Stays P w (w.tickLive P n).1 (w.tickLiveOps P n) := by
  unfold tickLive tickLiveOps
  split
  · dsimp only
    have noted : Stays P w
        (w.upd fun s => { s with loggingOutSinceMs := some (w.ses.loggingOutSinceMs.getD n) }) [] :=
      still_stays _ rfl rfl (.inl rfl) rfl rfl
    split
    · exact noted.trans (endSession_stays _ _)
    · exact noted.trans (tickHeartbeat_stays _ n)
  · exact tickHeartbeat_stays w n

theorem tickRolled_stays (w : Scene) {n : ℕ} (now : w.ses.cfg.schedule.Places n) :
    Stays P w (w.tickRolled P n).1 (w.tickRolledOps P n) := by
  unfold tickRolled tickRolledOps
  refine Stays.trans (v := w) (.ops_ fun _ => ?_) ?_
  · split
    · exact allFit_sessionStartOps now
    · exact allFit_nil
  · split
    · have := (@trySend_stays P w .logout [] (by decide)).trans
        (still_stays (fun s =>
          { s with lastDropReason := some .scheduleClosed, state := .awaitingLogout })
          rfl rfl (.inl rfl) rfl rfl)
      rwa [List.append_nil] at this
    · cases w.ses.state with
      | disconnected => exact .refl w
      | awaitingLogout => exact .refl w
      | awaitingLogon => exact tickAwaitingLogon_stays w n
      | mustLogon => exact tickMustLogon_stays w n
      | loggedOn => exact tickLive_stays w n
      | loggingOut => exact tickLive_stays w n

theorem roll_schedule (w : Scene) (n : ℕ) :
    ((w.upd fun s => { s with nowMs := n }).roll n).ses.cfg = w.ses.cfg := by
  unfold roll Session.rolled
  dsimp only [upd]
  split <;> rfl

theorem tickInner_stays (w : Scene) {n : ℕ} (now : w.ses.cfg.schedule.Places n)
    (marks : ∀ m ∈ w.ses.sessionMark, w.ses.cfg.schedule.Places m) :
    Stays P w (w.tickInner P n).1 (w.tickInnerOps P n) :=
  (roll_stays w now marks).trans (tickRolled_stays _ (by rw [roll_schedule]; exact now))

theorem setResolution_stays (w : Scene) (sub : ℕ) (resolution : Precision) :
    Stays P w (w.setResolution sub resolution) [] :=
  still_stays _ rfl rfl (.inl rfl) rfl rfl

/-! ### A resend -/

section Replays

variable {J : Type} [Journal J]

/-- The counter of what a resend cannot answer stays in range, however far the resend comes. -/
def LossesFit (j : J) (w : Scene) (r : Replay) : Prop :=
  (Journal.oldest j).isSome →
    w.ses.resendBeyondJournal + lostBelowFloor j r.next (r.stop + 1) < u32Size

instance (j : J) (w : Scene) (r : Replay) : Decidable (LossesFit j w r) :=
  inferInstanceAs (Decidable (_ → _))

theorem lostBelowFloor_add {j : J} {a b c : ℕ} (le : a ≤ b) (le' : b ≤ c) :
    lostBelowFloor j a b + lostBelowFloor j b c ≤ lostBelowFloor j a c := by
  unfold lostBelowFloor
  split <;> omega

theorem allFit_skipMissingOps (j : J) {stop : ℕ} (small : stop < u32Max) (left n : ℕ) :
    AllFit (skipMissingOps j stop n left) := by
  induction left generalizing n with
  | zero => exact allFit_nil
  | succ left ih =>
    unfold skipMissingOps
    split
    · rename_i missing
      have lt : n + 1 < u32Size := by
        have size : u32Size = u32Max + 1 := by decide
        omega
      exact allFit_cons.mpr ⟨lt, ih _⟩
    · exact allFit_nil

theorem replay_stays {j : J} {seq : ℕ} (h : w.replay P j seq = some (some v)) :
    Stays P w v [] ∧ v.ses.resendBeyondJournal = w.ses.resendBeyondJournal := by
  unfold replay at h
  split at h
  · cases h
  · split at h
    · cases h
    · split at h
      · cases h
      · obtain rfl := Option.some.inj (Option.some.inj h)
        exact ⟨(still_stays _ rfl rfl (.inl rfl) rfl rfl).trans (.log rfl), rfl⟩

theorem fill_stays {from_ upto : ℕ} (h : w.fill P from_ upto = some v) :
    Stays P w v [] ∧ v.ses.resendBeyondJournal = w.ses.resendBeyondJournal := by
  obtain ⟨bytes, rfl⟩ := sendAs_eq h
  exact ⟨(still_stays _ rfl rfl (.inl rfl) rfl rfl).trans (.log rfl), rfl⟩

/-- The loop of a resend: what it may still send, it has room to count. -/
theorem replayLoop_stays (j : J) (budget spent : ℕ) (w : Scene) (r : Replay)
    (room : spent + budget < u32Size) (small : r.stop < u32Max) (losses : LossesFit j w r) :
    Stays P w (replayLoop P j budget w r).1 (replayLoopOps P j budget spent w r) ∧
      ∀ q ∈ (replayLoop P j budget w r).2, q.stop = r.stop := by
  induction budget generalizing spent w r with
  | zero => exact ⟨.refl w, fun q hq => by rw [← Option.some.inj hq]⟩
  | succ budget ih =>
    have counts : (Op.add 32 spent 1).Fits := by
      show spent + 1 < u32Size
      omega
    unfold replayLoop replayLoopOps
    by_cases done : r.stop < r.next
    · rw [if_pos done, if_pos done]
      exact ⟨.refl w, fun q hq => by rw [← Option.some.inj hq]⟩
    · rw [if_neg done, if_neg done]
      have more : r.next ≤ r.stop := not_lt.mp done
      cases hr : w.replay P j r.next with
      | none => exact ⟨.refl w, fun q hq => by cases hq⟩
      | some found =>
        cases found with
        | some v =>
          obtain ⟨sent, same⟩ := replay_stays hr
          have lt : r.next + 1 < u32Size := by
            have size : u32Size = u32Max + 1 := by decide
            omega
          have next : wrapU32 (r.next + 1) = r.next + 1 := Nat.mod_eq_of_lt lt
          have less : LossesFit j v { r with next := wrapU32 (r.next + 1) } := by
            have := lostBelowFloor_add (j := j) (b := r.next + 1) (c := r.stop + 1)
              (Nat.le_succ r.next) (by omega)
            intro floor
            have fit := losses floor
            rw [same, next]
            dsimp only
            omega
          obtain ⟨rest, stop⟩ := ih (spent + 1) v { r with next := wrapU32 (r.next + 1) }
            (by omega) small less
          refine ⟨Stays.trans (.ops_ fun _ => allFit_cons.mpr ⟨lt, allFit_one.mpr counts⟩) ?_, stop⟩
          exact sent.trans rest
        | none =>
          dsimp only
          generalize hu : (w.upd fun s =>
            { s with
              resendBeyondJournal := wrapU32 (s.resendBeyondJournal +
                lostBelowFloor j r.next (fillEnd j r.next r.stop)) }) = u
          have bounds := fillEnd_bounds j small more
          have lost := lostBelowFloor_add (j := j) bounds.1.le bounds.2
          have lt : (Journal.oldest j).isSome → w.ses.resendBeyondJournal +
              lostBelowFloor j r.next (fillEnd j r.next r.stop) < u32Size := fun floor => by
            have fit := losses floor
            omega
          have count : (Journal.oldest j).isSome → u.ses.resendBeyondJournal =
              w.ses.resendBeyondJournal +
                lostBelowFloor j r.next (fillEnd j r.next r.stop) := fun floor => by
            rw [← hu]
            exact Nat.mod_eq_of_lt (lt floor)
          have counted : Stays P w u [] := by
            rw [← hu]
            exact still_stays _ rfl rfl (.inl rfl) rfl rfl
          have found : Stays P w w (fillEndOps j r.next r.stop) :=
            .ops_ fun _ => allFit_skipMissingOps j small _ _
          have summed : Stays P w w (if (Journal.oldest j).isSome then
              [.add 32 w.ses.resendBeyondJournal
                (lostBelowFloor j r.next (fillEnd j r.next r.stop))] else []) := by
            refine .ops_ fun _ => ?_
            split
            · exact allFit_one.mpr (lt ‹_›)
            · exact allFit_nil
          have before := found.trans (summed.trans counted)
          rw [List.append_nil] at before
          cases hf : u.fill P r.next (fillEnd j r.next r.stop) with
          | none => exact ⟨by simpa using before, fun q hq => by cases hq⟩
          | some v =>
            obtain ⟨sent, same⟩ := fill_stays hf
            have less : LossesFit j v { r with next := fillEnd j r.next r.stop } := by
              intro floor
              have fit := losses floor
              rw [same, count floor]
              dsimp only
              omega
            obtain ⟨rest, stop⟩ := ih (spent + 1) v { r with next := fillEnd j r.next r.stop }
              (by omega) small less
            exact ⟨before.trans (sent.trans (rest.cons fun _ _ => counts)), stop⟩

theorem continueReplay_stays (j : J) (w : Scene) (losses : ∀ r ∈ w.ses.owed, LossesFit j w r) :
    Stays P w (w.continueReplay P j).1 (w.continueReplayOps P j) := by
  refine ⟨(replays_goOn (continueReplay_replaying j w).1).append, fun steady good => ?_⟩
  suffices stays : Stays P w (w.continueReplay P j).1 (w.continueReplayOps P j) from
    stays.fits steady good
  unfold continueReplay continueReplayOps
  cases hr : w.ses.owed with
  | none => exact .refl w
  | some r =>
    have room : 0 + max w.ses.cfg.resendBatch 1 < u32Size := by
      have batch := steady.cfg.resendBatch
      have : 2 ^ 16 < u32Size := by decide
      omega
    obtain ⟨loop, stop⟩ := replayLoop_stays (P := P) j (max w.ses.cfg.resendBatch 1) 0 w r room
      (steady.owed r hr) (losses r hr)
    dsimp only
    generalize replayLoop P j (max w.ses.cfg.resendBatch 1) w r = x at loop stop ⊢
    obtain ⟨v, left⟩ := x
    cases left with
    | none => exact loop
    | some q =>
      have rest : Stays P v (v.upd fun s =>
          { s with owed := if q.next ≤ q.stop then some q else none }) [] := by
        refine .upd _ fun s _ => ⟨s.cfg, s.out, s.in_, s.tests, s.beat, fun p hp => ?_, s.refused,
          s.clock⟩
        have hp : (if q.next ≤ q.stop then some q else none) = some p := hp
        split at hp
        · rw [← Option.some.inj hp, stop q rfl]
          exact steady.owed r hr
        · cases hp
      have both := loop.trans rest
      rw [List.append_nil] at both
      exact both

theorem advanceReplay_stays (j : J) (w : Scene) (link : Link)
    (losses : ∀ r ∈ w.ses.owed, LossesFit j w r) :
    Stays P w (w.advanceReplay P j link).1 (w.advanceReplayOps P j link) := by
  have next := continueReplay_stays (P := P) j w losses
  unfold advanceReplay advanceReplayOps
  split
  · generalize w.continueReplay P j = x at next ⊢
    obtain ⟨v, ok⟩ := x
    cases ok with
    | true => exact next
    | false =>
      have ended := next.trans (endSession_stays v .cannotSend)
      rw [List.append_nil] at ended
      exact ended
  · exact .refl w

end Replays

end Scene

namespace World

open Scene

variable {A J : Type} [Journal J] {w v : World A J} {s : Session} {b : Bytes} {m : Inbound}

/-! ### Messages of the application -/

omit [Journal J] in
/-- An application message of this end goes out, and the journal keeps it or not. -/
theorem spent_stays {v : Scene} {e : Emission} {bytes : Bytes} {kept : Bool}
    (ses : v.ses = w.ses.spent kept)
    (hist : v.hist = .emitted e :: .stored w.ses.nextOut bytes kept :: w.hist)
    (fresh : e = .reply w.ses.nextOut bytes ∨ e = .originated w.ses.nextOut bytes) :
    Stays P w.toScene v (w.spentOps kept) := by
  refine ⟨⟨[_, _], hist⟩, fun s good => ?_⟩
  rw [hist] at good
  have ne : w.ses.nextOut ≠ u32Max := by
    obtain rfl | rfl := fresh <;> obtain gap | spends := good.1
    · cases gap
    · exact fun last => spends (congrArg some last)
    · cases gap
    · exact fun last => spends (congrArg some last)
  obtain ⟨fits, next⟩ := wrapU32_small s.out.2 ne
  have count : refusals v.hist = (if kept then 0 else 1) + refusals w.hist := by
    rw [hist, refusals, List.countP_cons, List.countP_cons]
    cases kept <;> simp [refusals, Nat.add_comm]
  have counted : kept = false → w.ses.putsRefused < u32Max := fun lost => by
    rw [s.refused]
    exact good.2.1 lost
  have size : u32Size = u32Max + 1 := by decide
  have refused : (w.ses.spent kept).putsRefused = refusals v.hist := by
    rw [count]
    cases kept with
    | true => exact s.refused.trans (Nat.zero_add _).symm
    | false =>
      have lt := counted rfl
      show wrapU32 (w.ses.putsRefused + 1) = 1 + refusals w.hist
      rw [wrapU32, Nat.mod_eq_of_lt (by omega), s.refused, Nat.add_comm]
  constructor
  · refine AllFit.append ?_ (allFit_one.mpr fits)
    cases kept with
    | true => exact allFit_nil
    | false =>
      refine allFit_one.mpr ?_
      have lt := counted rfl
      show w.ses.putsRefused + 1 < u32Size
      omega
  · refine ⟨?_, ?_, ?_, ?_, ?_, ?_, ?_, ?_⟩ <;> rw [ses]
    · exact s.cfg
    · show 1 ≤ wrapU32 (w.ses.nextOut + 1) ∧ wrapU32 (w.ses.nextOut + 1) < u32Size
      exact ⟨by omega, wrapU32_lt _⟩
    · exact s.in_
    · exact s.tests
    · exact s.beat
    · exact s.owed
    · exact refused
    · exact s.clock

omit [Journal J] in
theorem tellJournal_fit (w : World A J) : AllFit w.tellJournalOps := by
  unfold tellJournalOps
  split
  · rename_i lt
    exact allFit_one.mpr lt.le
  · exact allFit_nil

omit [Journal J] in
theorem markIn_fit (w : World A J) : AllFit w.markInOps := by
  unfold markInOps
  split
  · rename_i lt
    exact allFit_one.mpr lt.le
  · exact allFit_nil

theorem sendApplication_stays (w : World A J) (msg : Bytes) :
    Stays P w.toScene (w.sendApplication P msg).1.toScene (w.sendApplicationOps P msg) := by
  have told := tellJournal_fit (w.sendApplication P msg).1
  unfold sendApplicationOps
  revert told
  unfold sendApplication
  by_cases off : w.ses.state ≠ .loggedOn
  · rw [if_pos off, if_pos off]
    exact fun _ => .refl _
  · rw [if_neg off, if_neg off]
    by_cases dumb : w.ses.out.isNone = true
    · rw [if_pos dumb, if_pos dumb]
      exact fun _ => .refl _
    · rw [if_neg dumb, if_neg dumb]
      dsimp only
      cases rebuild P.dict.toDictionary P.appScratch msg (some (renderU32 w.ses.nextOut))
          w.ses.stampNow (if w.ses.cfg.lastProcessed = true then some w.ses.lastIn else none)
          false with
      | none => exact fun _ => .refl _
      | some bytes =>
        intro told
        rw [tellJournal_scene]
        refine Stays.trans (spent_stays rfl rfl (.inr rfl)) (.ops_ fun _ => told)

variable [Application A]

theorem judgeApplication_stays (w : World A J) (b : Bytes) :
    Stays P w.toScene (w.judgeApplication b).1.toScene (w.judgeApplicationOps b) := by
  unfold judgeApplication judgeApplicationOps
  split
  · exact .refl _
  · dsimp only
    generalize Application.onMessage w.app b _ = r
    have handed : Stays P w.toScene ⟨w.ses, .delivered w.ses b :: w.hist⟩ [] := .log rfl
    obtain ⟨app, answer⟩ := r
    cases answer with
    | none => exact handed
    | some bytes =>
      refine handed.trans (spent_stays (w := ⟨⟨w.ses, .delivered w.ses b :: w.hist⟩, app,
        w.journal⟩) rfl rfl (.inl rfl))

theorem judgeAccepted_stays (w : World A J) (k : m.isLogon → Judged P w.toScene s m)
    (notLow : m.isLogon → m.countAt s ≤ m.seq) (new : ∀ n ∈ m.newSeqNo, n < u32Size) :
    Stays P w.toScene (w.judgeAccepted P m b).1.toScene (w.judgeAcceptedOps P m b) := by
  unfold judgeAccepted judgeAcceptedOps
  split
  · exact judgeLogon_stays (k ‹_›) ‹_› (notLow ‹_›)
  · split
    · exact judgeLogout_stays _
    · split
      · exact judgeTestRequest_stays _ m
      · split
        · exact judgeResendRequest_stays _ m
        · split
          · exact judgeSequenceReset_stays _ m new
          · split
            · exact judgeApplication_stays w b
            · exact .refl _

omit [Journal J] [Application A] in
/-- The number of a message is consumed. -/
theorem consume_stays (w : World A J) (k : Judged P w.toScene s m)
    (consumed : (m.isSequenceReset || m.isLogon) = false → m.Consumed s) :
    Stays P w.toScene ⟨w.ses.consume m, w.hist⟩
      (if m.isSequenceReset || m.isLogon then [] else advancePastOps m.seq) := by
  unfold Session.consume
  have accepted : ∀ v : Scene, Stays P v (v.upd (·.accept m.seq)) [] := fun v =>
    still_stays _ rfl rfl (.inr rfl) rfl rfl
  by_cases stays : (m.isSequenceReset || m.isLogon) = true
  · rw [if_pos stays, if_pos stays]
    exact accepted w.toScene
  · rw [if_neg stays, if_neg stays]
    have counts := advancePast_stays w.toScene k.lt
      fun good => k.small good (consumed (by simpa using stays))
    have both := counts.trans (accepted _)
    rwa [List.append_nil] at both

theorem judgeInOrder_stays (w : World A J) (k : Judged P w.toScene s m) (fault : Option Fault)
    (consumed : (m.isSequenceReset || m.isLogon) = false → m.Consumed s)
    (notLow : m.isLogon → m.countAt s ≤ m.seq) (new : ∀ n ∈ m.newSeqNo, n < u32Size) :
    Stays P w.toScene (w.judgeInOrder P m fault b).1.toScene (w.judgeInOrderOps P m fault b) := by
  unfold judgeInOrder judgeInOrderOps
  have counted := consume_stays w k consumed
  refine counted.trans ?_
  cases fault with
  | some f => exact sendReject_stays _ _
  | none =>
    -- a Logon is counted once it was answered
    refine judgeAccepted_stays { w with ses := w.ses.consume m } (fun logon => ?_) notLow new
    refine k.after counted ?_
    simp [Session.consume, logon, Session.accept]

theorem restartOn_stays (w : Scene) (m : Inbound) : Stays P w (w.restartOn m) [] := by
  unfold restartOn
  split
  · have restarted : Stays P w (w.upd (·.restartCounts)) [] :=
      .upd _ fun s _ => ⟨s.cfg, ⟨le_rfl, one_lt_u32Size⟩, ⟨le_rfl, one_lt_u32Size⟩, s.tests, s.beat,
        s.owed, s.refused, s.clock⟩
    exact restarted.trans (.log rfl)
  · exact .refl w

theorem restartOn_nextIn (w : Scene) (m : Inbound) :
    (w.restartOn m).ses.nextIn = m.countAt w.ses := by
  unfold restartOn Inbound.countAt
  split <;> rfl

/-- What `judgeSequence` is given: a message that arrived at `s`, and nothing done about it. -/
theorem judgeSequence_stays (w : World A J) {h : List Event} (hist : w.hist = .judged s b :: h)
    (count : w.ses.nextIn = s.nextIn) (arr : s.arrives P b = some m) (lt : m.seq < u32Size)
    (fault : Option Fault) (new : ∀ n ∈ m.newSeqNo, n < u32Size) :
    Stays P w.toScene (w.judgeSequence P m fault b).1.toScene
      (w.judgeSequenceOps P m fault b) := by
  unfold judgeSequence judgeSequenceOps
  have restarted := restartOn_stays (P := P) w.toScene m
  have at_ : (w.toScene.restartOn m).ses.nextIn = m.countAt s := by
    rw [restartOn_nextIn, Inbound.countAt, Inbound.countAt, count]
  have k : Judged P (w.toScene.restartOn m) s m := by
    refine ⟨lt, at_, fun good consumed => ?_⟩
    obtain ⟨more, grown⟩ := restarted.grows
    rw [grown, hist] at good
    exact good.of_append.1 m arr consumed
  dsimp only
  split
  · exact restarted.trans (judgeTooLow_stays _ m)
  · rename_i low
    split
    · rename_i high
      exact restarted.trans (tooHigh_stays _ b high.2)
    · rename_i high
      have notLow : m.checkTooLow → m.countAt s ≤ m.seq := fun check =>
        at_ ▸ not_lt.mp fun lt => low ⟨check, lt⟩
      have notHigh : m.checkTooHigh → m.seq ≤ m.countAt s := fun check =>
        at_ ▸ not_lt.mp fun lt => high ⟨check, lt⟩
      refine restarted.trans (judgeInOrder_stays { w with toScene := w.toScene.restartOn m } k fault
        (fun stays => ?_) (fun logon => ?_) new)
      · obtain ⟨reset, logon⟩ : m.isSequenceReset = false ∧ m.isLogon = false := by
          simpa using stays
        by_cases out : m.isLogout
        · exact .inl out
        · by_cases asks : m.isResendRequest
          · exact .inr (.inl asks)
          · have skips : m.skipsSequencing = false := by simp [Inbound.skipsSequencing, *]
            have le := notLow (by simp [Inbound.checkTooLow, skips])
            have ge := notHigh (by simp [Inbound.checkTooHigh, skips, logon])
            exact .inr (.inr ⟨by simp [reset], by omega⟩)
      · refine notLow ?_
        simp [Inbound.checkTooLow, Inbound.skipsSequencing, Inbound.eq_of_isLogon logon]

theorem noteSkew_stays (w : Scene) (view : MessageView) :
    Stays P w ⟨w.ses.noteSkew view, w.hist⟩ [] := by
  refine still_stays (·.noteSkew view) ?_ ?_ (.inl ?_) ?_ ?_ <;> unfold Session.noteSkew <;>
    split <;> rfl

omit [Journal J] [Application A] in
theorem noteSkew_fit (w : World A J) (view : MessageView) : AllFit (w.noteSkewOps view) := by
  unfold noteSkewOps
  split
  · split
    · exact allFit_one.mpr ‹_›
    · exact allFit_one.mpr (not_le.mp ‹_›).le
  · exact allFit_nil

/-- A message whose frame and `BeginString` are right. -/
theorem judgeHeader_stays (w : World A J) {h : List Event} {n : ℕ}
    (hist : w.hist = .judged w.ses b :: h) (whole : (frameOf P b).outcome = .ok (.complete n))
    (third : ((viewOf P b).fieldAt 2).map (·.1) = some 35)
    (begin_ : ((viewOf P b).get 8).any w.ses.cfg.beginString.isMatch) :
    Stays P w.toScene (w.judgeHeader P (viewOf P b) b).1.toScene
      (w.judgeHeaderOps P (viewOf P b) b) := by
  unfold judgeHeader judgeHeaderOps
  have placed : Stays P w.toScene w.toScene
      (if w.ses.nowMs = 0 then [] else w.ses.cfg.schedule.sessionStartOps w.ses.nowMs) := by
    refine .ops_ fun s => ?_
    split
    · exact allFit_nil
    · exact allFit_sessionStartOps (s.clock ‹_›)
  refine placed.trans ?_
  cases refusal : w.ses.refusalOf (viewOf P b) with
  | some why => exact .refl _
  | none =>
    refine Stays.trans (.ops_ fun _ => noteSkew_fit w _) ?_
    have noted := noteSkew_stays (P := P) w.toScene (viewOf P b)
    dsimp only
    cases known : (w.ses.noteSkew (viewOf P b)).identityRefusal (viewOf P b) with
    | some why => exact noted
    | none =>
      cases number : Inbound.number (viewOf P b) 34 with
      | none => exact noted
      | some seq =>
        have arr : w.ses.arrives P b = some (Inbound.read (viewOf P b) seq) := by
          rw [identityRefusal_noteSkew] at known
          simp [Session.arrives, whole, third, begin_, refusal, known, number]
        refine noted.trans (judgeSequence_stays { w with ses := w.ses.noteSkew (viewOf P b) } hist
          ?_ arr (number_lt number) _ fun n hn => number_lt hn)
        exact congrArg Ledger.nextIn (noteSkew_ledger _ _)

theorem judge_stays (w : World A J) (b : Bytes) :
    Stays P w.toScene (w.judge P b).1.toScene (w.judgeOps P b) := by
  have shown : Stays P w.toScene ⟨w.ses, .judged w.ses b :: w.hist⟩ [] := .log rfl
  unfold judge judgeOps
  dsimp only
  refine shown.trans ?_
  cases whole : (frameOf P b).outcome with
  | ok outcome =>
    cases outcome with
    | incomplete => exact .refl _
    | complete n =>
      dsimp only
      unfold judgeFrame judgeFrameOps
      split
      · exact garbled_stays _ b
      · rename_i third
        split
        · split
          · exact logoutWith_stays _ _
          · exact .refl _
        · rename_i begin_
          exact judgeHeader_stays { w with hist := .judged w.ses b :: w.hist } rfl whole
            (not_not.mp third) (by simpa using begin_)
  | error e =>
    cases e with
    | badTag pos =>
      dsimp only
      split
      · rename_i live
        refine judgeBadTag_stays _ _ pos fun good signed seq number high => ?_
        refine good.1.2 live seq ?_ high
        simpa [badTagNumber, whole, signed] using number
      · exact garbled_stays _ b
    | _ => exact garbled_stays _ b

theorem judgeOrEnd_stays (w : World A J) (b : Bytes) :
    Stays P w.toScene (w.judgeOrEnd P b).1.toScene (w.judgeOps P b) := by
  have judged := judge_stays (P := P) w b
  unfold judgeOrEnd
  generalize w.judge P b = r at judged ⊢
  obtain ⟨v, link | why⟩ := r
  · have ended := judged.trans (endSession_stays v.toScene link.toDropReason)
    rw [List.append_nil] at ended
    exact ended
  · exact judged

theorem release_stays (w : Scene) (i : ℕ) : Stays P w ⟨w.ses.release i, w.hist⟩ [] :=
  still_stays (·.release i) rfl rfl (.inl rfl) rfl rfl

theorem drain_stays (rounds : ℕ) (w : World A J) :
    Stays P w.toScene (w.drain P rounds).1.toScene (w.drainOps P rounds) := by
  induction rounds generalizing w with
  | zero => exact .refl _
  | succ rounds ih =>
    unfold drain drainOps
    cases w.ses.queue.findIdx? fun q => q.seq == w.ses.nextIn with
    | none => exact .refl _
    | some i =>
      dsimp only
      have judged := judgeOrEnd_stays (P := P) (w.release i)
        ((w.ses.queue[i]?.map (·.bytes)).getD [])
      have first := (release_stays (P := P) w.toScene i).trans judged
      generalize (w.release i).judgeOrEnd P ((w.ses.queue[i]?.map (·.bytes)).getD []) = r at first ⊢
      obtain ⟨v, link⟩ := r
      cases link with
      | dropped =>
        rw [List.append_nil]
        exact first
      | up => exact first.trans (ih v)

/-! ### Calls -/

/-- The session and the journal that a call goes on with a resend in. -/
def resuming (P : Params) (w : World A J) : Call → Option (Scene × J)
  | .tickWith n => some (((w.setResolution 0 .millis).tickInner P n).1, w.journal)
  | .tickAtWith n sub => some (((w.setResolution sub .nanos).tickInner P n).1, w.journal)
  | .receivedWith b =>
    if w.ses.state = .disconnected ∨ w.ses.state = .awaitingLogout then none
    else match w.judgeOrEnd P b with
      | (_, .dropped) => none
      | (w, .up) => some ((w.drain P queued).1.toScene, (w.drain P queued).1.journal)
  | _ => none

/-- A call under way, with nothing done yet. -/
def begun (w : World A J) (c : Call) : World A J := { w with hist := .called w.ses c :: w.hist }

/-- Does a call stay in range? Its events do, the schedule can place the instants that a tick asks
about, and what a resend cannot answer can be counted. -/
structure InRange (P : Params) (w : World A J) (c : Call) : Prop where
  events : Always (StaysInRange P) (w.perform P c).1.hist
  clock : ∀ n ∈ c.ticks, w.ses.cfg.schedule.Places n ∧
    ∀ m ∈ w.ses.sessionMark, w.ses.cfg.schedule.Places m
  losses : ∀ x ∈ (w.begun c).resuming P c, ∀ r ∈ x.1.ses.owed, LossesFit x.2 x.1 r

instance (w : World A J) (c : Call) : Decidable (w.InRange P c) :=
  decidable_of_iff
    (Always (StaysInRange P) (w.perform P c).1.hist ∧
      (∀ n ∈ c.ticks, w.ses.cfg.schedule.Places n ∧
        ∀ m ∈ w.ses.sessionMark, w.ses.cfg.schedule.Places m) ∧
      ∀ x ∈ (w.begun c).resuming P c, ∀ r ∈ x.1.ses.owed, LossesFit x.2 x.1 r)
    ⟨fun ⟨events, clock, losses⟩ => ⟨events, clock, losses⟩, fun r => ⟨r.events, r.clock, r.losses⟩⟩

/-- The arithmetic of an entry point that is given the journal. -/
def ops (P : Params) (w : World A J) (c : Call) : List Op :=
  match c with
  | .receivedWith b => (w.begun c).receivedWithOps P b
  | .tickWith n => (w.begun c).tickWithOps P n
  | .tickAtWith n sub => (w.begun c).tickAtWithOps P n sub
  | .sendApplication msg => (w.begun c).sendApplicationOps P msg
  | _ => []

theorem receivedInner_stays (w : World A J) (b : Bytes)
    (losses : ∀ x ∈ w.resuming P (.receivedWith b), ∀ r ∈ x.1.ses.owed, LossesFit x.2 x.1 r) :
    Stays P w.toScene (w.receivedInner P b).1.toScene (w.receivedInnerOps P b) := by
  unfold receivedInner receivedInnerOps
  unfold resuming at losses
  dsimp only at losses
  by_cases dead : w.ses.state = .disconnected ∨ w.ses.state = .awaitingLogout
  · rw [if_pos dead, if_pos dead]
    exact .refl _
  · rw [if_neg dead, if_neg dead]
    rw [if_neg dead] at losses
    have judged := judgeOrEnd_stays (P := P) w b
    generalize w.judgeOrEnd P b = r at judged losses ⊢
    obtain ⟨v, link⟩ := r
    cases link with
    | dropped =>
      rw [List.append_nil]
      exact judged
    | up =>
      have drained := drain_stays (P := P) queued v
      dsimp only at losses ⊢
      have resent := advanceReplay_stays (P := P) (v.drain P queued).1.journal
        (v.drain P queued).1.toScene (v.drain P queued).2 fun r hr => losses _ rfl r hr
      exact judged.trans (drained.trans resent)

theorem receivedWith_stays (w : World A J) (b : Bytes)
    (losses : ∀ x ∈ w.resuming P (.receivedWith b), ∀ r ∈ x.1.ses.owed, LossesFit x.2 x.1 r) :
    Stays P w.toScene (w.receivedWith P b).1.toScene (w.receivedWithOps P b) := by
  rw [receivedWith_scene]
  have inner := receivedInner_stays w b losses
  exact (inner.trans (.ops_ fun _ => markIn_fit _)).trans (.ops_ fun _ => tellJournal_fit _)

omit [Application A] in
/-- A tick of either resolution, and the next batch of a resend. -/
theorem tickAfterInner_stays (w : World A J) {n : ℕ} (sub : ℕ) (resolution : Precision)
    (now : w.ses.cfg.schedule.Places n)
    (marks : ∀ m ∈ w.ses.sessionMark, w.ses.cfg.schedule.Places m)
    (losses : ∀ r ∈ ((w.setResolution sub resolution).tickInner P n).1.ses.owed,
      LossesFit w.journal ((w.setResolution sub resolution).tickInner P n).1 r) :
    Stays P w.toScene (thenTell (({ w with toScene := w.setResolution sub resolution } :
        World A J).tickAfterInner P n)).1.toScene
      (({ w with toScene := w.setResolution sub resolution } : World A J).tickAfterInnerOps P n) := by
  have ticked := (setResolution_stays (P := P) w.toScene sub resolution).trans
    (tickInner_stays (w.setResolution sub resolution) now marks)
  have resent := advanceReplay_stays (P := P) w.journal _
    ((w.setResolution sub resolution).tickInner P n).2 losses
  have told := tellJournal_fit (({ w with toScene := w.setResolution sub resolution } :
    World A J).tickAfterInner P n).1
  show Stays P _ (tellJournal _).toScene _
  rw [tellJournal_scene]
  exact (ticked.trans resent).trans (.ops_ fun _ => told)

/-- A tick without a journal. -/
theorem tickAny_stays (w : Scene) {n : ℕ} (sub : ℕ) (resolution : Precision)
    (now : w.ses.cfg.schedule.Places n)
    (marks : ∀ m ∈ w.ses.sessionMark, w.ses.cfg.schedule.Places m) :
    Stays P w ((w.setResolution sub resolution).tickInner P n).1 [] :=
  (setResolution_stays w sub resolution).trans
    (tickInner_stays (w.setResolution sub resolution) now marks).nil

end World

namespace Scene

variable {w : Scene}

theorem connect_stays (w : Scene) : Stays P w (w.connect P).1 [] := by
  have connected : Stays P w (w.upd (·.connected P)) [] := by
    refine .upd _ fun s _ => ⟨s.cfg, ?_, ?_, s.tests, s.beat, s.owed, s.refused, s.clock⟩
    · show 1 ≤ (if _ then 1 else w.ses.nextOut) ∧ (if _ then 1 else w.ses.nextOut) < u32Size
      split
      · exact ⟨le_rfl, one_lt_u32Size⟩
      · exact s.out
    · show 1 ≤ (if _ then 1 else w.ses.nextIn) ∧ (if _ then 1 else w.ses.nextIn) < u32Size
      split
      · exact ⟨le_rfl, one_lt_u32Size⟩
      · exact s.in_
  unfold connect
  dsimp only
  split
  · exact connected.trans (.log rfl)
  · exact connected

theorem disconnectWith_stays (w : Scene) (why : DropReason) :
    Stays P w (w.disconnectWith why).1 [] := by
  unfold disconnectWith
  split
  · exact endSession_stays w why
  · show Stays P w (w.upd fun s => { s with state := .disconnected }) []
    exact still_stays _ rfl rfl (.inl rfl) rfl rfl

theorem sendOrdered_stays (w : Scene) (which : Which) (extra : List (ℕ × Bytes))
    (fresh : which ≠ .gapFill) : Stays P w (w.sendOrdered P which extra).1 [] := by
  unfold sendOrdered
  split
  · exact .refl w
  · cases sent : w.send P which extra with
    | none => exact .refl w
    | some v => exact (send_stays fresh sent).nil

theorem beginLogout_stays (w : Scene) (text : Bytes) : Stays P w (w.beginLogout P text).1 [] := by
  unfold beginLogout
  split
  · split
    · exact endSession_stays w _
    · exact .refl w
  · cases sent : w.send P .logout (if text.isEmpty then [] else [(58, text)]) with
    | none => exact endSession_stays w _
    | some v =>
      show Stays P w (v.upd fun s => { s with state := .loggingOut }) []
      exact (send_stays (P := P) (by decide) sent).nil.trans
        (still_stays _ rfl rfl (.inl rfl) rfl rfl)

theorem setNextOut_stays (w : Scene) {n : ℕ} (fits : n < u32Size) :
    Stays P w (w.setNextOut n).1 [] := by
  unfold setNextOut
  split
  · exact .refl w
  · rename_i pos
    show Stays P w (w.upd fun s => { s with nextOut := n }) []
    exact .upd _ fun s _ => ⟨s.cfg, ⟨Nat.one_le_iff_ne_zero.mpr pos, fits⟩, s.in_, s.tests, s.beat,
      s.owed, s.refused, s.clock⟩

theorem setNextIn_stays (w : Scene) {n : ℕ} (fits : n < u32Size) :
    Stays P w (w.setNextIn n).1 [] := by
  unfold setNextIn
  split
  · exact .refl w
  · rename_i pos
    show Stays P w (w.upd fun s => { s with nextIn := n }) []
    exact .upd _ fun s _ => ⟨s.cfg, s.out, ⟨Nat.one_le_iff_ne_zero.mpr pos, fits⟩, s.tests, s.beat,
      s.owed, s.refused, s.clock⟩

theorem sendSequenceReset_stays (w : Scene) {n : ℕ} (fits : n < u32Size) :
    Stays P w (w.sendSequenceReset P n).1 [] := by
  unfold sendSequenceReset
  split
  · exact .refl w
  · rename_i pos
    cases sent : w.sendAs P .gapFill none [(36, renderU32 n), (123, ascii "N")] with
    | none => exact .refl w
    | some v =>
      obtain ⟨bytes, rfl⟩ := sendAs_eq sent
      refine ⟨⟨[_], rfl⟩, fun s _ => ⟨allFit_nil, s.cfg, ?_, s.in_, s.tests, s.beat, s.owed,
        s.refused, s.clock⟩⟩
      exact ⟨Nat.one_le_iff_ne_zero.mpr pos, fits⟩

end Scene

namespace World

open Scene

variable {A J : Type} [Application A] [Journal J] {w : World A J}

omit [Application A] in
theorem thenTell_stays {x : Scene} {ops : List Op} {r : World A J × Link}
    (h : Stays P x r.1.toScene ops) : Stays P x (thenTell r).1.toScene ops := by
  show Stays P x (tellJournal r.1).toScene ops
  rwa [tellJournal_scene]

/-- **Every call keeps a session steady that stays in range.** -/
theorem perform_stays (w : World A J) (c : Call) (fits : c.fits) (r : w.InRange P c) :
    Stays P w.toScene (w.perform P c).1.toScene (w.ops P c) := by
  have called : Stays P w.toScene (w.begun c).toScene [] := .log rfl
  have clock := r.clock
  have losses := r.losses
  refine called.trans ?_
  unfold perform
  cases c with
  | connect => exact connect_stays _
  | disconnect => exact disconnectWith_stays _ _
  | disconnectWith why => exact disconnectWith_stays _ why
  | noteDropReason why => exact noteDropReason_stays _ why
  | tick n => exact tickAny_stays _ 0 .millis (clock n rfl).1 (clock n rfl).2
  | tickAt n sub => exact tickAny_stays _ sub .nanos (clock n rfl).1 (clock n rfl).2
  | tickWith n =>
    exact tickAfterInner_stays _ 0 .millis (clock n rfl).1 (clock n rfl).2 (losses _ rfl)
  | tickAtWith n sub =>
    exact tickAfterInner_stays _ sub .nanos (clock n rfl).1 (clock n rfl).2 (losses _ rfl)
  | received b =>
    have alone := receivedWith_stays (P := P)
      (w := (⟨(w.begun (.received b)).toScene, .silent, .noJournal⟩ : World Silent NoJournal)) b
      fun x _ q _ floor => by cases floor
    exact alone.nil
  | receivedWith b => exact receivedWith_stays _ b losses
  | sendApplication msg => exact sendApplication_stays _ msg
  | sendHeartbeat => exact sendOrdered_stays _ _ _ (by decide)
  | sendTestRequest id => exact sendOrdered_stays _ _ _ (by decide)
  | sendResendRequest from_ upTo => exact sendOrdered_stays _ _ _ (by decide)
  | beginLogout text => exact beginLogout_stays _ text
  | beginLogoutWith text => exact thenTell_stays (beginLogout_stays _ text)
  | logoutNow text => exact (logoutNow_stays _ text).nil
  | logoutNowWith text => exact thenTell_stays (logoutNow_stays _ text).nil
  | setNextOut n => exact setNextOut_stays _ (by simpa [Call.fits] using fits)
  | setNextIn n => exact setNextIn_stays _ (by simpa [Call.fits] using fits)
  | sendSequenceReset n => exact sendSequenceReset_stays _ (by simpa [Call.fits] using fits)
  | sendSequenceResetWith n =>
    exact thenTell_stays (sendSequenceReset_stays _ (by simpa [Call.fits] using fits))

/-! ### Runs -/

/-- The worlds of a session whose every call stays in range. -/
inductive Ranged (P : Params) : World A J → Prop
  | start {s : Session} (initial : Initial P s) (cfg : s.cfg.Fits) (app : A) (journal : J) :
    Ranged P ⟨⟨s, []⟩, app, journal⟩
  | step {w : World A J} (h : Ranged P w) (c : Call) (fits : c.fits) (r : w.InRange P c) :
    Ranged P (w.perform P c).1

theorem Ranged.steady {w : World A J} (h : Ranged P w) : Steady w.toScene := by
  induction h with
  | @start s initial cfg app journal =>
    cases initial with
    | new c =>
      exact ⟨cfg, ⟨le_rfl, one_lt_u32Size⟩, ⟨le_rfl, one_lt_u32Size⟩, Nat.zero_le _, Nat.zero_le _,
        fun r hr => (by cases hr), rfl, fun h => absurd rfl h⟩
    | resume c out in_ =>
      exact ⟨cfg, out, in_, Nat.zero_le _, Nat.zero_le _, fun r hr => (by cases hr), rfl,
        fun h => absurd rfl h⟩
    | resumeAt c mark out in_ =>
      exact ⟨cfg, out, in_, Nat.zero_le _, Nat.zero_le _, fun r hr => (by cases hr), rfl,
        fun h => absurd rfl h⟩
  | step _ c fits r ih => exact ((perform_stays _ c fits r).fits ih r.events).2

/-- **Nothing overflows, and no count reaches 0.** In every run whose calls all stay in range both
counts are at least 1, and the next call that stays in range overflows nothing. -/
theorem arithmetic_in_range {w : World A J} (h : Ranged P w) :
    (1 ≤ w.ses.nextOut ∧ 1 ≤ w.ses.nextIn) ∧
      ∀ c : Call, c.fits → w.InRange P c → AllFit (w.ops P c) := by
  refine ⟨⟨h.steady.out.1, h.steady.in_.1⟩, fun c fits r => ?_⟩
  exact ((perform_stays w c fits r).fits h.steady r.events).1

/-- A run whose calls all stay in range. -/
def RunsInRange (P : Params) : World A J → List Call → Prop
  | _, [] => True
  | w, c :: cs => c.fits ∧ w.InRange P c ∧ RunsInRange P (w.perform P c).1 cs

instance decidableRunsInRange : ∀ (w : World A J) (cs : List Call), Decidable (RunsInRange P w cs)
  | _, [] => isTrue trivial
  | w, c :: cs =>
    have := decidableRunsInRange (w.perform P c).1 cs
    inferInstanceAs (Decidable (_ ∧ _ ∧ _))

theorem Ranged.run {w : World A J} (h : Ranged P w) (cs : List Call) (r : RunsInRange P w cs) :
    Ranged P (w.run P cs) := by
  induction cs generalizing w with
  | nil => exact h
  | cons c cs ih => exact ih (h.step c r.1 r.2.1) r.2.2

end World

open World Setting

theorem config_fits : config.Fits := ⟨by decide, by decide⟩

theorem loggedOn_ranged : Ranged acceptor loggedOn :=
  Ranged.run (.start (.new config) config_fits Silent.silent NoJournal.noJournal)
    [.connect, .tick now, .receivedWith (logon 1)] (by decide +kernel)

theorem arithmetic_in_range_order :
    AllFit (loggedOn.ops acceptor (.receivedWith (order 2))) :=
  (arithmetic_in_range loggedOn_ranged).2 (.receivedWith (order 2)) rfl (by decide +kernel)

/-- A ResendRequest numbered 4294967295, which no check of its number stops: the number after it
does not fit, and the inbound count is 0. -/
theorem count_wraps :
    ¬ ∀ w : World Silent NoJournal, Reachable acceptor w → w.ses.cfg.Fits → ∀ c : Call, c.fits →
      AllFit (w.ops acceptor c) ∧ 1 ≤ (w.perform acceptor c).1.ses.nextIn := by
  intro h
  have cfg : loggedOn.ses.cfg = config := by decide +kernel
  have count := (h loggedOn loggedOn_reachable (cfg ▸ config_fits)
    (.receivedWith (theirs "2" 4294967295 [(7, ascii "1"), (16, ascii "0")])) rfl).2
  revert count
  decide +kernel

end Fixbolt
