import Fixbolt.Lib.Slots
import Fixbolt.Properties.Count

/-!
# What is held belongs to the current count

Between calls every occupied slot of the queue is numbered above the inbound count and was filled
since the count restarted, and what is judged is what was received or was held so:
`held_ahead`.

Within a call the count may stand at a held number, until the queue is drained: `Kept` is what
every move keeps, and `drain_empties` is what the drain adds.
-/

namespace Fixbolt

open History Relation

variable {P : Params} {R : Rules}

/-! ### What a run is asked -/

namespace Session

/-- Is nothing held? -/
def holdsNone (s : Session) : Bool := s.queue.all (·.seq == 0)

/-- Is something held under a number up to `n`? -/
def holdsUpTo (s : Session) (n : ℕ) : Bool := s.queue.any fun q => q.seq != 0 && decide (q.seq ≤ n)

/-- Would a message be held in a free slot although its number is held further on? -/
def holdsTwice (s : Session) (n : ℕ) : Bool :=
  s.queue.any (·.seq == n) &&
    s.queue.findIdx? (fun q => q.seq == n || q.seq == 0) != s.queue.findIdx? (·.seq == n)

/-- The number that judging takes the count past: that of a consumed message, and on a logged-on
session that of one with an unreadable tag. -/
def passes (P : Params) (s : Session) (b : Bytes) : Option ℕ :=
  match s.arrives P b with
  | some m => if m.Consumed s then some m.seq else none
  | none => if s.state = .loggedOn then (badTagNumber P b).filter (s.nextIn ≤ ·) else none

/-- No message takes the count past a held number, to it when the session ends with it, or past the
last number of all; none is held beside its own number; none restarts the count over a queue. -/
def tidy (P : Params) (s : Session) (b : Bytes) : Bool :=
  ((s.passes P b).all fun n => n != u32Max && !s.holdsUpTo n &&
    !((s.faultOn P b).any Fault.endsSession && s.holdsUpTo (n + 1))) &&
  (s.arrives P b).all fun m =>
    !(m.isSequenceReset && (s.faultOn P b).isNone &&
      m.newSeqNo.any fun n => decide (s.nextIn < n) && s.holdsUpTo (n - 1)) &&
    !(decide (m.RunsAhead s) && decide (b.length ≤ queuedLen) && s.holdsTwice m.seq) &&
    !(m.isLogon && m.resetSeq && !s.holdsNone)

end Session

/-- A run that never leaves a held number behind: no restart finds anything held, no one sets the
count to or past a held number, no message does, and no session ends for one that is directly below
a held number. -/
def Tidy (P : Params) : Event → List Event → Prop
  | .called s (.setNextIn n), _ => !s.holdsUpTo n
  | .judged s b, _ => s.tidy P b
  | .restarted s, _ => s.holdsNone
  | .ended why, old => why = .peerLogout ∨ why = .cannotSend →
      ∀ sb ∈ judging old, ∀ n ∈ sb.1.passes P sb.2, !sb.1.holdsUpTo (n + 1)
  | _, _ => True

/-- What is judged was received in this call, or held since the count restarted. -/
def FromThisCount : Event → List Event → Prop
  | .judged _ b, old =>
    (∃ sc ∈ callOf old, sc.2.incoming = some b) ∨ ∃ n, .held n b ∈ sinceRestart old
  | _, _ => True

/-! ### What every move keeps -/

/-- What is held is ahead of the count. -/
def Ledger.Ahead (l : Ledger) : Prop := Slots.From Queued.seq (l.nextIn + 1) l.queue

/-- The message under judgement moved the count, and the queue is what it was. -/
def Moved (P : Params) (x : Books) : Prop :=
  ∃ s b, judging x.hist = some (s, b) ∧ x.led.queue = s.queue ∧ x.led.Alive ∧
    ((∃ n, s.passes P b = some n ∧ x.led.nextIn = n + 1) ∨
      ∃ m, s.arrives P b = some m ∧ m.isSequenceReset ∧ s.faultOn P b = none ∧
        m.newSeqNo = some x.led.nextIn ∧ s.nextIn < x.led.nextIn)

/-- What every move of a tidy run keeps. -/
structure Kept (P : Params) (x : Books) : Prop where
  count : x.led.nextIn ≠ 0
  length : x.led.queue.length = queued
  held : ∀ q ∈ x.led.queue, q.seq ≠ 0 → .held q.seq q.bytes ∈ sinceRestart x.hist
  number : ∀ q ∈ x.led.queue, q.seq ≠ 0 → Inbound.number (viewOf P q.bytes) 34 = some q.seq
  distinct : Slots.Distinct Queued.seq x.led.queue
  seen : ∀ t, lastSeen x.hist = some t → t.ledger.Ahead
  ahead : x.led.Ahead ∨ Moved P x
  judged : Always FromThisCount x.hist

/-- `h'` is `h` and events that show no session. -/
inductive Notes (h : List Event) : List Event → Prop
  | refl : Notes h h
  | cons {e : Event} {h' : List Event} (he : e.shown = none) (rest : Notes h h') : Notes h (e :: h')

namespace Notes

variable {h h' : List Event}

theorem quiet {e : Event} (he : e.shown = none) :
    e.focus = none ∧ e.isRestart = false ∧ e.isCall = false := by
  cases e with
  | called => cases he
  | judged => cases he
  | restarted => cases he
  | _ => exact ⟨rfl, rfl, rfl⟩

theorem lastSeen (n : Notes h h') : Fixbolt.lastSeen h' = Fixbolt.lastSeen h := by
  induction n with
  | refl => rfl
  | cons he _ ih => exact (newest_cons_of_none he _).trans ih

theorem judging (n : Notes h h') : Fixbolt.judging h' = Fixbolt.judging h := by
  induction n with
  | refl => rfl
  | cons he _ ih => exact (judging_cons (quiet he).1).trans ih

theorem sinceRestart (n : Notes h h') {e : Event} (hm : e ∈ Fixbolt.sinceRestart h) :
    e ∈ Fixbolt.sinceRestart h' := by
  induction n with
  | refl => exact hm
  | cons he _ ih =>
    rw [sinceRestart_cons (quiet he).2.1]
    exact List.mem_cons_of_mem _ ih

theorem judged (n : Notes h h') (ok : Always FromThisCount h) : Always FromThisCount h' := by
  induction n with
  | refl => exact ok
  | @cons e h' he _ ih =>
    refine ⟨?_, ih⟩
    cases e <;> trivial

end Notes

theorem holdsNone_iff {s : Session} : s.holdsNone ↔ ∀ q ∈ s.queue, q.seq = 0 := by
  simp [Session.holdsNone]

theorem from_of_not_holdsUpTo {s : Session} {n : ℕ} (h : s.holdsUpTo n = false) :
    Slots.From Queued.seq (n + 1) s.queue := by
  intro q hq occ
  have := List.any_eq_false.mp h q hq
  have : ¬ q.seq ≤ n := by simpa [occ] using this
  omega

namespace Kept

variable {x y : Books} {l l' : Ledger} {h h' : List Event}

/-- A move that leaves the queue alone, and shows no session. -/
theorem keep (k : Kept P x) (notes : Notes x.hist y.hist) (count : y.led.nextIn ≠ 0)
    (queue : y.led.queue = x.led.queue) (ahead : y.led.Ahead ∨ Moved P y) : Kept P y where
  count := count
  length := queue ▸ k.length
  held := by
    rw [queue]
    exact fun q hq occ => notes.sinceRestart (k.held q hq occ)
  number := queue ▸ k.number
  distinct := queue ▸ k.distinct
  seen := notes.lastSeen ▸ k.seen
  ahead := ahead
  judged := notes.judged k.judged

/-- On a session that stays alive, one that leaves the count alone too changes nothing. -/
theorem quiet (k : Kept P x) (notes : Notes x.hist y.hist) (count : y.led.nextIn = x.led.nextIn)
    (queue : y.led.queue = x.led.queue) (alive : x.led.Alive → y.led.Alive) : Kept P y := by
  refine k.keep notes (count ▸ k.count) queue ?_
  obtain ahead | ⟨s, b, now, same, live, moved⟩ := k.ahead
  · exact .inl (by rw [Ledger.Ahead, count, queue]; exact ahead)
  · exact .inr ⟨s, b, notes.judging.trans now, queue.trans same, alive live, by rwa [count]⟩

/-- So does one that ends the session while what is held is ahead. -/
theorem dead (k : Kept P x) (notes : Notes x.hist y.hist) (count : y.led.nextIn = x.led.nextIn)
    (queue : y.led.queue = x.led.queue) (ahead : x.led.Ahead) : Kept P y :=
  k.keep notes (count ▸ k.count) queue (.inl (by rw [Ledger.Ahead, count, queue]; exact ahead))

/-- A restart over an empty queue. -/
theorem restart {t : Session} (k : Kept P ⟨l, h⟩) (after : t.ledger = l')
    (queue : l'.queue = l.queue) (count : l'.nextIn = 1) (none : t.holdsNone)
    (judged : Always FromThisCount h') : Kept P ⟨l', .restarted t :: h'⟩ := by
  have free : ∀ q ∈ l'.queue, q.seq = 0 := after ▸ holdsNone_iff.mp none
  refine ⟨by simp [count], queue ▸ k.length, fun q hq occ => absurd (free q hq) occ,
    fun q hq occ => absurd (free q hq) occ, .of_free free, ?_, .inl (.of_free free), trivial, judged⟩
  rintro u hu
  obtain rfl : t = u := by simpa using hu
  rw [after]
  exact .of_free free

/-- A call that judges nothing finds what is held ahead. -/
theorem ahead_of_idle (k : Kept P x) (idle : judging x.hist = none) : x.led.Ahead :=
  k.ahead.resolve_right fun ⟨_, _, now, _⟩ => by simp [idle] at now

end Kept

/-! ### What the conditions give -/

theorem tidy_judging {h : List Event} {s : Session} {b : Bytes} (tidy : Always (Tidy P) h)
    (now : judging h = some (s, b)) : s.tidy P b := by
  obtain ⟨_, judged⟩ := tidy.exists_of_mem (mem_of_mem_since (mem_sinceCall_of_judging now))
  exact judged

theorem passes_consumed {s : Session} {b : Bytes} {m : Inbound} (arr : s.arrives P b = some m)
    (consumed : m.Consumed s) : s.passes P b = some m.seq := by
  simp [Session.passes, arr, consumed]

theorem passes_bad {s : Session} {b : Bytes} {n : ℕ} (live : s.state = .loggedOn)
    (bad : badTagNumber P b = some n) (high : s.nextIn ≤ n) : s.passes P b = some n := by
  have none : s.arrives P b = none := by
    unfold badTagNumber at bad
    unfold Session.arrives
    split at bad
    · rename_i pos outcome
      simp [outcome]
    · cases bad
  simp [Session.passes, none, live, bad, Option.filter, high]

/-- What is known of a number that a tidy message takes the count past. -/
theorem tidy_passes {s : Session} {b : Bytes} {n : ℕ} (tidy : s.tidy P b)
    (passes : s.passes P b = some n) :
    n ≠ u32Max ∧ Slots.From Queued.seq (n + 1) s.queue ∧
      ∀ f, s.faultOn P b = some f → f.endsSession → Slots.From Queued.seq (n + 2) s.queue := by
  simp only [Session.tidy, passes, Option.all_some, Bool.and_eq_true, bne_iff_ne, ne_eq,
    Bool.not_eq_true'] at tidy
  obtain ⟨⟨⟨max, low⟩, ends⟩, -⟩ := tidy
  refine ⟨max, from_of_not_holdsUpTo low, fun f fault hf => from_of_not_holdsUpTo ?_⟩
  simpa [fault, hf] using ends

/-- The number passed is a `u32`. -/
theorem passes_lt {s : Session} {b : Bytes} {n : ℕ} (passes : s.passes P b = some n) :
    n < u32Size := by
  unfold Session.passes at passes
  split at passes
  · rename_i m arr
    split at passes
    · obtain rfl := Option.some.inj passes
      exact number_lt (arrives_seq arr)
    · cases passes
  · split at passes
    · obtain ⟨bad, -⟩ := Option.filter_eq_some_iff.mp passes
      exact badTagNumber_lt bad
    · cases passes

/-- A message moved the count past its number. -/
theorem Moved.passed {l : Ledger} {h : List Event} {s : Session} {b : Bytes} {n : ℕ}
    (tidy : Always (Tidy P) h) (now : judging h = some (s, b)) (passes : s.passes P b = some n)
    (queue : l.queue = s.queue) (alive : l.Alive) (count : l.nextIn = wrapU32 (n + 1)) :
    Moved P ⟨l, h⟩ := by
  obtain ⟨max, -⟩ := tidy_passes (tidy_judging tidy now) passes
  exact ⟨s, b, now, queue, alive, .inl ⟨n, passes, count.trans (wrapU32_succ (passes_lt passes) max)⟩⟩

/-- A session that gives up its link leaves nothing due in its queue. -/
theorem closing_ahead {l : Ledger} {h : List Event} {why : Option DropReason}
    (c : Closing P l h why) (k : Kept P ⟨l, h⟩) (tidy : Always (Tidy P) h)
    (end_ : ∀ r ∈ why, Tidy P (.ended r) h) : l.Ahead := by
  cases c with
  | unmoved seen count queue =>
    have := k.seen _ seen
    rw [Ledger.Ahead, ← count, ← queue]
    exact this
  | unanswered now arr consumed count queue =>
    have passes := passes_consumed arr consumed
    obtain ⟨max, -⟩ := tidy_passes (tidy_judging tidy now) passes
    have above := end_ _ rfl (.inr rfl) _ now _ passes
    rw [Ledger.Ahead, count, queue, wrapU32_succ (passes_lt passes) max]
    exact from_of_not_holdsUpTo (by simpa using above)
  | faulted now arr consumed fault ends count queue =>
    have passes := passes_consumed arr consumed
    obtain ⟨max, -, above⟩ := tidy_passes (tidy_judging tidy now) passes
    rw [Ledger.Ahead, count, queue, wrapU32_succ (passes_lt passes) max]
    exact above _ fault ends
  | skipped now live bad high count queue =>
    have passes := passes_bad live bad high
    obtain ⟨max, -⟩ := tidy_passes (tidy_judging tidy now) passes
    have above := end_ _ rfl (.inr rfl) _ now _ passes
    rw [Ledger.Ahead, count, queue, wrapU32_succ (passes_lt passes) max]
    exact from_of_not_holdsUpTo (by simpa using above)

theorem Kept.ended {l : Ledger} {h : List Event} {why : DropReason} {resets : Option Session}
    (k : Kept P ⟨l, h⟩) (ahead : l.Ahead) (shows : ShowsEnd l resets)
    (tidy : Always (Tidy P) (Books.ended l h why resets).hist) :
    Kept P (Books.ended l h why resets) := by
  cases resets with
  | none => exact k.dead (.cons rfl .refl) rfl rfl ahead
  | some t => exact k.restart (shows t rfl) rfl rfl tidy.1 ⟨trivial, k.judged⟩

/-- What is asked of the events of an ended session. -/
theorem tidy_ended {l : Ledger} {h : List Event} {why : DropReason} {resets : Option Session}
    (tidy : Always (Tidy P) (Books.ended l h why resets).hist) :
    Tidy P (.ended why) h ∧ Always (Tidy P) h := by
  cases resets with
  | none => exact tidy
  | some t => exact tidy.2

/-- While a message that runs ahead is judged, the count has not moved. -/
theorem Kept.ahead_of_runsAhead {l : Ledger} {h : List Event} {s : Session} {b : Bytes}
    {m : Inbound} (k : Kept P ⟨l, h⟩) (now : judging h = some (s, b))
    (arr : s.arrives P b = some m) (ahead : m.RunsAhead s) (count : l.nextIn = m.countAt s) :
    l.Ahead := by
  refine k.ahead.resolve_right ?_
  rintro ⟨t, d, now', -, -, moved⟩
  obtain ⟨rfl, rfl⟩ : s = t ∧ b = d := by simpa [now] using now'
  have above := ahead.2
  obtain ⟨n, passes, next⟩ | ⟨m', arr', reset, -, -, up⟩ := moved
  · have seq : m.seq = n := by
      rw [Session.passes, arr] at passes
      dsimp only at passes
      split at passes
      · exact Option.some.inj passes
      · cases passes
    dsimp only at next
    omega
  · obtain rfl : m = m' := Option.some.inj (arr.symm.trans arr')
    rw [countAt_of_not_logon (Inbound.eq_of_isSequenceReset reset).1] at count
    dsimp only at up
    omega

/-- A message that runs ahead is held beside no other of its number. -/
theorem Kept.hold {l : Ledger} {h : List Event} {s : Session} {b : Bytes} {m : Inbound} {i : ℕ}
    (k : Kept P ⟨l, h⟩) (tidy : s.tidy P b) (now : judging h = some (s, b))
    (arr : s.arrives P b = some m) (ahead : m.RunsAhead s) (count : l.nextIn = m.countAt s)
    (queue : l.queue = s.queue) (short : b.length ≤ queuedLen)
    (slot : l.queue.findIdx? (fun q => q.seq == m.seq || q.seq == 0) = some i) :
    Kept P ⟨l.hold i m.seq b, .held m.seq b :: h⟩ ∧ (l.hold i m.seq b).Ahead := by
  have before := k.ahead_of_runsAhead now arr ahead count
  have above := ahead.2
  have pos : m.seq ≠ 0 := by omega
  have once : s.holdsTwice m.seq = false := by
    simp only [Session.tidy, arr, Option.all_some, Bool.and_eq_true, Bool.not_eq_true', ahead,
      short, decide_true, Bool.true_and] at tidy
    exact tidy.2.1.2
  have only : ∀ j p, j ≠ i → l.queue[j]? = some p → p.seq ≠ m.seq := by
    intro j p hj hp same
    simp only [Session.holdsTwice, ← queue, Bool.and_eq_false_iff, bne_eq_false_iff_eq] at once
    obtain none | found := once
    · exact List.any_eq_false.mp none p (List.mem_of_getElem? hp) (by simpa using same)
    · rw [slot] at found
      obtain ⟨hi, at_, -⟩ := List.findIdx?_eq_some_iff_getElem.mp found.symm
      have at_ : l.queue[i].seq = m.seq := by simpa using at_
      exact hj (k.distinct hp (List.getElem?_eq_getElem hi) (same ▸ pos) (same.trans at_.symm))
  have after : (l.hold i m.seq b).Ahead := before.set (show l.nextIn + 1 ≤ m.seq by omega)
  refine ⟨⟨k.count, ?_, ?_, ?_, k.distinct.set only, ?_, .inl after, trivial, k.judged⟩, after⟩
  · exact List.length_set.trans k.length
  · intro q hq occ
    rw [sinceRestart_cons rfl]
    obtain hq | rfl := List.mem_or_eq_of_mem_set hq
    · exact List.mem_cons_of_mem _ (k.held q hq occ)
    · exact List.mem_cons_self
  · intro q hq occ
    obtain hq | rfl := List.mem_or_eq_of_mem_set hq
    · exact k.number q hq occ
    · exact arrives_seq arr
  · exact (Notes.cons rfl .refl : Notes h (.held m.seq b :: h)).lastSeen ▸ k.seen

/-- Between a move of the count and the drain, what is held is at the count or above. -/
theorem Kept.from_count {x : Books} (k : Kept P x) (tidy : Always (Tidy P) x.hist) :
    Slots.From Queued.seq x.led.nextIn x.led.queue := by
  obtain ahead | ⟨s, b, now, queue, -, moved⟩ := k.ahead
  · exact ahead.mono (Nat.le_succ _)
  · have judged := tidy_judging tidy now
    rw [queue]
    obtain ⟨n, passes, next⟩ | ⟨m, arr, reset, fault, new, up⟩ := moved
    · rw [next]
      exact (tidy_passes judged passes).2.1
    · simp only [Session.tidy, arr, Option.all_some, reset, fault, new, Option.isNone_none,
        Bool.and_self, Option.any_some, up, decide_true, Bool.true_and, Bool.and_eq_true,
        Bool.not_eq_true'] at judged
      have low := from_of_not_holdsUpTo judged.2.1.1
      rwa [show x.led.nextIn - 1 + 1 = x.led.nextIn by omega] at low

/-- The message whose turn has come leaves the queue. -/
theorem Kept.take {l : Ledger} {h : List Event} {s : Session} {b : Bytes} {i : ℕ}
    (k : Kept P ⟨l, h⟩) (tidy : Always (Tidy P) h) (due : l.queue[i]? = some ⟨l.nextIn, b⟩)
    (shows : s.ledger = l.release i) : Kept P ⟨l.release i, .judged s b :: h⟩ := by
  have frees : ∀ q : Queued, ({ q with seq := 0 } : Queued).seq = 0 := fun _ => rfl
  have after : (l.release i).Ahead := (k.from_count tidy).free frees k.distinct due rfl k.count
  have mem : ∀ q ∈ (l.release i).queue, q.seq ≠ 0 → q ∈ l.queue := fun q hq occ =>
    Slots.mem_of_mem_free frees hq occ
  have held := k.held _ (List.mem_of_getElem? due) k.count
  refine ⟨k.count, ?_, ?_, ?_, k.distinct.free frees, ?_, .inl after, .inr ⟨_, held⟩, k.judged⟩
  · exact (List.length_modify _ _ _).trans k.length
  · intro q hq occ
    rw [sinceRestart_cons rfl]
    exact List.mem_cons_of_mem _ (k.held q (mem q hq occ) occ)
  · exact fun q hq occ => k.number q (mem q hq occ) occ
  · rintro t ht
    obtain rfl : s = t := by simpa using ht
    exact shows ▸ after

/-- One move of a tidy run. -/
theorem acting_kept {x y : Books} (h : Acting P R x y) (tidy : Always (Tidy P) y.hist)
    (k : Kept P x) : Kept P y := by
  cases h with
  | connected => exact k.dead .refl rfl rfl (k.ahead_of_idle rfl)
  | connectedAnew before after => exact k.restart after rfl rfl tidy.1 k.judged
  | closed => exact k.dead .refl rfl rfl (k.ahead_of_idle rfl)
  | rolled tick before rolls after => exact k.restart after rfl rfl tidy.1 k.judged
  | @setIn l h s n before pos =>
    have low : s.holdsUpTo n = false := by simpa [Tidy] using tidy.1
    have queue : s.queue = l.queue := congrArg Ledger.queue before
    refine k.keep .refl pos rfl (.inl ?_)
    show Slots.From Queued.seq (n + 1) l.queue
    rw [← queue]
    exact from_of_not_holdsUpTo low
  | announced => exact k.quiet (.cons rfl .refl) rfl rfl id
  | originated => exact k.quiet (.cons rfl (.cons rfl .refl)) rfl rfl id
  | sent => exact k.quiet (.cons rfl .refl) rfl rfl id
  | spoke => exact k.quiet .refl rfl rfl fun _ => ⟨nofun, nofun⟩
  | saidGoodbye => exact k.quiet .refl rfl rfl fun _ => ⟨nofun, nofun⟩
  | cut closing => exact k.dead .refl rfl rfl (closing_ahead closing k tidy nofun)
  | ended closing shows =>
    obtain ⟨last, before⟩ := tidy_ended tidy
    refine k.ended (closing_ahead closing k before ?_) shows tidy
    rintro r ⟨⟩
    exact last
  | @judged l h s t c b incoming alive shows =>
    have ahead := k.ahead_of_idle rfl
    refine ⟨k.count, k.length, ?_, k.number, k.distinct, ?_, .inl ahead, ?_, k.judged⟩
    · intro q hq occ
      rw [sinceRestart_cons rfl]
      exact List.mem_cons_of_mem _ (k.held q hq occ)
    · rintro u hu
      obtain rfl : s = u := by simpa using hu
      exact shows ▸ ahead
    · exact .inl ⟨_, rfl, incoming⟩
  | judgedHeld drains within alive due shows => exact k.take tidy.2 due shows
  | restarted before arr resets after => exact k.restart after rfl rfl tidy.1 k.judged
  | loggedOn => exact k.quiet (.cons rfl .refl) rfl rfl fun _ => ⟨nofun, nofun⟩
  | held now arr ahead count queue short slot =>
    exact (k.hold (tidy_judging tidy.2 now) now arr ahead count queue short slot).1
  | asked => exact k.quiet (.cons rfl .refl) rfl rfl id
  | @askFailed l h s b m resets now arr ahead count shows =>
    have before := k.ahead_of_runsAhead now arr ahead count
    have missing : Kept P ⟨l.missing m.seq, h⟩ := k.quiet .refl rfl rfl id
    exact missing.ended before shows tidy
  | @advanced l h s b m now arr consumed stays count queue gap alive =>
    have passes := passes_consumed arr consumed
    obtain ⟨max, -⟩ := tidy_passes (tidy_judging tidy now) passes
    have next := wrapU32_succ (passes_lt passes) max
    refine k.keep .refl ?_ rfl (.inr (.passed tidy now passes queue alive rfl))
    show wrapU32 (m.seq + 1) ≠ 0
    omega
  | @skipped l h s b seq before live bad high =>
    have passes := passes_bad ((congrArg Ledger.state before).trans live) bad
      ((congrArg Ledger.nextIn before).trans_le high)
    obtain ⟨max, -⟩ := tidy_passes (tidy_judging tidy rfl) passes
    have next := wrapU32_succ (passes_lt passes) max
    refine k.keep .refl ?_ rfl (.inr (.passed tidy rfl passes (congrArg Ledger.queue before).symm
      ?_ rfl))
    · show wrapU32 (seq + 1) ≠ 0
      omega
    · simp [Ledger.Alive, live]
  | @moved l h s b m n before arr reset fault new up alive =>
    refine k.keep .refl ?_ rfl (.inr ⟨s, b, rfl, (congrArg Ledger.queue before).symm, alive, .inr
      ⟨m, arr, reset, fault, new, ?_⟩⟩)
    · exact (Nat.zero_lt_of_lt up).ne'
    · exact (congrArg Ledger.nextIn before).trans_lt up
  | @peerLeft l h s b m why resets now arr logout left fault count queue shows =>
    obtain ⟨last, before⟩ := tidy_ended tidy
    have passes := passes_consumed arr (.inl logout)
    obtain ⟨max, -⟩ := tidy_passes (tidy_judging before now) passes
    have next : (l.advance m.seq).nextIn = m.seq + 1 := wrapU32_succ (passes_lt passes) max
    have above : (l.advance m.seq).Ahead := by
      have low := last left _ now _ passes
      rw [Ledger.Ahead, next, show (l.advance m.seq).queue = s.queue from queue]
      exact from_of_not_holdsUpTo (by simpa using low)
    have moved : Kept P ⟨l.advance m.seq, h⟩ := k.keep .refl (by simp [next]) rfl (.inl above)
    exact moved.ended above shows tidy
  | @delivered l h s t b m before arr app fault inOrder shows cfg alive =>
    obtain ⟨logon, -, -, reset⟩ := Inbound.eq_of_isApplication app
    have old : m.seq = m.countAt s :=
      inOrder.trans ((congrArg Ledger.nextIn before).symm.trans (countAt_of_not_logon logon).symm)
    have passes := passes_consumed arr (.inr (.inr ⟨by simp [reset], old⟩))
    obtain ⟨max, -⟩ := tidy_passes (tidy_judging tidy rfl) passes
    have next : (l.advance m.seq).nextIn = m.seq + 1 := wrapU32_succ (passes_lt passes) max
    exact k.keep (.cons rfl .refl) (by simp [next]) rfl (.inr (.passed tidy rfl passes
      (congrArg Ledger.queue before).symm alive rfl))
  | replied => exact k.quiet (.cons rfl (.cons rfl .refl)) rfl rfl id
  | _ => exact k.quiet .refl rfl rfl id

theorem acts_kept {x y : Books} (acts : ReflTransGen (Acting P R) x y)
    (tidy : Always (Tidy P) y.hist) (k : Kept P x) : Kept P y := by
  induction acts with
  | refl => exact k
  | tail _ step ih => exact acting_kept step tidy (ih (step.goesOn.always tidy))

theorem Kept.ahead_of_dead {x : Books} (k : Kept P x) (dead : ¬ x.led.Alive) : x.led.Ahead :=
  k.ahead.resolve_right fun ⟨_, _, _, _, alive, _⟩ => dead alive

theorem Books.ended_queue (l : Ledger) (h : List Event) (why : DropReason)
    (resets : Option Session) : (Books.ended l h why resets).led.queue = l.queue := by
  cases resets <;> rfl

theorem ended_ahead {l : Ledger} {h : List Event} {why : DropReason} {resets : Option Session}
    (ahead : l.Ahead) (shows : ShowsEnd l resets)
    (tidy : Always (Tidy P) (Books.ended l h why resets).hist) :
    (Books.ended l h why resets).led.Ahead := by
  cases resets with
  | none => exact ahead
  | some t =>
    have free := holdsNone_iff.mp tidy.1
    rw [show t.queue = l.queue from congrArg Ledger.queue (shows t rfl)] at free
    exact .of_free free

/-- A resend in progress leaves the queue alone. -/
theorem replays_kept {x y : Books} (replays : ReflTransGen Replaying x y)
    (tidy : Always (Tidy P) y.hist) (k : Kept P x) (ahead : x.led.Ahead) :
    Kept P y ∧ y.led.Ahead := by
  induction replays with
  | refl => exact ⟨k, ahead⟩
  | tail _ step ih =>
    obtain ⟨k, ahead⟩ := ih (step.goesOn.always tidy)
    cases step with
    | filled => exact ⟨k.quiet (.cons rfl .refl) rfl rfl id, ahead⟩
    | replayed => exact ⟨k.quiet (.cons rfl .refl) rfl rfl id, ahead⟩
    | progressed => exact ⟨k.quiet .refl rfl rfl id, ahead⟩
    | gaveUp owes shows => exact ⟨k.ended ahead shows tidy, ended_ahead ahead shows tidy⟩

/-! ### The drain -/

/-- While one message is judged, the queue is what it was, or what is held is ahead. -/
theorem acting_still {x y : Books} {s : Session} {b : Bytes} (h : Acting P R x y)
    (single : ¬ R.drains) (tidy : Always (Tidy P) y.hist) (k : Kept P x)
    (now : judging x.hist = some (s, b)) (still : x.led.queue = s.queue ∨ x.led.Ahead) :
    judging y.hist = some (s, b) ∧ (y.led.queue = s.queue ∨ y.led.Ahead) := by
  have same : ∀ {t d}, some (t, d) = some (s, b) → t = s := fun h =>
    congrArg Prod.fst (Option.some.inj h)
  cases h with
  | connected => cases now
  | connectedAnew => cases now
  | closed => cases now
  | ticked => cases now
  | rolled => cases now
  | setOut => cases now
  | setIn => cases now
  | announced => cases now
  | originated => cases now
  | judged => cases now
  | judgedHeld drains => exact absurd drains single
  | sent => exact ⟨(judging_emitted _).trans now, still⟩
  | asked => exact ⟨(judging_emitted _).trans now, still⟩
  | loggedOn => exact ⟨judging_loggedOn.trans now, still⟩
  | @ended l h why resets closing shows =>
    refine ⟨(World.judging_ended_books _ _ _ _).trans now, still.imp ?_ fun ahead => ?_⟩
    · exact (Books.ended_queue _ _ _ _).trans
    · exact ended_ahead ahead shows tidy
  | @askFailed l h s b m resets now' arr ahead count shows =>
    refine ⟨(World.judging_ended_books _ _ _ _).trans now, still.imp (fun same => ?_) fun ahead => ?_⟩
    · exact (Books.ended_queue (l.missing m.seq) _ _ _).trans same
    · exact ended_ahead (l := l.missing m.seq) ahead shows tidy
  | restarted before => exact ⟨now, .inl ((congrArg Ledger.queue before).symm.trans
      (congrArg Session.queue (same now)))⟩
  | held now' arr ahead count queue short slot =>
    refine ⟨(judging_held _ _).trans now, .inr ?_⟩
    exact (k.hold (tidy_judging tidy.2 now') now' arr ahead count queue short slot).2
  | advanced now' arr consumed stays count queue =>
    exact ⟨now, .inl (queue.trans (congrArg Session.queue (same (now'.symm.trans now))))⟩
  | skipped before => exact ⟨now, .inl ((congrArg Ledger.queue before).symm.trans
      (congrArg Session.queue (same now)))⟩
  | moved before => exact ⟨now, .inl ((congrArg Ledger.queue before).symm.trans
      (congrArg Session.queue (same now)))⟩
  | peerLeft now' arr logout left fault count queue =>
    refine ⟨(World.judging_ended_books _ _ _ _).trans now, .inl ?_⟩
    exact (Books.ended_queue _ _ _ _).trans
      (queue.trans (congrArg Session.queue (same (now'.symm.trans now))))
  | delivered before => exact ⟨now, .inl ((congrArg Ledger.queue before).symm.trans
      (congrArg Session.queue (same now)))⟩
  | replied => exact ⟨by simpa using now, still⟩
  | _ => exact ⟨now, still⟩

theorem acts_still {x y : Books} {s : Session} {b : Bytes}
    (acts : ReflTransGen (Acting P R) x y) (single : ¬ R.drains) (tidy : Always (Tidy P) y.hist)
    (k : Kept P x) (now : judging x.hist = some (s, b)) (start : x.led.queue = s.queue) :
    y.led.queue = s.queue ∨ y.led.Ahead := by
  suffices h : judging y.hist = some (s, b) ∧ (y.led.queue = s.queue ∨ y.led.Ahead) from h.2
  induction acts with
  | refl => exact ⟨now, .inl start⟩
  | tail before step ih =>
    have earlier := step.goesOn.always tidy
    obtain ⟨now, still⟩ := ih earlier
    exact acting_still step single tidy (acts_kept before earlier k) now still

section Drain

variable {A J : Type} [Application A] [Journal J]

/-- What one message does to the queue of a tidy run. -/
theorem judgeOrEnd_kept {w : World A J} {b : Bytes} (alive : w.ses.Alive)
    (k : Kept P ⟨w.ses.ledger, .judged w.ses b :: w.hist⟩)
    (tidy : Always (Tidy P) (w.judgeOrEnd P b).1.hist) :
    Kept P (w.judgeOrEnd P b).1.books ∧
      ((w.judgeOrEnd P b).1.ses.queue = w.ses.queue ∨ (w.judgeOrEnd P b).1.ses.ledger.Ahead) := by
  -- a single message takes nothing out of the queue, so the moves are those without a drain
  have single := World.judgeOrEnd_leads (P := P) (R := ⟨fun _ _ _ => True, False⟩)
    (fun _ _ _ _ _ => trivial) alive b
  exact ⟨acts_kept single.acts tidy k,
    acts_still (s := w.ses) (b := b) single.acts (fun h => h) tidy k rfl rfl⟩

theorem drain_of_ahead {w : World A J} (ahead : w.ses.ledger.Ahead) (count : w.ses.nextIn ≠ 0)
    (rounds : ℕ) : w.drain P rounds = (w, .up) := by
  cases rounds with
  | zero => rfl
  | succ rounds =>
    have none : w.ses.queue.findIdx? (fun q => q.seq == w.ses.nextIn) = none := by
      refine List.findIdx?_eq_none_iff.mpr fun q hq => ?_
      by_cases occ : q.seq = 0
      · simpa [occ] using count.symm
      · have above : w.ses.nextIn + 1 ≤ q.seq := ahead q hq occ
        simp only [beq_eq_false_iff_ne, ne_eq]
        omega
    unfold World.drain
    rw [none]

/-- **The drain leaves nothing due.** Each round takes one message out of the queue, and there are
as many rounds as slots. -/
theorem drain_empties (rounds : ℕ) (w : World A J) (k : Kept P w.books) (alive : w.ses.Alive)
    (within : (judging w.hist).isSome) (room : Slots.occupied Queued.seq w.ses.queue ≤ rounds)
    (tidy : Always (Tidy P) (w.drain P rounds).1.hist) :
    Kept P (w.drain P rounds).1.books ∧ (w.drain P rounds).1.ses.ledger.Ahead := by
  induction rounds generalizing w with
  | zero => exact ⟨k, .of_free (Slots.free_of_occupied_zero (Nat.le_zero.mp room))⟩
  | succ rounds ih =>
    have goes := (World.drain_leads (P := P) (R := .free) (fun _ _ _ _ _ => trivial) trivial
      (rounds + 1) w alive within).acts
    have before : Always (Tidy P) w.hist := (acts_goOn goes).always tidy
    cases hi : w.ses.queue.findIdx? fun q => q.seq == w.ses.nextIn with
    | none =>
      have same : w.drain P (rounds + 1) = (w, .up) := by
        unfold World.drain
        rw [hi]
      rw [same]
      refine ⟨k, (k.from_count before).succ fun q hq _ => ?_⟩
      show q.seq ≠ w.ses.nextIn
      simpa using List.findIdx?_eq_none_iff.mp hi q hq
    | some i =>
      obtain ⟨hlt, hseq, -⟩ := List.findIdx?_eq_some_iff_getElem.mp hi
      have slot : w.ses.queue[i]? = some w.ses.queue[i] := List.getElem?_eq_getElem hlt
      have number : w.ses.queue[i].seq = w.ses.nextIn := by simpa using hseq
      generalize hb : ((w.ses.queue[i]?.map (·.bytes)).getD []) = b
      have due : w.ses.ledger.queue[i]? = some ⟨w.ses.ledger.nextIn, b⟩ := by
        have hbytes : w.ses.queue[i].bytes = b := by simpa [slot] using hb
        rw [← hbytes]
        exact slot.trans (congrArg some (by rw [show w.ses.ledger.nextIn = _ from number.symm]))
      have less : Slots.occupied Queued.seq (w.release i).ses.queue ≤ rounds := by
        have count : w.ses.nextIn ≠ 0 := k.count
        have frees : ∀ q : Queued, Queued.seq { q with seq := 0 } = 0 := fun _ => rfl
        have := Slots.occupied_free frees slot (number ▸ count)
        show Slots.occupied Queued.seq (w.ses.queue.modify i fun q => { q with seq := 0 }) ≤ rounds
        omega
      have taken := k.take before due (s := (w.release i).ses) rfl
      have led := World.judgeOrEnd_leads (P := P) (R := .free) (w := w.release i)
        (fun _ _ _ _ _ => trivial) alive b
      have judged := judgeOrEnd_kept (w := w.release i) (b := b) alive taken
      cases hr : (w.release i).judgeOrEnd P b with
      | mk v link =>
        rw [hr] at led judged
        cases link with
        | dropped =>
          have last : w.drain P (rounds + 1) = (v, .dropped) := by simp only [World.drain, hi, hb, hr]
          rw [last] at tidy ⊢
          obtain ⟨kv, -⟩ := judged tidy
          exact ⟨kv, kv.ahead_of_dead fun live => nomatch led.link.mpr live⟩
        | up =>
          have next : w.drain P (rounds + 1) = v.drain P rounds := by
            simp only [World.drain, hi, hb, hr]
          rw [next] at tidy ⊢
          have live : v.ses.Alive := led.link.mp rfl
          have inside : (judging v.hist).isSome := World.acts_judging led.acts rfl
          have later := (World.drain_leads (P := P) (R := .free) (fun _ _ _ _ _ => trivial) trivial
            rounds v live inside).acts
          obtain ⟨kv, still⟩ := judged ((acts_goOn later).always tidy)
          obtain same | ahead := still
          · exact ih v kv live inside (by rw [show v.ses.queue = _ from same]; exact less) tidy
          · rw [drain_of_ahead ahead kv.count]
            exact ⟨kv, ahead⟩

/-! ### Along a run -/

theorem receivedInner_kept {w : World A J} {s : Session} {c : Call} {h : List Event} {b : Bytes}
    (k : Called w.toScene s c h) (incoming : c.incoming = some b) (kept : Kept P w.books)
    (tidy : Always (Tidy P) (w.receivedInner P b).1.hist) :
    Kept P (w.receivedInner P b).1.books ∧ (w.receivedInner P b).1.ses.ledger.Ahead := by
  have idle : judging w.hist = none := by
    rw [k.hist]
    rfl
  unfold World.receivedInner at tidy ⊢
  split at tidy
  · rename_i gone
    rw [if_pos gone]
    exact ⟨kept, kept.ahead_of_idle idle⟩
  · rename_i here
    rw [if_neg here]
    have alive : w.ses.Alive := by simpa [Session.Alive, not_or] using here
    have step : Acting P .free w.books ⟨w.ses.ledger, .judged w.ses b :: w.hist⟩ := by
      rw [Scene.books, k.hist]
      exact .judged incoming alive rfl
    have led := World.judgeOrEnd_leads (P := P) (R := .free) (w := w)
      (fun _ _ _ _ _ => trivial) alive b
    have judged := judgeOrEnd_kept (P := P) (w := w) (b := b) alive
    generalize w.judgeOrEnd P b = r at led judged tidy ⊢
    obtain ⟨v, link⟩ := r
    have first : Always (Tidy P) v.hist →
        Kept P v.books ∧ (v.ses.queue = w.ses.queue ∨ v.ses.ledger.Ahead) := fun ok =>
      judged (acting_kept step ((acts_goOn led.acts).always ok) kept) ok
    cases link with
    | dropped =>
      obtain ⟨kv, -⟩ := first tidy
      exact ⟨kv, kv.ahead_of_dead fun live => by cases led.link.mpr live⟩
    | up =>
      have live : v.ses.Alive := led.link.mp rfl
      have inside : (judging v.hist).isSome := World.acts_judging led.acts rfl
      have drains := (World.drain_leads (P := P) (R := .free) (fun _ _ _ _ _ => trivial) trivial
        queued v live inside).acts
      have empties := drain_empties (P := P) queued v
      dsimp only at tidy ⊢
      generalize v.drain P queued = r at drains empties tidy ⊢
      obtain ⟨u, link⟩ := r
      have replays := Scene.advanceReplay_replaying (P := P) u.journal u.toScene link
      have drained : Always (Tidy P) u.hist := (replays_goOn replays).always tidy
      obtain ⟨kv, -⟩ := first ((acts_goOn drains).always drained)
      have room : Slots.occupied Queued.seq v.ses.queue ≤ queued :=
        Slots.occupied_le_length.trans kv.length.le
      obtain ⟨ku, ahead⟩ := empties kv live inside room drained
      exact replays_kept replays tidy ku ahead

theorem receivedWith_kept {w : World A J} {s : Session} {c : Call} {h : List Event} {b : Bytes}
    (k : Called w.toScene s c h) (incoming : c.incoming = some b) (kept : Kept P w.books)
    (tidy : Always (Tidy P) (w.receivedWith P b).1.hist) :
    Kept P (w.receivedWith P b).1.books ∧ (w.receivedWith P b).1.ses.ledger.Ahead := by
  rw [World.receivedWith_scene] at tidy ⊢
  exact receivedInner_kept k incoming kept tidy

theorem perform_kept (w : World A J) (c : Call) (fits : c.fits) (kept : Kept P w.books)
    (ahead : w.ses.ledger.Ahead) (tidy : Always (Tidy P) (w.perform P c).1.hist) :
    Kept P (w.perform P c).1.books ∧ (w.perform P c).1.ses.ledger.Ahead := by
  have start : Kept P ⟨w.ses.ledger, .called w.ses c :: w.hist⟩ := by
    refine ⟨kept.count, kept.length, ?_, kept.number, kept.distinct, ?_, .inl ahead, trivial,
      kept.judged⟩
    · intro q hq occ
      rw [sinceRestart_cons rfl]
      exact List.mem_cons_of_mem _ (kept.held q hq occ)
    · rintro t ht
      obtain rfl : w.ses = t := by simpa using ht
      exact ahead
  cases hc : c.incoming with
  | none =>
    obtain ⟨z, acts, replays⟩ := World.perform_calls (P := P) (R := .free)
      (fun _ _ _ _ _ => trivial) trivial w c fits
    have before := (replays_goOn replays).always tidy
    have now := acts_kept acts before start
    have idle : judging z.hist = none := by
      suffices h : judging z.hist = none ∧ callOf z.hist = some (w.ses, c) from h.1
      clear before now replays
      induction acts with
      | refl => exact ⟨rfl, rfl⟩
      | tail _ step ih =>
        exact ⟨acting_idle step ih.2 hc ih.1, step.goesOn.callOf.trans ih.2⟩
    exact replays_kept replays tidy now (now.ahead_of_idle idle)
  | some b =>
    unfold World.perform at tidy ⊢
    generalize hv : ({ w with hist := .called w.ses c :: w.hist } : World A J) = v at tidy ⊢
    have k : Called v.toScene w.ses c w.hist := ⟨by rw [← hv], by rw [← hv]⟩
    have kv : Kept P v.books := by rw [← hv]; exact start
    cases c with
    | receivedWith d => exact receivedWith_kept k rfl kv tidy
    | received d =>
      exact receivedWith_kept (w := (⟨v.toScene, .silent, .noJournal⟩ : World Silent NoJournal))
        k rfl kv tidy
    | _ => cases hc

theorem initial_queue {s : Session} (h : World.Initial P s) :
    s.nextIn ≠ 0 ∧ (∀ q ∈ s.queue, q.seq = 0) ∧ s.queue.length = queued := by
  have empty : ∀ q ∈ List.replicate queued (⟨0, []⟩ : Queued), q.seq = 0 := fun q hq => by
    rw [List.eq_of_mem_replicate hq]
  cases h with
  | new => exact ⟨one_ne_zero, empty, rfl⟩
  | resume cfg out in_ => exact ⟨(Nat.zero_lt_of_lt in_.1).ne', empty, rfl⟩
  | resumeAt cfg mark out in_ => exact ⟨(Nat.zero_lt_of_lt in_.1).ne', empty, rfl⟩

theorem reachable_kept {w : World A J} (h : World.Reachable P w) (tidy : Always (Tidy P) w.hist) :
    Kept P w.books ∧ w.ses.ledger.Ahead := by
  induction h with
  | @init s hs =>
    obtain ⟨count, free, length⟩ := initial_queue hs
    have ahead : s.ledger.Ahead := .of_free free
    exact ⟨⟨count, length, fun q hq occ => absurd (free q hq) occ,
      fun q hq occ => absurd (free q hq) occ, .of_free free, (fun _ h => by cases h), .inl ahead,
      trivial⟩, ahead⟩
  | @step w _ c fits ih =>
    have before : Always (Tidy P) (.called w.ses c :: w.hist) := by
      have hist := w.perform_hist (P := P) c fits
      rw [hist] at tidy
      exact tidy.of_suffix
    obtain ⟨kept, ahead⟩ := ih before.2
    exact perform_kept w c fits kept ahead tidy

/-- **What is held belongs to the current count.** In a tidy run every occupied slot is numbered
above the inbound count and was filled since the count restarted, and whatever is judged was
received in the call or held since the count restarted. -/
theorem held_ahead {w : World A J} (h : World.Reachable P w) (tidy : Always (Tidy P) w.hist) :
    (∀ q ∈ w.ses.queue, q.seq ≠ 0 →
      w.ses.nextIn < q.seq ∧ .held q.seq q.bytes ∈ sinceRestart w.hist) ∧
    ∀ new s b old, w.hist = new ++ .judged s b :: old →
      (∃ sc ∈ callOf old, sc.2.incoming = some b) ∨ ∃ n, .held n b ∈ sinceRestart old := by
  obtain ⟨kept, ahead⟩ := reachable_kept h tidy
  refine ⟨fun q hq occ => ⟨ahead q hq occ, kept.held q hq occ⟩, fun new s b old hist => ?_⟩
  have judged : Always FromThisCount w.hist := kept.judged
  rw [hist] at judged
  exact judged.of_append

end Drain

/-! ### A run that holds a message, and one that leaves it behind -/

instance decidableTidy (P : Params) : ∀ e old, Decidable (Tidy P e old)
  | .called _ c, _ => match c with
    | .setNextIn _ => inferInstanceAs (Decidable (_ = true))
    | .connect | .disconnect | .disconnectWith _ | .noteDropReason _ | .tick _ | .tickAt _ _
    | .tickWith _ | .tickAtWith _ _ | .received _ | .receivedWith _ | .sendApplication _
    | .sendHeartbeat | .sendTestRequest _ | .sendResendRequest _ _ | .beginLogout _
    | .beginLogoutWith _ | .logoutNow _ | .logoutNowWith _ | .setNextOut _ | .sendSequenceReset _
    | .sendSequenceResetWith _ => isTrue trivial
  | .judged _ _, _ | .restarted _, _ => inferInstanceAs (Decidable (_ = true))
  | .ended _, _ => inferInstanceAs (Decidable (_ → _))
  | .emitted _, _ | .delivered _ _, _ | .held _ _, _ | .stored _ _ _, _ | .loggedOn, _ =>
    isTrue trivial

open Setting in
theorem held_ahead_order :
    ⟨5, order 5⟩ ∈ (loggedOn.run acceptor [.receivedWith (order 5)]).ses.queue ∧
      ∀ q ∈ (loggedOn.run acceptor [.receivedWith (order 5)]).ses.queue, q.seq ≠ 0 →
        (loggedOn.run acceptor [.receivedWith (order 5)]).ses.nextIn < q.seq ∧
          .held q.seq q.bytes ∈
            sinceRestart (loggedOn.run acceptor [.receivedWith (order 5)]).hist := by
  have reached := loggedOn_reachable.run _ [.receivedWith (order 5)] (by simp [Call.fits])
  exact ⟨by decide +kernel, (held_ahead reached (by decide +kernel)).1⟩

open Setting in
/-- The order 5 is held when the link is lost, and the next connection counts from 1 again: the
order stays held, to be judged once the new count gets to 5. -/
theorem held_outlives_count :
    ¬ ∀ w : World Silent NoJournal, World.Reachable acceptor w →
      ∀ q ∈ w.ses.queue, q.seq ≠ 0 →
        w.ses.nextIn < q.seq ∧ .held q.seq q.bytes ∈ sinceRestart w.hist := by
  intro h
  have reached := loggedOn_reachable.run _ [.receivedWith (order 5), .disconnect, .connect]
    (by simp [Call.fits])
  have held := h _ reached ⟨5, order 5⟩ (by decide +kernel) (by decide)
  revert held
  decide +kernel

end Fixbolt
