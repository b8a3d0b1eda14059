import Fixbolt.Engine.Retire
import Fixbolt.Properties.Reopen
import Mathlib.Algebra.Order.BigOperators.Group.List

/-!
# A retired writer writes everything, and is counted once

* `Retiring.Sound`: what holds of a journal and its writer, whoever's turn it is;
* `sound_step`, `owed_step`, `counted_step`: what a step of one of the two threads keeps, and what it
  does to the counters;
* `writers_account`: what the counters say of all journals, over every interleaving.
-/

namespace Fixbolt

/-- A record of a journal's operation fits the writer's buffer. -/
theorem put_fits_buffer {n len : ℕ} {m : MemJournal n len} {seq : ℕ} {e : Record}
    (kept : (m.put seq e.payload).2 = true) : e.bytes.length ≤ writerBuf len := by
  have : e.payload.length ≤ len := by
    by_contra long
    unfold MemJournal.put at kept
    rw [if_pos (.inl (Nat.lt_of_not_le long))] at kept
    cases kept
  rw [e.bytes_length, writerBuf]
  omega

namespace Retiring

variable {j j' : Retiring} {a : RetireAct} {d : ℤ} {t : ℕ}

/-- The records its ring took. -/
def accepted (j : Retiring) : List Record := j.ring.pushed.filterMap RingEntry.record?

/-- Can the engine's thread still push? -/
def MayPush (j : Retiring) : Prop := j.engine = .open_ ∨ j.engine = .closing

/-- Has the writer stopped? -/
def Stopped (j : Retiring) : Prop := j.writer = .stopped ∨ j.writer = .lowering ∨ j.writer = .done

/-- What the writer has popped and not written. -/
def inHand : WriterPc → List Record
  | .writing e _ => [e]
  | _ => []

@[simp] theorem inHand_looping (look : Bool) : inHand (.looping look) = [] := rfl

/-- Does the writer stop when it next finds the ring empty? -/
def lastLook : WriterPc → Bool
  | .looping b => b
  | .writing _ b => b
  | _ => false

/-- What holds of a journal and its writer. -/
structure Sound (j : Retiring) : Prop where
  stopLast : .stop ∉ j.ring.pushed.dropLast
  unstopped : j.MayPush → .stop ∉ j.ring.pushed
  fits : ∀ e, .record e ∈ j.ring.pushed → e.bytes.length ≤ writerBuf j.len
  written : j.written ++ (inHand j.writer).map Record.redacted =
    (j.ring.popped.filterMap RingEntry.record?).map Record.redacted
  dry : j.ticket = .retiredStopWhenDry → ¬ j.MayPush
  lastLook : lastLook j.writer = true → ¬ j.MayPush
  stopped : j.Stopped → ¬ j.MayPush ∧ j.ring.pending = []

theorem sound_opened (len : ℕ) : (opened len).Sound where
  stopLast := by rintro ⟨⟩
  unstopped _ := by rintro ⟨⟩
  fits := by rintro e ⟨⟩
  written := rfl
  dry := by rintro ⟨⟩
  lastLook := by rintro ⟨⟩
  stopped := by rintro (⟨⟨⟩⟩ | ⟨⟨⟩⟩ | ⟨⟨⟩⟩)

/-- **A writer that has stopped has written every record its ring took.** -/
theorem Sound.all_written (h : j.Sound) (stopped : j.Stopped) :
    j.written = j.accepted.map Record.redacted := by
  have none : inHand j.writer = [] := by
    rcases stopped with pc | pc | pc <;> rw [pc] <;> rfl
  have written := h.written
  have all := j.ring.popped_append_pending
  rw [none, List.map_nil, List.append_nil] at written
  rw [(h.stopped stopped).2, List.append_nil] at all
  rw [written, all, accepted]

/-! ### The engine's thread -/

theorem Sound.not_stopped (h : j.Sound) (may : j.MayPush) : ¬ j.Stopped :=
  fun stopped => (h.stopped stopped).1 may

theorem Sound.push {e : Record} (h : j.Sound) (may : j.MayPush)
    (fits : e.bytes.length ≤ writerBuf j.len) :
    Sound { j with ring := j.ring.push (.record e) } where
  stopLast := by simpa using h.unstopped may
  unstopped _ := by simpa using h.unstopped may
  fits e' mem := by
    rcases List.mem_append.mp mem with old | new
    · exact h.fits e' old
    · obtain rfl : e' = e := by simpa using new
      exact fits
  written := by simpa using h.written
  dry := h.dry
  lastLook := h.lastLook
  stopped := fun stopped => absurd stopped (h.not_stopped may)

/-- The engine goes on to where it pushes nothing, whatever becomes of the ticket. -/
theorem Sound.move {ticket : TicketState} {engine : EnginePc} (h : j.Sound)
    (away : ¬ (engine = .open_ ∨ engine = .closing)) :
    Sound { j with ticket := ticket, engine := engine } where
  stopLast := h.stopLast
  unstopped may := absurd may away
  fits := h.fits
  written := h.written
  dry _ := away
  lastLook _ := away
  stopped stopped := ⟨away, (h.stopped stopped).2⟩

/-- The last thing pushed is `STOP`. -/
theorem Sound.pushStop {engine : EnginePc} (h : j.Sound) (may : j.MayPush)
    (away : ¬ (engine = .open_ ∨ engine = .closing)) :
    Sound { j with ring := j.ring.push .stop, engine := engine } where
  stopLast := by simpa using h.unstopped may
  unstopped may' := absurd may' away
  fits e mem := by
    rcases List.mem_append.mp mem with old | new
    · exact h.fits e old
    · simp at new
  written := by simpa using h.written
  dry _ := away
  lastLook _ := away
  stopped := fun stopped => absurd stopped (h.not_stopped may)

theorem Sound.offerStop {engine : EnginePc} (h : j.Sound) (may : j.MayPush)
    (away : ¬ (engine = .open_ ∨ engine = .closing)) :
    Sound { j.offer .stop with engine := engine } := by
  unfold Retiring.offer
  split
  · exact h.pushStop may away
  · exact h.move away

theorem engineStep_sound (h : j.Sound) (took : j.engineStep = some (j', d, t)) : j'.Sound := by
  unfold engineStep at took
  split at took
  · cases took
    exact h.move (by simp)
  · split at took
    · cases took
      exact h.move (by simp)
    · cases took
      exact h.move (by simp)
  · cases took
    exact h.move (by simp)
  · split at took
    · cases took
      exact h.move (by simp)
    · cases took
      exact h.move (by simp)
  · cases took
    exact h.move (by simp)
  · rename_i pc
    split at took
    · cases took
      exact h.offerStop (.inr pc) (by simp)
    · cases took
      exact h
  · split at took
    · cases took
      exact h.move (by simp)
    · cases took
  · cases took
  · cases took

/-! ### The writer's thread -/

/-- The writer goes on to where it holds no record. -/
theorem Sound.idle {ticket : TicketState} {writer : WriterPc} (h : j.Sound)
    (same : inHand writer = inHand j.writer)
    (dry : ticket = .retiredStopWhenDry → ¬ j.MayPush)
    (look : Retiring.lastLook writer = true → ¬ j.MayPush)
    (stops : Stopped { j with writer := writer } → ¬ j.MayPush ∧ j.ring.pending = []) :
    Sound { j with ticket := ticket, writer := writer } where
  stopLast := h.stopLast
  unstopped := h.unstopped
  fits := h.fits
  written := by rw [same]; exact h.written
  dry := dry
  lastLook := look
  stopped := stops

/-- The writer pops a record: it fits the buffer. -/
theorem Sound.popRecord {e : Record} {ring : Fifo RingEntry} {look : Bool} (h : j.Sound)
    (pc : j.writer = .looping look) (popped : j.ring.pop? = some (.record e, ring)) :
    e.bytes.length ≤ writerBuf j.len ∧
      Sound { j with ring := ring, writer := .writing e look } := by
  obtain ⟨pushed, popped', pending⟩ := Fifo.pop?_some popped
  have mem : .record e ∈ j.ring.pushed := by
    rw [← j.ring.popped_append_pending, pending]
    simp
  refine ⟨h.fits e mem, ?_⟩
  have written := h.written
  rw [pc, inHand_looping, List.map_nil, List.append_nil] at written
  exact {
    stopLast := by rw [pushed]; exact h.stopLast
    unstopped := by rw [pushed]; exact h.unstopped
    fits := by rw [pushed]; exact h.fits
    written := by
      rw [popped', List.filterMap_append, List.map_append, ← written]
      rfl
    dry := h.dry
    lastLook := fun last => h.lastLook (by rw [pc]; exact last)
    stopped := by rintro (⟨⟨⟩⟩ | ⟨⟨⟩⟩ | ⟨⟨⟩⟩) }

/-- The writer pops `STOP`: nothing is behind it, and nothing will be. -/
theorem Sound.popStop {ring : Fifo RingEntry} {look : Bool} (h : j.Sound)
    (pc : j.writer = .looping look) (popped : j.ring.pop? = some (.stop, ring)) :
    Sound { j with ring := ring, writer := .stopped } := by
  obtain ⟨pushed, popped', pending⟩ := Fifo.pop?_some popped
  have all := j.ring.popped_append_pending
  rw [pending] at all
  have last : ring.pending = [] := by
    by_contra more
    refine h.stopLast ?_
    rw [← all, List.dropLast_append_cons, List.dropLast_cons_of_ne_nil more]
    simp
  have ceased : ¬ j.MayPush := by
    intro may
    refine h.unstopped may ?_
    rw [← all]
    simp
  have written := h.written
  rw [pc, inHand_looping, List.map_nil, List.append_nil] at written
  exact {
    stopLast := by rw [pushed]; exact h.stopLast
    unstopped := by rw [pushed]; exact h.unstopped
    fits := by rw [pushed]; exact h.fits
    written := by
      rw [popped', List.filterMap_append, List.map_append, ← written]
      rfl
    dry := h.dry
    lastLook := by rintro ⟨⟩
    stopped := fun _ => ⟨ceased, last⟩ }

theorem writerStep_sound (h : j.Sound) (took : j.writerStep = some (j', d, t)) : j'.Sound := by
  unfold writerStep at took
  split at took
  · rename_i look pc
    split at took
    · rename_i e ring popped
      obtain ⟨fits, sound⟩ := h.popRecord pc popped
      rw [if_neg (Nat.not_lt.mpr fits)] at took
      cases took
      exact sound
    · rename_i ring popped
      cases took
      exact h.popStop pc popped
    · rename_i empty
      cases took
      have dried := Fifo.pop?_eq_none_iff.mp empty
      cases look with
      | true =>
        have ceased := h.lastLook (by rw [pc]; rfl)
        exact h.idle (by rw [pc]; rfl) h.dry (by rintro ⟨⟩) fun _ => ⟨ceased, dried⟩
      | false =>
        refine h.idle (by rw [pc]; rfl) h.dry (by rintro ⟨⟩) ?_
        rintro (⟨⟨⟩⟩ | ⟨⟨⟩⟩ | ⟨⟨⟩⟩)
  · rename_i e look pc
    cases took
    have written := h.written
    rw [pc] at written
    exact {
      stopLast := h.stopLast
      unstopped := h.unstopped
      fits := h.fits
      written := (List.append_nil _).trans written
      dry := h.dry
      lastLook := fun last => h.lastLook (by rw [pc]; exact last)
      stopped := by rintro (⟨⟨⟩⟩ | ⟨⟨⟩⟩ | ⟨⟨⟩⟩) }
  · rename_i pc
    cases took
    refine h.idle (by rw [pc]; rfl) h.dry (fun last => h.dry (by simpa [lastLook] using last)) ?_
    rintro (⟨⟨⟩⟩ | ⟨⟨⟩⟩ | ⟨⟨⟩⟩)
  · rename_i pc
    have ceased := h.stopped (.inl pc)
    split at took <;> cases took <;>
      exact h.idle (by rw [pc]; rfl) (fun _ => ceased.1) (by rintro ⟨⟩) fun _ => ceased
  · rename_i pc
    cases took
    exact h.idle (by rw [pc]; rfl) h.dry (by rintro ⟨⟩) fun _ => h.stopped (.inr (.inl pc))
  · cases took

/-- What a step of either thread keeps. -/
theorem sound_step (h : j.Sound) (took : j.step a = some (j', d, t)) : j'.Sound := by
  cases a with
  | push e =>
    rw [step] at took
    split at took
    · rename_i able
      cases took
      unfold Retiring.offer
      split
      · exact h.push (.inl able.1) able.2
      · exact h
    · cases took
  | retire =>
    simp only [step] at took
    split at took
    · rename_i pc
      cases took
      exact h.offerStop (.inl pc) (by simp)
    · cases took
      exact h
    · cases took
  | retireAgain pushed =>
    rw [step] at took
    split at took
    · cases took
      exact h.move (by simp)
    · cases took
  | close =>
    simp only [step] at took
    split at took
    · rename_i pc
      cases took
      exact {
        stopLast := h.stopLast
        unstopped := fun _ => h.unstopped (.inl pc)
        fits := h.fits
        written := h.written
        dry := fun dry => absurd (.inl pc) (h.dry dry)
        lastLook := fun last => absurd (.inl pc) (h.lastLook last)
        stopped := fun stopped => absurd stopped (h.not_stopped (.inl pc)) }
    · cases took
      exact h
    · cases took
  | engine => exact engineStep_sound h took
  | writer => exact writerStep_sound h took

/-! ### The counters -/

/-- A writer that is retired and has not finished. -/
@[simp] def toFinish : TicketState → ℤ
  | .retired | .retiredStopWhenDry => 1
  | _ => 0

/-- A `retire` that has raised the count, and not found its ticket running or taken it back. -/
@[simp] def raised : EnginePc → ℤ
  | .raised _ | .takingBack => 1
  | _ => 0

/-- A writer that has finished, and not lowered the count. -/
@[simp] def toLower : WriterPc → ℤ
  | .lowering => 1
  | _ => 0

/-- A ticket that was retired, before its writer finished or after. -/
@[simp] def everRetired : TicketState → ℤ
  | .retired | .retiredStopWhenDry | .finished => 1
  | _ => 0

/-- A `retire` that is about to count. -/
@[simp] def toCount : EnginePc → ℤ
  | .counting => 1
  | _ => 0

/-- What the count of writers to wait for owes to a journal. -/
def owed (j : Retiring) : ℤ := toFinish j.ticket + raised j.engine + toLower j.writer

/-- What the count of retired writers owes to a journal. -/
def counted (j : Retiring) : ℤ := everRetired j.ticket - toCount j.engine

theorem owed_nonneg (j : Retiring) : 0 ≤ j.owed := by
  unfold owed toFinish raised toLower
  split <;> split <;> split <;> decide

@[simp] theorem offer_ticket (j : Retiring) (x : RingEntry) : (j.offer x).ticket = j.ticket := by
  unfold offer
  split <;> rfl

@[simp] theorem offer_engine (j : Retiring) (x : RingEntry) : (j.offer x).engine = j.engine := by
  unfold offer
  split <;> rfl

@[simp] theorem offer_writer (j : Retiring) (x : RingEntry) : (j.offer x).writer = j.writer := by
  unfold offer
  split <;> rfl

/-- What a step owes the counters, it gives them. -/
def Pays (j j' : Retiring) (d : ℤ) (t : ℕ) : Prop := j'.owed = j.owed + d ∧ j'.counted = j.counted + t

theorem engineStep_pays (took : j.engineStep = some (j', d, t)) : j.Pays j' d t := by
  unfold engineStep at took
  unfold Pays owed counted
  split at took
  · rename_i pushed pc
    cases took
    simp only [pc, raised, toCount]
    omega
  · rename_i pushed pc
    split at took
    · rename_i running
      cases took
      cases pushed <;> simp [pc, running, add_comm]
    · cases took
      simp [pc]
  · rename_i pc
    cases took
    simp only [pc, raised, toCount]
    omega
  · rename_i pc
    split at took
    · rename_i finished
      cases took
      simp [pc, finished]
    · cases took
      simp [pc]
  · rename_i pc
    cases took
    simp [pc]
  · rename_i pc
    split at took
    · cases took
      simp [pc]
    · cases took
      simp
  · rename_i pc
    split at took
    · cases took
      simp [pc]
    · cases took
  · cases took
  · cases took

theorem writerStep_pays (took : j.writerStep = some (j', d, t)) : j.Pays j' d t := by
  unfold writerStep at took
  unfold Pays owed counted
  split at took
  · rename_i look pc
    split at took
    · split at took <;> cases took <;> simp [pc]
    · cases took
      simp [pc]
    · cases took
      cases look <;> simp [pc]
  · rename_i e look pc
    cases took
    simp [pc]
  · rename_i pc
    cases took
    simp [pc]
  · rename_i pc
    split at took <;> rename_i ticket <;> cases took <;> simp [pc, ticket, add_comm]
  · rename_i pc
    cases took
    simp [pc]
  · cases took

/-- What a step of either thread owes, it pays. -/
theorem step_pays (took : j.step a = some (j', d, t)) : j.Pays j' d t := by
  have idle : j.Pays j 0 0 := ⟨(add_zero _).symm, (add_zero _).symm⟩
  cases a with
  | push e =>
    rw [step] at took
    split at took
    · cases took
      simp [Pays, owed, counted]
    · cases took
  | retire =>
    simp only [step] at took
    split at took
    · rename_i pc
      cases took
      simp [Pays, owed, counted, pc]
    · cases took
      exact idle
    · cases took
  | retireAgain pushed =>
    rw [step] at took
    split at took
    · rename_i pc
      cases took
      simp [Pays, owed, counted, pc]
    · cases took
  | close =>
    simp only [step] at took
    split at took
    · rename_i pc
      cases took
      simp [Pays, owed, counted, pc]
    · cases took
      exact idle
    · cases took
  | engine => exact engineStep_pays took
  | writer => exact writerStep_pays took

end Retiring

namespace Writers

variable {w w' : Writers} {a : Act} {as : List Act}

/-- What holds of all journals of a process, and of the two counters they share. -/
structure Accounts (w : Writers) : Prop where
  sound : ∀ j ∈ w.journals, j.Sound
  waiting : w.retiredWriters = (w.journals.map Retiring.owed).sum
  total : (w.writersRetired : ℤ) = (w.journals.map Retiring.counted).sum

theorem accounts_none : none.Accounts := ⟨by rintro j ⟨⟩, rfl, rfl⟩

/-- The sum of a list in which one thing changed. -/
theorem sum_set {α : Type*} {l : List α} {i : ℕ} {x x' : α} {f : α → ℤ} {c : ℤ}
    (at_ : l[i]? = some x) (change : f x' = f x + c) :
    ((l.set i x').map f).sum = (l.map f).sum + c := by
  obtain ⟨inside, rfl⟩ := List.getElem?_eq_some_iff.mp at_
  rw [List.map_set, List.sum_set', dif_pos (by simpa using inside), List.getElem_map, change]
  omega

theorem accounts_step (h : w.Accounts) (took : w.step a = some w') : w'.Accounts := by
  cases a with
  | open_ len =>
    cases took
    refine ⟨?_, ?_, ?_⟩
    · exact List.forall_mem_append.mpr
        ⟨h.sound, List.forall_mem_singleton.mpr (Retiring.sound_opened len)⟩
    · rw [List.map_append, List.sum_append, ← h.waiting]
      simp [Retiring.owed, Retiring.opened]
    · rw [List.map_append, List.sum_append, ← h.total]
      simp [Retiring.counted, Retiring.opened]
  | at_ i a =>
    simp only [step, Option.bind_eq_some_iff, Option.map_eq_some_iff] at took
    obtain ⟨j, at_, ⟨j', d, t⟩, took, rfl⟩ := took
    obtain ⟨owed, counted⟩ := Retiring.step_pays took
    refine ⟨?_, ?_, ?_⟩
    · intro k mem
      rcases List.mem_or_eq_of_mem_set mem with old | rfl
      · exact h.sound k old
      · exact Retiring.sound_step (h.sound j (List.mem_of_getElem? at_)) took
    · rw [sum_set at_ owed, ← h.waiting]
    · rw [sum_set at_ counted, ← h.total]
      push_cast
      rfl

theorem accounts_runs (h : w.Accounts) (run : w.runs as = some w') : w'.Accounts := by
  induction as generalizing w with
  | nil =>
    cases run
    exact h
  | cons a as ih =>
    rw [runs, List.foldlM_cons] at run
    obtain ⟨w₁, took, rest⟩ := Option.bind_eq_some_iff.mp run
    exact ih (accounts_step h took) rest

/-- **A retired writer writes everything, and is counted once**, over every interleaving of any number
of journals. A writer that has stopped has written every record its ring took. The writers to wait
for are those retired that have not finished, with the `retire` calls that have raised the count and
not settled and the finished writers that have still to lower it, and never fewer than none. The
retired writers are the tickets ever retired, but for a `retire` that is about to count. -/
theorem writers_account (run : none.runs as = some w) :
    (∀ j ∈ w.journals, j.Stopped → j.written = j.accepted.map Record.redacted) ∧
      w.retiredWriters = (w.journals.map Retiring.owed).sum ∧ 0 ≤ w.retiredWriters ∧
      (w.writersRetired : ℤ) = (w.journals.map Retiring.counted).sum := by
  have accounts := accounts_runs accounts_none run
  refine ⟨fun j mem => (accounts.sound j mem).all_written, accounts.waiting, ?_, accounts.total⟩
  rw [accounts.waiting]
  refine List.sum_nonneg fun x mem => ?_
  obtain ⟨j, -, rfl⟩ := List.mem_map.mp mem
  exact j.owed_nonneg

/-- A record, `STOP` behind it, and the writer done after it was retired. -/
theorem writers_account_done : ∃ w : Writers,
    none.runs ([.open_ 64, .at_ 0 (.push (.inbound 1)), .at_ 0 .retire] ++
      List.replicate 3 (.at_ 0 .engine) ++ List.replicate 5 (.at_ 0 .writer)) = some w ∧
    (∀ j ∈ w.journals, j.Stopped → j.written = j.accepted.map Record.redacted) ∧
      w.retiredWriters = (w.journals.map Retiring.owed).sum ∧ 0 ≤ w.retiredWriters ∧
      (w.writersRetired : ℤ) = (w.journals.map Retiring.counted).sum := by
  have run : (none.runs ([.open_ 64, .at_ 0 (.push (.inbound 1)), .at_ 0 .retire] ++
      List.replicate 3 (.at_ 0 .engine) ++ List.replicate 5 (.at_ 0 .writer))).isSome := by
    decide +kernel
  exact ⟨_, (Option.some_get run).symm, writers_account (Option.some_get run).symm⟩

/-- What a run comes to: the two counters, and the ticket of each journal. -/
def outcome (as : List Act) : Option (ℤ × ℕ × List TicketState) :=
  (none.runs as).map fun w => (w.retiredWriters, w.writersRetired, w.journals.map Retiring.ticket)

/-- A `retire` has raised the count before its ticket is retired; and a writer that finished before
its ticket was retired is counted all the same. -/
theorem writers_count_otherwise :
    outcome [.open_ 64, .at_ 0 .retire, .at_ 0 .engine] = some (1, 0, [.running]) ∧
      outcome ([.open_ 64, .at_ 0 .retire] ++ List.replicate 2 (.at_ 0 .writer)) =
        some (0, 0, [.finishedUnretired]) ∧
      outcome ([.open_ 64, .at_ 0 .retire] ++ List.replicate 2 (.at_ 0 .writer) ++
        List.replicate 5 (.at_ 0 .engine)) = some (0, 1, [.finished]) := by
  decide +kernel

end Writers

end Fixbolt
