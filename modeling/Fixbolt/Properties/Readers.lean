import Fixbolt.Engine.JournalReader
import Fixbolt.Properties.Window

/-!
# The two readers of a journal file

A journal recovers from its file with one loop, and an operator reads the same file with two others.
On any bytes they stop at the same place, for the same reason, and what the operator is shown is what
the journal recovered from.

* `Records.next_eq`, `Reader.openLoop_eq`: each loop takes the records of the other;
* `JournalRecord.Tells`: what the records say of each part of a recovered state;
* `readers_agree`: a journal recovers what the records say.
-/

namespace Fixbolt

variable {n len : ℕ} {format : Format} {bytes : Bytes} {at_ fuel : ℕ}

/-! ### One record -/

/-- The shape of a record on the disk. -/
def Record.shown (e : Record) : JournalRecord :=
  if e.seq = activityMark ∧ e.payload.length = activityLen then .activityMark (ofLe e.payload)
  else if e.seq = activityMark ∧ e.payload.length = outboundLen then
    .outboundMark (ofLe e.payload)
  else if e.payload.length = inboundMark then .inboundMark e.seq.toNat
  else .message e.seq.toNat e.payload

/-- A record that is shown, taken into a recovered state. -/
def Recovered.absorb (r : Recovered n len) : JournalRecord → Recovered n len
  | .message seq bytes => { r with mem := (r.mem.put seq bytes).1 }
  | .inboundMark seq => { r with mem := Journal.markIn r.mem seq }
  | .activityMark atMs => { r with lastActive := some atMs }
  | .outboundMark seq => { r with mem := Journal.markOut r.mem seq }

theorem Recovered.apply_eq_absorb (r : Recovered n len) (e : Record) :
    r.apply e = r.absorb e.shown := by
  unfold Recovered.apply Record.shown
  split
  · rfl
  · split
    · rfl
    · split <;> rfl

/-- How many bytes a record of some payload takes. -/
def span (format : Format) (len : ℕ) : ℕ :=
  if format = .v1 then recordHeader + len + recordCrc else recordHeader + len

/-- What the journal's loop makes of the bytes from a place on, said of the place. -/
theorem take_drop (format : Format) (bytes : Bytes) (at_ : ℕ) (le : at_ ≤ bytes.length) :
    Record.take format (bytes.drop at_) =
      if bytes.length < at_ + recordHeader then .torn
      else
        let len := ofLe (bytesAt bytes (at_ + recordSeq) recordLen)
        if bytes.length < at_ + span format len then .torn
        else if format = .v1 ∧ ofLe (bytesAt bytes (at_ + recordHeader + len) recordCrc) ≠
            (crc32 (bytesAt bytes at_ (recordHeader + len))).toNat then .corrupt
        else .record ⟨UInt32.ofNat (ofLe (bytesAt bytes at_ recordSeq)),
            bytesAt bytes (at_ + recordHeader) len⟩ (bytes.drop (at_ + span format len)) := by
  unfold Record.take span bytesAt
  simp only [List.length_drop, List.drop_drop]
  by_cases short : bytes.length < at_ + recordHeader
  · rw [if_pos (by omega), if_pos short]
  · rw [if_neg (by omega), if_neg short]
    generalize ofLe ((bytes.drop (at_ + recordSeq)).take recordLen) = len
    simp only [Nat.add_assoc]
    generalize (if format = .v1 then recordHeader + (len + recordCrc) else recordHeader + len) = whole
    by_cases cut : bytes.length < at_ + whole
    · rw [if_pos (by omega), if_pos cut]
    · rw [if_neg (by omega), if_neg cut]

theorem bytesAt_length {at_ len : ℕ} (le : at_ + len ≤ bytes.length) :
    (bytesAt bytes at_ len).length = len := by
  unfold bytesAt
  rw [List.length_take, List.length_drop]
  omega

/-- **The iterator takes the record that the journal's loop takes**, and goes on where it does. -/
theorem Records.next_eq (r : Records) (le : r.at_ ≤ r.bytes.length) :
    r.next = match Record.take r.format (r.bytes.drop r.at_) with
      | .record e _ => some (e.shown, { r with at_ := r.at_ + span r.format e.payload.length })
      | _ => none := by
  rw [take_drop _ _ _ le]
  unfold Records.next
  by_cases short : r.bytes.length < r.at_ + recordHeader
  · rw [if_pos short, if_pos short]
  · rw [if_neg short, if_neg short]
    dsimp only
    generalize ofLe (bytesAt r.bytes (r.at_ + recordSeq) recordLen) = len
    have whole : (if r.format = .v1 then r.at_ + recordHeader + len + recordCrc
        else r.at_ + recordHeader + len) = r.at_ + span r.format len := by
      unfold span
      split <;> omega
    have body : r.at_ + recordHeader + len - r.at_ = recordHeader + len := by omega
    rw [whole, body]
    by_cases cut : r.bytes.length < r.at_ + span r.format len
    · rw [if_pos cut, if_pos cut]
    · rw [if_neg cut, if_neg cut]
      split
      · rfl
      · dsimp only
        have room : r.at_ + recordHeader + len ≤ r.bytes.length := by
          have : recordHeader + len ≤ span r.format len := by
            unfold span
            split <;> omega
          omega
        have small : ofLe (bytesAt r.bytes r.at_ recordSeq) < 2 ^ 32 := by
          have bound := ofLe_lt (bytesAt r.bytes r.at_ recordSeq)
          rw [bytesAt_length (by unfold recordHeader recordSeq recordLen at *; omega)] at bound
          exact bound
        have number : (UInt32.ofNat (ofLe (bytesAt r.bytes r.at_ recordSeq))).toNat =
            ofLe (bytesAt r.bytes r.at_ recordSeq) := UInt32.toNat_ofNat_of_lt' small
        have mark : (UInt32.ofNat (ofLe (bytesAt r.bytes r.at_ recordSeq)) = activityMark) ↔
            ofLe (bytesAt r.bytes r.at_ recordSeq) = activityMark.toNat := by
          rw [← UInt32.toNat_inj, number]
        rw [bytesAt_length room]
        unfold Record.shown
        simp only [bytesAt_length room, mark, number]

/-! ### The loops -/

/-- **The two loops stop at one place for one reason, and what the iterator yields on the way is what
the journal applies.** -/
theorem recoverLoop_eq_reader (format : Format) (bytes : Bytes) (fuel at_ : ℕ)
    (le : at_ ≤ bytes.length) (r : Recovered n len) :
    let stop := (Reader.openLoop format bytes fuel at_).1
    let corrupt := (Reader.openLoop format bytes fuel at_).2
    stop ≤ bytes.length ∧ FileJournal.recoverLoop format fuel (bytes.drop at_) r =
      ((Records.collect fuel ⟨bytes, at_, format⟩).foldl Recovered.absorb r, bytes.drop stop,
        decide (corrupt = 1)) ∧ (corrupt = 0 ∨ corrupt = 1) := by
  induction fuel generalizing at_ r with
  | zero => exact ⟨le, rfl, .inl rfl⟩
  | succ fuel ih =>
    have next := Records.next_eq ⟨bytes, at_, format⟩ le
    have front := take_drop format bytes at_ le
    unfold FileJournal.recoverLoop Records.collect Reader.openLoop
    dsimp only at next ⊢
    rw [next]
    by_cases short : bytes.length < at_ + recordHeader
    · rw [if_pos short] at front
      rw [front, if_neg (by omega)]
      exact ⟨le, rfl, .inl rfl⟩
    · rw [if_neg short] at front
      rw [if_pos (by omega)]
      dsimp only at front ⊢
      generalize ofLe (bytesAt bytes (at_ + recordSeq) recordLen) = len at front ⊢
      have whole : (if format = .v1 then at_ + recordHeader + len + recordCrc
          else at_ + recordHeader + len) = at_ + span format len := by
        unfold span
        split <;> omega
      have body : at_ + recordHeader + len - at_ = recordHeader + len := by omega
      rw [whole, body]
      by_cases cut : bytes.length < at_ + span format len
      · rw [if_pos cut] at front
        rw [front, if_pos cut]
        exact ⟨le, rfl, .inl rfl⟩
      · rw [if_neg cut] at front
        rw [if_neg cut]
        split
        · rename_i damaged
          rw [if_pos damaged] at front
          rw [front]
          exact ⟨le, rfl, .inr rfl⟩
        · rename_i sound
          rw [if_neg sound] at front
          rw [front]
          dsimp only
          have room : at_ + recordHeader + len ≤ bytes.length := by
            have : recordHeader + len ≤ span format len := by
              unfold span
              split <;> omega
            omega
          rw [bytesAt_length room, Recovered.apply_eq_absorb]
          exact ih (at_ + span format len) (by omega) _

/-! ### What the records say -/

namespace JournalRecord

/-- The number and the bytes of a message. -/
def message? : JournalRecord → Option (ℕ × Bytes)
  | message seq bytes => some (seq, bytes)
  | _ => none

def inbound? : JournalRecord → Option ℕ
  | inboundMark seq => some seq
  | _ => none

def active? : JournalRecord → Option ℕ
  | activityMark atMs => some atMs
  | _ => none

/-- The number that a record says was spent: an outbound mark's, and that of a message a slot has
room for. -/
def spent? (n len : ℕ) : JournalRecord → Option ℕ
  | outboundMark seq => some seq
  | message seq bytes => if MemJournal.Fits n len bytes then some seq else none
  | _ => none

/-- The number of a message that a slot has room for. -/
def kept? (n len : ℕ) : JournalRecord → Option ℕ
  | message seq bytes => if MemJournal.Fits n len bytes then some seq else none
  | _ => none

/-- The records say what a recovered state is: of the numbers of one slot the last message that a
slot has room for, the highest number of a kept message and of either direction, and the latest
instant. -/
structure Tells (rs : List JournalRecord) (r : Recovered n len) : Prop where
  messages : ∀ seq, r.mem.get seq =
    (MemJournal.lastIn n len seq (rs.filterMap message?)).bind fun p =>
      if p.1 = seq then some p.2 else none
  highWater : r.mem.highWater = (rs.filterMap (kept? n len)).max?
  highestIn : r.mem.highestIn = (rs.filterMap inbound?).max?
  highestOut : r.mem.highestOut = (rs.filterMap (spent? n len)).max?
  lastActive : r.lastActive = (rs.filterMap active?).getLast?

theorem max?_concat (xs : List ℕ) (x : ℕ) : (xs ++ [x]).max? = raise xs.max? x := by
  cases xs with
  | nil => rfl
  | cons y ys =>
    rw [List.cons_append, List.max?_cons', List.max?_cons', List.foldl_concat]
    rfl

/-- Records that a journal has taken in. -/
theorem foldl_tells (rs : List JournalRecord) (filled : ∀ p ∈ rs.filterMap message?, p.2 ≠ []) :
    Tells rs (rs.foldl Recovered.absorb (.none : Recovered n len)) ∧
      (rs.foldl Recovered.absorb (.none : Recovered n len)).mem.slots =
        (MemJournal.putAll n len (rs.filterMap message?)).slots := by
  have held (rs : List JournalRecord) (r : Recovered n len)
      (filled : ∀ p ∈ rs.filterMap message?, p.2 ≠ [])
      (slots : r.mem.slots = (MemJournal.putAll n len (rs.filterMap message?)).slots) (seq : ℕ) :
      r.mem.get seq = (MemJournal.lastIn n len seq (rs.filterMap message?)).bind fun p =>
        if p.1 = seq then some p.2 else none := by
    rw [← MemJournal.get_putAll filled]
    unfold MemJournal.get
    rw [slots]
  induction rs using List.reverseRecOn with
  | nil => exact ⟨⟨held [] .none filled rfl, rfl, rfl, rfl, rfl⟩, rfl⟩
  | append_singleton rs e ih =>
    rw [List.filterMap_append] at filled
    obtain ⟨tells, slots⟩ := ih fun p mem => filled p (List.mem_append_left _ mem)
    rw [List.foldl_concat]
    generalize rs.foldl Recovered.absorb (.none : Recovered n len) = r at tells slots ⊢
    rw [← List.filterMap_append] at filled
    -- The slots change with a message, the rest with the record that says so.
    have next : (r.absorb e).mem.slots =
        (MemJournal.putAll n len ((rs ++ [e]).filterMap message?)).slots := by
      rw [List.filterMap_append]
      cases e with
      | message seq b =>
        show (r.mem.put seq b).1.slots = _
        rw [show [message seq b].filterMap message? = [(seq, b)] from rfl,
          MemJournal.putAll_concat]
        by_cases fits : MemJournal.Fits n len b
        · rw [MemJournal.put_fits fits, MemJournal.put_fits fits]
          dsimp only
          rw [slots]
        · rw [MemJournal.put_refused fits, MemJournal.put_refused fits, slots]
      | _ =>
        show _ = (MemJournal.putAll n len (_ ++ [])).slots
        rw [List.append_nil]
        exact slots
    refine ⟨⟨held (rs ++ [e]) _ filled next, ?_, ?_, ?_, ?_⟩, next⟩
    · rw [List.filterMap_append]
      cases e with
      | message seq b =>
        show (r.mem.put seq b).1.highWater = _
        by_cases fits : MemJournal.Fits n len b
        · rw [MemJournal.put_fits fits,
            show [message seq b].filterMap (kept? n len) = [seq] by simp [kept?, fits],
            max?_concat, ← tells.highWater]
        · rw [MemJournal.put_refused fits,
            show [message seq b].filterMap (kept? n len) = [] by simp [kept?, fits],
            List.append_nil, ← tells.highWater]
      | _ =>
        show _ = (_ ++ []).max?
        rw [List.append_nil]
        exact tells.highWater
    · rw [List.filterMap_append]
      cases e with
      | inboundMark seq =>
        rw [show [inboundMark seq].filterMap inbound? = [seq] from rfl, max?_concat,
          ← tells.highestIn]
        rfl
      | message seq b =>
        rw [show [message seq b].filterMap inbound? = [] from rfl, List.append_nil,
          ← tells.highestIn]
        exact MarksHighest.highestIn_put r.mem seq b
      | _ =>
        show _ = (_ ++ []).max?
        rw [List.append_nil]
        exact tells.highestIn
    · rw [List.filterMap_append]
      cases e with
      | outboundMark seq =>
        rw [show [outboundMark seq].filterMap (spent? n len) = [seq] from rfl, max?_concat,
          ← tells.highestOut]
        rfl
      | message seq b =>
        show (r.mem.put seq b).1.highestOut = _
        by_cases fits : MemJournal.Fits n len b
        · rw [MemJournal.put_fits fits,
            show [message seq b].filterMap (spent? n len) = [seq] by simp [spent?, fits],
            max?_concat, ← tells.highestOut]
        · rw [MemJournal.put_refused fits,
            show [message seq b].filterMap (spent? n len) = [] by simp [spent?, fits],
            List.append_nil, ← tells.highestOut]
      | _ =>
        show _ = (_ ++ []).max?
        rw [List.append_nil]
        exact tells.highestOut
    · rw [List.filterMap_append]
      cases e with
      | activityMark atMs =>
        rw [show [activityMark atMs].filterMap active? = [atMs] from rfl, List.getLast?_concat]
        rfl
      | _ =>
        show _ = (_ ++ []).getLast?
        rw [List.append_nil]
        exact tells.lastActive

end JournalRecord

/-- A message that is yielded has bytes. -/
theorem Records.collect_filled (fuel : ℕ) (r : Records) (le : r.at_ ≤ r.bytes.length) :
    ∀ p ∈ (Records.collect fuel r).filterMap JournalRecord.message?, p.2 ≠ [] := by
  induction fuel generalizing r with
  | zero => exact List.forall_mem_nil _
  | succ fuel ih =>
    intro p mem
    unfold Records.collect at mem
    have next := Records.next_eq r le
    have front := take_drop r.format r.bytes r.at_ le
    cases taken : Record.take r.format (r.bytes.drop r.at_) with
    | torn =>
      rw [next, taken] at mem
      cases mem
    | corrupt =>
      rw [next, taken] at mem
      cases mem
    | record e rest =>
      rw [next, taken] at mem
      obtain ⟨head, at_head, shown⟩ := List.mem_filterMap.mp mem
      obtain rfl | later := List.mem_cons.mp at_head
      · intro empty
        unfold Record.shown at shown
        split at shown
        · cases shown
        · split at shown
          · cases shown
          · split at shown
            · cases shown
            · rename_i long
              obtain rfl := Option.some.inj shown
              exact long (by rw [show e.payload = [] from empty]; rfl)
      · refine ih _ ?_ p (List.mem_filterMap.mpr ⟨head, later, shown⟩)
        rw [taken] at front
        split at front
        · cases front
        · dsimp only at front
          split at front
          · cases front
          · split at front
            · cases front
            · rename_i whole _
              cases front
              dsimp only
              rw [bytesAt_length]
              · omega
              · have : recordHeader + ofLe (bytesAt r.bytes (r.at_ + recordSeq) recordLen) ≤
                    span r.format (ofLe (bytesAt r.bytes (r.at_ + recordSeq) recordLen)) := by
                  unfold span
                  split <;> omega
                omega

/-! ### The readers -/

/-- **A journal recovers what the records of its file say**, to the place where the reader of the file
stops and for its reason: of the numbers that share a slot the last message that fits one, the
highest of each mark, a fitting message's number among those spent, and the latest instant. -/
theorem readers_agree (n len : ℕ) (existing : Bytes) (how : Durability) :
    let reader := Reader.open_ existing
    let j : FileJournal n len := .open_ existing how
    reader.torn = j.torn ∧ reader.corrupt = j.corrupt ∧
      (⟨j.mem, j.lastActive⟩ : Recovered n len) = reader.records.foldl Recovered.absorb .none ∧
      JournalRecord.Tells reader.records (⟨j.mem, j.lastActive⟩ : Recovered n len) := by
  dsimp only
  obtain rfl | some_bytes := eq_or_ne existing []
  · exact ⟨rfl, rfl, rfl, (JournalRecord.foldl_tells [] (List.forall_mem_nil _)).1⟩
  · have nonempty : existing.isEmpty = false := by simpa using some_bytes
    have header_fits : existing.take headerV1.length = headerV1 →
        headerV1.length ≤ existing.length := fun same => by
      have := congrArg List.length same
      rw [List.length_take] at this
      omega
    unfold Reader.open_ FileJournal.open_ Reader.records
    simp only [nonempty, Bool.false_eq_true, false_or, not_false_eq_true, and_true]
    -- Both read the format off the same bytes, and start behind the same header.
    generalize shape : (if existing.take headerV1.length = headerV1 then Format.v1 else .v0) = format
    have start : (if format = .v1 then headerV1.length else 0) = Reader.headerLen format := by
      cases format <;> rfl
    have inside : Reader.headerLen format ≤ existing.length := by
      cases format with
      | v0 => exact Nat.zero_le _
      | v1 =>
        refine header_fits ?_
        by_contra other
        rw [if_neg other] at shape
        cases shape
    obtain ⟨within, recovered, verdict⟩ := recoverLoop_eq_reader format existing
      (existing.length + 1) (Reader.headerLen format) inside (.none : Recovered n len)
    have filled := Records.collect_filled (existing.length + 1)
      ⟨existing, Reader.headerLen format, format⟩ inside
    rw [start, recovered]
    dsimp only at within verdict filled ⊢
    refine ⟨?_, ?_, rfl, (JournalRecord.foldl_tells _ filled).1⟩
    · rw [List.length_drop]
    · obtain zero | one := verdict
      · rw [zero]
        rfl
      · rw [one]
        rfl

/-- Of two messages whose numbers share a slot the reader shows both and the journal holds the later
one; and it knows a number spent that no mark names. -/
theorem journal_holds_the_later :
    let file := Record.onDisk .v0 ⟨1, ascii "a"⟩ ++ Record.onDisk .v0 ⟨2, ascii "b"⟩
    let j : FileJournal 1 16 := .open_ file .fsync
    (Reader.open_ file).records = [.message 1 (ascii "a"), .message 2 (ascii "b")] ∧
      j.get 1 = none ∧ j.highestOut = some 2 := by
  decide +kernel

end Fixbolt
