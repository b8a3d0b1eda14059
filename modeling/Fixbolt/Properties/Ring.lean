import Fixbolt.Engine.Ring

/-!
# A ring is a queue of whole records

Whatever turns the two threads take, what is popped is what was pushed: `Ring.Good` reads the shared
buffer as a queue, each step of either thread is a step of that queue, and `ring_fifo` says it of
every state.

* `Shared.Holds`: bytes that lie in the buffer from a counter on, around its end;
* `Ring.Good`: the buffer holds what is pending, and each thread is where it should be in it;
* `Ring.good_step`: a step keeps that, and pushes, pops or does nothing to the queue.
-/

namespace Fixbolt

namespace Shared

variable {s : Shared} {a b i j : ℕ}

theorem index_eq (s : Shared) (a : ℕ) : a &&& s.mask = a % s.capacity :=
  Nat.and_two_pow_sub_one_eq_mod a s.bits

theorem capacity_pos (s : Shared) : 0 < s.capacity := Nat.two_pow_pos _

theorem capacity_dvd (small : s.bits ≤ 63) : s.capacity ∣ usizeSize := by
  have : usizeSize = 2 ^ 64 := by decide
  rw [this]
  exact Nat.pow_dvd_pow 2 (by omega)

theorem capacity_lt (small : s.bits ≤ 63) : s.capacity < usizeSize := by
  have le : s.capacity ≤ 2 ^ 63 := Nat.pow_le_pow_right (by decide) small
  exact Nat.lt_of_le_of_lt le (by decide)

/-- Counters that are equal as a `usize` counts index the same byte. -/
theorem get_congr (small : s.bits ≤ 63) (h : a % usizeSize = b % usizeSize) : s.get a = s.get b := by
  unfold get
  rw [index_eq, index_eq, ← Nat.mod_mod_of_dvd a (capacity_dvd small), h,
    Nat.mod_mod_of_dvd b (capacity_dvd small)]

theorem put_congr (small : s.bits ≤ 63) (h : a % usizeSize = b % usizeSize) (byte : UInt8) :
    s.put a byte = s.put b byte := by
  unfold put
  rw [index_eq, index_eq, ← Nat.mod_mod_of_dvd a (capacity_dvd small), h,
    Nat.mod_mod_of_dvd b (capacity_dvd small)]

theorem get_put_self (s : Shared) (a : ℕ) (byte : UInt8) : (s.put a byte).get a = byte := by
  show Function.update s.buf (a &&& s.mask) byte (a &&& s.mask) = byte
  rw [Function.update_self]

theorem get_put_of_ne (h : b % s.capacity ≠ a % s.capacity) (byte : UInt8) :
    (s.put a byte).get b = s.get b := by
  show Function.update s.buf (a &&& s.mask) byte (b &&& s.mask) = s.buf (b &&& s.mask)
  rw [index_eq, index_eq, Function.update_of_ne h]

/-- Counters less than a buffer apart index different bytes. -/
theorem index_ne (lt : i < j) (near : j < i + s.capacity) :
    (a + i) % s.capacity ≠ (a + j) % s.capacity := by
  intro eq
  have := (Nat.modEq_iff_dvd' (by omega : a + i ≤ a + j)).mp eq
  have := Nat.le_of_dvd (by omega) this
  omega

theorem wrappingSub_add {n : ℕ} (lt : n < usizeSize) (low : a < usizeSize) :
    wrappingSub ((a + n) % usizeSize) a = n := by
  unfold wrappingSub
  unfold usizeSize at *
  omega

/-- Bytes lie in the buffer from a counter on. -/
def Holds (s : Shared) (at_ : ℕ) (bytes : Bytes) : Prop :=
  ∀ i byte, bytes[i]? = some byte → s.get (at_ + i) = byte

theorem holds_nil (s : Shared) (at_ : ℕ) : s.Holds at_ [] := fun i byte h => by cases h

theorem holds_singleton {byte : UInt8} : s.Holds a [byte] ↔ s.get a = byte := by
  constructor
  · exact fun h => h 0 byte rfl
  · intro h i byte' at_
    cases i with
    | zero =>
      cases at_
      exact h
    | succ i => cases at_

theorem Holds.congr {bytes : Bytes} (h : s.Holds a bytes) (small : s.bits ≤ 63)
    (eq : a % usizeSize = b % usizeSize) : s.Holds b bytes := by
  intro i byte at_
  rw [← h i byte at_]
  refine get_congr small ?_
  rw [Nat.add_mod, ← eq, ← Nat.add_mod]

theorem holds_append {xs ys : Bytes} :
    s.Holds a (xs ++ ys) ↔ s.Holds a xs ∧ s.Holds (a + xs.length) ys := by
  constructor
  · refine fun h => ⟨fun i byte at_ => h i byte ?_, fun i byte at_ => ?_⟩
    · rw [List.getElem?_append_left (List.getElem?_eq_some_iff.mp at_).1]
      exact at_
    · rw [Nat.add_assoc]
      refine h _ byte ?_
      rw [List.getElem?_append_right (Nat.le_add_right _ _), Nat.add_sub_cancel_left]
      exact at_
  · rintro ⟨front, back⟩ i byte at_
    by_cases lt : i < xs.length
    · rw [List.getElem?_append_left lt] at at_
      exact front i byte at_
    · rw [List.getElem?_append_right (by omega)] at at_
      have := back _ byte at_
      rwa [Nat.add_assoc, Nat.add_sub_cancel' (by omega)] at this

/-- Writing a byte somewhere else leaves the bytes alone. -/
theorem Holds.put {bytes : Bytes} (h : s.Holds a bytes) {n : ℕ} (behind : bytes.length ≤ n)
    (near : n < s.capacity) (byte : UInt8) : (s.put (a + n) byte).Holds a bytes := by
  intro i byte' at_
  have lt := (List.getElem?_eq_some_iff.mp at_).1
  rw [get_put_of_ne (index_ne (by omega) (by omega))]
  exact h i byte' at_

end Shared

namespace Ring

open Shared

/-- The bytes of records that lie end to end. -/
def stream (records : List Bytes) : Bytes := records.flatMap framed

@[simp] theorem stream_nil : stream [] = [] := rfl

@[simp] theorem stream_cons (record : Bytes) (records : List Bytes) :
    stream (record :: records) = framed record ++ stream records := rfl

@[simp] theorem stream_append (xs ys : List Bytes) : stream (xs ++ ys) = stream xs ++ stream ys :=
  List.flatMap_append

@[simp] theorem framed_length (record : Bytes) : (framed record).length = 4 + record.length := by
  simp [framed, ringHeader]

/-- What `pop` reports of a record, with a buffer of `room` bytes for it. -/
def report (record : Bytes) (room : ℕ) : Bytes :=
  if record.length ≤ room then record else []

/-- Where the producer is, behind the `pending` bytes. -/
def ProducerGood (s : Shared) (pending : Bytes) : Push → Prop
  | .idle => True
  | .writing record done => record.length < u32Size ∧
    pending.length + (framed record).length ≤ s.capacity ∧ done ≤ (framed record).length ∧
    s.Holds (s.head + pending.length) ((framed record).take done)

/-- Where the consumer is, in the first of the pending records. -/
def ConsumerGood (s : Shared) (pending : List Bytes) : Pop → Prop
  | .idle => True
  | .reading _ tail got => ∃ record seen unseen, pending = record :: (seen ++ unseen) ∧
    tail = (s.head + (stream (record :: seen)).length) % usizeSize ∧ got <+: framed record
  | .leaving room next result => ∃ record rest, pending = record :: rest ∧
    next = (s.head + (framed record).length) % usizeSize ∧ result = report record room

/-- The ring holds the queue `q`. -/
structure Good (r : Ring) (q : Fifo Bytes) : Prop where
  bits : r.shared.bits ≤ 63
  accepted : r.accepted = q.pushed
  reported : List.Forall₂ (fun record p => p.2 = report record p.1) q.popped r.reported
  small : ∀ record ∈ q.pending, record.length < u32Size
  head : r.shared.head < usizeSize
  tail : r.shared.tail = (r.shared.head + (stream q.pending).length) % usizeSize
  room : (stream q.pending).length ≤ r.shared.capacity
  holds : r.shared.Holds r.shared.head (stream q.pending)
  producer : ProducerGood r.shared (stream q.pending) r.producer
  consumer : ConsumerGood r.shared q.pending r.consumer

variable {r r' : Ring} {q : Fifo Bytes}

theorem Good.used (h : r.Good q) :
    wrappingSub r.shared.tail r.shared.head = (stream q.pending).length := by
  rw [h.tail]
  exact wrappingSub_add (Nat.lt_of_le_of_lt h.room (capacity_lt h.bits)) h.head

theorem good_pair (capacity : ℕ) : (pair capacity).Good .empty where
  bits := by
    show (if capacity ≤ usizeSize / 2 then Nat.clog 2 capacity else 0) ≤ 63
    split
    · rename_i le
      exact (Nat.clog_le_iff_le_pow (by decide)).mpr (le.trans (by decide))
    · omega
  accepted := rfl
  reported := List.Forall₂.nil
  small := fun _ h => by cases h
  head := by
    show 0 < usizeSize
    decide
  tail := rfl
  room := Nat.zero_le _
  holds := holds_nil _ _
  producer := trivial
  consumer := trivial

variable {record : Bytes} {room : ℕ}

theorem Good.offer (h : r.Good q) (next : r.step (.offer record) = some r') : r'.Good q := by
  rcases idle : r.producer with _ | ⟨old, done⟩
  · simp only [step, idle] at next
    split at next
    · rename_i fit
      cases next
      have free : 4 + record.length ≤ r.shared.capacity - wrappingSub r.shared.tail r.shared.head :=
        of_decide_eq_true fit.2
      rw [h.used] at free
      refine { h with producer := ⟨fit.1, ?_, Nat.zero_le _, ?_⟩ }
      · show _ ≤ r.shared.capacity
        have := h.room
        rw [framed_length]
        omega
      · rw [List.take_zero]
        exact holds_nil _ _
    · cases next
      exact h
  · simp only [step, idle] at next
    cases next

theorem Good.write (h : r.Good q) (next : r.step .write = some r') : r'.Good q := by
  rcases writing : r.producer with _ | ⟨record, done⟩
  · simp only [step, writing] at next
    cases next
  · simp only [step, writing] at next
    cases there : (framed record)[done]? with
    | none =>
      rw [there] at next
      cases next
    | some byte =>
      rw [there] at next
      cases next
      have good := h.producer
      rw [writing] at good
      obtain ⟨small, fit, -, front⟩ := good
      have lt := (List.getElem?_eq_some_iff.mp there).1
      have index : r.shared.put (r.shared.tail + done) byte =
          r.shared.put (r.shared.head + (stream q.pending).length + done) byte := by
        refine put_congr h.bits ?_ byte
        rw [h.tail, Nat.mod_add_mod]
      refine { h with holds := ?_, producer := ⟨small, fit, lt, ?_⟩ }
      · show (r.shared.put _ byte).Holds _ _
        rw [index, Nat.add_assoc]
        exact h.holds.put (Nat.le_add_right _ _) (by omega) byte
      · show (r.shared.put _ byte).Holds (r.shared.head + (stream q.pending).length) _
        rw [index, List.take_add_one, there]
        refine holds_append.mpr ⟨front.put ?_ (by omega) byte, ?_⟩
        · rw [List.length_take]
          exact Nat.min_le_left _ _
        · rw [List.length_take, Nat.min_eq_left lt.le]
          exact holds_singleton.mpr (get_put_self _ _ _)

theorem Good.publish (h : r.Good q) (next : r.step .publish = some r') :
    ∃ record, r'.Good (q.push record) := by
  rcases writing : r.producer with _ | ⟨record, done⟩
  · simp only [step, writing] at next
    cases next
  · simp only [step, writing] at next
    split at next
    · rename_i whole
      cases next
      have good := h.producer
      rw [writing] at good
      obtain ⟨small, fit, -, back⟩ := good
      rw [whole, List.take_length] at back
      have bytes : stream (q.push record).pending = stream q.pending ++ framed record := by simp
      refine ⟨record, ?_⟩
      constructor
      · exact h.bits
      · exact congrArg (· ++ [record]) h.accepted
      · rw [Fifo.popped_push]
        exact h.reported
      · intro other mem
        rw [Fifo.pending_push, List.mem_append, List.mem_singleton] at mem
        rcases mem with mem | rfl
        · exact h.small other mem
        · exact small
      · exact h.head
      · show (r.shared.tail + done) % usizeSize = _
        rw [h.tail, Nat.mod_add_mod, bytes, List.length_append, whole, Nat.add_assoc]
      · rw [bytes, List.length_append]
        exact fit
      · rw [bytes]
        exact holds_append.mpr ⟨h.holds, back⟩
      · trivial
      · have good := h.consumer
        rw [Fifo.pending_push]
        revert good
        show ConsumerGood r.shared q.pending r.consumer →
          ConsumerGood r.shared (q.pending ++ [record]) r.consumer
        rcases r.consumer with _ | ⟨room, tail, got⟩ | ⟨room, next, result⟩
        · exact id
        · rintro ⟨first, seen, unseen, eq, rest⟩
          exact ⟨first, seen, unseen ++ [record], by rw [eq]; simp, rest⟩
        · rintro ⟨first, rest, eq, facts⟩
          exact ⟨first, rest ++ [record], by rw [eq]; rfl, facts⟩
    · cases next

theorem Good.look (h : r.Good q) (next : r.step (.look room) = some r') : r'.Good q := by
  rcases idle : r.consumer with _ | ⟨_, _, _⟩ | ⟨_, _, _⟩
  · simp only [step, idle] at next
    split at next
    · cases next
      exact h
    · rename_i some_
      cases next
      rw [h.used] at some_
      refine { h with consumer := ?_ }
      rcases pending : q.pending with _ | ⟨record, rest⟩
      · rw [pending] at some_
        exact absurd (by decide) some_
      · refine ⟨record, rest, [], by rw [List.append_nil], ?_, List.nil_prefix⟩
        rw [← pending]
        exact h.tail
  · simp only [step, idle] at next
    cases next
  · simp only [step, idle] at next
    cases next

theorem Good.look_iff (h : r.Good q) (next : r.step (.look room) = some r') :
    r'.consumer = .idle ↔ q.pending = [] := by
  simp only [step] at next
  split at next
  · rename_i idle
    split at next
    · rename_i empty
      cases next
      rw [h.used] at empty
      refine iff_of_true idle ?_
      cases pending : q.pending with
      | nil => rfl
      | cons record rest =>
        rw [pending, stream_cons, List.length_append, framed_length, ringHeader] at empty
        omega
    · rename_i some_
      cases next
      rw [h.used] at some_
      refine iff_of_false (by rintro ⟨⟩) fun pending => some_ ?_
      rw [pending]
      decide
  · cases next

/-- Reading the next byte of what lies in the buffer. -/
theorem prefix_get {s : Shared} {a : ℕ} {bytes got : Bytes} (holds : s.Holds a bytes)
    (front : got <+: bytes) (lt : got.length < bytes.length) :
    got ++ [s.get (a + got.length)] <+: bytes := by
  obtain ⟨rest, rfl⟩ := front
  cases rest with
  | nil =>
    rw [List.append_nil] at lt
    exact absurd lt (Nat.lt_irrefl _)
  | cons byte rest =>
    have there : (got ++ byte :: rest)[got.length]? = some byte := by
      rw [List.getElem?_append_right (Nat.le_refl _), Nat.sub_self]
      rfl
    rw [holds _ byte there]
    exact ⟨rest, by simp⟩

/-- The length of a record, in front of it. -/
theorem ofLe_take {got : Bytes} (front : got <+: framed record) (long : ringHeader ≤ got.length)
    (small : record.length < u32Size) : ofLe (got.take ringHeader) = record.length := by
  have eq : got.take ringHeader = toLe ringHeader record.length := by
    have := congrArg (List.take ringHeader) (List.prefix_iff_eq_take.mp front)
    rw [List.take_take, Nat.min_eq_left long] at this
    rw [this]
    exact List.take_left' (toLe_length _ _)
  rw [eq]
  exact ofLe_toLe small

theorem Good.read (h : r.Good q) (next : r.step .read = some r') :
    r'.Good q ∧ r'.consumer ≠ .idle := by
  rcases reading : r.consumer with _ | ⟨room, tail, got⟩ | ⟨_, _, _⟩
  · simp only [step, reading] at next
    cases next
  · simp only [step, reading] at next
    cases next
    have good := h.consumer
    rw [reading] at good
    obtain ⟨record, seen, unseen, pending, rfl, front⟩ := good
    have small : record.length < u32Size :=
      h.small record (by rw [pending]; exact List.mem_cons_self)
    have whole : (framed record).length = 4 + record.length := framed_length record
    obtain ⟨bytes, -⟩ : r.shared.Holds r.shared.head (framed record) ∧ _ := by
      have := h.holds
      rw [pending, stream_cons] at this
      exact holds_append.mp this
    have more (lt : got.length < (framed record).length) : ConsumerGood r.shared q.pending
        (.reading room ((r.shared.head + (stream (record :: seen)).length) % usizeSize)
          (got ++ [r.shared.get (r.shared.head + got.length)])) :=
      ⟨record, seen, unseen, pending, rfl, prefix_get bytes front lt⟩
    suffices good : ConsumerGood r.shared q.pending (readStep r.shared room _ got) ∧
        readStep r.shared room _ got ≠ .idle from ⟨{ h with consumer := good.1 }, good.2⟩
    unfold readStep
    by_cases short : got.length < ringHeader
    · rw [if_pos short]
      exact ⟨more (Nat.lt_of_lt_of_le short (by rw [whole]; exact Nat.le_add_right _ _)),
        by rintro ⟨⟩⟩
    · rw [if_neg short, ofLe_take front (Nat.not_lt.mp short) small]
      have behind : wrappingSub ((r.shared.head + (stream (record :: seen)).length) % usizeSize)
          ((r.shared.head + ringHeader) % usizeSize) = record.length + (stream seen).length := by
        have room := h.room
        have cap := capacity_lt h.bits
        rw [pending, stream_cons, stream_append, List.length_append, List.length_append,
          whole] at room
        have split : r.shared.head + (stream (record :: seen)).length =
            r.shared.head + ringHeader + (record.length + (stream seen).length) := by
          rw [stream_cons, List.length_append, whole, ringHeader]
          omega
        rw [split, ← Nat.mod_add_mod]
        exact wrappingSub_add (by omega) (Nat.mod_lt _ (by decide))
      have next : r.shared.head + ringHeader + record.length =
          r.shared.head + (framed record).length := by
        rw [whole, ringHeader, Nat.add_assoc]
      rw [behind, if_neg (Nat.not_lt.mpr (Nat.le_add_right _ _)), next]
      by_cases long : room < record.length
      · rw [if_pos long]
        refine ⟨⟨record, seen ++ unseen, pending, rfl, ?_⟩, by rintro ⟨⟩⟩
        rw [report, if_neg (Nat.not_le.mpr long)]
      · rw [if_neg long]
        by_cases left : got.length < ringHeader + record.length
        · rw [if_pos left]
          exact ⟨more (by rw [whole]; exact left), by rintro ⟨⟩⟩
        · rw [if_neg left]
          refine ⟨⟨record, seen ++ unseen, pending, rfl, ?_⟩, by rintro ⟨⟩⟩
          have all : got = framed record :=
            front.eq_of_length_le (by rw [whole]; exact Nat.not_lt.mp left)
          rw [report, if_pos (Nat.not_lt.mp long), all]
          exact List.drop_left' (toLe_length _ _)
  · simp only [step, reading] at next
    cases next

theorem Good.leave (h : r.Good q) (next : r.step .leave = some r') :
    ∃ record q', q.pop? = some (record, q') ∧ r'.Good q' := by
  rcases leaving : r.consumer with _ | ⟨_, _, _⟩ | ⟨room, next', result⟩
  · simp only [step, leaving] at next
    cases next
  · simp only [step, leaving] at next
    cases next
  · simp only [step, leaving] at next
    cases next
    have good := h.consumer
    rw [leaving] at good
    obtain ⟨record, rest, pending, rfl, rfl⟩ := good
    obtain ⟨q', popped, rfl⟩ := Fifo.pop?_of_pending pending
    obtain ⟨pushed, taken, -⟩ := Fifo.pop?_some popped
    have bytes : stream q.pending = framed record ++ stream q'.pending := by
      rw [pending, stream_cons]
    have length := congrArg List.length bytes
    rw [List.length_append] at length
    -- counters from the new head on are the old ones behind the record
    have shift (n : ℕ) : (r.shared.head + ((framed record).length + n)) % usizeSize =
        ((r.shared.head + (framed record).length) % usizeSize + n) % usizeSize := by
      rw [Nat.mod_add_mod, Nat.add_assoc]
    refine ⟨record, q', popped, ?_⟩
    constructor
    · exact h.bits
    · rw [pushed]
      exact h.accepted
    · rw [taken]
      exact List.rel_append h.reported (.cons rfl .nil)
    · intro other mem
      refine h.small other ?_
      rw [pending]
      exact List.mem_cons_of_mem _ mem
    · exact Nat.mod_lt _ (by decide)
    · show r.shared.tail = _
      rw [h.tail, length, shift]
    · have := h.room
      show _ ≤ r.shared.capacity
      omega
    · have := h.holds
      rw [bytes] at this
      refine (holds_append.mp this).2.congr h.bits ?_
      exact (Nat.mod_mod _ _).symm
    · have good := h.producer
      revert good
      show ProducerGood r.shared (stream q.pending) r.producer → ProducerGood _ _ r.producer
      rcases r.producer with _ | ⟨record', done⟩
      · exact id
      · rintro ⟨small, fit, behind, front⟩
        refine ⟨small, ?_, behind, ?_⟩
        · show _ ≤ r.shared.capacity
          omega
        · rw [length] at front
          exact front.congr h.bits (shift _)
    · trivial

/-- The consumer has a buffer of `room` bytes. -/
def RoomIs (room : ℕ) : Pop → Prop
  | .idle => True
  | .reading room' _ _ => room' = room
  | .leaving room' _ _ => room' = room

theorem roomIs_readStep {s : Shared} {room' tail : ℕ} {got : Bytes} (h : room' = room) :
    RoomIs room (readStep s room' tail got) := by
  unfold readStep
  split
  · exact h
  · dsimp only
    split
    · trivial
    · split
      · exact h
      · split
        · exact h
        · exact h

/-- An access of a push under way. -/
theorem Good.pushing {done : ℕ} {last : Bool} (h : r.Good q)
    (writing : r.producer = .writing record done) (next : r.pushing = some (r', last)) :
    r'.consumer = r.consumer ∧ r'.shared.bits = r.shared.bits ∧
      if last then r'.Good (q.push record) ∧ r'.producer = .idle
      else r'.Good q ∧ r'.producer = .writing record (done + 1) := by
  unfold Ring.pushing at next
  split at next
  · rename_i r'' write
    cases next
    have good := h.write write
    simp only [step, writing] at write
    split at write
    · cases write
      exact ⟨rfl, rfl, good, rfl⟩
    · cases write
  · obtain ⟨r'', publish, eq⟩ := Option.map_eq_some_iff.mp next
    cases eq
    obtain ⟨record', good⟩ := h.publish publish
    simp only [step, writing] at publish
    split at publish
    · cases publish
      have same : record' = record := by
        have := good.accepted
        rw [Fifo.pushed_push, ← h.accepted] at this
        exact (List.singleton_inj.mp (List.append_cancel_left this)).symm
      rw [same] at good
      exact ⟨rfl, rfl, good, rfl⟩
    · cases publish

/-- What the ring holds after an access of `pop`. -/
def Popped (q : Fifo Bytes) (room : ℕ) (r' : Ring) : Popping → Prop
  | .more => r'.Good q
  | .empty => r'.Good q ∧ q.pending = []
  | .record bytes =>
    ∃ record q', q.pop? = some (record, q') ∧ bytes = report record room ∧ r'.Good q'

/-- An access of a pop. -/
theorem Good.popping {popping : Popping} (h : r.Good q) (room_is : RoomIs room r.consumer)
    (next : r.popping room = some (r', popping)) :
    r'.producer = r.producer ∧ r'.shared.bits = r.shared.bits ∧ RoomIs room r'.consumer ∧
      Popped q room r' popping := by
  unfold Ring.popping at next
  split at next
  · rename_i idle
    obtain ⟨r'', look, eq⟩ := Option.map_eq_some_iff.mp next
    cases eq
    have good := h.look look
    have emptied := h.look_iff look
    obtain ⟨same, bits, room_is'⟩ : r'.producer = r.producer ∧
        r'.shared.bits = r.shared.bits ∧ RoomIs room r'.consumer := by
      simp only [step, idle] at look
      split at look
      · cases look
        exact ⟨rfl, rfl, room_is⟩
      · cases look
        exact ⟨rfl, rfl, rfl⟩
    by_cases empty : r'.consumer = .idle
    · rw [if_pos empty]
      exact ⟨same, bits, room_is', good, emptied.mp empty⟩
    · rw [if_neg empty]
      exact ⟨same, bits, room_is', good⟩
  · rename_i reading
    obtain ⟨r'', read, eq⟩ := Option.map_eq_some_iff.mp next
    cases eq
    obtain ⟨good, some_⟩ := h.read read
    rw [if_neg some_]
    simp only [step, reading] at read
    cases read
    rw [reading] at room_is
    exact ⟨rfl, rfl, roomIs_readStep room_is, good⟩
  · rename_i leaving
    obtain ⟨r'', leave, eq⟩ := Option.map_eq_some_iff.mp next
    cases eq
    obtain ⟨record, q', popped, good⟩ := h.leave leave
    have at_ := h.consumer
    rw [leaving] at at_ room_is
    obtain ⟨record', rest, pending, -, rfl⟩ := at_
    obtain ⟨-, -, pending'⟩ := Fifo.pop?_some popped
    rw [pending'] at pending
    cases List.head_eq_of_cons_eq pending
    cases room_is
    simp only [step, leaving] at leave
    cases leave
    exact ⟨rfl, rfl, trivial, record, q', popped, rfl, good⟩

/-- A step of either thread is a step of the queue. -/
theorem good_step {a : Act} (h : r.Good q) (next : r.step a = some r') :
    ∃ q', Fifo.Next q q' ∧ r'.Good q' := by
  cases a with
  | offer record => exact ⟨q, .idle, h.offer next⟩
  | write => exact ⟨q, .idle, h.write next⟩
  | publish =>
    obtain ⟨record, good⟩ := h.publish next
    exact ⟨_, .push record, good⟩
  | look room => exact ⟨q, .idle, h.look next⟩
  | read => exact ⟨q, .idle, (h.read next).1⟩
  | leave =>
    obtain ⟨record, q', popped, good⟩ := h.leave next
    exact ⟨q', .pop popped, good⟩

theorem good_reachable {capacity : ℕ} (h : Reachable capacity r) : ∃ q, r.Good q := by
  induction h with
  | start => exact ⟨_, good_pair capacity⟩
  | step _ next ih =>
    obtain ⟨q, good⟩ := ih
    obtain ⟨q', -, good'⟩ := good_step good next
    exact ⟨q', good'⟩

theorem runs_cons {a : Act} {as : List Act} (run : r.runs (a :: as) = some r') :
    ∃ mid, r.step a = some mid ∧ mid.runs as = some r' := Option.bind_eq_some_iff.mp run

theorem Reachable.runs {capacity : ℕ} (h : Reachable capacity r) {as : List Act}
    (run : r.runs as = some r') : Reachable capacity r' := by
  induction as generalizing r with
  | nil =>
    cases run
    exact h
  | cons a as ih =>
    obtain ⟨mid, next, run⟩ := runs_cons run
    exact ih (h.step next) run

theorem Good.free (h : r.Good q) : r.shared.free + (stream q.pending).length = r.shared.capacity := by
  rw [Shared.free, h.used]
  exact Nat.sub_add_cancel h.room

/-- The consumer leaves everything but its own to the producer. -/
theorem step_consumes {a : Act} (consumes : a.consumes) (next : r.step a = some r') :
    r'.producer = r.producer ∧ r'.accepted = r.accepted ∧ r'.shared.tail = r.shared.tail ∧
      r'.shared.buf = r.shared.buf ∧ r'.shared.bits = r.shared.bits := by
  cases a with
  | offer _ => cases consumes
  | write => cases consumes
  | publish => cases consumes
  | look room =>
    simp only [step] at next
    split at next
    · split at next
      all_goals
        cases next
        exact ⟨rfl, rfl, rfl, rfl, rfl⟩
    · cases next
  | read =>
    simp only [step] at next
    split at next
    · cases next
      exact ⟨rfl, rfl, rfl, rfl, rfl⟩
    · cases next
  | leave =>
    simp only [step] at next
    split at next
    · cases next
      exact ⟨rfl, rfl, rfl, rfl, rfl⟩
    · cases next

/-- The consumer only ever makes room. -/
theorem free_le {a : Act} (h : r.Good q) (consumes : a.consumes) (next : r.step a = some r') :
    r.shared.free ≤ r'.shared.free := by
  obtain ⟨q', queue, good⟩ := good_step h next
  obtain ⟨-, same, -, -, bits⟩ := step_consumes consumes next
  have capacity : r'.shared.capacity = r.shared.capacity := congrArg (2 ^ ·) bits
  have before := h.free
  have after := good.free
  cases queue with
  | idle => omega
  | push record =>
    rw [h.accepted, good.accepted, Fifo.pushed_push] at same
    exact absurd same (by simp)
  | pop popped =>
    obtain ⟨-, -, pending⟩ := Fifo.pop?_some popped
    rw [pending, stream_cons, List.length_append] at before
    omega

theorem runs_free_le {as : List Act} (h : r.Good q) (consumes : ∀ a ∈ as, a.consumes)
    (run : r.runs as = some r') : r.shared.free ≤ r'.shared.free := by
  induction as generalizing r q with
  | nil =>
    cases run
    exact Nat.le_refl _
  | cons a as ih =>
    obtain ⟨mid, next, run⟩ := runs_cons run
    obtain ⟨q', -, good⟩ := good_step h next
    exact (free_le h (consumes a List.mem_cons_self) next).trans
      (ih good (fun a mem => consumes a (List.mem_cons_of_mem _ mem)) run)

/-- Between two pushes nothing is written. -/
theorem runs_idle {as : List Act} (idle : r.producer = .idle) (offers : ∀ a ∈ as, a.offers = false)
    (run : r.runs as = some r') :
    r'.accepted = r.accepted ∧ r'.shared.tail = r.shared.tail ∧ r'.shared.buf = r.shared.buf := by
  induction as generalizing r with
  | nil =>
    cases run
    exact ⟨rfl, rfl, rfl⟩
  | cons a as ih =>
    obtain ⟨mid, next, run⟩ := runs_cons run
    have rest (a) (mem : a ∈ as) := offers a (List.mem_cons_of_mem _ mem)
    by_cases consumes : a.consumes
    · obtain ⟨producer, accepted, tail, buf, -⟩ := step_consumes consumes next
      obtain ⟨accepted', tail', buf'⟩ := ih (producer.trans idle) rest run
      exact ⟨accepted'.trans accepted, tail'.trans tail, buf'.trans buf⟩
    · cases a with
      | offer _ => cases offers _ List.mem_cons_self
      | write =>
        simp only [step, idle] at next
        cases next
      | publish =>
        simp only [step, idle] at next
        cases next
      | look _ => exact absurd rfl consumes
      | read => exact absurd rfl consumes
      | leave => exact absurd rfl consumes

/-- A push that was begun ends with its record accepted. -/
theorem runs_writing {as : List Act} {done : ℕ} (writing : r.producer = .writing record done)
    (offers : ∀ a ∈ as, a.offers = false) (run : r.runs as = some r') (idle : r'.producer = .idle) :
    r'.accepted = r.accepted ++ [record] := by
  induction as generalizing r done with
  | nil =>
    cases run
    rw [writing] at idle
    cases idle
  | cons a as ih =>
    obtain ⟨mid, next, run⟩ := runs_cons run
    have rest (a) (mem : a ∈ as) := offers a (List.mem_cons_of_mem _ mem)
    by_cases consumes : a.consumes
    · obtain ⟨producer, accepted, -⟩ := step_consumes consumes next
      rw [ih (producer.trans writing) rest run, accepted]
    · cases a with
      | offer _ => cases offers _ List.mem_cons_self
      | write =>
        simp only [step, writing] at next
        split at next
        · cases next
          rw [ih rfl rest run]
        · cases next
      | publish =>
        simp only [step, writing] at next
        split at next
        · cases next
          exact (runs_idle rfl rest run).1
        · cases next
      | look _ => exact absurd rfl consumes
      | read => exact absurd rfl consumes
      | leave => exact absurd rfl consumes

/-- Each thread can always go on with what it began. -/
theorem proceeds (h : r.Good q) :
    (r.producer ≠ .idle → (r.step .write).isSome ∨ (r.step .publish).isSome) ∧
      (r.consumer ≠ .idle → (r.step .read).isSome ∨ (r.step .leave).isSome) := by
  constructor
  · intro busy
    rcases writing : r.producer with _ | ⟨record, done⟩
    · exact absurd writing busy
    · have good := h.producer
      rw [writing] at good
      obtain ⟨-, -, behind, -⟩ := good
      rcases Nat.lt_or_eq_of_le behind with lt | eq
      · left
        simp only [step, writing]
        rw [List.getElem?_eq_getElem lt]
        rfl
      · right
        simp only [step, writing]
        rw [if_pos eq]
        rfl
  · intro busy
    rcases reading : r.consumer with _ | ⟨_, _, _⟩ | ⟨_, _, _⟩
    · exact absurd reading busy
    · left
      simp only [step, reading]
      rfl
    · right
      simp only [step, reading]
      rfl

/-- **The ring is a queue of whole records.** What is popped is, in order, what was accepted, a record
longer than the buffer it is read into being dropped alone; a push has its whole record accepted or
writes nothing; and the room there is only grows until the next push. -/
theorem ring_fifo (capacity : ℕ) (h : Reachable capacity r) :
    (∃ popped pending, r.accepted = popped ++ pending ∧
      List.Forall₂ (fun record p => p.2 = report record p.1) popped r.reported ∧
      r.shared.free + (stream pending).length = r.shared.capacity ∧
      (∀ room r', r.step (.look room) = some r' → (r'.consumer = .idle ↔ pending = [])) ∧
      ∀ r', r.step .read = some r' → r'.consumer ≠ .idle) ∧
    (∀ record as r', r.runs (.offer record :: as) = some r' → (∀ a ∈ as, a.offers = false) →
      r'.producer = .idle →
      if record.length < u32Size ∧ ringHeader + record.length ≤ r.shared.free then
        r'.accepted = r.accepted ++ [record]
      else r'.accepted = r.accepted ∧ r'.shared.tail = r.shared.tail ∧
        r'.shared.buf = r.shared.buf) ∧
    ∀ as r', r.runs as = some r' → (∀ a ∈ as, a.consumes) → r.shared.free ≤ r'.shared.free := by
  obtain ⟨q, good⟩ := good_reachable h
  refine ⟨⟨q.popped, q.pending, ?_, good.reported, good.free, ?_, ?_⟩, ?_, ?_⟩
  · rw [q.popped_append_pending]
    exact good.accepted
  · intro room r' next
    exact good.look_iff next
  · exact fun r' next => (good.read next).2
  · intro record as r' run offers idle
    obtain ⟨mid, next, run⟩ := runs_cons run
    simp only [step] at next
    split at next
    · rename_i idle'
      split at next
      · rename_i fit
        cases next
        rw [if_pos ⟨fit.1, of_decide_eq_true fit.2⟩]
        have accepted := runs_writing rfl offers run idle
        exact accepted
      · rename_i unfit
        cases next
        rw [if_neg fun fit => unfit ⟨fit.1, decide_eq_true fit.2⟩]
        exact runs_idle idle' offers run
    · cases next
  · exact fun as r' run consumes => runs_free_le good consumes run

/-- A record of two bytes, dropped by a consumer with room for one. -/
theorem ring_fifo_dropped : ∃ r, (pair 16).runs
      ([.offer [7, 8]] ++ List.replicate 6 .write ++ [.publish, .look 1] ++
        List.replicate 5 .read ++ [.leave]) = some r ∧
    (∃ popped pending, [[7, 8]] = popped ++ pending ∧
      List.Forall₂ (fun record p => p.2 = report record p.1) popped [(1, [])] ∧
      r.shared.free + (stream pending).length = 16) := by
  obtain ⟨r, run, accepted, reported, capacity⟩ : ∃ r, (pair 16).runs
      ([.offer [7, 8]] ++ List.replicate 6 .write ++ [.publish, .look 1] ++
        List.replicate 5 .read ++ [.leave]) = some r ∧
      r.accepted = [[7, 8]] ∧ r.reported = [(1, [])] ∧ r.shared.capacity = 16 := by
    have good : (((pair 16).runs ([.offer [7, 8]] ++ List.replicate 6 .write ++
        [.publish, .look 1] ++ List.replicate 5 .read ++ [.leave])).map fun r =>
          (r.accepted, r.reported, r.shared.capacity)) = some ([[7, 8]], [(1, [])], 16) := by
      decide +kernel
    obtain ⟨r, run, eq⟩ := Option.map_eq_some_iff.mp good
    simp only [Prod.mk.injEq] at eq
    exact ⟨r, run, eq⟩
  have all := (ring_fifo 16 (Reachable.start.runs run)).1
  obtain ⟨popped, pending, eq, dropped, free, -⟩ := all
  rw [accepted] at eq
  rw [reported] at dropped
  rw [capacity] at free
  exact ⟨r, run, popped, pending, eq, dropped, free⟩

end Ring

end Fixbolt
