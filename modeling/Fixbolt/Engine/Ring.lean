import Fixbolt.Codec.Bytes
import Fixbolt.Lib.Fifo
import Fixbolt.Lib.LittleEndian
import Mathlib.Data.Nat.Log
import Mathlib.Logic.Function.Basic

/-!
# The ring between two threads

A single-producer, single-consumer queue of records over a shared buffer. `tail` and `head` count the
bytes ever written and ever read, as `usize` counts that wrap around; a record is four bytes of
length and its bytes, and may lie around the end of the buffer.

The two threads take turns one access at a time. `push` loads `head`, writes byte after byte and
stores `tail`; `pop` loads `tail`, reads byte after byte and stores `head`. A thread's loads of the
counter only it stores are part of its other steps.
-/

namespace Fixbolt

/-- The length prefix in front of every record. -/
def ringHeader : ℕ := 4

/-- The shared buffer of `2 ^ bits` bytes. -/
structure Shared where
  bits : ℕ
  buf : ℕ → UInt8
  /-- Bytes written, ever. -/
  tail : ℕ
  /-- Bytes read, ever. -/
  head : ℕ

namespace Shared

/-- How many bytes the buffer holds. -/
def capacity (s : Shared) : ℕ := 2 ^ s.bits

/-- What an index is masked with. -/
def mask (s : Shared) : ℕ := s.capacity - 1

def get (s : Shared) (at_ : ℕ) : UInt8 := s.buf (at_ &&& s.mask)

def put (s : Shared) (at_ : ℕ) (byte : UInt8) : Shared :=
  { s with buf := Function.update s.buf (at_ &&& s.mask) byte }

/-- `a - b` on counters that wrap around. -/
def wrappingSub (a b : ℕ) : ℕ := (a + usizeSize - b) % usizeSize

/-- How many bytes could still be written. -/
def free (s : Shared) : ℕ := s.capacity - wrappingSub s.tail s.head

end Shared

/-- What the producer is doing. -/
inductive Push where
  | idle
  /-- Writing a record that fits: its bytes with their length, and how many are written. -/
  | writing (record : Bytes) (done : ℕ)
deriving DecidableEq, Repr

/-- What the consumer is doing. -/
inductive Pop where
  | idle
  /-- Reading a record into a buffer of `room` bytes, up to the tail it loaded. -/
  | reading (room tail : ℕ) (got : Bytes)
  /-- About to store its head, with the bytes it answers: none when the record was longer than the
  buffer. -/
  | leaving (room next : ℕ) (result : Bytes)
deriving DecidableEq, Repr

/-- A ring with its two ends, the records `push` accepted and what `pop` reported of each record. -/
structure Ring where
  shared : Shared
  producer : Push
  consumer : Pop
  accepted : List Bytes
  reported : List (ℕ × Bytes)

namespace Ring

/-- A record as the ring holds it. -/
def framed (record : Bytes) : Bytes := toLe ringHeader record.length ++ record

/-- Two ends of one queue of at least `capacity` bytes, rounded up to a power of two. No allocation
is larger than half of what a `usize` counts, and rounding up from there gives one byte. -/
def pair (capacity : ℕ) : Ring where
  shared :=
    { bits := if capacity ≤ usizeSize / 2 then Nat.clog 2 capacity else 0
      buf := fun _ => 0, tail := 0, head := 0 }
  producer := .idle
  consumer := .idle
  accepted := []
  reported := []

/-- What a thread can do next. -/
inductive Act where
  /-- The producer asks whether a record fits, and begins to write it if it does. -/
  | offer (record : Bytes)
  /-- The producer writes one byte. -/
  | write
  /-- The producer stores its tail. -/
  | publish
  /-- The consumer loads the tail, with a buffer of `room` bytes for the record. -/
  | look (room : ℕ)
  /-- The consumer reads one byte, or has read enough. -/
  | read
  /-- The consumer stores its head. -/
  | leave
deriving DecidableEq, Repr

/-- Would a record of `len` bytes be accepted? -/
def fits (s : Shared) (len : ℕ) : Bool := ringHeader + len ≤ s.free

/-- What the consumer does next with the bytes it has. -/
def readStep (s : Shared) (room tail : ℕ) (got : Bytes) : Pop :=
  if got.length < ringHeader then .reading room tail (got ++ [s.get (s.head + got.length)])
  else
    let len := ofLe (got.take ringHeader)
    if Shared.wrappingSub tail ((s.head + ringHeader) % usizeSize) < len then .idle
    else if room < len then .leaving room ((s.head + ringHeader + len) % usizeSize) []
    else if got.length < ringHeader + len then
      .reading room tail (got ++ [s.get (s.head + got.length)])
    else .leaving room ((s.head + ringHeader + len) % usizeSize) (got.drop ringHeader)

/-- One step, when it is the next of its thread. -/
def step (r : Ring) : Act → Option Ring
  | .offer record =>
    match r.producer with
    | .idle =>
      if record.length < u32Size ∧ fits r.shared record.length then
        some { r with producer := .writing record 0 }
      else some r
    | _ => none
  | .write =>
    match r.producer with
    | .writing record done =>
      match (framed record)[done]? with
      | some byte =>
        some { r with
          shared := r.shared.put (r.shared.tail + done) byte
          producer := .writing record (done + 1) }
      | none => none
    | .idle => none
  | .publish =>
    match r.producer with
    | .writing record done =>
      if done = (framed record).length then
        some { r with
          shared := { r.shared with tail := (r.shared.tail + done) % usizeSize }
          producer := .idle
          accepted := r.accepted ++ [record] }
      else none
    | .idle => none
  | .look room =>
    match r.consumer with
    | .idle =>
      if Shared.wrappingSub r.shared.tail r.shared.head < ringHeader then some r
      else some { r with consumer := .reading room r.shared.tail [] }
    | _ => none
  | .read =>
    match r.consumer with
    | .reading room tail got => some { r with consumer := readStep r.shared room tail got }
    | _ => none
  | .leave =>
    match r.consumer with
    | .leaving room next result =>
      some { r with
        shared := { r.shared with head := next }
        consumer := .idle
        reported := r.reported ++ [(room, result)] }
    | _ => none

/-- A run, step by step. -/
def runs (r : Ring) (as : List Act) : Option Ring := as.foldlM step r

/-- The next access of a push under way, and whether it was the last. -/
def pushing (r : Ring) : Option (Ring × Bool) :=
  match r.step .write with
  | some r' => some (r', false)
  | none => (r.step .publish).map fun r' => (r', true)

/-- What an access of `pop` came to. -/
inductive Popping where
  | more
  /-- `pop` found no record. -/
  | empty
  | record (bytes : Bytes)
deriving DecidableEq, Repr

/-- The next access of `pop`, with a buffer of `room` bytes. -/
def popping (room : ℕ) (r : Ring) : Option (Ring × Popping) :=
  match r.consumer with
  | .idle => (r.step (.look room)).map fun r' => (r', if r'.consumer = .idle then .empty else .more)
  | .reading _ _ _ => (r.step .read).map fun r' => (r', if r'.consumer = .idle then .empty else .more)
  | .leaving _ _ bytes => (r.step .leave).map fun r' => (r', .record bytes)

/-- Is it a step of the consumer? -/
def Act.consumes : Act → Bool
  | .look _ | .read | .leave => true
  | _ => false

/-- Does it begin a push? -/
def Act.offers : Act → Bool
  | .offer _ => true
  | _ => false

/-- The states of a ring that two threads share. -/
inductive Reachable (capacity : ℕ) : Ring → Prop
  | start : Reachable capacity (pair capacity)
  | step {r r' : Ring} {a : Act} (h : Reachable capacity r) (next : r.step a = some r') :
      Reachable capacity r'

end Ring

end Fixbolt
