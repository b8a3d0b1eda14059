import Fixbolt.Session.Rebuild

/-!
# Cutting a byte stream into messages

`Framer.cut` reads no field but `9=`, and takes it at its word: where it says the body ends there is
a `10=`, or the whole buffer is rubbish. `Framer.reads` is the loop of a connection around it.
-/

namespace Fixbolt

/-- What the front of a buffer holds. -/
inductive Cut where
  /-- A whole message in the first `k` bytes. -/
  | message (k : ℕ)
  /-- The first `k` bytes are not a message and never will be. -/
  | garbage (k : ℕ)
  /-- Not enough bytes yet. -/
  | need
deriving DecidableEq, Repr

/-- A receive buffer of `n` bytes, as the bytes in it. -/
structure Framer (n : ℕ) where
  buf : Bytes
  within : buf.length ≤ n

/-- What the loop hands over. -/
inductive Frame where
  | message (bytes : Bytes)
  | garbage (bytes : Bytes)
deriving DecidableEq, Repr

namespace Framer

variable {n : ℕ}

/-- An empty buffer. -/
def new (n : ℕ) : Framer n := ⟨[], Nat.zero_le n⟩

/-- How many bytes the next read may bring. -/
def spare (f : Framer n) : ℕ := n - f.buf.length

/-- The bytes of a read behind those that are there; no more than there is room for. -/
def filled (f : Framer n) (got : Bytes) : Framer n := ⟨(f.buf ++ got).take n, List.length_take_le _ _⟩

/-- The first `k` bytes. -/
def bytes (f : Framer n) (k : ℕ) : Bytes := f.buf.take k

/-- Drop the first `k` bytes. -/
def take (f : Framer n) (k : ℕ) : Framer n :=
  ⟨f.buf.drop k, by
    rw [List.length_drop]
    exact Nat.le_trans (Nat.sub_le _ _) f.within⟩

/-- ASCII digits to a length, at most nine of them. -/
def number (text : Bytes) : Option ℕ :=
  if text.isEmpty ∨ 9 < text.length then none
  else text.foldlM (fun n b => (digitOf b).map fun d => n * 10 + d) 0

/-- What the front of the buffer holds. -/
def cut (f : Framer n) : Cut :=
  let len := f.buf.length
  -- A full buffer settles what can never become a message.
  let short := if len = n then Cut.garbage len else .need
  if len = 0 then .need
  else match findSub (SOH :: ascii "9=") f.buf with
    | none => short
    | some at_ =>
      let digits := f.buf.drop (at_ + 3)
      match digits.findIdx? (· == SOH) with
      | none => short
      | some end_ =>
        match number (digits.take end_) with
        | none => .garbage len
        | some bodyLen =>
          let stop := at_ + 3 + end_ + 1 + bodyLen
          if len < stop + 4 then if n < stop + 4 then .garbage len else .need
          else if (f.buf.drop stop).take 3 ≠ ascii "10=" then .garbage len
          else match (f.buf.drop (stop + 3)).findIdx? (· == SOH) with
            | some k => .message (stop + 3 + k + 1)
            | none => short

/-- Cut, hand over and take, until more bytes are needed. Every round takes at least one byte. -/
def loop : ℕ → Framer n → List Frame × Framer n
  | 0, f => ([], f)
  | fuel + 1, f =>
    match f.cut with
    | .need => ([], f)
    | .message k => ((.message (f.bytes k) :: (loop fuel (f.take k)).1), (loop fuel (f.take k)).2)
    | .garbage k => ((.garbage (f.bytes k) :: (loop fuel (f.take k)).1), (loop fuel (f.take k)).2)

/-- What reads of these bytes hand over, when each is within the room there is. -/
def reads (f : Framer n) : List Bytes → Option (List Frame × Framer n)
  | [] => some ([], f)
  | chunk :: chunks =>
    if f.spare < chunk.length then none
    else
      let (frames, f) := loop (n + 1) (f.filled chunk)
      (f.reads chunks).map fun (more, f) => (frames ++ more, f)

end Framer

end Fixbolt
