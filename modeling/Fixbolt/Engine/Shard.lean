import Fixbolt.Engine.Pumping

/-!
# Which shard takes a connection

A `Route` answers with the number of a shard when it is asked for the identity in a Logon. `HashRoute`
is the default: a stable hash of the two comp IDs. `handStarted` asks the route about a settled
connection and sends the connection to the thread of that shard.
-/

namespace Fixbolt

/-- A policy that may keep a state. -/
structure Route where
  State : Type
  shardFor : State → Identity → ℕ → ℕ × State

namespace HashRoute

def OFFSET : UInt64 := 0xcbf29ce484222325

def PRIME : UInt64 := 0x00000100000001b3

/-- One byte more. -/
def mix (h : UInt64) (b : UInt8) : UInt64 := (h ^^^ b.toUInt64) * PRIME

/-- FNV-1a of the two halves, with the separator of FIX between them. -/
def fnv1a (sender target : Bytes) : UInt64 := target.foldl mix (mix (sender.foldl mix OFFSET) SOH)

def shardFor (id : Identity) (shards : ℕ) : ℕ :=
  if shards = 0 then 0 else (fnv1a id.sender id.target).toNat % shards

end HashRoute

def hashRoute : Route := ⟨Unit, fun s id shards => (HashRoute.shardFor id shards, s)⟩

inductive ShardError where
  | noIdentity
  | badRoute (shard of : ℕ)
  | threadGone (shard : ℕ)
deriving DecidableEq, Repr

/-- A shard as its sender sees it: is its thread alive, and what was sent to it. -/
structure Shards.Sender (PRE : ℕ) where
  alive : Bool
  sent : List (Pending PRE)

/-- The shards that run, and the policy. -/
structure Shards (PRE : ℕ) where
  senders : List (Shards.Sender PRE)
  route : Route
  state : route.State

namespace Pending

variable {PRE : ℕ}

/-- Every byte read off the socket. -/
def bytes (p : Pending PRE) : Bytes := p.rx.buf

/-- Who a socket that has settled says it is, by its Logon. -/
def identity (p : Pending PRE) : Option Identity :=
  p.settled.bind fun (n, _) => identityOf (p.rx.bytes n)

end Pending

namespace Shards

variable {PRE : ℕ}

/-- Whom the route is asked about. -/
def asked (pending : Pending PRE) : Option Identity := identityOf pending.bytes

/-- Give a connection to the shard that the route names. -/
def handStarted (s : Shards PRE) (pending : Pending PRE) : Except ShardError ℕ × Shards PRE :=
  let of := s.senders.length
  match asked pending with
  | none => (.error .noIdentity, s)
  | some id =>
    let (shard, state) := s.route.shardFor s.state id of
    let s := { s with state := state }
    match s.senders[shard]? with
    | none => (.error (.badRoute shard of), s)
    | some sender =>
      if sender.alive then
        (.ok shard,
          { s with senders := s.senders.set shard { sender with sent := sender.sent ++ [pending] } })
      else (.error (.threadGone shard), s)

end Shards

end Fixbolt
