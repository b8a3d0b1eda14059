import Fixbolt.Engine.Reconnect

/-!
# The loop that keeps an initiator connected

`iterate` is one round of `dial_loop`: when nothing is connected it tells the policy of an ending,
dials if the policy says so, and asks a socket whose handshake goes on how it stands; then the engine
has its turn. What the network, the clock, the handshake, the recovery and the engine's sessions do
in a round is its `Round`.

`hist` remembers the attempts to connect, what the policy was told, and the sessions that logged on.
Left out: what a recovered session continues from, the reports of a refused handshake, and what an
idle round waits on.
-/

namespace Fixbolt

/-- What became of an attempt to connect. -/
inductive Dial where
  | refused
  /-- Connected, but no transport could be made of the socket. -/
  | unwrapped
  | connected
deriving DecidableEq, Repr

/-- How far a handshake is. -/
inductive Handshake where
  | ready
  | pending
  | failed
deriving DecidableEq, Repr

/-- What happens in one round, as far as it is asked. -/
structure Round where
  nowMs : ℕ
  dial : Dial
  handshake : Handshake
  /-- Does the recovery say it can go on? -/
  recovered : Bool
  /-- Does the engine take the connection? -/
  added : Bool
  /-- Of each connection: is its session logged on after the turn, and is it gone? -/
  turned : List (Bool × Bool)
  /-- Has a shutdown finished? -/
  finished : Bool
deriving DecidableEq, Repr

/-- What a policy is told. -/
inductive Told where
  | dropped (nowMs : ℕ)
  | loggedOn
deriving DecidableEq, Repr

/-- Tell it. -/
def Told.tell (p : Policy) : Told → Policy
  | dropped nowMs => p.dropped nowMs
  | loggedOn => p.loggedOn

/-- What the loop did. -/
inductive Dialed where
  /-- An attempt to connect. -/
  | dial (nowMs : ℕ)
  | told (what : Told)
  /-- A session that was not logged on is. -/
  | up
deriving DecidableEq, Repr

/-- The loop, between two rounds. -/
structure Dialer where
  policy : Policy
  /-- `LogonTimeout`, 0 for none. -/
  handshakeMs : ℕ
  /-- The engine's connections: is the session logged on? -/
  connections : List Bool
  /-- How many sessions logged on, as the engine counts them. -/
  engineLogons : ℕ
  logons : ℕ
  up : Bool
  /-- When the socket was connected whose handshake is not decided. -/
  handshaking : Option ℕ
  parked : Bool
  askedMs : Option ℕ
  /-- Has the loop returned? -/
  returned : Bool
  hist : List Dialed
deriving DecidableEq

namespace Dialer

/-- Before the first round, over an engine without connections. -/
def new (policy : Policy) (handshakeMs : ℕ) : Dialer where
  policy := policy
  handshakeMs := handshakeMs
  connections := []
  engineLogons := 0
  logons := 0
  up := false
  handshaking := none
  parked := false
  askedMs := none
  returned := false
  hist := []

variable (d : Dialer)

def note (e : Dialed) : Dialer := { d with hist := d.hist ++ [e] }

/-- The policy is told something. -/
def tell (what : Told) : Dialer := { d.note (.told what) with policy := what.tell d.policy }

/-- `policy.dropped(now)`. -/
def dropped (nowMs : ℕ) : Dialer := d.tell (.dropped nowMs)

/-- A connection that is gone is an ending. -/
def ending (nowMs : ℕ) : Dialer := if d.up then { d.dropped nowMs with up := false } else d

/-- An attempt to connect. -/
def connect (nowMs : ℕ) (dial : Dial) : Dialer :=
  let d := d.note (.dial nowMs)
  match dial with
  | .connected => { d with handshaking := some nowMs }
  | .unwrapped | .refused => d.dropped nowMs

/-- Dial, if the policy says so and no handshake goes on. -/
def attempt (nowMs : ℕ) (dial : Dial) : Dialer :=
  match d.handshaking with
  | some _ => d
  | none =>
    match d.policy.next nowMs with
    | .stop => { d with returned := true }
    | .at_ _ => d
    | .now => d.connect nowMs dial

/-- Ask the recovery, at most once in a millisecond. -/
def dialReady (nowMs : ℕ) (recovered : Bool) : Bool × Dialer :=
  if d.askedMs.any fun at_ => nowMs ≤ at_ then (false, d)
  else (recovered, { d with askedMs := some nowMs })

/-- Is the time of a handshake that began at `since` up? -/
def late (nowMs since : ℕ) : Bool := d.handshakeMs ≠ 0 ∧ d.handshakeMs ≤ nowMs - since

/-- The socket whose handshake goes on, if there is one. -/
def decide_ (r : Round) : Dialer :=
  match d.handshaking with
  | none => d
  | some since =>
    let d := { d with handshaking := none }
    match r.handshake with
    | .ready =>
      let (ready, d) := d.dialReady r.nowMs r.recovered
      if !ready then
        if d.late r.nowMs since then
          { d with parked := false, askedMs := none }.dropped r.nowMs
        else { d with parked := true, handshaking := some since }
      else
        let d := { d with parked := false, askedMs := none }
        if r.added then { d with connections := d.connections ++ [false], up := true }
        else d.dropped r.nowMs
    | .pending =>
      if d.late r.nowMs since then d.dropped r.nowMs else { d with handshaking := some since }
    | .failed => d.dropped r.nowMs

/-- The connections after a turn, and how many sessions logged on in it. One that says nothing of
itself stays as it was. -/
def turned : List Bool → List (Bool × Bool) → List Bool × ℕ
  | [], _ => ([], 0)
  | was :: rest, answers =>
    let (on, gone) := answers.head?.getD (was, false)
    let (left, ups) := turned rest answers.tail
    (if gone then left else on :: left, if on && !was then ups + 1 else ups)

/-- The engine's turn, and what the loop makes of it. -/
def turn (r : Round) : Dialer :=
  let (left, ups) := turned d.connections r.turned
  let d := { d with
    connections := left
    engineLogons := saturatingAdd d.engineLogons ups
    hist := d.hist ++ List.replicate ups .up
    up := d.up || !left.isEmpty }
  let d := if d.engineLogons ≠ d.logons then
      { d with logons := d.engineLogons }.tell .loggedOn
    else d
  if r.finished then { d with returned := true } else d

/-- One round of the loop. -/
def iterate (r : Round) : Dialer :=
  if d.returned then d
  else if d.connections.isEmpty then
    let d := (d.ending r.nowMs).attempt r.nowMs r.dial
    if d.returned then d else (d.decide_ r).turn r
  else d.turn r

def run (rs : List Round) : Dialer := rs.foldl iterate d

end Dialer

end Fixbolt
