import Fixbolt.Engine.Connection
import Fixbolt.Engine.Presession
import Fixbolt.Lib.Sweep

/-!
# The engine: every connection, one after another

A turn of the engine walks over its connections and gives each one a turn of its own. Before a
connection's turn the engine counts the others of the same identity that are logged on, and when
there is one, a Logon on this connection is refused; whether bytes are a Logon is asked of the bytes.
Between turns connections are added, and a shutdown may be asked for: the next turn says goodbye to
every connection there is, and once all are gone, or their time is up, the engine reports.

A method of a connection is many steps (`Connection`), so a turn of the engine is too, and no two
connections run at once. What else the engine has a connection do (what an operator or an
application on another thread asked for, what the application says first, the end of a slow one) are
its other methods: they are begun whenever no other runs. The dispatch that connections share is
each one's `app`, which may change under the hands of another.

Left out: the clock of `turn`, which is given with each, the snapshots, the message log, the waiting
and waking, `mark_active`, and the events but for those of an ending.
-/

namespace Fixbolt

/-- Is this the same counterparty? -/
def Config.sameIdentityAs (cfg other : Config) : Bool :=
  cfg.beginString == other.beginString && cfg.senderCompId == other.senderCompId &&
    cfg.targetCompId == other.targetCompId

/-- Has a Logon been accepted? -/
def Session.isLoggedOn (s : Session) : Bool := s.state == .loggedOn

/-- The largest instant. -/
def u64Max : ℕ := 2 ^ 64 - 1

/-- A connection of the engine, under its id. -/
structure Member (A J : Type) (RX TX : ℕ) where
  id : ℕ
  conn : Connection A J RX TX
  /-- Was it there when the shutdown began? -/
  counted : Bool
  /-- Did the shutdown's Logout go out? -/
  told : Bool

namespace Member

variable {A J : Type} {RX TX : ℕ} (m : Member A J RX TX)

/-- The session of a member. -/
def ses : Session := m.conn.world.ses

/-- Does no method run? -/
def idle : Bool := m.conn.emitting.isEmpty && m.conn.todo.isEmpty

end Member

/-- The engine's own record of a shutdown in progress. -/
structure Stopping where
  deadlineMs : ℕ
  sessions : ℕ
  saidGoodbye : ℕ
  acked : ℕ
deriving DecidableEq, Repr

/-- What an ordered shutdown managed, and what it did not. -/
structure Shutdown where
  sessions : ℕ
  saidGoodbye : ℕ
  acked : ℕ
  timedOut : ℕ
deriving DecidableEq, Repr

/-- Every session that was told, answered. -/
def Shutdown.clean (s : Shutdown) : Bool := s.timedOut == 0 && s.acked == s.saidGoodbye

/-- A thread in the middle of `Admin::shutdown`. -/
inductive Caller where
  /-- The flag was down; the grace comes next. -/
  | grace (ms : ℕ)
  /-- The grace was stored; the flag comes next. -/
  | flag
deriving DecidableEq, Repr

/-- The cell that `Admin::shutdown` writes, and the threads that are writing it. -/
structure Request where
  stop : Bool
  graceMs : ℕ
  callers : List Caller
deriving DecidableEq, Repr

/-- What a connection's session continues. -/
inductive Start where
  | fresh (cfg : Config)
  | resumed (cfg : Config) (nextOut nextIn : ℕ) (lastActiveMs : Option ℕ)

/-- The session of a new connection. -/
def Start.session (P : Params) : Start → Session
  | fresh cfg => .new P cfg
  | resumed cfg nextOut nextIn none => .resume P cfg nextOut nextIn
  | resumed cfg nextOut nextIn (some at_) => .resumeAt P cfg nextOut nextIn at_

/-- Where the engine is. -/
inductive Phase where
  /-- Between turns. -/
  | idle
  /-- Saying goodbye, before the `i`-th connection. -/
  | goodbyes (i : ℕ)
  /-- In the loop, before the `i`-th connection. -/
  | turning (i : ℕ)
  /-- In the loop, and the `i`-th connection's turn has begun. -/
  | turned (i : ℕ)
  /-- `run` has returned. -/
  | stopped
deriving DecidableEq, Repr

/-- Can a method of the `i`-th connection begin, other than its turn? -/
def Phase.callable (i : ℕ) : Phase → Bool
  | idle | turning _ => true
  | turned j => i == j
  | goodbyes _ | stopped => false

/-- An engine, and what happened in it. -/
structure Engine (A J : Type) (RX TX : ℕ) where
  conns : List (Member A J RX TX)
  nextId : ℕ
  phase : Phase
  /-- The instant of this turn. -/
  nowMs : ℕ
  subMsNanos : ℕ
  request : Request
  stopping : Option Stopping
  report : Option Shutdown
  /-- The connections there were when the last turn began, and those given a turn since. -/
  present : List ℕ
  turns : List ℕ
  /-- The graces that were asked for. -/
  asked : List ℕ
  /-- The instant of the turn that saw a shutdown. -/
  seen : Option ℕ
  /-- The connections that ended, and why. -/
  ended : List (ℕ × Option DropReason)
  /-- Those that were taken out since a shutdown began, and those it closed in the end. -/
  left : List (Member A J RX TX)
  cut : List (Member A J RX TX)

namespace Engine

variable {A J : Type} {RX TX : ℕ}

/-- An engine with no connections. -/
def new : Engine A J RX TX where
  conns := []
  nextId := 0
  phase := .idle
  nowMs := 0
  subMsNanos := 0
  request := ⟨false, 0, []⟩
  stopping := none
  report := none
  present := []
  turns := []
  asked := []
  seen := none
  ended := []
  left := []
  cut := []

variable (P : Params) (e : Engine A J RX TX)

/-- Does no connection run a method? -/
def quiet : Bool := e.conns.all (·.idle)

/-- How many other connections of the identity of the `i`-th are logged on. -/
def othersOn (i : ℕ) : ℕ :=
  match e.conns[i]? with
  | none => 0
  | some mine =>
    (e.conns.eraseIdx i).countP fun c =>
      c.ses.isLoggedOn && c.ses.cfg.sameIdentityAs mine.ses.cfg

/-- Is this a Logon on a second connection of its identity? -/
def refuses (others : ℕ) (msg : Bytes) : Bool := decide (0 < others) && isLogon msg

/-- What an `Admin` asked for. -/
def stopAsked : Option ℕ := if e.request.stop then some e.request.graceMs else none

section Calls

variable [Application A] [Journal J]

/-- A connection that was just made, with the bytes that were read off its socket before. One whose
transport the deployment does not allow gets no session. -/
def opened (RX TX : ℕ) (world : World A J) (policy : Backpressure) (bytes : Bytes)
    (allowed : Bool) : Connection A J RX TX :=
  let c := ((Connection.new RX TX world policy).begin_ P (.prime bytes)).begin_ P .opened
  if allowed then c else c.begin_ P (.refuseWithoutASession .refusedByDeployment)

/-- Can the engine begin this method of a connection outside its turn? The numbers are `u32`s. -/
def calls : Connection.Act → Bool
  | .sendApplication _ | .slowApplication => true
  | .administer (.setNextOut n) | .administer (.setNextIn n) | .administer (.sendSequenceReset n) =>
    decide (n < u32Size)
  | _ => false

/-- Is this a step of a method that runs? -/
def goesOn : Connection.Act → Bool
  | .go | .wrote _ | .read _ _ => true
  | _ => false

/-- The `i`-th connection changes. -/
def put (i : ℕ) (m : Member A J RX TX) : Engine A J RX TX := { e with conns := e.conns.set i m }

/-- What can happen next. -/
inductive Act (A J : Type) where
  /-- A connection is added. -/
  | add (start : Start) (app : A) (journal : J) (policy : Backpressure) (bytes : Bytes)
      (allowed : Bool)
  /-- A method of the `i`-th connection begins. -/
  | call (i : ℕ) (method : Connection.Act)
  /-- The method that the `i`-th connection runs goes on. -/
  | go (i : ℕ) (step : Connection.Act)
  /-- The dispatch is not as the `i`-th connection left it. -/
  | share (i : ℕ) (app : A)
  /-- A turn begins. -/
  | turn (nowMs subMsNanos : ℕ)
  /-- The next goodbye, or the next connection's turn. -/
  | next
  /-- The turn of a connection is over. -/
  | outcome
  /-- `shutdown_finished` is asked, and answers. -/
  | finished (nowMs : ℕ)
  /-- `Admin::shutdown` looks at the flag. -/
  | asks (graceMs : ℕ)
  /-- The `k`-th thread goes on. -/
  | writes (k : ℕ)

/-- The beginning of a turn: has somebody asked for a shutdown? -/
def begin_ (nowMs subMsNanos : ℕ) : Engine A J RX TX :=
  let e := { e with nowMs := nowMs, subMsNanos := subMsNanos }
  match e.stopping, e.stopAsked with
  | none, some graceMs =>
    { e with
      stopping := some ⟨min (nowMs + graceMs) u64Max, 0, 0, 0⟩
      seen := some nowMs
      phase := .goodbyes 0 }
  | _, _ => { e with phase := .turning 0, present := e.conns.map (·.id), turns := [] }

/-- A goodbye to the `i`-th connection, or the loop. -/
def goodbye (i : ℕ) : Engine A J RX TX :=
  match e.conns[i]? with
  | none => { e with phase := .turning 0, present := e.conns.map (·.id), turns := [] }
  | some m =>
    let said := (m.conn.world.perform P (.beginLogoutWith shuttingDown)).2 == .up
    { e.put i { m with conn := m.conn.begin_ P .beginLogout, counted := true, told := said } with
      phase := .goodbyes (i + 1)
      stopping := e.stopping.map fun st =>
        { st with
          sessions := st.sessions + 1
          saidGoodbye := if said then st.saidGoodbye + 1 else st.saidGoodbye } }

/-- The turn of the `i`-th connection, or the end of the loop. -/
def turn (i : ℕ) : Engine A J RX TX :=
  match e.conns[i]? with
  | none => { e with phase := .idle }
  | some m =>
    let method := .turn e.nowMs e.subMsNanos (refuses (e.othersOn i))
    { e.put i { m with conn := m.conn.begin_ P method } with
      phase := .turned i
      turns := e.turns ++ [m.id] }

/-- The turn of the `i`-th connection is over. One that is gone is taken out. -/
def outcome (i : ℕ) (m : Member A J RX TX) : Engine A J RX TX :=
  if m.conn.gone then
    let why := m.ses.lastDropReason
    { e with
      conns := swapRemove e.conns i
      phase := .turning i
      ended := e.ended ++ [(m.id, why)]
      left := if e.stopping.isSome then e.left ++ [m] else e.left
      stopping := e.stopping.map fun st =>
        if why = some .peerLogout then { st with acked := st.acked + 1 } else st }
  else { e with phase := .turning (i + 1) }

/-- Has the shutdown finished? Whatever is left is closed. -/
def finish (st : Stopping) : Engine A J RX TX :=
  { e with
    conns := []
    phase := .stopped
    report := some ⟨st.sessions, st.saidGoodbye, st.acked, e.conns.length⟩
    ended := e.ended ++ e.conns.map fun m => (m.id, some .engineShutdown)
    cut := e.conns.map fun m =>
      { m with conn := m.conn.tell P (.noteDropReason .engineShutdown) } }

/-- One step. A method begins when no other runs. -/
def step : Act A J → Option (Engine A J RX TX)
  | .add start app journal policy bytes allowed =>
    if e.phase = .idle ∧ e.quiet ∧ bytes.length ≤ RX then
      let conn := opened P RX TX ⟨⟨start.session P, []⟩, app, journal⟩ policy bytes allowed
      some { e with
        conns := e.conns ++ [⟨e.nextId, conn, false, false⟩]
        nextId := e.nextId + 1 }
    else none
  | .call i method =>
    match e.conns[i]? with
    | none => none
    | some m =>
      if e.phase.callable i ∧ e.quiet ∧ calls method then
        some (e.put i { m with conn := m.conn.begin_ P method })
      else none
  | .go i step =>
    match e.conns[i]? with
    | none => none
    | some m =>
      if goesOn step then (m.conn.step P step).map fun conn => e.put i { m with conn := conn }
      else none
  | .share i app =>
    (e.conns[i]?).map fun m =>
      e.put i { m with conn := { m.conn with world := { m.conn.world with app := app } } }
  | .turn nowMs subMsNanos =>
    if e.phase = .idle ∧ e.quiet then some (e.begin_ nowMs subMsNanos) else none
  | .next =>
    if e.quiet then
      match e.phase with
      | .goodbyes i => some (e.goodbye P i)
      | .turning i => some (e.turn P i)
      | _ => none
    else none
  | .outcome =>
    match e.phase with
    | .turned i =>
      match e.conns[i]? with
      | none => none
      | some m => if e.quiet then some (e.outcome i m) else none
    | _ => none
  | .finished nowMs =>
    match e.stopping with
    | none => none
    | some st =>
      if e.phase = .idle ∧ e.quiet ∧ (e.conns.isEmpty ∨ st.deadlineMs ≤ nowMs) then
        some (e.finish P st)
      else none
  | .asks graceMs =>
    let e := { e with asked := graceMs :: e.asked }
    if e.request.stop then some e
    else some { e with
      request := { e.request with callers := e.request.callers ++ [.grace graceMs] } }
  | .writes k =>
    match e.request.callers[k]? with
    | none => none
    | some (.grace ms) =>
      some { e with
        request := ⟨e.request.stop, ms, e.request.callers.set k .flag⟩ }
    | some .flag =>
      some { e with
        request := ⟨true, e.request.graceMs, e.request.callers.eraseIdx k⟩ }

def runs (as : List (Act A J)) : Option (Engine A J RX TX) := as.foldlM (fun e a => e.step P a) e

/-- What a step does. -/
inductive Move (P : Params) (e : Engine A J RX TX) : Engine A J RX TX → Prop
  | added (start : Start) (app : A) (journal : J) (policy : Backpressure) (bytes : Bytes)
      (allowed : Bool) (between : e.phase = .idle) :
      Move P e { e with
        conns := e.conns ++ [⟨e.nextId,
          opened P RX TX ⟨⟨start.session P, []⟩, app, journal⟩ policy bytes allowed, false, false⟩]
        nextId := e.nextId + 1 }
  | called {i : ℕ} {m : Member A J RX TX} {method : Connection.Act} (there : e.conns[i]? = some m)
      (callable : e.phase.callable i) (quiet : e.quiet) (calls : calls method) :
      Move P e (e.put i { m with conn := m.conn.begin_ P method })
  | went {i : ℕ} {m : Member A J RX TX} {step : Connection.Act} {conn : Connection A J RX TX}
      (there : e.conns[i]? = some m) (goes : goesOn step) (took : m.conn.step P step = some conn) :
      Move P e (e.put i { m with conn := conn })
  | shared {i : ℕ} {m : Member A J RX TX} (app : A) (there : e.conns[i]? = some m) :
      Move P e (e.put i
        { m with conn := { m.conn with world := { m.conn.world with app := app } } })
  | began (nowMs subMsNanos : ℕ) (between : e.phase = .idle) (quiet : e.quiet) :
      Move P e (e.begin_ nowMs subMsNanos)
  | goodbye {i : ℕ} (at_ : e.phase = .goodbyes i) (quiet : e.quiet) : Move P e (e.goodbye P i)
  | turned {i : ℕ} (at_ : e.phase = .turning i) (quiet : e.quiet) : Move P e (e.turn P i)
  | outcome {i : ℕ} {m : Member A J RX TX} (at_ : e.phase = .turned i) (there : e.conns[i]? = some m)
      (quiet : e.quiet) : Move P e (e.outcome i m)
  | finished {nowMs : ℕ} {st : Stopping} (stopping : e.stopping = some st)
      (between : e.phase = .idle) (done : e.conns.isEmpty ∨ st.deadlineMs ≤ nowMs) :
      Move P e (e.finish P st)
  | asked (graceMs : ℕ) (callers : List Caller)
      (more : callers = e.request.callers ∨ callers = e.request.callers ++ [.grace graceMs]) :
      Move P e { e with
        asked := graceMs :: e.asked, request := { e.request with callers := callers } }
  | granted {k graceMs : ℕ} (there : e.request.callers[k]? = some (.grace graceMs)) :
      Move P e { e with request := ⟨e.request.stop, graceMs, e.request.callers.set k .flag⟩ }
  | raised {k : ℕ} (there : e.request.callers[k]? = some .flag) :
      Move P e { e with request := ⟨true, e.request.graceMs, e.request.callers.eraseIdx k⟩ }

theorem move_of_step {P : Params} {e e' : Engine A J RX TX} {a : Act A J}
    (took : e.step P a = some e') : Move P e e' := by
  cases a with
  | add start app journal policy bytes allowed =>
    obtain ⟨can, eq⟩ := Option.ite_none_right_eq_some.mp took
    exact Option.some.inj eq ▸ .added start app journal policy bytes allowed can.1
  | call i method =>
    simp only [step] at took
    split at took
    · exact nomatch took
    · rename_i m there
      obtain ⟨can, eq⟩ := Option.ite_none_right_eq_some.mp took
      exact Option.some.inj eq ▸ .called there can.1 can.2.1 can.2.2
  | go i method =>
    simp only [step] at took
    split at took
    · exact nomatch took
    · rename_i m there
      obtain ⟨goes, eq⟩ := Option.ite_none_right_eq_some.mp took
      obtain ⟨conn, went, rfl⟩ := Option.map_eq_some_iff.mp eq
      exact .went there goes went
  | share i app =>
    obtain ⟨m, there, rfl⟩ := Option.map_eq_some_iff.mp took
    exact .shared app there
  | turn nowMs subMsNanos =>
    obtain ⟨can, eq⟩ := Option.ite_none_right_eq_some.mp took
    exact Option.some.inj eq ▸ .began nowMs subMsNanos can.1 can.2
  | next =>
    obtain ⟨quiet, eq⟩ := Option.ite_none_right_eq_some.mp took
    split at eq
    · exact Option.some.inj eq ▸ .goodbye ‹_› quiet
    · exact Option.some.inj eq ▸ .turned ‹_› quiet
    · exact nomatch eq
  | outcome =>
    simp only [step] at took
    split at took
    · split at took
      · exact nomatch took
      · obtain ⟨quiet, eq⟩ := Option.ite_none_right_eq_some.mp took
        exact Option.some.inj eq ▸ .outcome ‹_› ‹_› quiet
    · exact nomatch took
  | finished nowMs =>
    simp only [step] at took
    split at took
    · exact nomatch took
    · obtain ⟨can, eq⟩ := Option.ite_none_right_eq_some.mp took
      exact Option.some.inj eq ▸ .finished ‹_› can.1 can.2.2
  | asks graceMs =>
    simp only [step] at took
    split at took
    · exact Option.some.inj took ▸ .asked graceMs e.request.callers (.inl rfl)
    · exact Option.some.inj took ▸ .asked graceMs _ (.inr rfl)
  | writes k =>
    simp only [step] at took
    split at took
    · exact nomatch took
    · exact Option.some.inj took ▸ .granted ‹_›
    · exact Option.some.inj took ▸ .raised ‹_›

end Calls

end Engine

end Fixbolt
