import Fixbolt.Session.Judge

/-!
# The session driven from outside

The entry points of the source: connecting and disconnecting, the clock, received bytes and the
held queue, what an operator or an application orders the session to say. `perform` is one call,
and `Reachable` is every world that calls lead to from a session that was just made.
-/

namespace Fixbolt

namespace Session

/-- Restart both counts when a schedule boundary passed since the last activity. -/
def rolls (s : Session) (nowMs : ℕ) : Bool :=
  s.sessionMark.any fun mark => !s.cfg.schedule.sameSession mark nowMs

/-- The session after the boundary check at the top of a tick. -/
def rolled (s : Session) (nowMs : ℕ) : Session :=
  if s.rolls nowMs then
    { s with
      nextOut := 1, nextIn := 1, resendFrom := 0, resendTo := 0, owed := none
      sessionMark := some nowMs }
  else { s with sessionMark := some nowMs }

/-- The session on a new connection. A resumed one keeps its counts. -/
def connected (P : Params) (s : Session) : Session :=
  let restarts := !s.resumed || s.cfg.reset.onLogon
  { s with
    state := if P.speaksFirst then .mustLogon else .awaitingLogon
    lastDropReason := none
    awaitingLogonSinceMs := none
    loggingOutSinceMs := none
    nextOut := if restarts then 1 else s.nextOut
    nextIn := if restarts then 1 else s.nextIn }

/-- The slots of the Logon that opens a connection. -/
def openingSlots (s : Session) : List (ℕ × Bytes) :=
  [(98, ascii "0"), (108, renderU32 s.cfg.heartBtInt)] ++
    (if s.cfg.nextExpected then [(789, renderU32 s.nextIn)] else []) ++
    (s.cfg.applVerIdHeld.map fun v => (1137, v)).toList

/-- The session with one slot of its queue free. The bytes stay where they are. -/
def release (s : Session) (i : ℕ) : Session :=
  { s with queue := s.queue.modify i fun q => { q with seq := 0 } }

end Session

/-- Are the numbers of a call `u32`s? -/
def Call.fits : Call → Bool
  | .sendResendRequest from_ upTo => decide (from_ < u32Size ∧ upTo < u32Size)
  | .setNextOut n | .setNextIn n | .sendSequenceReset n | .sendSequenceResetWith n =>
    decide (n < u32Size)
  | _ => true

namespace Scene

variable (P : Params)

/-! ### The connection -/

/-- A connection was made. -/
def connect (w : Scene) : Scene × Link :=
  let restarts := !w.ses.resumed || w.ses.cfg.reset.onLogon
  let w := w.upd (·.connected P)
  (if restarts then w.logRestart else w, .up)

/-- The transport reported the connection gone, or the engine closes it. -/
def disconnectWith (w : Scene) (why : DropReason) : Scene × Link :=
  if w.ses.lastDropReason = none then (w.endSession why, .dropped)
  else (w.upd fun s => { s with state := .disconnected }, .dropped)

/-! ### The clock -/

/-- A boundary that passed while this end was asleep restarts both counts. -/
def roll (w : Scene) (nowMs : ℕ) : Scene :=
  let rolled := w.upd (·.rolled nowMs)
  if w.ses.rolls nowMs then rolled.logRestart else rolled

/-- The deadline of a Logon that does not come. -/
def tickAwaitingLogon (w : Scene) (nowMs : ℕ) : Scene × Link :=
  let since := w.ses.awaitingLogonSinceMs.getD nowMs
  let w := w.upd fun s => { s with awaitingLogonSinceMs := some since }
  if w.ses.cfg.logonTimeoutMs ≠ 0 ∧ w.ses.cfg.logonTimeoutMs ≤ nowMs - since then
    (w.endSession .logonTimedOut, .dropped)
  else (w, .up)

/-- This end owes the Logon, and now has a clock to date it with. -/
def tickMustLogon (w : Scene) (nowMs : ℕ) : Scene × Link :=
  let w := w.upd fun s =>
    { s with state := .awaitingLogon, beatMs := s.cfg.heartBtInt * 1000, lastRecvMs := nowMs }
  (w.trySend P .logon w.ses.openingSlots, .up)

/-- The heartbeat rules. -/
def tickHeartbeat (w : Scene) (nowMs : ℕ) : Scene × Link :=
  if w.ses.beatMs = 0 then (w, .up)
  else
    let beat := w.ses.beatMs
    let quiet := nowMs - w.ses.lastRecvMs
    let silent := nowMs - w.ses.lastSentMs
    if beat * 24 / 10 ≤ quiet then (w.endSession .heartbeatTimeout, .dropped)
    else
      let w :=
        if beat * 12 * wrapU32 (w.ses.testRequests + 1) / 10 ≤ quiet then
          (w.upd fun s => { s with testRequests := wrapU32 (s.testRequests + 1) }).trySend P
            .testRequest [(112, ascii "TEST")]
        else w
      if w.ses.testRequests = 0 ∧ beat ≤ silent then (w.trySend P .heartbeat [], .up) else (w, .up)

/-- A live session: the deadline of its own Logout, then the heartbeat rules. -/
def tickLive (w : Scene) (nowMs : ℕ) : Scene × Link :=
  if w.ses.state = .loggingOut then
    let since := w.ses.loggingOutSinceMs.getD nowMs
    let w := w.upd fun s => { s with loggingOutSinceMs := some since }
    if w.ses.cfg.logoutTimeoutMs ≠ 0 ∧ w.ses.cfg.logoutTimeoutMs ≤ nowMs - since then
      (w.endSession .logoutTimedOut, .dropped)
    else w.tickHeartbeat P nowMs
  else w.tickHeartbeat P nowMs

/-- The window shut on a live session. -/
def closeSchedule (w : Scene) : Scene × Link :=
  ((w.trySend P .logout []).upd fun s =>
    { s with lastDropReason := some .scheduleClosed, state := .awaitingLogout }, .dropped)

/-- One tick, after the boundary check. -/
def tickRolled (w : Scene) (nowMs : ℕ) : Scene × Link :=
  if w.ses.state = .loggedOn ∧ !w.ses.cfg.schedule.contains nowMs then w.closeSchedule P
  else match w.ses.state with
    | .disconnected | .awaitingLogout => (w, .dropped)
    | .awaitingLogon => w.tickAwaitingLogon nowMs
    | .mustLogon => w.tickMustLogon P nowMs
    | .loggedOn | .loggingOut => w.tickLive P nowMs

/-- One tick, from the boundary check on. -/
def tickInner (w : Scene) (nowMs : ℕ) : Scene × Link :=
  ((w.upd fun s => { s with nowMs := nowMs }).roll nowMs).tickRolled P nowMs

/-- How finely the clock of the next tick is read. -/
def setResolution (w : Scene) (subMsNanos : ℕ) (resolution : Precision) : Scene :=
  w.upd fun s => { s with nowSubMsNanos := subMsNanos, nowResolution := resolution }

/-- The clock moved, in milliseconds; a replay is not moved forward. -/
def tick (w : Scene) (nowMs : ℕ) : Scene × Link :=
  (w.setResolution 0 .millis).tickInner P nowMs

/-- The clock moved, finer than milliseconds. -/
def tickAt (w : Scene) (nowMs subMsNanos : ℕ) : Scene × Link :=
  (w.setResolution subMsNanos .nanos).tickInner P nowMs

/-! ### What the session is ordered to say -/

/-- Order one of the session's own messages on a session that is logged on. -/
def sendOrdered (w : Scene) (which : Which) (extra : List (ℕ × Bytes)) : Scene × Bool :=
  if w.ses.state ≠ .loggedOn then (w, false)
  else match w.send P which extra with
    | some w => (w, true)
    | none => (w, false)

/-- Order a Heartbeat. -/
def sendHeartbeat (w : Scene) : Scene × Bool := w.sendOrdered P .heartbeat []

/-- Order a TestRequest. -/
def sendTestRequest (w : Scene) (id : Bytes) : Scene × Bool :=
  w.sendOrdered P .testRequest [(112, id)]

/-- Order a ResendRequest. -/
def sendResendRequest (w : Scene) (from_ upTo : ℕ) : Scene × Bool :=
  w.sendOrdered P .resendRequest [(7, renderU32 from_), (16, renderU32 upTo)]

/-- Set the next number out. -/
def setNextOut (w : Scene) (n : ℕ) : Scene × Bool :=
  if n = 0 then (w, false) else (w.upd fun s => { s with nextOut := n }, true)

/-- Set the next number in. -/
def setNextIn (w : Scene) (n : ℕ) : Scene × Bool :=
  if n = 0 then (w, false) else (w.upd fun s => { s with nextIn := n }, true)

/-- Tell the counterparty a new number, and take it. -/
def sendSequenceReset (w : Scene) (n : ℕ) : Scene × Bool :=
  if n = 0 then (w, false)
  else match w.sendAs P .gapFill none [(36, renderU32 n), (123, ascii "N")] with
    | none => (w, false)
    | some w => (w.upd fun s => { s with nextOut := n }, true)

end Scene

namespace World

variable (P : Params) {A J : Type}

section Journal

variable [Journal J]

/-- One tick, and the next batch of a replay. -/
def tickAfterInner (w : World A J) (nowMs : ℕ) : World A J × Link :=
  let (w, link) := w.lift (·.tickInner P nowMs)
  w.lift (·.advanceReplay P w.journal link)

/-- Tell the journal after a call. -/
def thenTell (r : World A J × Link) : World A J × Link := (r.1.tellJournal, r.2)

/-- `tick`, with the journal at hand. -/
def tickWith (w : World A J) (nowMs : ℕ) : World A J × Link :=
  thenTell (({ w with toScene := w.setResolution 0 .millis }).tickAfterInner P nowMs)

/-- `tickAt`, with the journal at hand. -/
def tickAtWith (w : World A J) (nowMs subMsNanos : ℕ) : World A J × Link :=
  thenTell (({ w with toScene := w.setResolution subMsNanos .nanos }).tickAfterInner P nowMs)

end Journal

/-! ### Received bytes -/

section Receive

variable [Application A] [Journal J]

/-- Judge, and end the session on a refusal. -/
def judgeOrEnd (w : World A J) (bytes : Bytes) : World A J × Link :=
  match w.judge P bytes with
  | (w, .ok link) => (w, link)
  | (w, .error why) => w.lift fun c => (c.endSession why.toDropReason, .dropped)

/-- Free the slot of a held message. -/
def release (w : World A J) (i : ℕ) : World A J :=
  { w with ses := w.ses.release i }

/-- Judge the held messages whose turn has come, at most as many as there are slots. -/
def drain : ℕ → World A J → World A J × Link
  | 0, w => (w, .up)
  | rounds + 1, w =>
    match w.ses.queue.findIdx? fun q => q.seq == w.ses.nextIn with
    | none => (w, .up)
    | some i =>
      match (w.release i).judgeOrEnd P ((w.ses.queue[i]?.map (·.bytes)).getD []) with
      | (w, .dropped) => (w, .dropped)
      | (w, .up) => drain rounds w

/-- Received bytes, up to what the journal is told. -/
def receivedInner (w : World A J) (bytes : Bytes) : World A J × Link :=
  if w.ses.state = .disconnected ∨ w.ses.state = .awaitingLogout then (w, .dropped)
  else match w.judgeOrEnd P bytes with
    | (w, .dropped) => (w, .dropped)
    | (w, .up) =>
      let (w, link) := w.drain P queued
      w.lift (·.advanceReplay P w.journal link)

/-- Tell the journal the highest number consumed. -/
def markIn (w : World A J) : World A J :=
  if 1 < w.ses.nextIn then { w with journal := Journal.markIn w.journal (w.ses.nextIn - 1) } else w

/-- Received bytes. -/
def receivedWith (w : World A J) (bytes : Bytes) : World A J × Link :=
  let (w, link) := w.receivedInner P bytes
  thenTell (w.markIn, link)

/-- Received bytes, with no application and no journal. -/
def received (w : World A J) (bytes : Bytes) : World A J × Link :=
  let alone : World Silent NoJournal := ⟨w.toScene, .silent, .noJournal⟩
  let (r, link) := alone.receivedWith P bytes
  ({ w with toScene := r.toScene }, link)

end Receive

/-- Lay out and send a message of the application under the next number. -/
def sendApplication [Journal J] (w : World A J) (msg : Bytes) : World A J × Link :=
  if w.ses.state ≠ .loggedOn then (w, .up)
  else if w.ses.out.isNone then (w, .up)
  else
    let seq := w.ses.nextOut
    let lastProcessed := if w.ses.cfg.lastProcessed then some w.ses.lastIn else none
    match rebuild P.dict.toDictionary P.appScratch msg (some (renderU32 seq)) w.ses.stampNow
        lastProcessed false with
    | none => (w, .up)
    | some bytes =>
      let (journal, kept) := Journal.put w.journal seq bytes
      let w : World A J :=
        { w with
          ses := w.ses.spent kept
          journal := journal
          hist := .emitted (.originated seq bytes) :: .stored seq bytes kept :: w.hist }
      (w.tellJournal, .up)


/-! ### Runs -/

section Run

variable [Application A] [Journal J]

/-- What a call does, and whether the link is still up. -/
def dispatch (w : World A J) : Call → World A J × Link
  | .connect => w.lift (·.connect P)
  | .disconnect => w.lift (·.disconnectWith .transportClosed)
  | .disconnectWith why => w.lift (·.disconnectWith why)
  | .noteDropReason why => w.lift fun c => (c.upd (·.noteDropReason why), .up)
  | .tick nowMs => w.lift (·.tick P nowMs)
  | .tickAt nowMs subMsNanos => w.lift (·.tickAt P nowMs subMsNanos)
  | .tickWith nowMs => w.tickWith P nowMs
  | .tickAtWith nowMs subMsNanos => w.tickAtWith P nowMs subMsNanos
  | .received bytes => w.received P bytes
  | .receivedWith bytes => w.receivedWith P bytes
  | .sendApplication msg => w.sendApplication P msg
  | .sendHeartbeat => w.lift fun c => ((c.sendHeartbeat P).1, .up)
  | .sendTestRequest id => w.lift fun c => ((c.sendTestRequest P id).1, .up)
  | .sendResendRequest from_ upTo => w.lift fun c => ((c.sendResendRequest P from_ upTo).1, .up)
  | .beginLogout text => w.lift (·.beginLogout P text)
  | .beginLogoutWith text => thenTell (w.lift (·.beginLogout P text))
  | .logoutNow text => w.lift (·.logoutNow P text)
  | .logoutNowWith text => thenTell (w.lift (·.logoutNow P text))
  | .setNextOut n => w.lift fun c => ((c.setNextOut n).1, .up)
  | .setNextIn n => w.lift fun c => ((c.setNextIn n).1, .up)
  | .sendSequenceReset n => w.lift fun c => ((c.sendSequenceReset P n).1, .up)
  | .sendSequenceResetWith n => thenTell (w.lift fun c => ((c.sendSequenceReset P n).1, .up))

/-- One call. -/
def perform (w : World A J) (c : Call) : World A J × Link :=
  ({ w with hist := .called w.ses c :: w.hist } : World A J).dispatch P c

/-- A run of calls. -/
def run (w : World A J) (cs : List Call) : World A J := cs.foldl (fun w c => (w.perform P c).1) w

/-- A session that was just made: new, or resumed from numbers that count from 1. -/
inductive Initial (P : Params) : Session → Prop
  | new (cfg : Config) : Initial P (.new P cfg)
  | resume (cfg : Config) {nextOut nextIn : ℕ} (out : 1 ≤ nextOut ∧ nextOut < u32Size)
      (in_ : 1 ≤ nextIn ∧ nextIn < u32Size) : Initial P (.resume P cfg nextOut nextIn)
  | resumeAt (cfg : Config) {nextOut nextIn : ℕ} (lastActiveMs : ℕ)
      (out : 1 ≤ nextOut ∧ nextOut < u32Size) (in_ : 1 ≤ nextIn ∧ nextIn < u32Size) :
      Initial P (.resumeAt P cfg nextOut nextIn lastActiveMs)

/-- The worlds that calls lead to. -/
inductive Reachable (P : Params) : World A J → Prop
  | init {s : Session} (h : Initial P s) (app : A) (journal : J) : Reachable P ⟨⟨s, []⟩, app, journal⟩
  | step {w : World A J} (h : Reachable P w) (c : Call) (fits : c.fits) :
    Reachable P (w.perform P c).1

/-- Calls lead from a reachable world to a reachable world. -/
theorem Reachable.run {w : World A J} (h : Reachable P w) (cs : List Call)
    (fits : ∀ c ∈ cs, c.fits) : Reachable P (w.run P cs) := by
  induction cs generalizing w with
  | nil => exact h
  | cons c cs ih =>
    exact ih (h.step c (fits c (by simp))) fun d hd => fits d (by simp [hd])

end Run

end World

end Fixbolt
