import Fixbolt.Session.Rebuild
import Fixbolt.Session.Validate

/-!
# The state of a session, its surroundings, and its history

`Session` is the record of the source less its buffers. A `Scene` is a session with the history
of what happened, newest event first: the calls, the messages judged, what was emitted,
delivered, held and stored. Nothing in the session reads the history; it is what the properties
are about. A `World` adds the application and the journal the session is driven with.

`Journal` and `Application` are the traits of the source.
-/

namespace Fixbolt

/-- The type parameters of a session: its dictionary, the capacity of its index, whether this
role speaks first, and the room for an application message. -/
structure Params where
  dict : Tables
  capacity : ℕ
  speaksFirst : Bool
  appScratch : ℕ

/-! ### The two traits -/

/-- Where the messages this end has sent are kept. -/
class Journal (J : Type) where
  /-- Keep the bytes of a number; says whether they were kept. -/
  put : J → ℕ → Bytes → J × Bool
  /-- The bytes kept under a number. -/
  get : J → ℕ → Option Bytes
  /-- The oldest number kept. -/
  oldest : J → Option ℕ
  /-- Note the highest number consumed. -/
  markIn : J → ℕ → J
  /-- Note the highest number spent. -/
  markOut : J → ℕ → J

/-- A journal that keeps nothing. -/
inductive NoJournal where
  | noJournal

instance : Journal NoJournal where
  put j _ _ := (j, false)
  get _ _ := none
  oldest _ := none
  markIn j _ := j
  markOut j _ := j

/-- What an application is told about the message it may answer with. -/
structure Header where
  seq : ℕ
  stamp : Bytes
  lastProcessed : Option ℕ
deriving DecidableEq, Repr

/-- An application: its answer to a message, if it has one. -/
class Application (A : Type) where
  onMessage : A → Bytes → Header → A × Option Bytes

/-- An application that never answers. -/
inductive Silent where
  | silent

instance : Application Silent where
  onMessage a _ _ := (a, none)

/-! ### The messages a session lays out itself -/

/-- Which of its own messages a session sends. -/
inductive Which where
  | logon
  | logout
  | reject
  | heartbeat
  | testRequest
  | resendRequest
  | gapFill
deriving DecidableEq, Repr

namespace Which

/-- The `35=` of a message. -/
def msgType : Which → Bytes
  | logon => ascii "A"
  | logout => ascii "5"
  | reject => ascii "3"
  | heartbeat => ascii "0"
  | testRequest => ascii "1"
  | resendRequest => ascii "2"
  | gapFill => ascii "4"

/-- The slots of a message, in the order the source declares them. -/
def slots : Which → List ℕ
  | logon => [34, 52, 369, 98, 108, 141, 789, 1137]
  | logout => [34, 52, 369, 58]
  | reject => [34, 52, 369, 115, 116, 144, 128, 129, 145, 45, 58, 371, 372, 373]
  | heartbeat => [34, 52, 369, 112]
  | testRequest => [34, 52, 369, 112]
  | resendRequest => [34, 52, 369, 7, 16]
  | gapFill => [34, 43, 52, 369, 122, 36, 123]

end Which

/-- The parts and scratch bytes of a session message. -/
def skeletonParts : ℕ := 24

@[inherit_doc skeletonParts] def skeletonScratch : ℕ := 320

/-- Room of the buffer that session messages are written to. -/
def outRoom : ℕ := 512

/-- The template of one session message. -/
def skeleton (D : Dictionary) (begin_ sender target : Bytes) (which : Which) :
    Except EncodeError Template :=
  let b := TemplateBuilder.new skeletonScratch begin_
  let b := b.field skeletonParts skeletonScratch 35 which.msgType
  let b := b.field skeletonParts skeletonScratch 49 sender
  let b := b.field skeletonParts skeletonScratch 56 target
  (which.slots.foldl (fun b tag => TemplateBuilder.slot skeletonParts b tag) b).build D
    skeletonParts skeletonScratch

/-- The templates of every session message. -/
structure Outbound where
  logon : Template
  logout : Template
  reject : Template
  heartbeat : Template
  testRequest : Template
  resendRequest : Template
  gapFill : Template
deriving DecidableEq, Repr

namespace Outbound

/-- The template of a message. -/
def template (o : Outbound) : Which → Template
  | .logon => o.logon
  | .logout => o.logout
  | .reject => o.reject
  | .heartbeat => o.heartbeat
  | .testRequest => o.testRequest
  | .resendRequest => o.resendRequest
  | .gapFill => o.gapFill

/-- All of them, or none if one cannot be built. -/
def new (D : Dictionary) (begin_ sender target : Bytes) : Option Outbound := do
  let skel (which : Which) : Option Template := (skeleton D begin_ sender target which).toOption
  some
    { logon := ← skel .logon
      logout := ← skel .logout
      reject := ← skel .reject
      heartbeat := ← skel .heartbeat
      testRequest := ← skel .testRequest
      resendRequest := ← skel .resendRequest
      gapFill := ← skel .gapFill }

end Outbound

/-! ### The session -/

/-- Where a session stands on its connection. -/
inductive State where
  /-- No connection, or the link has been dropped. -/
  | disconnected
  /-- Connected, and the next message must be a Logon. -/
  | awaitingLogon
  /-- Connected, and this end owes the Logon. -/
  | mustLogon
  /-- Logon exchanged. -/
  | loggedOn
  /-- This end sent a Logout and cut the link. -/
  | awaitingLogout
  /-- This end sent a Logout and still listens. -/
  | loggingOut
deriving DecidableEq, Repr

/-- A resend in progress: the next number owed and the last. -/
structure Replay where
  next : ℕ
  stop : ℕ
deriving DecidableEq, Repr

/-- A slot of the held queue; `seq = 0` says it is free, and its bytes are then stale. -/
structure Queued where
  seq : ℕ
  bytes : Bytes
deriving DecidableEq, Repr

/-- Slots of the held queue. -/
def queued : ℕ := 4

/-- The longest message a slot holds. -/
def queuedLen : ℕ := 512

/-- One session. -/
structure Session where
  cfg : Config
  state : State
  nowMs : ℕ
  nowSubMsNanos : ℕ
  nowResolution : Precision
  out : Option Outbound
  nextOut : ℕ
  nextIn : ℕ
  beatMs : ℕ
  sessionMark : Option ℕ
  lastDropReason : Option DropReason
  peerApplVerId : Option Bytes
  lastSkewMs : Option ℤ
  lastSentMs : ℕ
  lastRecvMs : ℕ
  testRequests : ℕ
  resendFrom : ℕ
  lastIn : ℕ
  resendTo : ℕ
  resumed : Bool
  queue : List Queued
  owed : Option Replay
  putsRefused : ℕ
  resendBeyondJournal : ℕ
  awaitingLogonSinceMs : Option ℕ
  loggingOutSinceMs : Option ℕ
deriving DecidableEq, Repr

namespace Session

/-- The templates a configuration gives, unless one of its names does not fit. -/
def outboundOf (D : Dictionary) (cfg : Config) : Option Outbound :=
  if cfg.defaultApplVerId.all (·.get.isSome) then
    match cfg.beginString.get, cfg.senderCompId.get, cfg.targetCompId.get with
    | some begin_, some sender, some target => Outbound.new D begin_ sender target
    | _, _, _ => none
  else none

/-- A session that has not yet been connected. -/
def new (P : Params) (cfg : Config) : Session where
  cfg := cfg
  state := .disconnected
  nowMs := 0
  nowSubMsNanos := 0
  nowResolution := .millis
  out := outboundOf P.dict.toDictionary cfg
  nextOut := 1
  nextIn := 1
  beatMs := 0
  sessionMark := none
  lastDropReason := none
  peerApplVerId := none
  lastSkewMs := none
  lastSentMs := 0
  lastRecvMs := 0
  testRequests := 0
  resendFrom := 0
  lastIn := 0
  resendTo := 0
  resumed := false
  queue := List.replicate queued ⟨0, []⟩
  owed := none
  putsRefused := 0
  resendBeyondJournal := 0
  awaitingLogonSinceMs := none
  loggingOutSinceMs := none

/-- A session continuing from numbers that outlived the process. -/
def resume (P : Params) (cfg : Config) (nextOut nextIn : ℕ) : Session :=
  { new P cfg with nextOut := nextOut, nextIn := nextIn, resumed := true }

/-- A session continuing from numbers and from when they were last touched. -/
def resumeAt (P : Params) (cfg : Config) (nextOut nextIn lastActiveMs : ℕ) : Session :=
  { resume P cfg nextOut nextIn with sessionMark := some lastActiveMs }

/-- How wide a `52=` this session may write now. -/
def stampPrecision (s : Session) : Precision := s.cfg.timestampPrecision.coarser s.nowResolution

/-- `52=` for the instant of the last tick. -/
def stampNow (s : Session) : Bytes :=
  (formatTimestamp s.cfg.timestampPrecision (s.nowMs - millisYearZeroToEpoch)
    s.nowSubMsNanos).take (18 + s.stampPrecision.fractionalDigits)

/-- The link is up as far as this end knows, so it may still send and judge. -/
def Alive (s : Session) : Prop := s.state ≠ .disconnected ∧ s.state ≠ .awaitingLogout

instance (s : Session) : Decidable s.Alive := inferInstanceAs (Decidable (_ ∧ _))

end Session

/-! ### History -/

/-- What a session can be asked to do. -/
inductive Call where
  | connect
  | disconnect
  | disconnectWith (why : DropReason)
  | noteDropReason (why : DropReason)
  | tick (nowMs : ℕ)
  | tickAt (nowMs subMsNanos : ℕ)
  | tickWith (nowMs : ℕ)
  | tickAtWith (nowMs subMsNanos : ℕ)
  | received (bytes : Bytes)
  | receivedWith (bytes : Bytes)
  | sendApplication (msg : Bytes)
  | sendHeartbeat
  | sendTestRequest (id : Bytes)
  | sendResendRequest (from_ upTo : ℕ)
  | beginLogout (text : Bytes)
  | beginLogoutWith (text : Bytes)
  | logoutNow (text : Bytes)
  | logoutNowWith (text : Bytes)
  | setNextOut (n : ℕ)
  | setNextIn (n : ℕ)
  | sendSequenceReset (n : ℕ)
  | sendSequenceResetWith (n : ℕ)
deriving DecidableEq, Repr

/-- A message on its way out, with what it was laid out from. -/
inductive Emission where
  /-- One of the session's own, from the values of its slots. -/
  | templated (which : Which) (slots : List (ℕ × Bytes)) (bytes : Bytes)
  /-- The application's answer, with the number it was told to write. -/
  | reply (seq : ℕ) (bytes : Bytes)
  /-- An application message laid out under a number of its own. -/
  | originated (seq : ℕ) (bytes : Bytes)
  /-- A kept message, sent again under its old number. -/
  | replayed (seq : ℕ) (bytes : Bytes)
deriving DecidableEq, Repr

/-- One thing that happened. -/
inductive Event where
  /-- A call, with the session it found. -/
  | called (s : Session) (c : Call)
  /-- Bytes were judged, by the session as it stood before. -/
  | judged (s : Session) (bytes : Bytes)
  /-- A message went out. -/
  | emitted (e : Emission)
  /-- The application was handed a message, by the session as it stood then. -/
  | delivered (s : Session) (bytes : Bytes)
  /-- A message that ran ahead was put in the queue. -/
  | held (seq : ℕ) (bytes : Bytes)
  /-- The journal was given a message, and kept it or not. -/
  | stored (seq : ℕ) (bytes : Bytes) (kept : Bool)
  /-- A Logon was accepted. -/
  | loggedOn
  /-- The counts restarted; the session as it stood after. -/
  | restarted (s : Session)
  /-- The connection ended. -/
  | ended (why : DropReason)
deriving DecidableEq, Repr

/-- A session and its history, newest event first. -/
structure Scene where
  ses : Session
  hist : List Event

/-- A scene, and what the session is driven with. -/
structure World (A J : Type) extends Scene where
  app : A
  journal : J

/-- Is the link still up after a call? -/
inductive Link where
  | up
  | dropped
deriving DecidableEq, Repr

end Fixbolt
