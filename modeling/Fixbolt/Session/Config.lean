import Fixbolt.Codec.Timestamp
import Fixbolt.Session.Clock

/-!
# What a session is configured with, and the texts it answers with

`Config` holds the names of both sides, the policies and the limits of a session. `SessionText`
is a `58=` value with its `373=` code, and `DropReason` is why a connection ended.
-/

namespace Fixbolt

/-- A name in a fixed buffer: what of it fits, and whether all of it does. -/
structure Name where
  bytes : Bytes
  fits : Bool
deriving DecidableEq, Repr

namespace Name

/-- A name in a buffer of `n` bytes. -/
def new (n : ℕ) (src : Bytes) : Name := ⟨src.take n, src.length ≤ n⟩

/-- Is this the name? A name that does not fit is nobody's. -/
def isMatch (name : Name) (other : Bytes) : Bool := name.fits && name.bytes == other

/-- The name, when it fits. -/
def get (name : Name) : Option Bytes := if name.fits then some name.bytes else none

end Name

/-- Sizes of the name buffers. -/
def maxBeginStringLen : ℕ := 16

@[inherit_doc maxBeginStringLen] def maxCompIdLen : ℕ := 32

@[inherit_doc maxBeginStringLen] def maxApplVerIdLen : ℕ := 16

/-- Which dictionary checks a session forgoes. -/
structure DictionaryChecks where
  allowUnknownMsgFields : Bool
  skipUserDefinedFields : Bool
deriving DecidableEq, Repr

/-- Where user-defined tags begin. -/
def firstUserDefinedTag : ℕ := 5000

/-- When both counts restart. -/
structure ResetPolicy where
  onLogon : Bool
  onLogout : Bool
  onDisconnect : Bool
deriving DecidableEq, Repr

/-- The configuration of a session. -/
structure Config where
  beginString : Name
  senderCompId : Name
  targetCompId : Name
  maxSkewMs : ℕ
  heartBtInt : ℕ
  schedule : Schedule
  resendBatch : ℕ
  nextExpected : Bool
  lastProcessed : Bool
  timestampPrecision : Precision
  reset : ResetPolicy
  logonTimeoutMs : ℕ
  logoutTimeoutMs : ℕ
  validation : DictionaryChecks
  defaultApplVerId : Option Name
deriving DecidableEq, Repr

namespace Config

/-- The configuration of an acceptor, with every default. -/
def acceptor (beginString senderCompId targetCompId : Bytes) : Config where
  beginString := Name.new maxBeginStringLen beginString
  senderCompId := Name.new maxCompIdLen senderCompId
  targetCompId := Name.new maxCompIdLen targetCompId
  maxSkewMs := 120000
  heartBtInt := 30
  schedule := Schedule.always
  resendBatch := 8
  nextExpected := false
  lastProcessed := false
  timestampPrecision := .millis
  reset := ⟨false, false, false⟩
  logonTimeoutMs := 0
  logoutTimeoutMs := 0
  validation := ⟨false, false⟩
  defaultApplVerId := none

/-- The configuration of an initiator. -/
def initiator (beginString senderCompId targetCompId : Bytes) : Config :=
  acceptor beginString senderCompId targetCompId

/-- Is this `49=` the counterparty's? -/
def inboundSenderMatches (cfg : Config) (compId : Bytes) : Bool := cfg.targetCompId.isMatch compId

/-- Is this `56=` ours? -/
def inboundTargetMatches (cfg : Config) (compId : Bytes) : Bool := cfg.senderCompId.isMatch compId

/-- Does this session speak FIXT 1.1? -/
def isFixt (cfg : Config) : Bool := cfg.beginString.isMatch (ascii "FIXT.1.1")

/-- The `1137=` this end announces. -/
def applVerIdHeld (cfg : Config) : Option Bytes := cfg.defaultApplVerId.bind Name.get

end Config

/-! ### Texts and reasons -/

/-- A `58=` value. -/
inductive SessionText where
  | invalidTagNumber
  | requiredTagMissing
  | tagNotDefinedForThisMessageType
  | tagSpecifiedWithoutValue
  | valueIsIncorrect
  | incorrectDataFormat
  | compIdProblem
  | sendingTimeAccuracyProblem
  | invalidMsgType
  | tagAppearsMoreThanOnce
  | tagSpecifiedOutOfRequiredOrder
  | incorrectNumInGroupCount
  | incorrectBeginString
  | unsupportedMessageType
  | noProductsFound
  | msgSeqNumTooLow (expecting received : ℕ)
deriving DecidableEq, Repr

namespace SessionText

/-- The `373=` code a text goes with. -/
def sessionRejectReason : SessionText → Option ℕ
  | invalidTagNumber => some 0
  | requiredTagMissing => some 1
  | tagNotDefinedForThisMessageType => some 2
  | tagSpecifiedWithoutValue => some 4
  | valueIsIncorrect => some 5
  | incorrectDataFormat => some 6
  | compIdProblem => some 9
  | sendingTimeAccuracyProblem => some 10
  | invalidMsgType => some 11
  | tagAppearsMoreThanOnce => some 13
  | tagSpecifiedOutOfRequiredOrder => some 14
  | incorrectNumInGroupCount => some 16
  | _ => none

/-- The text itself. It always fits the buffer the session renders it into. -/
def render : SessionText → Bytes
  | invalidTagNumber => ascii "Invalid tag number"
  | requiredTagMissing => ascii "Required tag missing"
  | tagNotDefinedForThisMessageType => ascii "Tag not defined for this message type"
  | tagSpecifiedWithoutValue => ascii "Tag specified without a value"
  | valueIsIncorrect => ascii "Value is incorrect (out of range) for this tag"
  | incorrectDataFormat => ascii "Incorrect data format for value"
  | compIdProblem => ascii "CompID problem"
  | sendingTimeAccuracyProblem => ascii "SendingTime accuracy problem"
  | invalidMsgType => ascii "Invalid MsgType"
  | tagAppearsMoreThanOnce => ascii "Tag appears more than once"
  | tagSpecifiedOutOfRequiredOrder => ascii "Tag specified out of required order"
  | incorrectNumInGroupCount => ascii "Incorrect NumInGroup count for repeating group"
  | incorrectBeginString => ascii "Incorrect BeginString"
  | unsupportedMessageType => ascii "Unsupported Message Type"
  | noProductsFound => ascii "No Products found for this Class Symbol"
  | msgSeqNumTooLow expecting received =>
    ascii "MsgSeqNum too low, expecting " ++ renderU32 expecting ++ ascii " but received " ++
      renderU32 received

/-- The size of the buffer a text is rendered into. -/
def maxLen : ℕ := 63

/-- Every text fits. -/
theorem render_length (t : SessionText) : t.render.length ≤ maxLen := by
  cases t with
  | msgSeqNumTooLow e r =>
    have he := renderU32_length e
    have hr := renderU32_length r
    have ha : (ascii "MsgSeqNum too low, expecting ").length = 29 := by decide
    have hb : (ascii " but received ").length = 14 := by decide
    simp only [render, List.length_append, ha, hb, maxLen]
    omega
  | _ => decide

end SessionText

/-- Why a message was refused. -/
inductive Refusal where
  | wrongBeginString
  | notALogon
  | logonIncomplete
  | logonWithoutDefaultApplVerId
  | wrongSenderCompId
  | wrongTargetCompId
  | neverTicked
  | badSendingTime
  | badSeqNum
  | outsideSchedule
  | cannotSend
deriving DecidableEq, Repr

/-- Why a connection ended. -/
inductive DropReason where
  | wrongBeginString
  | notALogon
  | logonIncomplete
  | logonWithoutDefaultApplVerId
  | wrongSenderCompId
  | wrongTargetCompId
  | sendingTimeOutOfRange
  | neverTicked
  | sequenceNumberTooLow
  | nextExpectedTooHigh
  | outsideSchedule
  | cannotSend
  | heartbeatTimeout
  | logonTimedOut
  | logoutTimedOut
  | peerLogout
  | scheduleClosed
  | transportClosed
  | duplicateIdentity
  | refusedByDeployment
  | slowApplication
  | slowConsumer
  | engineShutdown
deriving DecidableEq, Repr

/-- The public name of a refusal. -/
def Refusal.toDropReason : Refusal → DropReason
  | wrongBeginString => .wrongBeginString
  | notALogon => .notALogon
  | logonIncomplete => .logonIncomplete
  | logonWithoutDefaultApplVerId => .logonWithoutDefaultApplVerId
  | wrongSenderCompId => .wrongSenderCompId
  | wrongTargetCompId => .wrongTargetCompId
  | neverTicked => .neverTicked
  | badSendingTime => .sendingTimeOutOfRange
  | badSeqNum => .sequenceNumberTooLow
  | outsideSchedule => .outsideSchedule
  | cannotSend => .cannotSend

end Fixbolt
