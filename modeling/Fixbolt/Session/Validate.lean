import Fixbolt.Codec.Group
import Fixbolt.Dict.Tables
import Fixbolt.Session.Config

/-!
# The dictionary's questions about one message

Each pass answers with the first fault it finds: the text of the Reject and the tag it names.
`validateWith` runs the passes of the source in order; the session runs the same passes with its
own rules between and behind them.
-/

namespace Fixbolt

/-- The tags of the fields that the session layer reads by number. -/
def tagApplVerId : ℕ := 1128

/-- A value in a buffer of `n` bytes, or nothing when it does not fit. -/
def copy (n : ℕ) (value : Option Bytes) : Option Bytes := value.filter fun v => v.length ≤ n

/-- The text of a tag. -/
def tagText (tag : ℕ) : Option Bytes := copy 12 (some (renderU32 tag))

/-- A fault: the text that answers it, and the text of the tag it names. -/
abbrev Fault := SessionText × Option Bytes

/-- The group counters a scan has passed, as many as the array holds. -/
structure SeenCounters where
  tags : List ℕ
  full : Bool
deriving DecidableEq, Repr

namespace SeenCounters

/-- Room for these many counters. -/
def seen : ℕ := 32

/-- No counter passed yet. -/
def new : SeenCounters := ⟨[], false⟩

/-- Has no counter been recorded? -/
def isEmpty (s : SeenCounters) : Bool := s.tags.isEmpty

/-- Note one counter. -/
def record (s : SeenCounters) (tag : ℕ) : SeenCounters :=
  if s.tags.contains tag then s
  else if s.tags.length < seen then { s with tags := s.tags ++ [tag] }
  else { s with full := true }

end SeenCounters

variable (D : Tables)

/-- The tags a view holds, with their values, in wire order. -/
def MessageView.readable (view : MessageView) : List (ℕ × ℕ × Bytes) :=
  (List.range view.len).filterMap fun i => (view.fieldAt i).map fun f => (i, f)

/-- Does `tag` belong to a group whose counter is among `counters`? -/
def memberOf (msgType : Bytes) (tag : ℕ) (counters : List ℕ) : Bool :=
  counters.any fun counter =>
    (D.groupDelimiter msgType counter).isSome && (D.groupMembers msgType counter).contains tag

/-- A user-defined field that the session was told not to look at. -/
def skipped (checks : DictionaryChecks) (tag : ℕ) : Bool :=
  checks.skipUserDefinedFields && decide (firstUserDefinedTag ≤ tag)

/-- Is `tag` a member of a group whose counter stands before place `upto`? -/
def inAGroupBefore (view : MessageView) (msgType : Bytes) (tag upto : ℕ)
    (checks : DictionaryChecks) : Bool :=
  memberOf D msgType tag <|
    view.readable.filterMap fun (i, counter, _) =>
      if i < upto && !skipped checks counter then some counter else none

/-- Is `tag` a member of a group that the message carries? -/
def inAGroup (view : MessageView) (msgType : Bytes) (tag : ℕ) : Bool :=
  memberOf D msgType tag (view.readable.map fun (_, counter, _) => counter)

/-- Do the value checks of `tag` wait for the count of a group? -/
def SeenCounters.defers (s : SeenCounters) (view : MessageView) (msgType : Bytes) (tag upto : ℕ)
    (checks : DictionaryChecks) : Bool :=
  if s.full then inAGroupBefore D view msgType tag upto checks
  else s.tags.any fun counter => (D.groupMembers msgType counter).contains tag

/-- The value and the format of one field. -/
def valueFault (tag : ℕ) (value : Bytes) : Option Fault :=
  if D.enumAllows tag value = some false then some (.valueIsIncorrect, tagText tag)
  else if (D.fieldType tag).any fun t => !t.accepts value then
    some (.incorrectDataFormat, tagText tag)
  else none

/-- Does a field with this tag stand before place `i`? -/
def repeats (view : MessageView) (tag i : ℕ) : Bool :=
  (view.entries.findIdx? (·.tag == tag)).any fun j => j < i && (view.fieldAt j).isSome

/-- What is wrong with one field of the scan. -/
def fieldFault (view : MessageView) (msgType : Bytes) (checks : DictionaryChecks)
    (inBody : Bool) (seen : SeenCounters) (i tag : ℕ) (value : Bytes) : Option Fault :=
  if D.isHeader tag && inBody then some (.tagSpecifiedOutOfRequiredOrder, tagText tag)
  else if !D.isDefinedTagFor msgType tag then some (.invalidTagNumber, tagText tag)
  else if value.isEmpty && D.fieldType tag != some .data then
    some (.tagSpecifiedWithoutValue, tagText tag)
  else if !checks.allowUnknownMsgFields && !D.allows msgType tag then
    some (.tagNotDefinedForThisMessageType, tagText tag)
  else if repeats view tag i && !inAGroup D view msgType tag then
    some (.tagAppearsMoreThanOnce, tagText tag)
  else if seen.isEmpty || !seen.defers D view msgType tag i checks then valueFault D tag value
  else none

/-- The wire-order scan: the first fault, and the counters it passed. -/
def scanFieldsFrom (view : MessageView) (msgType : Bytes) (checks : DictionaryChecks) :
    List (ℕ × ℕ × Bytes) → Bool → SeenCounters → Option Fault × SeenCounters
  | [], _, seen => (none, seen)
  | (i, tag, value) :: rest, inBody, seen =>
    if skipped checks tag then scanFieldsFrom view msgType checks rest inBody seen
    else
      match fieldFault D view msgType checks inBody seen i tag value with
      | some fault => (some fault, seen)
      | none =>
        let inBody := inBody || (!D.isHeader tag && tag != 10)
        let seen :=
          if D.fieldType tag = some .numInGroup ∧ (D.groupDelimiter msgType tag).isSome then
            seen.record tag
          else seen
        scanFieldsFrom view msgType checks rest inBody seen

/-- The wire-order scan of a message. -/
def scanFields (view : MessageView) (msgType : Bytes) (checks : DictionaryChecks) :
    Option Fault × SeenCounters :=
  scanFieldsFrom D view msgType checks view.readable false .new

/-- The values that the scan left for after the counts. -/
def scanGroupMembers (view : MessageView) (msgType : Bytes) (checks : DictionaryChecks)
    (seen : SeenCounters) : Option Fault :=
  if seen.isEmpty then none
  else view.readable.findSome? fun (_, tag, value) =>
    if skipped checks tag then none
    else if seen.defers D view msgType tag view.len checks then valueFault D tag value
    else none

/-- A `1128=` that names a version this session cannot be speaking. -/
def outOfFamilyApplVerId (view : MessageView) (msgType : Bytes) : Option Fault :=
  if D.isAdmin msgType then none
  else (view.get tagApplVerId).bind fun v =>
    if v = ascii "7" ∨ v = ascii "8" ∨ v = ascii "9" then none
    else some (.valueIsIncorrect, tagText tagApplVerId)

/-- A header field, then a body field, that is required and absent. -/
def missingRequired (view : MessageView) (msgType : Bytes) : Option Fault :=
  (D.requiredHeader ++ D.required msgType).findSome? fun tag =>
    if (view.get tag).isNone then some (.requiredTagMissing, tagText tag) else none

/-- How far the walk over nested groups goes. -/
def maxGroupNesting : ℕ := 8

/-- A nested counter that disagrees with its entries. The first argument counts the levels left
below the bound. -/
def badNestedCount (view : MessageView) (msgType : Bytes) : ℕ → GroupEntry → ℕ → Option Fault
  | 0, _, _ => none
  | levels + 1, entry, parent =>
    (D.groupMembers msgType parent).findSome? fun member =>
      if (D.groupDelimiter msgType member).isNone then none
      else match entry.group D.toDictionary view msgType member with
        | none => none
        | some nested =>
          if nested.declared ≠ some nested.counted then
            some (.incorrectNumInGroupCount, tagText member)
          else (groupEntries D.toDictionary view msgType nested).findSome? fun child =>
            badNestedCount view msgType levels child member

/-- A group counter that disagrees with its entries, parents before children. -/
def badGroupCount (view : MessageView) (msgType : Bytes) : Option Fault :=
  view.readable.findSome? fun (_, counter, _) =>
    if (D.groupDelimiter msgType counter).isNone then none
    else match view.group D.toDictionary msgType counter with
      | none => none
      | some group =>
        if group.declared ≠ some group.counted then
          some (.incorrectNumInGroupCount, tagText counter)
        else (groupEntries D.toDictionary view msgType group).findSome? fun entry =>
          badNestedCount D view msgType (maxGroupNesting - 1) entry counter

/-- Every check of the dictionary, in order. -/
def validateFault (view : MessageView) (msgType : Bytes) (checks : DictionaryChecks) :
    Option Fault :=
  let (fault, seen) := scanFields D view msgType checks
  fault <|> missingRequired D view msgType <|> badGroupCount D view msgType <|>
    scanGroupMembers D view msgType checks seen

/-- What a message is refused for, if it is. -/
def validateWith (view : MessageView) (msgType : Bytes) (checks : DictionaryChecks) :
    Option SessionText :=
  (validateFault D view msgType checks).map (·.1)

end Fixbolt
