import Hiview.Base.SysEvent
import Hiview.EventRaw.JsonText

/-! The validation of freeze events before anything is built of them: which senders may
report an event, and what the fields of an untrusted sender may hold. The getters read the
builder of the event, which the first of them makes. -/
namespace Hiview.FreezeDetector
open EventRaw Base
open Numeral (ascii)

/-- What the validation asks of the file system and of the parts of an event that its
model leaves out. -/
structure Environment where
  fileExists : List UInt8 → Bool
  /-- the owner that `lstat` finds -/
  owner : List UInt8 → Option Int32
  printDouble : UInt64 → List UInt8
  /-- the tag, the level, the sequence and the interval that `AsJsonStr` adds -/
  appendJsonValues : List UInt8 → List UInt8

def trustedSenderUidMax : Int32 := 10000
def maxNameLen : Nat := 256
def maxPathLen : Nat := 512
def maxSmallContentLen : Nat := 8192
def maxLargeContentLen : Nat := 256 * 1024
def maxEventJsonLen : Nat := 2 * 1024 * 1024

def kernelUid : Int32 := 0
def graphicsUid : Int32 := 1003
def hiviewUid : Int32 := 1201
def foundationUid : Int32 := 5523
def powermgrUid : Int32 := 5528
def inputUid : Int32 := 6696

structure SenderPolicy where
  wholeDomainAllowed : Bool
  allowedEvents : List (List UInt8)
  allowedSystemUids : List Int32

def domainSenderPolicies : List (List UInt8 × SenderPolicy) :=
  [(ascii "AAFWK", ⟨false, [ascii "BUSSINESS_THREAD_BLOCK_3S", ascii "BUSSINESS_THREAD_BLOCK_6S",
      ascii "BUSINESS_INPUT_BLOCK", ascii "FREEZE_HALF_HIVIEW_LOG"], [foundationUid]⟩),
    (ascii "ACE", ⟨true, [], []⟩),
    (ascii "FFRT", ⟨true, [], []⟩),
    (ascii "FRAMEWORK", ⟨false, [ascii "APP_HICOLLIE", ascii "HIT_EMPTY_WARNING"], []⟩),
    (ascii "GRAPHIC", ⟨false, [ascii "NO_DRAW", ascii "JANK_FRAME_SKIP"], [graphicsUid]⟩),
    (ascii "GRAPHICS_GAME", ⟨true, [], []⟩),
    (ascii "WEBVIEW", ⟨true, [], []⟩),
    (ascii "KERNEL_VENDOR", ⟨false, [], [kernelUid, hiviewUid]⟩),
    (ascii "MULTIMODALINPUT", ⟨false, [], [inputUid]⟩),
    (ascii "POWER", ⟨false, [], [powermgrUid]⟩),
    (ascii "RELIABILITY", ⟨false, [], [hiviewUid, foundationUid]⟩),
    (ascii "THP", ⟨false, [], []⟩),
    (ascii "WINDOWMANAGER", ⟨false, [], [foundationUid]⟩)]

def pathFieldAllowedPrefix : List (List UInt8) := [ascii "/data/log/", ascii "/data/service/el2/"]

def freezeLogPathPrefix : List UInt8 := ascii "/data/log/eventlog/freeze/"
def stackPathSuffix : List UInt8 := ascii "_stack"
def binderPathSuffix : List UInt8 := ascii "_binder"

def numericFields : List (List UInt8) :=
  [ascii "PID", ascii "UID", ascii "TID", ascii "INPUT_ID", ascii "REMOTE_PID", ascii "LAST_DISPATCH_EVENTID",
    ascii "LAST_PROCESS_EVENTID", ascii "LAST_MARKED_EVENTID"]

def nameFields : List (List UInt8) :=
  [ascii "PACKAGE_NAME", ascii "PROCESS_NAME", ascii "SPECIFICSTACK_NAME", ascii "TASK_NAME", ascii "MODULE_NAME",
    ascii "PNAMEID"]

def smallContentFields : List (List UInt8) :=
  [ascii "HITRACE_ID", ascii "APP_RUNNING_UNIQUE_ID", ascii "FAULT_TIME", ascii "EVENT_TYPE"]

def largeContentFields : List (List UInt8) :=
  [ascii "MSG", ascii "STACK", ascii "MAIN_STACK", ascii "EXTERNAL_LOG", ascii "APPLICATION_HEAP_INFO",
    ascii "APPLICATION_GC_INFO", ascii "APPLICATION_IO_INFO", ascii "PROCESS_LIFECYCLE_INFO"]

def pathFields : List (List UInt8) := [ascii "FREEZE_INFO_PATH"]

def decimalChars : List UInt8 := ascii "0123456789"

def safeNameChars : List UInt8 :=
  ascii "abcdefghijklmnopqrstuvwxyzABCDEFGHIJKLMNOPQRSTUVWXYZ0123456789._:-"

def safePathChars : List UInt8 :=
  ascii "abcdefghijklmnopqrstuvwxyzABCDEFGHIJKLMNOPQRSTUVWXYZ0123456789._/-"

namespace EventFieldValidator

def isDecimalValue (value : List UInt8) : Bool :=
  if value = [] ∨ 10 < value.length then false else value.all (· ∈ decimalChars)

/-- Ten digits do not overflow a `long long`. -/
def toInt32Value (value : List UInt8) : Option Int32 :=
  if isDecimalValue value then
    let result := Numeral.number 10 (Numeral.digits 10 value)
    if result = 0 ∨ 2147483647 < result then none else some (Int32.ofNat result)
  else none

def isSafeName (value : List UInt8) : Bool :=
  if value = [] ∨ maxNameLen < value.length then false else value.all (· ∈ safeNameChars)

variable (env : Environment)

def isOwnerOfPath (path : List UInt8) (senderUid : Int32) : Bool :=
  match env.owner path with
  | none => true
  | some uid => uid = senderUid

def isAcceptedPath (path : List UInt8) (senderUid : Int32) : Bool :=
  if path = [] then true
  else if maxPathLen < path.length ∨ path.head? ≠ some 47 then false
  else if Text.contains path (ascii "..") || !path.all (· ∈ safePathChars) then false
  else if !pathFieldAllowedPrefix.any (·.isPrefixOf path) then false
  else isOwnerOfPath env path senderUid

def containPathTraversal (path : List UInt8) : Bool :=
  Text.contains path (ascii "..") || path.contains 92 || path.contains 0

/-- A text under the prefix is longer than the suffix that `rfind` looks for. -/
def isFreezePath (path suffix : List UInt8) : Bool :=
  freezeLogPathPrefix.isPrefixOf path && suffix.isSuffixOf path

/-- What stands before the first comma, nothing if there is none. -/
def binderPathOf (binderInfo : List UInt8) : List UInt8 :=
  if 44 ∈ binderInfo then binderInfo.takeWhile (· ≠ 44) else []

section
variable (event : Event)

variable (members : Members) (sysEvent : SysEvent)

def checkStackAndBinderPaths : Option (Bool × SysEvent) :=
  let stack := event.getEventValue (ascii "STACK")
  let mainStack := event.getEventValue (ascii "MAIN_STACK")
  let binderPath := binderPathOf (event.getEventValue (ascii "BINDER_INFO"))
  if stack ≠ [] ∧ env.fileExists stack ∧ (containPathTraversal stack || !isFreezePath stack stackPathSuffix) then
    some (false, sysEvent)
  else if mainStack.head? = some 47 then some (false, sysEvent)
  else if binderPath ≠ [] ∧ env.fileExists binderPath ∧
      (containPathTraversal binderPath || !isFreezePath binderPath binderPathSuffix) then
    (sysEvent.setEventCString (ascii "BINDER_INFO") []).map fun sysEvent => (true, sysEvent)
  else some (true, sysEvent)

def isTrustedSource : Bool := members.uid ≤ trustedSenderUidMax

def isSenderAllowed (domain eventName : List UInt8) (senderUid : Int32) : Bool :=
  match Assoc.lookup domainSenderPolicies domain with
  | none => true
  | some policy =>
    if trustedSenderUidMax < senderUid then policy.wholeDomainAllowed || policy.allowedEvents.contains eventName
    else if policy.allowedSystemUids ≠ [] ∧ senderUid ∉ policy.allowedSystemUids then false
    else true

/-- One of the two identity fields against what the sender has; zero stands for no number. -/
def checkIdentityField (field : List UInt8) (sender : Int32) : Bool :=
  let body := event.getEventIntValue field
  let text := event.getEventValue field
  if body ≠ 0 then body = sender.toInt64
  else if text ≠ [] then toInt32Value text = some sender
  else true

def checkIdentityFields (event : Event) : Bool :=
  if members.pid ≤ 0 then false
  else if !checkIdentityField event (ascii "PID") members.pid then false
  else if !checkIdentityField event (ascii "UID") members.uid then false
  else
    let tid := event.getEventValue (ascii "TID")
    !(tid ≠ [] && (toInt32Value tid).isNone)

/-- Every field that is there as a text passes the check. -/
def checkFields (fields : List (List UInt8)) (check : List UInt8 → Bool) : Bool :=
  fields.all fun field =>
    let value := event.getEventValue field
    value = [] || check value

def checkNumericFields : Bool :=
  checkFields event numericFields fun value => (toInt32Value value).isSome

def checkNameFields : Bool :=
  checkFields event nameFields isSafeName

def checkPathFields (event : Event) : Bool :=
  checkFields event pathFields fun value => isAcceptedPath env value members.uid

/-- The text and the event, whose block is brought up to date for it. -/
def asJsonStr (env : Environment) (sysEvent : SysEvent) : Option (List UInt8 × SysEvent) := do
  let (updated, sysEvent) ← sysEvent.tryToUpdateRawData
  if updated = false then return ([], sysEvent)
  let decoded ← DecodedEvent.new ((sysEvent.rawData.map RawData.getData).getD [])
  return (env.appendJsonValues (decoded.asJsonStr env.printDouble), sysEvent)

def checkContentFields : Option (Bool × SysEvent) := do
  let (json, sysEvent) ← asJsonStr env sysEvent
  let appRunningUniqueId := event.getEventValue (ascii "APP_RUNNING_UNIQUE_ID")
  let passed := decide (json.length ≤ maxEventJsonLen) &&
    smallContentFields.all (fun field => (event.getEventValue field).length ≤ maxSmallContentLen) &&
    largeContentFields.all (fun field => (event.getEventValue field).length ≤ maxLargeContentLen) &&
    appRunningUniqueId.all (· ∈ decimalChars)
  return (passed, sysEvent)

def stripUntrustedBinderInfo : Option (Bool × SysEvent) :=
  if event.getEventValue (ascii "HICOLLIE_BINDER_INFO") ≠ [] then
    (sysEvent.setEventCString (ascii "HICOLLIE_BINDER_INFO") []).map fun sysEvent => (true, sysEvent)
  else some (true, sysEvent)

end

def validateUntrustedEvent (env : Environment) (sysEvent : SysEvent) : Option (Bool × SysEvent) := do
  let (builder, sysEvent) ← sysEvent.initBuilder
  let event := builder.event
  let members := sysEvent.members
  if !checkIdentityFields members event || !checkNumericFields event || !checkNameFields event ||
      !checkPathFields env members event then
    return (false, sysEvent)
  let (passed, sysEvent) ← checkContentFields env event sysEvent
  if passed = false then return (false, sysEvent)
  stripUntrustedBinderInfo event sysEvent

def validateEvent (env : Environment) (sysEvent : SysEvent) : Option (Bool × SysEvent) := do
  let members := sysEvent.members
  if isSenderAllowed members.domain members.eventName members.uid = false then return (false, sysEvent)
  let (builder, sysEvent) ← sysEvent.initBuilder
  let (passed, sysEvent) ← checkStackAndBinderPaths env builder.event sysEvent
  if passed = false then return (false, sysEvent)
  if isTrustedSource members then return (true, sysEvent)
  validateUntrustedEvent env sysEvent

end EventFieldValidator

end Hiview.FreezeDetector
