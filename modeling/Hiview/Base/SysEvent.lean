import Hiview.Base.StringUtil
import Hiview.EventRaw.ParseValue
import Hiview.Lib.Transition

/-! `SysEvent`: an event that keeps its block, a builder made of the block when it
is first needed, a flag for changes the block does not show yet, and members read
from the header once. A step is `none` when decoding the block would read outside
it. The text that `std::to_string` makes of a double is a parameter. -/
namespace Hiview.Base

open EventRaw

/-- The members that `InitialMembers` takes from the header and nothing changes. -/
structure Members where
  domain : List UInt8
  eventName : List UInt8
  eventType : Int32
  tz : Int16
  pid : Int32
  tid : Int32
  uid : Int32
  deriving DecidableEq

namespace Members

def blank : Members := ⟨[], [], 0, 0, 0, 0, 0⟩

def ofHeader (header : HiSysEventHeader) : Members where
  domain := header.domain.text
  eventName := header.name.text
  eventType := Int32.ofNat header.type.toNat + 1
  tz := header.timeZone.toUInt16.toInt16
  pid := header.pid.toInt32
  tid := header.tid.toInt32
  uid := header.uid.toInt32

end Members

structure SysEvent where
  rawData : Option RawData
  builder : Option RawDataBuilder
  isUpdated : Bool
  log : UInt8
  members : Members

/-- `EventRaw::POS_OF_ID_IN_HEADER`. -/
def posOfIdInHeader : Nat := 71

def blockSizeOffset : Nat := 4

/-- The assignment to the `log` member of the header inside the block. -/
def writeLog (rawData : RawData) (log : UInt8) : RawData :=
  ⟨rawData.data.map (·.set (blockSizeOffset + 80) log), rawData.capacity, by
    intro bytes held
    obtain ⟨source, present, rfl⟩ := Option.map_eq_some_iff.mp held
    rw [List.length_set]
    exact rawData.fits source present⟩

/-- The header overlaid on a block behind its size. -/
def headerOf (data : List UInt8) : HiSysEventHeader :=
  .ofBytes ((data.drop blockSizeOffset).take HiSysEventHeader.size)

variable (doubleText : UInt64 → List UInt8)

/-- `AsString` of the parameter classes. -/
def asString : Value → Option (List UInt8)
  | .unsignedVarint val => some (Numeral.toString val.toNat)
  | .signedVarint val => some (Numeral.toString val.toInt)
  | .floating val => some (doubleText val)
  | .dstring val => some val
  | _ => none

/-- The value that `SetEventValue` hands to the builder: a `std::string` is put
behind the text of the parameter when asked to, and escaped. -/
def settledValue (param : Option Value) (appendValue : Bool) :
    Argument → Argument
  | .string value =>
    match if appendValue then param.bind (asString doubleText) else none with
    | some paramValue => .string (StringUtil.escapeJsonStringValue
        (StringUtil.unescapeJsonStringValue paramValue ++ value))
    | none => .string (StringUtil.escapeJsonStringValue value)
  | value => value

namespace SysEvent

/-- What a constructor that refuses its data leaves behind. -/
def blank : SysEvent := ⟨none, none, false, 0, .blank⟩

/-- The raw data is present, owns a buffer and is long enough for a header. -/
def accepts (rawData : RawData) : Bool :=
  rawData.data.isSome && decide (getValidDataMinimumByteCount ≤ rawData.getDataLength)

/-- `SysEvent(sender, handler, rawData, ...)`. -/
def new (rawData : Option RawData) : SysEvent :=
  match rawData.filter accepts with
  | none => blank
  | some rawData =>
    let header := headerOf rawData.getData
    ⟨some rawData, none, false, header.log, .ofHeader header⟩

variable (event : SysEvent)

def initBuilder : Option (RawDataBuilder × SysEvent) :=
  match event.builder with
  | some builder => some (builder, event)
  | none => (RawDataBuilder.ofRawData event.rawData).map fun builder =>
      (builder, { event with builder := some builder })

def setId (id : UInt64) : SysEvent :=
  { event with
    rawData := event.rawData.map fun rawData =>
      (rawData.update (Bytes.littleEndian 8 id.toNat) (blockSizeOffset + posOfIdInHeader)).getD rawData
    builder := event.builder.map (·.appendId id) }

def setLog (log : UInt8) : SysEvent :=
  { event with
    log
    rawData := event.rawData.map (writeLog · log)
    builder := event.builder.map (·.appendLog log) }

def removeParam (event : SysEvent) (paramName : List UInt8) : Option SysEvent := do
  let (builder, event) ← event.initBuilder
  return { event with builder := some (builder.removeParam paramName), isUpdated := true }

/-- `SetEventValue<T>` for every `T` but a C string. -/
def setEventValue (event : SysEvent) (key : List UInt8)
    (value : Argument) (appendValue : Bool) : Option SysEvent := do
  let (builder, event) ← event.initBuilder
  let param := (builder.getValue key).map EncodedParam.value
  let value := settledValue doubleText param appendValue value
  return { event with builder := some (builder.appendValue key value), isUpdated := true }

/-- `SetEventValue<const char*>`, which neither appends nor escapes. -/
def setEventCString (key value : List UInt8) : Option SysEvent := do
  let (builder, event) ← event.initBuilder
  return { event with builder := some (builder.appendValue key (.string value)), isUpdated := true }

/-- The getters for one key, side by side; each of them calls `InitBuilder` first. -/
def getters (key : List UInt8) : Option (Report × SysEvent) := do
  let (builder, event) ← event.initBuilder
  return (builder.event.report key, event)

/-- The flag is the return value. -/
def tryToUpdateRawData : Option (Bool × SysEvent) := do
  if event.rawData.isNone then return (false, event)
  if event.isUpdated = false then return (true, event)
  let (builder, event) ← event.initBuilder
  let builder := builder.appendLog event.log
  let event := { event with builder := some builder, rawData := builder.build }
  if event.rawData.isNone then return (false, event)
  return (true, { event with isUpdated := false })

/-- The block behind the returned pointer, or the null pointer. -/
def asRawData : Option (Option (List UInt8) × SysEvent) := do
  let (updated, event) ← event.tryToUpdateRawData
  return (if updated then event.rawData.bind RawData.data else none, event)

end SysEvent

/-- The calls on an event. `AsJsonStr` brings the block up to date and renders a
decoded copy of it. -/
inductive Call where
  | setEventValue (key : List UInt8) (value : Argument) (appendValue : Bool)
  | setEventCString (key value : List UInt8)
  | removeParam (paramName : List UInt8)
  | setId (id : UInt64)
  | setLog (log : UInt8)
  | get (key : List UInt8)
  | asRawData
  | asJsonStr
  deriving DecidableEq

def SysEvent.step (event : SysEvent) : Call → Option SysEvent
  | .setEventValue key value appendValue => event.setEventValue doubleText key value appendValue
  | .setEventCString key value => event.setEventCString key value
  | .removeParam paramName => event.removeParam paramName
  | .setId id => some (event.setId id)
  | .setLog log => some (event.setLog log)
  | .get key => (event.getters key).map Prod.snd
  | .asRawData => event.asRawData.map Prod.snd
  | .asJsonStr => event.tryToUpdateRawData.map Prod.snd

end Hiview.Base
