import Hiview.EventRaw.Rebuild

/-! `RawDataBuilder::ParseValueByKey` and the getters that `SysEvent` makes of it.
They read a builder through the event it stands for: its trace record is zero
until it is opened. A double is given by its bits. -/
namespace Hiview.EventRaw

/-- `ParseTimeZone(const uint8_t)`. -/
def timeZoneText (tzVal : UInt8) : List UInt8 :=
  allTimeZones.getD tzVal.toNat (allTimeZones.getD defaultTzPos [])

def transNumToHexStr (num : Nat) : List UInt8 := Numeral.hexadecimal num

namespace Value

def uint64? : Value → Option UInt64
  | .unsignedVarint val => some val
  | _ => none

def int64? : Value → Option Int64
  | .signedVarint val => some val
  | _ => none

def double? : Value → Option UInt64
  | .floating val => some val
  | _ => none

def string? : Value → Option (List UInt8)
  | .dstring val => some val
  | _ => none

def uint64Vec? : Value → Option (List UInt64)
  | .unsignedVarintArray vals => some vals
  | _ => none

def int64Vec? : Value → Option (List Int64)
  | .signedVarintArray vals => some vals
  | _ => none

def doubleVec? : Value → Option (List UInt64)
  | .floatingArray vals => some vals
  | _ => none

def stringVec? : Value → Option (List (List UInt8))
  | .dstringArray vals => some vals
  | _ => none

end Value

section Ranges

/-- A `double` inside the range of `int64_t`, converted. The bound `2 ^ 63` itself
passes the comparison, and its conversion is undefined. -/
def doubleToInt64 (bits : UInt64) : Option Int64 :=
  let val := Float.ofBits bits
  if Int64.minValue.toFloat ≤ val ∧ val ≤ Int64.maxValue.toFloat then some val.toInt64 else none

def doubleToUInt64 (bits : UInt64) : Option UInt64 :=
  let val := Float.ofBits bits
  if (0 : UInt64).toFloat ≤ val ∧ val ≤ (18446744073709551615 : UInt64).toFloat then
    some val.toUInt64
  else none

def uint64ToInt64 (val : UInt64) : Option Int64 :=
  if val ≤ Int64.maxValue.toUInt64 then some val.toInt64 else none

def int64ToUInt64 (val : Int64) : Option UInt64 := if val ≥ 0 then some val.toUInt64 else none

end Ranges

namespace Event

/-- The value that the event's parameter list has under a key. -/
def getValue (event : Event) (key : List UInt8) : Option Value := Assoc.lookup event.params key

/-- The trace record that the getters of the trace keys read. -/
def traceInfo (event : Event) : TraceInfo := event.trace.getD .zero

/-- `GetBaseInfoValueByKey<uint64_t>`. -/
def baseInfoUint64 (event : Event) : BaseInfoKey → Option UInt64
  | .timeStamp => some event.timestamp
  | .timeZone => some event.timeZone.toUInt64
  | .id => some event.id
  | .pid => some event.pid.toUInt64
  | .tid => some event.tid.toUInt64
  | .uid => some event.uid.toUInt64
  | .log => some event.log.toUInt64
  | .traceId => some event.traceInfo.traceId
  | .spanId => some event.traceInfo.spanId.toUInt64
  | .parentSpanId => some event.traceInfo.pSpanId.toUInt64
  | .traceFlag => some event.traceInfo.traceFlag.toUInt64
  | .domain | .name | .type => none

/-- `GetBaseInfoValueByKey<int64_t>`: only the type is a signed number. -/
def baseInfoInt64 (event : Event) : BaseInfoKey → Option Int64
  | .type => some (Int64.ofInt event.type)
  | _ => none

/-- `GetBaseInfoValueByKey<std::string>`. -/
def baseInfoString (event : Event) : BaseInfoKey → Option (List UInt8)
  | .domain => some event.domain
  | .name => some event.name
  | .timeZone => some (timeZoneText event.timeZone)
  | .traceId => some (transNumToHexStr event.traceInfo.traceId.toNat)
  | .spanId => some (transNumToHexStr event.traceInfo.spanId.toNat)
  | .parentSpanId => some (transNumToHexStr event.traceInfo.pSpanId.toNat)
  | _ => none

/-- `ParseValueByKey<T>`: the handlers of the base info keys for `T`, or the
parameter under the key if it holds a `T`. -/
def parseValueByKey {T : Type} (event : Event) (baseInfo : BaseInfoKey → Option T)
    (value : Value → Option T) (key : List UInt8) : Option T :=
  match BaseInfoKey.ofText key with
  | some base => baseInfo base
  | none => (event.getValue key).bind value

section Getters
variable (event : Event) (key : List UInt8)

def parseUint64 : Option UInt64 := event.parseValueByKey event.baseInfoUint64 Value.uint64? key
def parseInt64 : Option Int64 := event.parseValueByKey event.baseInfoInt64 Value.int64? key
def parseDouble : Option UInt64 := event.parseValueByKey (fun _ => none) Value.double? key
def parseString : Option (List UInt8) := event.parseValueByKey event.baseInfoString Value.string? key

/-- `ParseArrayValue`: every item of the vector must pass the handler. -/
def parseArrayValue {T Dest : Type} (value : Value → Option (List T)) (itemHandler : T → Option Dest) :
    Option (List Dest) :=
  (event.parseValueByKey (fun _ => none) value key).bind fun arr => arr.mapM itemHandler

def isParamExist : Bool := (event.getValue key).isSome

def getEventValue : List UInt8 := (event.parseString key).getD []

def getEventIntValue : Int64 :=
  (event.parseInt64 key <|> (event.parseUint64 key).bind uint64ToInt64 <|>
    (event.parseDouble key).bind doubleToInt64).getD 0

def getEventUintValue : UInt64 :=
  (event.parseUint64 key <|> (event.parseInt64 key).bind int64ToUInt64 <|>
    (event.parseDouble key).bind doubleToUInt64).getD 0

def getEventDoubleValue : UInt64 :=
  (event.parseDouble key <|> (event.parseInt64 key).map (·.toFloat.toBits) <|>
    (event.parseUint64 key).map (·.toFloat.toBits)).getD 0

def getEventIntArrayValue : Option (List Int64) :=
  event.parseArrayValue key Value.int64Vec? some <|>
    event.parseArrayValue key Value.uint64Vec? uint64ToInt64 <|>
    event.parseArrayValue key Value.doubleVec? doubleToInt64 <|>
    event.parseArrayValue key Value.stringVec? fun _ => none

def getEventUintArrayValue : Option (List UInt64) :=
  event.parseArrayValue key Value.uint64Vec? some <|>
    event.parseArrayValue key Value.int64Vec? int64ToUInt64 <|>
    event.parseArrayValue key Value.doubleVec? doubleToUInt64 <|>
    event.parseArrayValue key Value.stringVec? fun _ => none

def getEventDoubleArrayValue : Option (List UInt64) :=
  event.parseArrayValue key Value.doubleVec? some <|>
    event.parseArrayValue key Value.int64Vec? (fun item => some item.toFloat.toBits) <|>
    event.parseArrayValue key Value.uint64Vec? (fun item => some item.toFloat.toBits) <|>
    event.parseArrayValue key Value.stringVec? fun _ => none

def getEventStringArrayValue : Option (List (List UInt8)) :=
  event.parseArrayValue key Value.stringVec? some <|>
    event.parseArrayValue key Value.uint64Vec? (fun _ => none) <|>
    event.parseArrayValue key Value.int64Vec? (fun _ => none) <|>
    event.parseArrayValue key Value.doubleVec? fun _ => none

end Getters
end Event

/-- The answers of the nine getters for one key. -/
structure Report where
  isParamExist : Bool
  eventValue : List UInt8
  eventIntValue : Int64
  eventUintValue : UInt64
  eventDoubleValue : UInt64
  eventIntArrayValue : Option (List Int64)
  eventUintArrayValue : Option (List UInt64)
  eventDoubleArrayValue : Option (List UInt64)
  eventStringArrayValue : Option (List (List UInt8))
  deriving DecidableEq

def Event.report (event : Event) (key : List UInt8) : Report where
  isParamExist := event.isParamExist key
  eventValue := event.getEventValue key
  eventIntValue := event.getEventIntValue key
  eventUintValue := event.getEventUintValue key
  eventDoubleValue := event.getEventDoubleValue key
  eventIntArrayValue := event.getEventIntArrayValue key
  eventUintArrayValue := event.getEventUintArrayValue key
  eventDoubleArrayValue := event.getEventDoubleArrayValue key
  eventStringArrayValue := event.getEventStringArrayValue key

namespace Event.Same
variable {event other : Event}

variable (same : event.Same other)
include same

theorem eq_with_params : { event with params := other.params } = other :=
  congrArg (fun head : Event => { head with params := other.params }) same.head

variable (distinct : Assoc.Distinct event.params)
include distinct

theorem getValue
    (key : List UInt8) : event.getValue key = other.getValue key :=
  Assoc.lookup_perm distinct same.params key

theorem report
    (key : List UInt8) : event.report key = other.report key := by
  have value := same.getValue distinct key
  rw [← same.eq_with_params] at value ⊢
  simp only [Event.report, isParamExist, getEventValue, getEventIntValue, getEventUintValue,
    getEventDoubleValue, getEventIntArrayValue, getEventUintArrayValue, getEventDoubleArrayValue,
    getEventStringArrayValue, parseArrayValue, parseString, parseInt64, parseUint64, parseDouble,
    parseValueByKey, value]
  rfl

end Event.Same
end Hiview.EventRaw
