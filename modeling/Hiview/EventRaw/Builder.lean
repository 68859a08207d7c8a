import Hiview.EventRaw.Decoder
import Hiview.Lib.Numeral

/-! `RawDataBuilder`: the setters, `AppendValue` for every argument type its
templates accept, and `Build`. -/
namespace Hiview.EventRaw
open List RawData

open Numeral (ascii)

def defaultTzPos : Nat := 14

def allTimeZones : List (List UInt8) := [
  "-0100", "-0200", "-0300", "-0330", "-0400", "-0500", "-0600",
  "-0700", "-0800", "-0900", "-0930", "-1000", "-1100", "-1200",
  "+0000", "+0100", "+0200", "+0300", "+0330", "+0400", "+0430",
  "+0500", "+0530", "+0545", "+0600", "+0630", "+0700", "+0800",
  "+0845", "+0900", "+0930", "+1000", "+1030", "+1100", "+1200",
  "+1245", "+1300", "+1400"].map ascii

def parseTimeZone (tzStr : List UInt8) : Nat :=
  (allTimeZones.findIdx? (· = tzStr)).getD defaultTzPos

inductive BaseInfoKey where
  | domain | name | type | timeStamp | log | timeZone | id | pid | tid | uid
  | traceId | spanId | parentSpanId | traceFlag
  deriving DecidableEq

namespace BaseInfoKey

def text : BaseInfoKey → List UInt8
  | .domain => ascii "domain_" | .name => ascii "name_" | .type => ascii "type_"
  | .timeStamp => ascii "time_" | .log => ascii "log_" | .timeZone => ascii "tz_"
  | .id => ascii "id_" | .pid => ascii "pid_" | .tid => ascii "tid_" | .uid => ascii "uid_"
  | .traceId => ascii "traceid_" | .spanId => ascii "spanid_"
  | .parentSpanId => ascii "pspanid_" | .traceFlag => ascii "trace_flag_"

def all : List BaseInfoKey :=
  [.domain, .name, .type, .timeStamp, .log, .timeZone, .id, .pid, .tid, .uid, .traceId, .spanId,
    .parentSpanId, .traceFlag]

def ofText (key : List UInt8) : Option BaseInfoKey := all.find? fun base => base.text = key

end BaseInfoKey

/-- The argument of `AppendValue`, by the C++ type it has. -/
inductive UnsignedNum where
  | uint8 (val : UInt8) | uint16 (val : UInt16) | uint32 (val : UInt32) | uint64 (val : UInt64)
  deriving DecidableEq

def UnsignedNum.toUInt64 : UnsignedNum → UInt64
  | .uint8 val => val.toUInt64 | .uint16 val => val.toUInt64
  | .uint32 val => val.toUInt64 | .uint64 val => val

inductive SignedNum where
  | bool (val : Bool) | int8 (val : Int8) | int16 (val : Int16) | int32 (val : Int32)
  | int64 (val : Int64)
  deriving DecidableEq

def SignedNum.toInt64 : SignedNum → Int64
  | .bool val => if val then 1 else 0
  | .int8 val => val.toInt64 | .int16 val => val.toInt64
  | .int32 val => val.toInt64 | .int64 val => val

inductive FloatingNum where
  | float (bits : UInt32) | double (bits : UInt64)
  deriving DecidableEq

def FloatingNum.toDouble : FloatingNum → UInt64
  | .float bits => widened bits
  | .double bits => bits

/-- Arrays are homogeneous in the source; nothing here depends on that. -/
inductive Argument where
  | unsignedNum (val : UnsignedNum) | signedNum (val : SignedNum) | floatingNum (val : FloatingNum)
  | string (val : List UInt8)
  | unsignedNumArray (vals : List UnsignedNum) | signedNumArray (vals : List SignedNum)
  | floatingNumArray (vals : List FloatingNum) | stringArray (vals : List (List UInt8))
  deriving DecidableEq

/-- The parameter value that the type dispatch of `AppendValue` makes. -/
def Argument.value : Argument → Value
  | .unsignedNum val => .unsignedVarint val.toUInt64
  | .signedNum val => .signedVarint val.toInt64
  | .floatingNum val => .floating val.toDouble
  | .string val => .dstring val
  | .unsignedNumArray vals => .unsignedVarintArray (vals.map UnsignedNum.toUInt64)
  | .signedNumArray vals => .signedVarintArray (vals.map SignedNum.toInt64)
  | .floatingNumArray vals => .floatingArray (vals.map FloatingNum.toDouble)
  | .stringArray vals => .dstringArray vals

structure RawDataBuilder where
  header : HiSysEventHeader
  traceInfo : TraceInfo
  allParams : List EncodedParam

namespace RawDataBuilder

def new : RawDataBuilder := ⟨.zero, .zero, []⟩

variable (builder : RawDataBuilder)

def getParamCnt : Nat := builder.allParams.length

def isBaseInfo (key : List UInt8) : Bool := (BaseInfoKey.ofText key).isSome

/-- `memcpy_s` into the member, then a terminator behind the text that fits. -/
def appendText {size : Nat} (member : CharArray (size + 1)) (text : List UInt8) :
    CharArray (size + 1) :=
  (member.memcpy text).set (min text.length size) 0

def appendDomain (domain : List UInt8) : RawDataBuilder :=
  { builder with header.domain := appendText builder.header.domain domain }

def appendName (name : List UInt8) : RawDataBuilder :=
  { builder with header.name := appendText builder.header.name name }

/-- Two bits remain of the type minus one. -/
def appendType (eventType : Int32) : RawDataBuilder :=
  { builder with header.type := BitVec.ofInt 2 (eventType.toInt - 1) }

def appendTimeStamp (timestamp : UInt64) : RawDataBuilder :=
  { builder with header.timestamp := timestamp }

def appendTimeZone (timeZone : UInt8) : RawDataBuilder :=
  { builder with header.timeZone := timeZone }

def appendTimeZoneStr (timeZone : List UInt8) : RawDataBuilder :=
  builder.appendTimeZone (UInt8.ofNat (parseTimeZone timeZone))

def appendUid (uid : UInt32) : RawDataBuilder :=
  { builder with header.uid := uid }

def appendPid (pid : UInt32) : RawDataBuilder :=
  { builder with header.pid := pid }

def appendTid (tid : UInt32) : RawDataBuilder :=
  { builder with header.tid := tid }

def appendLog (log : UInt8) : RawDataBuilder :=
  { builder with header.log := log }

def appendId (id : UInt64) : RawDataBuilder :=
  { builder with header.id := id }

def appendIdStr (id : List UInt8) : RawDataBuilder :=
  builder.appendId (UInt64.ofNat (Numeral.toUnsigned 64 (Numeral.extract 10 id)))

def appendTraceId (traceId : UInt64) : RawDataBuilder :=
  { builder with header.isTraceOpened := 1, traceInfo.traceId := traceId }

def appendSpanId (spanId : UInt32) : RawDataBuilder :=
  { builder with header.isTraceOpened := 1, traceInfo.spanId := spanId }

def appendPSpanId (pSpanId : UInt32) : RawDataBuilder :=
  { builder with header.isTraceOpened := 1, traceInfo.pSpanId := pSpanId }

def appendTraceFlag (traceFlag : UInt8) : RawDataBuilder :=
  { builder with header.isTraceOpened := 1, traceInfo.traceFlag := traceFlag }

def appendTraceInfo (traceId : UInt64) (spanId pSpanId : UInt32)
    (traceFlag : UInt8) : RawDataBuilder :=
  { builder with header.isTraceOpened := 1, traceInfo := ⟨traceFlag, traceId, spanId, pSpanId⟩ }

/-- The first parameter with the key gives way in place; a new key goes last. -/
def placed (param : EncodedParam) : List EncodedParam → List EncodedParam
  | [] => [param]
  | first :: rest => if first.key = param.key then param :: rest else first :: placed param rest

/-- `AppendValue(std::shared_ptr<EncodedParam>)`. -/
def appendParam (param : EncodedParam) : RawDataBuilder :=
  match param.encode with
  | none => builder
  | some encoded => { builder with allParams := placed encoded builder.allParams }

def removeParam (paramName : List UInt8) : RawDataBuilder :=
  { builder with allParams := builder.allParams.eraseP (·.key = paramName) }

/-- `TransHexStrToNum` followed by the setter of the number. -/
def hexNum (width : Nat) (hexStr : List UInt8) : Nat :=
  Numeral.toUnsigned width (Numeral.extract 16 hexStr)

/-- The handlers of the base info keys; an argument of another type than the
handler asks for is ignored. -/
def appendBaseInfoValue : BaseInfoKey → Argument → RawDataBuilder
  | .domain, .string val => builder.appendDomain val
  | .name, .string val => builder.appendName val
  | .type, .unsignedNum val => builder.appendType val.toUInt64.toUInt32.toInt32
  | .timeStamp, .unsignedNum (.uint64 val) => builder.appendTimeStamp val
  | .timeZone, .string val => builder.appendTimeZoneStr val
  | .id, .string val => builder.appendIdStr val
  | .id, .unsignedNum val => builder.appendId val.toUInt64
  | .pid, .unsignedNum val => builder.appendPid val.toUInt64.toUInt32
  | .tid, .unsignedNum val => builder.appendTid val.toUInt64.toUInt32
  | .uid, .unsignedNum val => builder.appendUid val.toUInt64.toUInt32
  | .log, .unsignedNum val => builder.appendLog val.toUInt64.toUInt8
  | .traceId, .string val => builder.appendTraceId (UInt64.ofNat (hexNum 64 val))
  | .traceId, .unsignedNum val => builder.appendTraceId val.toUInt64
  | .spanId, .string val => builder.appendSpanId (UInt32.ofNat (hexNum 32 val))
  | .spanId, .unsignedNum val => builder.appendSpanId val.toUInt64.toUInt32
  | .parentSpanId, .string val => builder.appendPSpanId (UInt32.ofNat (hexNum 32 val))
  | .parentSpanId, .unsignedNum val => builder.appendPSpanId val.toUInt64.toUInt32
  | .traceFlag, .unsignedNum val => builder.appendTraceFlag val.toUInt64.toUInt8
  | _, _ => builder

/-- `AppendValue(const std::string&, T)`. -/
def appendValue (key : List UInt8) (val : Argument) : RawDataBuilder :=
  match BaseInfoKey.ofText key with
  | some base => builder.appendBaseInfoValue base val
  | none => builder.appendParam (.new key val.value)

def buildHeader (dest : RawData) : Option RawData := do
  let dest ← dest.append builder.header.bytes
  if builder.header.isTraceOpened = 1 then dest.append builder.traceInfo.bytes else some dest

/-- Each parameter's buffer is copied before it is appended. The flag is the
return value; a failure keeps what was appended before it. -/
def buildCustomizedParams : List EncodedParam → RawData → RawData × Bool
  | [], dest => (dest, true)
  | param :: rest, dest =>
    match dest.append param.getRawData.copy.getData with
    | none => (dest, false)
    | some dest => buildCustomizedParams rest dest

def int32Bytes (val : Nat) : List UInt8 := Bytes.littleEndian 4 val

def build : Option RawData := do
  let rawData ← RawData.new.append (int32Bytes 0)
  let rawData ← builder.buildHeader rawData
  match rawData.append (int32Bytes builder.getParamCnt) with
  | none => some rawData
  | some rawData =>
    match buildCustomizedParams builder.allParams rawData with
    | (rawData, false) => some rawData
    | (rawData, true) => some ((rawData.update (int32Bytes rawData.getDataLength) 0).getD rawData)

/-- What follows the block size in the built block, by the bytes of the parameters. -/
def bodyWith (bytes : List UInt8) : List UInt8 :=
  builder.header.bytes ++
  (if builder.header.isTraceOpened = 1 then builder.traceInfo.bytes else []) ++
  int32Bytes builder.getParamCnt ++ bytes

def blockWith (bytes : List UInt8) : List UInt8 :=
  int32Bytes (4 + (builder.bodyWith bytes).length) ++ builder.bodyWith bytes

def block : List UInt8 := builder.blockWith (builder.allParams.flatMap fun param => Wire.param param.key param.value)

/-- Every parameter in the list went through `Encode`. -/
def Encoded (builder : RawDataBuilder) : Prop := ∀ param ∈ builder.allParams, param.Encoded

theorem int32Bytes_ne_nil (val : Nat) : int32Bytes val ≠ [] := by
  intro empty
  have length := congrArg List.length empty
  simp [int32Bytes] at length

theorem buildHeader_holds (builder : RawDataBuilder) (held : dest.Holds bytes) :
    ∃ result, builder.buildHeader dest = some result ∧ result.Holds (bytes ++
      (builder.header.bytes ++
        if builder.header.isTraceOpened = 1 then builder.traceInfo.bytes else [])) := by
  obtain ⟨next, header, nextHeld⟩ := append_holds held builder.header.bytes
  simp [buildHeader, header]
  split
  · simpa only [append_assoc] using append_holds nextHeld builder.traceInfo.bytes
  · exact ⟨next, rfl, by simpa only [append_nil] using nextHeld⟩

theorem buildCustomizedParams_holds {bytesOf : EncodedParam → List UInt8}
    (encoded : ∀ param ∈ params, param.getRawData.Holds (bytesOf param)) (held : dest.Holds bytes) :
    ∃ result, buildCustomizedParams params dest = (result, true) ∧
      result.Holds (bytes ++ params.flatMap bytesOf) := by
  induction params generalizing dest bytes with
  | nil => exact ⟨dest, rfl, by simpa using held⟩
  | cons param rest ih =>
    have own := encoded param mem_cons_self
    obtain ⟨next, appended, nextHeld⟩ := append_holds held param.getRawData.copy.getData
    obtain ⟨result, others, resultHeld⟩ :=
      ih (fun other member => encoded other (mem_cons_of_mem param member)) nextHeld
    refine ⟨result, by simp [buildCustomizedParams, appended, others], ?_⟩
    simpa only [copy_getData, own.getData, flatMap_cons, append_assoc] using resultHeld

/-- The placeholder in front is overwritten by the size of the whole block. -/
theorem build_blockWith {builder : RawDataBuilder} {bytesOf : EncodedParam → List UInt8}
    (encoded : ∀ param ∈ builder.allParams, param.getRawData.Holds (bytesOf param)) :
    ∃ rawData, builder.build = some rawData ∧ rawData.Holds (builder.blockWith (builder.allParams.flatMap bytesOf)) := by
  obtain ⟨placed, placeholder, placedHeld⟩ := append_holds new_holds (int32Bytes 0)
  obtain ⟨headed, header, headedHeld⟩ := builder.buildHeader_holds placedHeld
  obtain ⟨counted, count, countedHeld⟩ := append_holds headedHeld (int32Bytes builder.getParamCnt)
  obtain ⟨filled, params, filledHeld⟩ := buildCustomizedParams_holds encoded countedHeld
  have contents : filled.Holds (int32Bytes 0 ++ builder.bodyWith (builder.allParams.flatMap bytesOf)) := by
    simpa only [bodyWith, nil_append, append_assoc] using filledHeld
  have length : filled.getDataLength = 4 + (builder.bodyWith (builder.allParams.flatMap bytesOf)).length := by
    rw [getDataLength, contents.getData]
    simp [int32Bytes]
  obtain ⟨result, updated, resultHeld⟩ :=
    update_holds contents (Nat.zero_le _) (int32Bytes_ne_nil filled.getDataLength)
  refine ⟨result, ?_, ?_⟩
  · simp [build, placeholder, header, count, params, updated]
  · have overwritten : overwrite (int32Bytes 0 ++ builder.bodyWith (builder.allParams.flatMap bytesOf))
        (int32Bytes filled.getDataLength) 0 = builder.blockWith (builder.allParams.flatMap bytesOf) := by
      have four : (int32Bytes filled.getDataLength).length = (int32Bytes 0).length := by
        simp [int32Bytes]
      rw [overwrite, take_zero, nil_append, Nat.zero_add, four, drop_left, length, blockWith]
    rw [← overwritten]
    exact resultHeld

theorem build_holds {builder : RawDataBuilder} (encoded : builder.Encoded) :
    ∃ rawData, builder.build = some rawData ∧ rawData.Holds builder.block :=
  build_blockWith fun param member => (encoded param member).getRawData

end RawDataBuilder
end Hiview.EventRaw
