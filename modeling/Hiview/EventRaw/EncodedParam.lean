import Hiview.EventRaw.Encoder

/-! The `EncodedParam` hierarchy: a key, a value of one of eight kinds and the
buffer they are encoded into. The builder only instantiates the 64-bit and
double variants, so one value type covers the classes. -/
namespace Hiview.EventRaw
open List Wire

inductive Value where
  | unsignedVarint (val : UInt64)
  | signedVarint (val : Int64)
  | floating (val : UInt64)
  | dstring (val : List UInt8)
  | unsignedVarintArray (vals : List UInt64)
  | signedVarintArray (vals : List Int64)
  | floatingArray (vals : List UInt64)
  | dstringArray (vals : List (List UInt8))
  deriving DecidableEq

namespace Value

/-- The array constructors copy at most `MAX_ARRAY_SIZE` elements. -/
def cut : Value → Value
  | .unsignedVarintArray vals => .unsignedVarintArray (vals.take maxArraySize)
  | .signedVarintArray vals => .signedVarintArray (vals.take maxArraySize)
  | .floatingArray vals => .floatingArray (vals.take maxArraySize)
  | .dstringArray vals => .dstringArray (vals.take maxArraySize)
  | value => value

def isArray : Value → Bool
  | .unsignedVarint _ | .signedVarint _ | .floating _ | .dstring _ => false
  | _ => true

def valueType : Value → ValueType
  | .unsignedVarint _ | .unsignedVarintArray _ => .uint64
  | .signedVarint _ | .signedVarintArray _ => .int64
  | .floating _ | .floatingArray _ => .double
  | .dstring _ | .dstringArray _ => .string

/-- No array is longer than the constructors let it be. -/
def Bounded : Value → Prop
  | .unsignedVarintArray vals => vals.length ≤ maxArraySize
  | .signedVarintArray vals => vals.length ≤ maxArraySize
  | .floatingArray vals => vals.length ≤ maxArraySize
  | .dstringArray vals => vals.length ≤ maxArraySize
  | _ => True

theorem cut_bounded (value : Value) : value.cut.Bounded := by
  cases value <;> first | exact length_take_le _ _ | trivial

end Value

/-- `ret = ret && Encoded(item)` over the elements of an array. -/
def elementsEncoded {α : Type} (encoded : RawData → α → Option RawData) :
    RawData → List α → Option RawData
  | data, [] => some data
  | data, item :: rest => do
    let data ← encoded data item
    elementsEncoded encoded data rest

def arrayEncoded {α : Type} (encoded : RawData → α → Option RawData) (data : RawData)
    (vals : List α) : Option RawData := do
  let data ← unsignedVarintEncoded data .lengthDelimited (UInt64.ofNat vals.length)
  elementsEncoded encoded data vals

def valueEncoded (data : RawData) : Value → Option RawData
  | .unsignedVarint val => unsignedVarintEncoded data .varint val
  | .signedVarint val => signedVarintEncoded data .varint val
  | .floating val => floatingNumberEncoded data val
  | .dstring val => stringValueEncoded data val
  | .unsignedVarintArray vals =>
    arrayEncoded (fun data val => unsignedVarintEncoded data .varint val) data vals
  | .signedVarintArray vals =>
    arrayEncoded (fun data val => signedVarintEncoded data .varint val) data vals
  | .floatingArray vals => arrayEncoded floatingNumberEncoded data vals
  | .dstringArray vals => arrayEncoded stringValueEncoded data vals

structure EncodedParam where
  key : List UInt8
  value : Value
  rawData : RawData
  hasEncoded : Bool

namespace EncodedParam

def new (key : List UInt8) (value : Value) : EncodedParam := ⟨key, value.cut, .new, false⟩

/-- `Encode()`; a failing step drops the parameter, so its buffer is not kept. -/
def encode (param : EncodedParam) : Option EncodedParam := do
  let data ← stringValueEncoded param.rawData param.key
  let data ← valueTypeEncoded data param.value.isArray param.value.valueType 0
  let data ← valueEncoded data param.value
  return { param with rawData := data, hasEncoded := true }

/-- `GetRawData()`: encodes first when that has not been done. -/
def getRawData (param : EncodedParam) : RawData :=
  if param.hasEncoded then param.rawData
  else match param.encode with
    | some encoded => encoded.rawData
    | none => param.rawData

end EncodedParam

namespace Wire

def array {α : Type} (element : α → List UInt8) (vals : List α) : List UInt8 :=
  varint .lengthDelimited (UInt64.ofNat vals.length) ++ vals.flatMap element

def value : Value → List UInt8
  | .unsignedVarint val => varint .varint val
  | .signedVarint val => varint .varint (zigzag val)
  | .floating val => floating val
  | .dstring val => string val
  | .unsignedVarintArray vals => array (varint .varint) vals
  | .signedVarintArray vals => array (fun val => varint .varint (zigzag val)) vals
  | .floatingArray vals => array floating vals
  | .dstringArray vals => array string vals

def valueType (value : Value) : UInt8 :=
  ParamValueType.byte ⟨if value.isArray then 1 else 0, value.valueType.code, 0⟩

def param (key : List UInt8) (val : Value) : List UInt8 :=
  string key ++ valueType val :: value val

end Wire

section Holds
variable {α : Type} {data : RawData} {bytes : List UInt8}
  {encoded : RawData → α → Option RawData} {element : α → List UInt8}

section
variable
  (each : ∀ {data bytes}, data.Holds bytes → ∀ item,
    ∃ result, encoded data item = some result ∧ result.Holds (bytes ++ element item))
  (held : data.Holds bytes) (vals : List α)
include each held

theorem elementsEncoded_holds :
    ∃ result, elementsEncoded encoded data vals = some result ∧
      result.Holds (bytes ++ vals.flatMap element) := by
  induction vals generalizing data bytes with
  | nil => exact ⟨data, rfl, by simpa using held⟩
  | cons item rest ih =>
    obtain ⟨next, first, nextHeld⟩ := each held item
    obtain ⟨result, others, resultHeld⟩ := ih nextHeld
    refine ⟨result, ?_, ?_⟩
    · simp [elementsEncoded, first, others]
    · simpa only [flatMap_cons, append_assoc] using resultHeld

theorem arrayEncoded_holds :
    ∃ result, arrayEncoded encoded data vals = some result ∧
      result.Holds (bytes ++ array element vals) := by
  obtain ⟨next, sized, nextHeld⟩ :=
    unsignedVarintEncoded_holds held .lengthDelimited (UInt64.ofNat vals.length)
  obtain ⟨result, elements, resultHeld⟩ := elementsEncoded_holds each nextHeld vals
  refine ⟨result, ?_, ?_⟩
  · simp [arrayEncoded, sized, elements]
  · simpa only [array, append_assoc] using resultHeld

end

theorem valueEncoded_holds (held : data.Holds bytes) (value : Value) :
    ∃ result, valueEncoded data value = some result ∧
      result.Holds (bytes ++ Wire.value value) := by
  cases value with
  | unsignedVarint val => exact unsignedVarintEncoded_holds held .varint val
  | signedVarint val => exact unsignedVarintEncoded_holds held .varint (zigzag val)
  | floating val => exact floatingNumberEncoded_holds held val
  | dstring val => exact stringValueEncoded_holds held val
  | unsignedVarintArray vals =>
    exact arrayEncoded_holds (fun held val => unsignedVarintEncoded_holds held .varint val) held vals
  | signedVarintArray vals =>
    exact arrayEncoded_holds
      (fun held val => unsignedVarintEncoded_holds held .varint (zigzag val)) held vals
  | floatingArray vals => exact arrayEncoded_holds floatingNumberEncoded_holds held vals
  | dstringArray vals => exact arrayEncoded_holds stringValueEncoded_holds held vals

end Holds

namespace EncodedParam

/-- A parameter whose buffer holds its own wire form, as `AppendValue` keeps it. -/
structure Encoded (param : EncodedParam) : Prop where
  done : param.hasEncoded = true
  held : param.rawData.Holds (Wire.param param.key param.value)
  bounded : param.value.Bounded

/-- The wire form goes behind what the buffer holds. -/
theorem encode_holds {param : EncodedParam} (held : param.rawData.Holds bytes) :
    ∃ data, param.encode = some { param with rawData := data, hasEncoded := true } ∧
      data.Holds (bytes ++ Wire.param param.key param.value) := by
  obtain ⟨keyed, keyStep, keyHeld⟩ := stringValueEncoded_holds held param.key
  obtain ⟨typed, typeStep, typeHeld⟩ := RawData.append_holds keyHeld [valueType param.value]
  obtain ⟨data, valueStep, held⟩ := valueEncoded_holds typeHeld param.value
  refine ⟨data, ?_, ?_⟩
  · have typeStep : valueTypeEncoded keyed param.value.isArray param.value.valueType 0 = some typed := typeStep
    simp [encode, keyStep, typeStep, valueStep]
  · simpa only [Wire.param, append_assoc, singleton_append] using held

theorem encode_new (key : List UInt8) (value : Value) :
    ∃ param, (new key value).encode = some param ∧ param.Encoded ∧
      param.key = key ∧ param.value = value.cut := by
  obtain ⟨data, step, held⟩ := @encode_holds [] (new key value) RawData.new_holds
  exact ⟨_, step, ⟨rfl, held, value.cut_bounded⟩, rfl, rfl⟩

theorem Encoded.getRawData {param : EncodedParam} (encoded : param.Encoded) :
    param.getRawData.Holds (Wire.param param.key param.value) := by
  rw [EncodedParam.getRawData, if_pos encoded.done]
  exact encoded.held

end EncodedParam
end Hiview.EventRaw
