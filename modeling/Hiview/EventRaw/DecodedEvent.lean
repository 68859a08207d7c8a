import Hiview.EventRaw.Decoder

/-! `DecodedEvent`: the constructor with its size checks, the header, and the
loop over the customized parameters. The outer `Option` is `none` when a byte
outside the block would be read. -/
namespace Hiview.EventRaw
open Bytes List
open HiSysEventHeader (ofBytes size)

def maxBlockSize : Nat := 384 * 1024
def maxParamCnt : Nat := 128 + 10

def getValidDataMinimumByteCount : Nat := 4 + HiSysEventHeader.size

structure DecodedParam where
  key : List UInt8
  value : Value
  deriving DecidableEq

structure DecodedEvent where
  rawData : List UInt8
  pos : Nat
  header : HiSysEventHeader
  traceInfo : TraceInfo
  isValid : Bool
  allParams : List DecodedParam
  deriving DecidableEq

namespace DecodedEvent

/-- The object a constructor that refuses its input leaves behind. -/
def invalid : DecodedEvent := ⟨[], 0, .zero, .zero, false, []⟩

/-- `static_cast<size_t>` of an `int32_t` given by its four bytes. -/
def sizeOfInt32 (word : Nat) : Nat := if word < 2 ^ 31 then word else word + (2 ^ 64 - 2 ^ 32)

/-- `count` bytes from `pos` on, when the block has them. -/
def overlay (rawData : List UInt8) (pos count : Nat) : Option (List UInt8) :=
  if pos + count ≤ rawData.length then some ((rawData.drop pos).take count) else none

def parseHeader (event : DecodedEvent) (maxLen : Nat) : Option DecodedEvent := do
  if event.pos + HiSysEventHeader.size > maxLen then return { event with isValid := false }
  let record ← overlay event.rawData event.pos HiSysEventHeader.size
  let event := { event with
    header := .ofBytes record, pos := event.pos + HiSysEventHeader.size }
  if event.header.isTraceOpened = 1 then
    if event.pos + TraceInfo.size > maxLen then return { event with isValid := false }
    let record ← overlay event.rawData event.pos TraceInfo.size
    return { event with traceInfo := .ofBytes record, pos := event.pos + TraceInfo.size }
  else return event

/-- The key and the type byte in front of a value. -/
def paramHead : Reader (List UInt8 × ParamValueType) :=
  stringValueDecoded.andThen fun key => valueTypeDecoded.andThen fun type =>
    Reader.pure (key, type)

/-- The `while (paramCnt > 0)` loop. A value is decoded by the parameter object
at a position of its own, which the event takes over only on success. -/
def parseParams (maxLen : Nat) : Nat → DecodedEvent → Option DecodedEvent
  | 0, event => some event
  | paramCnt + 1, event =>
    match paramHead event.rawData maxLen event.pos with
    | .fault => none
    | .failed pos => some { event with pos, isValid := false }
    | .done pos (key, type) =>
      match decodeValue type with
      | none => some { event with pos, isValid := false }
      | some reader =>
        match reader event.rawData maxLen pos with
        | .fault => none
        | .failed _ => some { event with pos, isValid := false }
        | .done pos value =>
          parseParams maxLen paramCnt
            { event with pos, allParams := event.allParams ++ [⟨key, value⟩] }

def parseCustomizedParams (event : DecodedEvent) (maxLen : Nat) : Option DecodedEvent := do
  if event.pos + 4 > maxLen then return { event with isValid := false }
  let word ← overlay event.rawData event.pos 4
  let paramCnt := sizeOfInt32 (value word)
  if paramCnt > maxParamCnt then return { event with isValid := false }
  parseParams maxLen paramCnt { event with pos := event.pos + 4 }

def parse (event : DecodedEvent) : Option DecodedEvent := do
  let event := { event with isValid := true, pos := 0 }
  let word ← overlay event.rawData event.pos 4
  let blockSize := sizeOfInt32 (value word)
  let event ← parseHeader { event with pos := event.pos + 4 } blockSize
  parseCustomizedParams event blockSize

/-- `DecodedEvent(uint8_t* data, size_t len)`. -/
def new (data : List UInt8) : Option DecodedEvent := do
  if data.length < 4 then return invalid
  let word ← overlay data 0 4
  let blockSize := sizeOfInt32 (value word)
  if blockSize ≠ data.length ∨ blockSize < getValidDataMinimumByteCount ∨
      blockSize > maxBlockSize then
    return invalid
  parse { invalid with rawData := data }

variable {event : DecodedEvent} {block : List UInt8} {pos : Nat}

theorem overlay_eq {count : Nat} (inside : pos + count ≤ block.length) :
    overlay block pos count = some ((block.drop pos).take count) := if_pos inside

theorem parseHeader_eq {header : HiSysEventHeader} (found : ofBytes ((event.rawData.drop event.pos).take size) = header)
    (room : event.pos + size + (if header.isTraceOpened = 1 then TraceInfo.size else 0) ≤ event.rawData.length) :
    event.parseHeader event.rawData.length = some { event with
      header := header
      traceInfo := if header.isTraceOpened = 1 then
        .ofBytes ((event.rawData.drop (event.pos + size)).take TraceInfo.size) else event.traceInfo
      pos := event.pos + size + if header.isTraceOpened = 1 then TraceInfo.size else 0 } := by
  rw [parseHeader, if_neg (by omega), overlay_eq (by omega)]
  simp only [found, Option.bind_eq_bind, Option.bind_some]
  by_cases traced : header.isTraceOpened = 1
  · rw [if_pos traced] at room
    simp [traced, overlay_eq room, room]
  · simp only [if_neg traced, Nat.add_zero, Option.pure_def]

theorem overlay_of_occurs (here : Bytes.Occurs block pos bytes) (inside : pos ≤ block.length) :
    overlay block pos bytes.length = some bytes := by
  rw [overlay, if_pos (here.bound inside), here.slice]

theorem occurs_self (bytes : List UInt8) : Bytes.Occurs bytes 0 bytes := prefix_refl bytes

/-- An event that reads `block` at `pos`. -/
structure At (event : DecodedEvent) (block : List UInt8) (pos : Nat) : Prop where
  source : event.rawData = block
  position : event.pos = pos
  inside : pos ≤ block.length

theorem parseHeader_reads {header : HiSysEventHeader} {traceInfo : TraceInfo} (start : event.At block pos)
    (here : Bytes.Occurs block pos (header.bytes ++ if header.isTraceOpened = 1 then traceInfo.bytes else [])) :
    event.parseHeader block.length = some { event with
      header := header
      traceInfo := if header.isTraceOpened = 1 then traceInfo else event.traceInfo
      pos := pos + size +
        if header.isTraceOpened = 1 then TraceInfo.size else 0 } := by
  obtain ⟨rfl, rfl, inside⟩ := start
  obtain ⟨headerHere, traceHere⟩ := occurs_append.mp here
  have bound := headerHere.bound inside
  have found : ofBytes ((event.rawData.drop event.pos).take size) = header := by
    rw [← header.bytes_length, headerHere.slice]
    exact HiSysEventHeader.ofBytes_of_occurs (occurs_self _)
  rw [header.bytes_length] at bound traceHere
  by_cases traced : header.isTraceOpened = 1
  · rw [if_pos traced] at traceHere
    have traceBound := traceHere.bound bound
    have traceFound := TraceInfo.ofBytes_of_occurs (occurs_self traceInfo.bytes)
    rw [← traceHere.slice, traceInfo.bytes_length] at traceFound
    simp only [parseHeader_eq found (by rwa [if_pos traced]), if_pos traced, traceFound]
  · simp only [parseHeader_eq found (by rwa [if_neg traced]), if_neg traced]

theorem paramHead_reads (key : List UInt8) (type : ParamValueType) :
    paramHead.Reads (Wire.string key ++ [type.byte]) (key, type) :=
  (stringValueDecoded_reads key).andThen ((valueTypeDecoded_reads type).map (key, ·))

/-- One customized parameter: a key, a type byte and the value that it announces. -/
def paramDecoded : Reader DecodedParam :=
  paramHead.andThen fun head =>
    match decodeValue head.2 with
    | none => Reader.fail
    | some reader => reader.andThen fun value => Reader.pure ⟨head.1, value⟩

/-- Bytes that the decoder takes for the parameters, wherever they stand. -/
def Encodes (wire : List UInt8) (params : List DecodedParam) : Prop :=
  (paramDecoded.repeated params.length).Reads wire params

def wires (params : List DecodedParam) : List UInt8 :=
  params.flatMap fun param => Wire.param param.key param.value

theorem encodes_wire (bounded : ∀ param ∈ params, param.value.Bounded) : Encodes (wires params) params := by
  refine Reader.reads_repeated fun param member => ?_
  obtain ⟨reader, created, reads⟩ := decodeValue_reads (bounded param member)
  have wire : Wire.param param.key param.value =
      (Wire.string param.key ++ [Wire.valueType param.value]) ++ Wire.value param.value := by
    rw [Wire.param, append_assoc, singleton_append]
  rw [wire]
  refine Reader.Reads.andThen (paramHead_reads param.key
    ⟨if param.value.isArray then 1 else 0, param.value.valueType.code, 0⟩) ?_
  simp only [created]
  exact reads.map (DecodedParam.mk param.key)

theorem parseParams_of_done {event : DecodedEvent} {maxLen count next : Nat}
    {params : List DecodedParam}
    (read : paramDecoded.repeated count event.rawData maxLen event.pos = .done next params) :
    parseParams maxLen count event =
      some { event with pos := next, allParams := event.allParams ++ params } := by
  induction count generalizing event params with
  | zero =>
    cases read
    rw [parseParams, append_nil]
  | succ count ih =>
    obtain ⟨middle, param, first, rest⟩ := Reader.done_of_andThen read
    obtain ⟨ending, others, tail, ⟨⟩⟩ := Reader.done_of_andThen rest
    obtain ⟨between, ⟨key, type⟩, head, value⟩ := Reader.done_of_andThen first
    cases created : decodeValue type with
    | none =>
      simp only [created] at value
      cases value
    | some reader =>
      simp only [created] at value
      obtain ⟨last, val, valueRead, ⟨⟩⟩ := Reader.done_of_andThen value
      simp [parseParams, head, created, valueRead]
      rw [ih tail]
      simp

theorem parseParams_reads (bounded : ∀ param ∈ params, param.value.Bounded) (addressable : block.length < 2 ^ 64)
    (start : event.At block pos)
    (here : Bytes.Occurs block pos (wires params)) :
    parseParams block.length params.length event = some { event with
      pos := pos + (wires params).length
      allParams := event.allParams ++ params } := by
  obtain ⟨rfl, rfl, inside⟩ := start
  exact parseParams_of_done (encodes_wire bounded event.rawData event.pos here inside addressable)

theorem sizeOfInt32_word (small : val < 2 ^ 31) :
    sizeOfInt32 (value (littleEndian 4 val)) = val := by
  rw [value_littleEndian_of_lt (by omega), sizeOfInt32, if_pos small]

theorem parseCustomizedParams_reads (bounded : ∀ param ∈ params, param.value.Bounded)
    (few : params.length ≤ maxParamCnt) (addressable : block.length < 2 ^ 64) (start : event.At block pos)
    (here : Bytes.Occurs block pos (littleEndian 4 params.length ++ wires params)) :
    event.parseCustomizedParams block.length = some { event with
      pos := pos + 4 + (wires params).length
      allParams := event.allParams ++ params } := by
  obtain ⟨rfl, rfl, inside⟩ := start
  obtain ⟨countHere, paramsHere⟩ := occurs_append.mp here
  have bound := countHere.bound inside
  have word := overlay_of_occurs countHere inside
  rw [littleEndian_length] at bound word paramsHere
  have room : ¬ event.pos + 4 > event.rawData.length := by omega
  have count : sizeOfInt32 (value (littleEndian 4 params.length)) = params.length :=
    sizeOfInt32_word (by rw [maxParamCnt] at few; omega)
  have admitted : ¬ params.length > maxParamCnt := by omega
  simp only [parseCustomizedParams, if_neg room, word, count, if_neg admitted, Option.bind_eq_bind,
    Option.bind_some]
  exact parseParams_reads bounded addressable ⟨rfl, rfl, bound⟩ paramsHere

end DecodedEvent
end Hiview.EventRaw
