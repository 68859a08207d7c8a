import Hiview.Lib.Bytes

/-! Constants and packed records of `raw_data_base_def.h`. The records are laid
out byte by byte as the packed little-endian structures are; bit fields are
allocated from the least significant bit. -/
namespace Hiview.EventRaw
open List
open Bytes (littleEndian littleEndian_length)

def maxDomainLength : Nat := 16
def maxEventNameLength : Nat := 32
def maxArraySize : Nat := 100

def tagByteOffset : Nat := 5
def nonTagByteOffset : Nat := 7

/-- A `char[size]` member of a packed record. -/
structure CharArray (size : Nat) where
  chars : List UInt8
  sized : chars.length = size
  deriving DecidableEq

namespace CharArray
variable {size : Nat}

def zero : CharArray size := ⟨List.replicate size 0, List.length_replicate⟩

/-- `size` bytes taken over from a block; a shorter block is padded. -/
def ofBytes (bytes : List UInt8) : CharArray size :=
  ⟨(bytes ++ List.replicate size 0).take size, by simp⟩

variable (array : CharArray size)

/-- The C string in the array: what precedes the first terminator. -/
def text : List UInt8 := array.chars.takeWhile (· ≠ 0)

/-- `memcpy_s(array, size, source, source.length())`: a source longer than the
array clears it instead of being cut. -/
def memcpy (source : List UInt8) : CharArray size :=
  if fits : source.length ≤ size then
    ⟨source ++ array.chars.drop source.length, by simp [array.sized, fits]⟩
  else zero

def set (index : Nat) (char : UInt8) : CharArray size :=
  ⟨array.chars.set index char, by simp [array.sized]⟩

theorem ofBytes_chars : ofBytes array.chars = array := by
  obtain ⟨chars, sized⟩ := array
  simp [ofBytes, CharArray.mk.injEq]
  rw [← sized, take_left]

theorem nonzero_of_clean {text : List UInt8} (clean : 0 ∉ text) : ∀ char ∈ text, decide (char ≠ 0) = true := by
  intro char member
  rw [decide_eq_true_eq]
  rintro rfl
  exact clean member

theorem memcpy_text {text : List UInt8} (fits : text.length ≤ size)
    (clean : 0 ∉ text) : ((zero : CharArray size).memcpy text).text = text := by
  rw [memcpy, dif_pos fits, CharArray.text, zero, takeWhile_append_of_pos (nonzero_of_clean clean),
    drop_replicate]
  cases size - text.length with
  | zero => simp
  | succ rest => simp [replicate_succ]

end CharArray

structure HiSysEventHeader where
  domain : CharArray (maxDomainLength + 1)
  name : CharArray (maxEventNameLength + 1)
  timestamp : UInt64
  timeZone : UInt8
  uid : UInt32
  pid : UInt32
  tid : UInt32
  id : UInt64
  type : BitVec 2
  isTraceOpened : BitVec 1
  log : UInt8
  deriving DecidableEq

structure TraceInfo where
  traceFlag : UInt8
  traceId : UInt64
  spanId : UInt32
  pSpanId : UInt32
  deriving DecidableEq

structure ParamValueType where
  isArray : BitVec 1
  valueType : BitVec 4
  valueByteCnt : BitVec 3
  deriving DecidableEq

inductive ValueType where
  | unknown | bool | int8 | uint8 | int16 | uint16 | int32 | uint32 | int64 | uint64
  | float | double | string
  deriving DecidableEq

def ValueType.code : ValueType → BitVec 4
  | .unknown => 0 | .bool => 1 | .int8 => 2 | .uint8 => 3 | .int16 => 4 | .uint16 => 5
  | .int32 => 6 | .uint32 => 7 | .int64 => 8 | .uint64 => 9 | .float => 10 | .double => 11
  | .string => 12

inductive EncodeType where
  | varint | lengthDelimited | invalid
  deriving DecidableEq

def EncodeType.code : EncodeType → UInt8
  | .varint => 0 | .lengthDelimited => 1 | .invalid => 4

namespace HiSysEventHeader

def zero : HiSysEventHeader :=
  ⟨.zero, .zero, 0, 0, 0, 0, 0, 0, 0, 0, 0⟩

variable (header : HiSysEventHeader)

/-- The two bit fields share one byte. -/
def flags : UInt8 :=
  UInt8.ofNat (header.type.toNat + 4 * header.isTraceOpened.toNat)

def bytes : List UInt8 :=
  header.domain.chars ++ header.name.chars ++
  littleEndian 8 header.timestamp.toNat ++ [header.timeZone] ++
  littleEndian 4 header.uid.toNat ++ littleEndian 4 header.pid.toNat ++
  littleEndian 4 header.tid.toNat ++ littleEndian 8 header.id.toNat ++
  [header.flags, header.log]

def size : Nat := 81

/-- The record overlaid on `size` bytes. -/
def ofBytes (block : List UInt8) : HiSysEventHeader where
  domain := .ofBytes (block.take 17)
  name := .ofBytes ((block.drop 17).take 33)
  timestamp := UInt64.ofNat (Bytes.value ((block.drop 50).take 8))
  timeZone := block.getD 58 0
  uid := UInt32.ofNat (Bytes.value ((block.drop 59).take 4))
  pid := UInt32.ofNat (Bytes.value ((block.drop 63).take 4))
  tid := UInt32.ofNat (Bytes.value ((block.drop 67).take 4))
  id := UInt64.ofNat (Bytes.value ((block.drop 71).take 8))
  type := BitVec.ofNat 2 (block.getD 79 0).toNat
  isTraceOpened := BitVec.ofNat 1 ((block.getD 79 0).toNat / 4)
  log := block.getD 80 0

@[simp] theorem bytes_length : header.bytes.length = size := by
  simp [bytes, size, header.domain.sized, header.name.sized, maxDomainLength, maxEventNameLength]

end HiSysEventHeader

variable {block : List UInt8}

theorem word64_slice (here : Bytes.Occurs block pos (littleEndian 8 word.toNat)) :
    UInt64.ofNat (Bytes.value ((block.drop pos).take 8)) = word := by
  have slice := here.slice
  rw [littleEndian_length] at slice
  rw [slice, Bytes.value_littleEndian_of_lt word.toNat_lt, UInt64.ofNat_toNat]

theorem word32_slice (here : Bytes.Occurs block pos (littleEndian 4 word.toNat)) :
    UInt32.ofNat (Bytes.value ((block.drop pos).take 4)) = word := by
  have slice := here.slice
  rw [littleEndian_length] at slice
  rw [slice, Bytes.value_littleEndian_of_lt word.toNat_lt, UInt32.ofNat_toNat]

theorem chars_slice {array : CharArray size} (here : Bytes.Occurs block pos array.chars) :
    CharArray.ofBytes ((block.drop pos).take size) = array := by
  have slice := here.slice
  rw [array.sized] at slice
  rw [slice, CharArray.ofBytes_chars]

theorem byte_slice (here : Bytes.Occurs block pos (byte :: rest)) : block.getD pos 0 = byte := by
  rw [getD_eq_getElem?_getD, (Bytes.occurs_cons.mp here).1, Option.getD_some]

namespace HiSysEventHeader

theorem flags_type (header : HiSysEventHeader) :
    BitVec.ofNat 2 header.flags.toNat = header.type := by
  apply BitVec.eq_of_toNat_eq
  simp [flags, BitVec.toNat_ofNat]
  omega

theorem flags_isTraceOpened (header : HiSysEventHeader) :
    BitVec.ofNat 1 (header.flags.toNat / 4) = header.isTraceOpened := by
  apply BitVec.eq_of_toNat_eq
  simp [flags, BitVec.toNat_ofNat]
  omega

theorem ofBytes_of_occurs (here : Bytes.Occurs block 0 header.bytes) : ofBytes block = header := by
  simp only [bytes, Bytes.occurs_append, littleEndian_length, header.domain.sized,
    header.name.sized, length_append, length_singleton] at here
  obtain ⟨⟨⟨⟨⟨⟨⟨⟨domain, name⟩, timestamp⟩, timeZone⟩, uid⟩, pid⟩, tid⟩, id⟩, flags⟩ := here
  have log := (Bytes.occurs_cons.mp flags).2
  have flagsByte := byte_slice flags
  have type := flags_type header
  have trace := flags_isTraceOpened header
  rw [← flagsByte] at type trace
  obtain ⟨⟩ := header
  simp [ofBytes, HiSysEventHeader.mk.injEq]
  exact ⟨chars_slice domain, chars_slice name, word64_slice timestamp, byte_slice timeZone,
    word32_slice uid, word32_slice pid, word32_slice tid, word64_slice id, type, trace,
    byte_slice log⟩

theorem ofBytes_of_tail (tail : first.drop 50 = second.drop 50) :
    ofBytes first = { ofBytes second with
      domain := .ofBytes (first.take 17), name := .ofBytes ((first.drop 17).take 33) } := by
  have behind : ∀ offset, first.drop (50 + offset) = second.drop (50 + offset) := by
    intro offset
    rw [← drop_drop, tail, drop_drop]
  have byte : ∀ offset, first.getD (50 + offset) 0 = second.getD (50 + offset) 0 := by
    intro offset
    rw [getD_eq_getElem?_getD, getD_eq_getElem?_getD, ← List.getElem?_drop, tail,
      List.getElem?_drop]
  simp only [ofBytes, tail, behind 9, behind 13, behind 17, behind 21, byte 8, byte 29, byte 30]

end HiSysEventHeader
namespace TraceInfo

def zero : TraceInfo := ⟨0, 0, 0, 0⟩

def bytes (info : TraceInfo) : List UInt8 :=
  [info.traceFlag] ++ littleEndian 8 info.traceId.toNat ++
  littleEndian 4 info.spanId.toNat ++ littleEndian 4 info.pSpanId.toNat

def size : Nat := 17

def ofBytes (block : List UInt8) : TraceInfo where
  traceFlag := block.getD 0 0
  traceId := UInt64.ofNat (Bytes.value ((block.drop 1).take 8))
  spanId := UInt32.ofNat (Bytes.value ((block.drop 9).take 4))
  pSpanId := UInt32.ofNat (Bytes.value ((block.drop 13).take 4))

@[simp] theorem bytes_length (info : TraceInfo) : info.bytes.length = size := by
  simp [bytes, size]

theorem ofBytes_of_occurs (here : Bytes.Occurs block 0 info.bytes) : ofBytes block = info := by
  simp only [bytes, Bytes.occurs_append, littleEndian_length, length_append,
    length_singleton] at here
  obtain ⟨⟨⟨traceFlag, traceId⟩, spanId⟩, pSpanId⟩ := here
  obtain ⟨⟩ := info
  simp only [ofBytes, TraceInfo.mk.injEq]
  exact ⟨byte_slice traceFlag, word64_slice traceId, word32_slice spanId, word32_slice pSpanId⟩

end TraceInfo

namespace ParamValueType

def byte (kvType : ParamValueType) : UInt8 :=
  UInt8.ofNat (kvType.isArray.toNat + 2 * kvType.valueType.toNat + 32 * kvType.valueByteCnt.toNat)

def ofByte (byte : UInt8) : ParamValueType where
  isArray := BitVec.ofNat 1 byte.toNat
  valueType := BitVec.ofNat 4 (byte.toNat / 2)
  valueByteCnt := BitVec.ofNat 3 (byte.toNat / 32)

theorem ofByte_byte (kvType : ParamValueType) : ofByte kvType.byte = kvType := by
  obtain ⟨isArray, valueType, valueByteCnt⟩ := kvType
  simp [ofByte, byte, ParamValueType.mk.injEq]
  refine ⟨?_, ?_, ?_⟩ <;> apply BitVec.eq_of_toNat_eq <;> simp [BitVec.toNat_ofNat] <;> omega

end ParamValueType
end Hiview.EventRaw
