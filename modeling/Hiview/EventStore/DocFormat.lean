import Hiview.EventRaw.BaseDef

/-! The db file format of `base_def.h`: return codes, sizes, the file header and
the bytes of one stored event. -/
namespace Hiview.EventStore
open Bytes EventRaw List

inductive DocStore where
  | success | newFile | readEmpty | errorNull | errorIo | errorMemory | errorInvalid
  deriving DecidableEq

def hiviewBlockSize : Nat := 4
def seqSize : Nat := 8
def crcSize : Nat := 4
def numOfBytesInKb : Nat := 1024
def maxTagLen : Nat := 17
def maxNewSize : Nat := 386 * 1024
def maxVersionLeng : Nat := 1000

/-- The marker bit of little-endian files is a zero that is there anyway, so
every format version has the same number. -/
def magicNum : UInt64 := 0x894556454E541a0a

/-- `EVENT_DATA_FORMATE_VERSION::CURRENT`. -/
def currentVersion : UInt8 := 4

def contentHeaderSize : Nat := 39

def minContentSize : Nat := hiviewBlockSize + contentHeaderSize + crcSize

/-- `HIVIEW_BLOCK_SIZE + MAX_DOMAIN_LEN + MAX_EVENT_NAME_LEN`. -/
def rawDataOffset : Nat := hiviewBlockSize + 17 + 33

structure DocHeader where
  magicNum : UInt64
  blockSize : UInt32
  pageSize : UInt8
  version : UInt8
  tag : CharArray maxTagLen
  deriving DecidableEq

namespace DocHeader

def size : Nat := 31

def bytes (header : DocHeader) : List UInt8 :=
  Bytes.littleEndian 8 header.magicNum.toNat ++ Bytes.littleEndian 4 header.blockSize.toNat ++
  [header.pageSize, header.version] ++ header.tag.chars

/-- The record overlaid on bytes; members that were not read keep their zero. -/
def ofBytes (block : List UInt8) : DocHeader where
  magicNum := UInt64.ofNat (Bytes.value (block.take 8))
  blockSize := UInt32.ofNat (Bytes.value ((block.drop 8).take 4))
  pageSize := block.getD 12 0
  version := block.getD 13 0
  tag := .ofBytes ((block.drop 14).take 17)

@[simp] theorem bytes_length (header : DocHeader) : header.bytes.length = size := by
  simp [bytes, size, header.tag.sized, maxTagLen]

theorem ofBytes_of_occurs (here : Bytes.Occurs block 0 header.bytes) : ofBytes block = header := by
  simp only [bytes, occurs_append, littleEndian_length, length_append,
    length_cons, length_nil] at here
  obtain ⟨⟨⟨magic, blockSize⟩, pageSize⟩, tag⟩ := here
  have version := (occurs_cons.mp pageSize).2
  obtain ⟨⟩ := header
  simp only [ofBytes, DocHeader.mk.injEq]
  exact ⟨word64_slice magic, word32_slice blockSize, byte_slice pageSize,
    byte_slice version, chars_slice tag⟩

end DocHeader

/-- The value of a system parameter: a C string of bounded length. -/
structure Version where
  text : List UInt8
  clean : 0 ∉ text
  bounded : text.length ≤ 4096

/-- What a document knows of a `SysEvent`. The raw block announces its own size
and holds at least a header, as every block of the builder does. -/
structure DocEvent where
  rawData : List UInt8
  eventSeq : Int64
  tag : List UInt8
  sized : Bytes.value (rawData.take hiviewBlockSize) = rawData.length
  headed : 85 ≤ rawData.length
  deriving DecidableEq

namespace DocEvent

variable (event : DocEvent)

/-- `dataSize - RAW_DATA_OFFSET + HIVIEW_BLOCK_SIZE + SEQ_SIZE + CRC_SIZE`. -/
def contentSize : Nat :=
  event.rawData.length - rawDataOffset + hiviewBlockSize + seqSize + crcSize

def content : List UInt8 :=
  Bytes.littleEndian 4 event.contentSize ++ Bytes.littleEndian 8 event.eventSeq.toUInt64.toNat ++
  event.rawData.drop rawDataOffset ++ Bytes.littleEndian 4 0

theorem content_length : event.content.length = event.contentSize := by
  simp only [content, contentSize, length_append, littleEndian_length, length_drop,
    hiviewBlockSize, seqSize, crcSize]
  omega

theorem contentSize_ge : 47 ≤ event.contentSize := by
  have headed := event.headed
  simp only [contentSize, rawDataOffset, hiviewBlockSize, seqSize, crcSize]
  omega

end DocEvent
end Hiview.EventStore
