import Hiview.EventStore.DocFormat
import Hiview.Lib.InputStream

/-! `SysEventDocReader`: the header by format version, the page loop and the
read of one content. Conversions between the stream's 64-bit positions and the
`int` and `uint32_t` variables of the reader are kept. A content is delivered
byte by byte as read; `none` is a byte of the buffer that was never written. -/
namespace Hiview.EventStore

/-- The number of values of a 32-bit type. -/
def wordSize : Nat := 4294967296

@[irreducible] def castInt (num : Int) : Int := num.bmod wordSize

/-- `static_cast<uint32_t>` of a position. -/
@[irreducible] def castUint32 (num : Int) : Nat := (num % wordSize).toNat

theorem castInt_of_lt {num : Nat} (small : num < 2 ^ 31) : castInt num = num := by
  rw [castInt, wordSize, Int.bmod_eq_of_le] <;> omega

theorem castInt_of_ge {num : Nat} (large : 2 ^ 31 ≤ num) (bound : num < 2 ^ 32) :
    castInt num < 0 := by
  rw [castInt, wordSize, Int.bmod_neg _ _ (by omega)]
  omega

structure HeadExtraInfo where
  sysVersion : List UInt8
  patchVersion : List UInt8
  deriving DecidableEq

abbrev Content := List (Option UInt8)

/-- The content of an event with all its bytes known. -/
def DocEvent.stored (event : DocEvent) : Content := event.content.map some

structure SysEventDocReader where
  stream : InputStream
  fileSize : Int
  pageSize : Nat
  dataFmtVersion : UInt8
  docHeaderSize : Nat
  headExtra : HeadExtraInfo

namespace SysEventDocReader

/-- `ContentReader::ReadFmtVersion`: one byte behind magic number, block size and
page size. -/
def readFmtVersion (stream : InputStream) : UInt8 × InputStream :=
  let told := stream.tellg
  let got := (told.2.seekg 13).read 1
  (got.1.headD 0, got.2.seekg told.1)

/-- `SysEventDocReader(path)` on an existing file. -/
def new (file : List UInt8) : SysEventDocReader :=
  let start := (InputStream.opened file).tellg
  let ending := (start.2.seekgEnd 0).tellg
  let version := readFmtVersion (ending.2.seekg start.1)
  ⟨version.2, castInt ending.1, 0, version.1, 0, ⟨[], []⟩⟩

/-- `ContentReader::GetDataString`: a length with the terminator, then the text. -/
def getDataString (stream : InputStream) : Option (List UInt8) × InputStream :=
  let (got, stream) := stream.read 4
  let valueSize := Bytes.value got
  if valueSize > maxVersionLeng + 1 ∨ valueSize = 0 then (none, stream)
  else
    let (got, stream) := stream.read valueSize
    (some (got.takeWhile (· ≠ 0)), stream)

section
variable (reader : SysEventDocReader)

/-- `ReadDocDetails` of versions 1 and 2: a fixed header with a checksum. -/
def readFixedDetails : DocStore × DocHeader × SysEventDocReader :=
  let (got, stream) := (reader.stream.seekg 0).read 35
  (.success, .ofBytes got,
    { reader with stream, docHeaderSize := 35, headExtra.sysVersion := [] })

/-- `ReadDocDetails` of versions 3 and 4; only the latter stores a patch version. -/
def readVersionedDetails (patched : Bool) :
    DocStore × DocHeader × SysEventDocReader :=
  let (got, stream) := (reader.stream.seekg 0).read DocHeader.size
  let header := DocHeader.ofBytes got
  match getDataString stream with
  | (none, stream) => (.errorInvalid, header, { reader with stream })
  | (some sysVersion, stream) =>
    let reader := { reader with stream, headExtra.sysVersion := sysVersion }
    let docHeaderSize := header.blockSize.toNat + 8
    if patched then
      match getDataString stream with
      | (none, stream) => (.errorInvalid, header, { reader with stream })
      | (some patchVersion, stream) => (.success, header,
          { reader with stream, docHeaderSize, headExtra.patchVersion := patchVersion })
    else (.success, header, { reader with docHeaderSize })

def readHeader : DocStore × DocHeader × SysEventDocReader :=
  if reader.dataFmtVersion = 1 ∨ reader.dataFmtVersion = 2 then reader.readFixedDetails
  else if reader.dataFmtVersion = 3 then reader.readVersionedDetails false
  else if reader.dataFmtVersion = 4 then reader.readVersionedDetails true
  else (.errorIo, .ofBytes [], reader)

def readFileSize : Int := reader.fileSize

def readPageSize : DocStore × Nat :=
  match reader.readHeader with
  | (.success, header, _) => (.success, header.pageSize.toNat * numOfBytesInKb)
  | (code, _, _) => (code, 0)

def hasReadFileEnd : Bool × SysEventDocReader :=
  let told := reader.stream.tellg
  (castInt told.1 < 0 || told.2.eof, { reader with stream := told.2 })

/-- Whether the current page ends at the position of an open stream. -/
def atPageEnd (pageIndex : Nat) : Bool :=
  let curPos := castUint32 reader.stream.tellg.1
  if curPos ≤ reader.docHeaderSize then false
  else if curPos = reader.docHeaderSize + reader.pageSize * (pageIndex + 1) % wordSize then true
  else (curPos - reader.docHeaderSize) % reader.pageSize + hiviewBlockSize ≥ reader.pageSize

def hasReadPageEnd (pageIndex : Nat) : Bool × SysEventDocReader :=
  let ended := reader.hasReadFileEnd
  if ended.1 then ended else (ended.2.atPageEnd pageIndex, ended.2)

/-- `ReadValueAndReset` into a variable that holds zero. -/
def readValueAndReset (stream : InputStream) : Nat × InputStream :=
  let got := stream.read 4
  (Bytes.value got.1, got.2.seekgCur (-4))

/-- The buffer is not initialised and the number of bytes read is not checked. -/
def readBuffer (stream : InputStream) (contentSize : Nat) : Content × InputStream :=
  let got := stream.read contentSize
  (got.1.map some ++ List.replicate (contentSize - got.1.length) none, got.2)

/-- The content at the position of an open stream inside a page. -/
def nextContent : Except DocStore Content × SysEventDocReader :=
  let value := readValueAndReset reader.stream
  if value.1 < minContentSize then (.error .readEmpty, { reader with stream := value.2 })
  else if value.1 > maxNewSize then (.error .errorMemory, { reader with stream := value.2 })
  else
    let buffer := readBuffer value.2 value.1
    (.ok buffer.1, { reader with stream := buffer.2 })

def readContent (pageIndex : Nat) :
    Except DocStore Content × SysEventDocReader :=
  let ended := reader.hasReadPageEnd pageIndex
  if ended.1 then (.error .readEmpty, ended.2) else ended.2.nextContent

def seekgPage (pageIndex : Nat) : DocStore × SysEventDocReader :=
  let ended := reader.hasReadFileEnd
  let seekSize : Nat := reader.docHeaderSize + reader.pageSize * pageIndex % wordSize
  if ended.1 then (.errorIo, ended.2)
  else if castInt seekSize < reader.readFileSize then
    (.success, { reader with stream := ended.2.stream.seekg seekSize })
  else (.errorIo, { reader with stream := ended.2.stream.setEof })

end

inductive Round where
  | stop
  | deliver (content : Content) (reader : SysEventDocReader)
  | nextPage (reader : SysEventDocReader)

/-- A page that yields no further content is left for the next one. -/
def leavePage (reader : SysEventDocReader) (pageIndex : Nat) : Round :=
  let sought := reader.seekgPage (pageIndex + 1)
  if sought.1 = .success then .nextPage sought.2 else .stop

def settle (result : Except DocStore Content × SysEventDocReader) (pageIndex : Nat) : Round :=
  match result.1 with
  | .ok content => .deliver content result.2
  | .error _ => result.2.leavePage pageIndex

def round (reader : SysEventDocReader) (pageIndex : Nat) : Round :=
  let ended := reader.hasReadFileEnd
  if ended.1 then .stop else settle (ended.2.readContent pageIndex) pageIndex

/-- The contents handed to the callback, or nothing when the rounds run out. -/
def readPages : Nat → SysEventDocReader → Nat → Option (List Content)
  | 0, _, _ => none
  | rounds + 1, reader, pageIndex =>
    match reader.round pageIndex with
    | .stop => some []
    | .deliver content reader => (readPages rounds reader pageIndex).map (content :: ·)
    | .nextPage reader => readPages rounds reader (pageIndex + 1)

def readBody (reader : SysEventDocReader) : DocStore × Option (List Content) :=
  if reader.pageSize = 0 then
    match (reader.readContent 0).1 with
    | .ok content => (.success, some [content])
    | .error code => (code, some [])
  else (.success, readPages (2 * reader.stream.content.length + wordSize) reader 0)

def read (reader : SysEventDocReader) : DocStore × Option (List Content) :=
  match reader.readHeader with
  | (.success, header, reader) =>
    if header.magicNum ≠ magicNum then (.errorInvalid, some [])
    else readBody { reader with pageSize := header.pageSize.toNat * numOfBytesInKb }
  | (code, _, _) => (code, some [])

end SysEventDocReader
end Hiview.EventStore
