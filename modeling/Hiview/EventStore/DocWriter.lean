import Hiview.EventStore.DocReader

/-! `SysEventDocWriter`. A write opens a reader on the file as it stands and
appends; writes to the file succeed. -/
namespace Hiview.EventStore

/-- What a write takes from its surroundings: the two version parameters and the
configured page size in KiB for the type of the event. -/
structure Environment where
  sysVersion : Version
  patchVersion : Version
  pageSize : UInt32

/-- Empty version strings and pages of one KiB. -/
def Environment.plain : Environment :=
  ⟨⟨[], by decide, by decide⟩, ⟨[], by decide, by decide⟩, 1⟩

def DocEvent.plain (num : Int64) : DocEvent :=
  ⟨Bytes.littleEndian 4 85 ++ List.replicate 81 0, num, [], by decide, by decide⟩

namespace SysEventDocWriter

def versionBytes (version : Version) : List UInt8 :=
  Bytes.littleEndian 4 (version.text.length + 1) ++ (version.text ++ [0])

/-- `strcpy_s` into the tag member; a tag that does not fit leaves it empty. -/
def tagChars (tag : List UInt8) : EventRaw.CharArray maxTagLen :=
  let text := tag.takeWhile (· ≠ 0)
  if text.length < maxTagLen then .ofBytes text else .zero

section
variable (env : Environment) (file : List UInt8) (event : DocEvent)

/-- `sizeof(DocHeader) - sizeof(magicNum)` and the two version strings. -/
def blockSize : Nat :=
  DocHeader.size - 8 + (versionBytes env.sysVersion).length + (versionBytes env.patchVersion).length

/-- The page size in the header; a first content larger than the page makes it
zero. -/
def storedPageSize : UInt8 :=
  if event.contentSize > env.pageSize.toNat * numOfBytesInKb % wordSize then 0
  else env.pageSize.toUInt8

def docHeader : DocHeader :=
  ⟨magicNum, UInt32.ofNat (blockSize env), storedPageSize env event, currentVersion,
    tagChars event.tag⟩

def headerBytes : List UInt8 :=
  (docHeader env event).bytes ++ versionBytes env.sysVersion ++ versionBytes env.patchVersion

def writeHeader :
    DocStore × List UInt8 :=
  if env.pageSize = 0 then (.errorIo, file) else (.success, file ++ headerBytes env event)

def writeContent : DocStore × List UInt8 :=
  (.success, file ++ event.content)

def getCurrPageRemainSize (headerSize : Nat) (fileSize : Int) (pageSize : Nat) : Nat :=
  pageSize - ((castUint32 fileSize + wordSize - headerSize) % wordSize) % pageSize

def fillCurrPageWithZero (remainSize : Nat) : DocStore × List UInt8 :=
  if remainSize > maxNewSize then (.errorMemory, file)
  else (.success, file ++ List.replicate remainSize 0)

/-- `GetContentSize` refuses events the reader could not take back. -/
def getContentSize : DocStore :=
  if event.rawData.length < rawDataOffset ∨ event.rawData.length > maxNewSize then .errorInvalid
  else .success

/-- The page that is left open gets the content, or zeros and a next page does. -/
def writePage (headerSize : Nat) (fileSize : Int) (pageSize : Nat) (file : List UInt8)
    (event : DocEvent) : DocStore × List UInt8 :=
  let remainSize := getCurrPageRemainSize headerSize fileSize pageSize
  if remainSize < event.contentSize then
    match fillCurrPageWithZero file remainSize with
    | (.success, file) => writeContent file event
    | (code, file) => (code, file)
  else writeContent file event

def writeFirst : DocStore × List UInt8 :=
  match writeHeader env file event with
  | (.success, file) => writeContent file event
  | (code, file) => (code, file)

/-- `Write` on a file that is not empty. What `ReadHeader` returns is not looked
at, only the members it fills. -/
def writeNext : DocStore × List UInt8 :=
  let reader := SysEventDocReader.new file
  let head := reader.readHeader
  let headerSize := (head.2.1.blockSize.toNat + 8) % wordSize
  if head.2.1.version ≠ currentVersion ∨ head.2.2.headExtra.sysVersion ≠ env.sysVersion.text ∨
      head.2.2.headExtra.patchVersion ≠ env.patchVersion.text then
    (.newFile, file)
  else
    match head.2.2.readPageSize with
    | (.success, pageSize) =>
      if pageSize = 0 ∨ pageSize < event.contentSize then (.newFile, file)
      else writePage headerSize reader.readFileSize pageSize file event
    | (code, _) => (code, file)

def write : Option DocEvent → DocStore × List UInt8
  | none => (.errorNull, file)
  | some event =>
    if getContentSize event ≠ .success then (getContentSize event, file)
    else
      let fileSize := (SysEventDocReader.new file).readFileSize
      if fileSize < 0 then (.errorIo, file)
      else if fileSize = 0 then writeFirst env file event
      else writeNext env file event

end

structure Call where
  env : Environment
  event : DocEvent

/-- The file after calls that all return `DOC_STORE_SUCCESS`, if they do. -/
def writeAll : List UInt8 → List Call → Option (List UInt8)
  | file, [] => some file
  | file, call :: rest =>
    match write call.env file (some call.event) with
    | (.success, file) => writeAll file rest
    | _ => none

end SysEventDocWriter
end Hiview.EventStore
