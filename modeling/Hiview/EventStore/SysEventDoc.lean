import Hiview.EventStore.DocWriter
import Hiview.EventStore.DbFileName

/-! `SysEventDoc`: which db file an event goes to. The directory is the list of
the db files of one event name; files of other names do not contain
`/NAME-` in their paths and are never looked at. Operations on files succeed. -/
namespace Hiview.EventStore

/-- What a db file is called, what is in it, and the sequence numbers of the
events it was given. -/
structure DbFile where
  path : List UInt8
  bytes : List UInt8
  seqs : List Int

/-- The event as `Insert` sees it. -/
structure SysEvent where
  doc : DocEvent
  eventType : Nat
  level : EventLevel
  reportInterval : Int16

def SysEvent.seq (event : SysEvent) : Int := event.doc.eventSeq.toInt

/-- The domain directory and the event name of a document. -/
structure DocKey where
  dir : List UInt8
  name : EventName

/-- What an insert takes from its surroundings: the writer's, and the configured
maximal file size in KiB by event type. -/
structure StoreEnv where
  writer : Environment
  maxFileSize : Nat → UInt32

structure SysEventDoc where
  writer : Bool
  type : Nat
  level : EventLevel
  curFile : List UInt8

variable (key : DocKey) (env : StoreEnv) (doc : SysEventDoc) (files : List DbFile)

namespace SysEventDoc

/-- A new object; the level is empty until the first insert sets it. -/
def fresh : SysEventDoc := ⟨false, 0, .minor, []⟩

def fileOf (path : List UInt8) : Option DbFile :=
  files.find? fun file => file.path = path

def getFileSize (path : List UInt8) : Nat :=
  (fileOf files path).elim 0 fun file => file.bytes.length

def getMaxFileSize (env : StoreEnv) : Nat :=
  (env.maxFileSize doc.type).toNat * numOfBytesInKb % wordSize

def isFileFull (env : StoreEnv) (files : List DbFile) (path : List UInt8) : Bool :=
  getFileSize files path ≥ doc.getMaxFileSize env

def isNeedUpdateCurFile (env : StoreEnv) (files : List DbFile) : Bool :=
  doc.curFile = [] || doc.isFileFull env files doc.curFile

/-- Longer paths first, and the greater one among paths of one length. -/
def precedes (curFile file : List UInt8) : Bool :=
  (file.length = curFile.length && curFile < file) || curFile.length < file.length

/-- One round of the loop in `GetCurFile`. -/
def pickFile (curFile : List UInt8) (file : DbFile) : List UInt8 :=
  if Text.contains file.path (47 :: key.name.text ++ [45]) && precedes curFile file.path then
    file.path
  else curFile

def getCurFile : List UInt8 := files.foldl (pickFile key) []

def filePath (type : Nat) (level : EventLevel) (event : SysEvent) : List UInt8 :=
  key.dir ++ 47 :: dbFileName key.name type level event.seq event.reportInterval

/-- A path that exists is kept as it is. -/
def createFile (path : List UInt8) : List DbFile :=
  if (fileOf files path).isSome then files else files ++ [⟨path, [], []⟩]

def createCurFile (event : SysEvent) :
    SysEventDoc × List DbFile :=
  let path := filePath key doc.type doc.level event
  ({ doc with curFile := path }, createFile files path)

def updateCurFile
    (event : SysEvent) : SysEventDoc × List DbFile :=
  let path := getCurFile key files
  if path = [] || !EventDbFileUtil.isMatchedDbFilePath path event.reportInterval ||
      doc.isFileFull env files path then
    createCurFile key doc files event
  else ({ doc with curFile := path }, files)

/-- The document takes type and level from the event it looks for a file for. -/
def consulting (event : SysEvent) : SysEventDoc :=
  { doc with type := event.eventType, level := event.level }

def initWriter
    (event : SysEvent) : SysEventDoc × List DbFile :=
  if !doc.writer || doc.isNeedUpdateCurFile env files then
    let updated := updateCurFile key env (doc.consulting event) files event
    ({ updated.1 with writer := true }, updated.2)
  else (doc, files)

/-- The file at a path with what it holds after a write. -/
def replaced (path bytes : List UInt8) (seqs : List Int) (old : DbFile) : DbFile :=
  if old.path = path then ⟨path, bytes, seqs⟩ else old

/-- `Write` on the file at a path. -/
def writeFile (path : List UInt8) (event : SysEvent) :
    DocStore × List DbFile :=
  match fileOf files path with
  | none => (.errorIo, files)
  | some file =>
    let written := SysEventDocWriter.write env.writer file.bytes (some event.doc)
    let seqs := if written.1 = .success then file.seqs ++ [event.seq] else file.seqs
    (written.1, files.map (replaced path written.2 seqs))

def insert :
    Option SysEvent → DocStore × SysEventDoc × List DbFile
  | none => (.errorNull, doc, files)
  | some event =>
    let inited := initWriter key env doc files event
    let written := writeFile env inited.2 inited.1.curFile event
    if written.1 = .newFile then
      let created := createCurFile key inited.1 written.2 event
      let again := writeFile env created.2 created.1.curFile event
      (again.1, created.1, again.2)
    else (written.1, inited.1, written.2)

end SysEventDoc
end Hiview.EventStore
