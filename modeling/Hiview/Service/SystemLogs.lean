import Hiview.Lib.FilePath
import Hiview.Service.FileCopy

/-! Copying and moving system logs into the sandbox of the caller: the checks of
`HiviewServiceAbility` on the paths, and what `HiviewService` then does to the files. -/
namespace Hiview.Service
open FilePath

structure ConfigInfo where
  path : List Char
  isReadOnly : Bool := false
  trailing : path.getLast? = some '/'

/-- What happens to a file, and where it is. -/
inductive Access where
  | read (location : Location)
  | write (location : Location)
  | chown (location : Location)
  | remove (location : Location)
  deriving DecidableEq

/-- The system calls that can fail for reasons other than the path. -/
structure SystemCalls where
  openSource : Bool := true
  stat : Bool := true
  openDest : Bool := true
  sendfile : List SendfileRet := []
  removeSource : Bool := true
  removeDest : Bool := true
  lchown : Bool := true

structure Outcome where
  /-- nothing while `sendfile` goes on -/
  ret : Option Int
  fs : FileSystem
  accesses : List Access

namespace HiviewService

variable (calls : SystemCalls) (fs : FileSystem) (srcFilePath destFilePath : List Char)

def sourceLocation (srcFilePath : List Char) : Option Location :=
  if calls.openSource then resolve fs srcFilePath else none

/-- `open` with `O_CREAT` and `O_NOFOLLOW`: a new or a regular file. -/
def destPlace (destFilePath : List Char) : Option (Location × Name) :=
  if calls.openDest then
    (placeOf fs destFilePath).filter fun place => !leadsOn (fs.node (place.1 ++ [place.2]))
  else none

def contentOf : Option Node → Option (List UInt8)
  | some (.file content) => some content
  | some (.dir size) => some (List.replicate size 0)
  | some (.link _) => none
  | none => none

/-- A directory can be opened for reading but has no bytes to send. -/
def sendfileOf : Option Node → List SendfileRet
  | some (.dir _) => [.error]
  | _ => calls.sendfile

def copyInput : CopyInput :=
  let source := (sourceLocation calls fs srcFilePath).bind fs.node
  let dest := destPlace calls fs destFilePath
  { source := (contentOf source).getD []
    dest := dest.bind fun place => contentOf (fs.node (place.1 ++ [place.2]))
    openSource := (sourceLocation calls fs srcFilePath).isSome
    openDest := dest.isSome
    stat := calls.stat
    sendfile := sendfileOf calls source }

/-- The destination is opened once the source is and has a size. -/
def openedDest :
    Option (Location × Name) :=
  if (sourceLocation calls fs srcFilePath).isSome && calls.stat then destPlace calls fs destFilePath else none

def readAccess (srcFilePath : List Char) : List Access :=
  match sourceLocation calls fs srcFilePath with
  | some location => if fs.isDir location then [] else [.read location]
  | none => []

def copy : Outcome :=
  let result := copyFile (copyInput calls fs srcFilePath destFilePath)
  match openedDest calls fs srcFilePath destFilePath with
  | some (directory, name) =>
    { ret := result.ret
      fs := fs.set directory name (some (.file (result.dest.getD [])))
      accesses := readAccess calls fs srcFilePath ++ [.write (directory ++ [name])] }
  | none => { ret := result.ret, fs := fs, accesses := readAccess calls fs srcFilePath }

/-- `FileUtil::RemoveFile` with what it returns; a file that is not there is no failure. -/
def removeFile (removed : Bool) (fs : FileSystem) (path : List Char) : FileSystem × List Access :=
  match placeOf fs path with
  | some (directory, name) =>
    if removed && (fs.node (directory ++ [name])).isSome then
      (fs.set directory name none, [.remove (directory ++ [name])])
    else (fs, [])
  | none => (fs, [])

def moveFile : Outcome :=
  let copied := copy calls fs srcFilePath destFilePath
  if copied.ret ≠ some 0 then copied
  else if calls.removeSource then
    let (fs, accesses) := removeFile true copied.fs srcFilePath
    { ret := some 0, fs := fs, accesses := copied.accesses ++ accesses }
  else
    let (fs, accesses) := removeFile calls.removeDest copied.fs destFilePath
    { ret := some errDefault, fs := fs, accesses := copied.accesses ++ accesses }

end HiviewService

variable (env : Environment) (fs : FileSystem) (call : Call)

namespace HiviewServiceAbility

structure Environment where
  hasAccessPermission : Bool := true
  hasService : Bool := true
  configInfo : String → Option ConfigInfo
  /-- the location of `cache/hiview` of the caller, nothing when its path is empty -/
  sandbox : Option Location
  calls : SystemCalls := {}

structure Call where
  isMove : Bool
  logType : String
  logName : List Char
  dest : List Char

def errPermissionCheck : Int := 201
def errSourceFileNotExist : Int := 21300001
def errInnerInvalidLogtype : Int := 10001
def errInnerReadOnly : Int := 10002

def composeFilePath (rootDir destDir fileName : List Char) : List Char :=
  if destDir = [] then rootDir ++ '/' :: fileName else rootDir ++ '/' :: (destDir ++ '/' :: fileName)

def includeTrailingPathDelimiter (path : List Char) : List Char :=
  if path.getLast? = some '/' then path else path ++ ['/']

def isSafePath (basePath fullPath : List Char) : Bool :=
  match resolve fs basePath, resolve fs fullPath with
  | some realBasePath, some realFullPath =>
    (includeTrailingPathDelimiter (render realBasePath)).isPrefixOf (render realFullPath)
  | _, _ => false

/-- The source and the destination that `CopyOrMoveFile` works on, or its error. -/
def checkPaths : Except Int (List Char × List Char) :=
  if !env.hasService then .error errDefault
  else
    match env.configInfo call.logType with
    | none => .error errInnerInvalidLogtype
    | some config =>
      if call.isMove && config.isReadOnly then .error errInnerReadOnly
      else
        match env.sandbox with
        | none => .error errDefault
        | some sandbox =>
          let sandboxPath := render sandbox
          let sourceFile := config.path ++ call.logName
          if !isSafePath fs config.path sourceFile then .error errSourceFileNotExist
          else if (resolve fs sourceFile).isNone then .error errSourceFileNotExist
          else if call.dest ≠ [] && !isSafePath fs sandboxPath (sandboxPath ++ '/' :: call.dest) then
            .error errDefault
          else .ok (sourceFile, composeFilePath sandboxPath call.dest call.logName)

def lchown (calls : SystemCalls) (fs : FileSystem) (path : List Char) : List Access :=
  match placeOf fs path with
  | some (directory, name) =>
    if calls.lchown && (fs.node (directory ++ [name])).isSome then [.chown (directory ++ [name])] else []
  | none => []

def copyOrMoveFile : Outcome :=
  match checkPaths env fs call with
  | .error ret => { ret := some ret, fs := fs, accesses := [] }
  | .ok (sourceFile, fullPath) =>
    let done :=
      if call.isMove then HiviewService.moveFile env.calls fs sourceFile fullPath
      else HiviewService.copy env.calls fs sourceFile fullPath
    if done.ret = some 0 then { done with accesses := done.accesses ++ lchown env.calls done.fs fullPath } else done

/-- `Copy` and `Move`, which ask for different permissions. -/
def copyOrMove : Outcome :=
  if !env.hasAccessPermission then { ret := some errPermissionCheck, fs := fs, accesses := [] }
  else copyOrMoveFile env fs call

end HiviewServiceAbility

end Hiview.Service
