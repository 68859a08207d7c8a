import Hiview.Lib.FileContent

/-! The three copy routines and the callers that remove the source on their word. The
source and the destination are different files and nobody else changes them; what the
system calls do is given. -/
namespace Hiview.Service
open FileContent

inductive SendfileRet where
  | error
  | sent (bytes : Nat)
  deriving DecidableEq

/-- The files and the behaviour of the system calls. A missing destination is created. -/
structure CopyInput where
  source : List UInt8
  dest : Option (List UInt8) := none
  openSource : Bool := true
  openDest : Bool := true
  /-- `fstat` and `stat` of the source -/
  stat : Bool := true
  sendfile : List SendfileRet := []
  /-- how many bytes of a string get through `SaveStringToFd` -/
  saved : Nat := 0
  /-- how many bytes get through a file stream -/
  written : Nat := 0
  removeSource : Bool := true
  removeDest : Bool := true
  deriving DecidableEq

/-- What a routine returns, if it does, and the destination. -/
structure CopyResult where
  ret : Option Int
  dest : Option (List UInt8)
  deriving DecidableEq

structure MoveResult where
  source : Bool
  dest : Option (List UInt8)
  deriving DecidableEq

def errDefault : Int := -1

variable (input : CopyInput)

namespace HiviewService

/-- The loop over `sendfile`; a transfer of nothing is repeated. -/
def copyLoop (source : List UInt8) (size : Nat) : List SendfileRet → Nat → List UInt8 → CopyResult
  | answers, offset, content =>
    if size ≤ offset then ⟨some 0, some content⟩
    else
      match answers with
      | [] => ⟨none, some content⟩
      | .error :: _ => ⟨some errDefault, some content⟩
      | .sent bytes :: rest =>
        let part := (source.drop offset).take (min bytes (size - offset))
        let content := writeAt content offset part
        if size < offset + part.length then ⟨some errDefault, some content⟩
        else copyLoop source size rest (offset + part.length) content

/-- The destination is opened without `O_TRUNC`. -/
def copyFile : CopyResult :=
  if !input.openSource then ⟨some errDefault, input.dest⟩
  else if !input.stat then ⟨some errDefault, input.dest⟩
  else if !input.openDest then ⟨some errDefault, input.dest⟩
  else copyLoop input.source input.source.length input.sendfile 0 (input.dest.getD [])

def move : MoveResult :=
  let copied := copyFile input
  if copied.ret ≠ some 0 then ⟨true, copied.dest⟩
  else if input.removeSource then ⟨false, copied.dest⟩
  else ⟨true, if input.removeDest then none else copied.dest⟩

end HiviewService

namespace FileUtil

/-- A stream that fails is cleared, and the copy is successful all the same. -/
def copyFile : CopyResult :=
  let opened := if input.openDest then some [] else input.dest
  if !input.openSource then ⟨some (-1), opened⟩
  else if !input.openDest then ⟨some (-1), opened⟩
  else ⟨some 0, some (input.source.take input.written)⟩

/-- How much the loop over `sendfile` has copied when it ends. -/
def fastLoop (source : List UInt8) (totalLen : Nat) :
    List SendfileRet → Nat → List UInt8 → Option Nat × List UInt8
  | answers, copyTotalLen, content =>
    if totalLen ≤ copyTotalLen then (some copyTotalLen, content)
    else
      match answers with
      | [] => (none, content)
      | .error :: _ => (some copyTotalLen, content)
      | .sent bytes :: rest =>
        let part := (source.drop copyTotalLen).take (min bytes (totalLen - copyTotalLen))
        if part.length = 0 then (some copyTotalLen, content)
        else fastLoop source totalLen rest (copyTotalLen + part.length) (writeAt content copyTotalLen part)

def truncateMsg : List UInt8 := [10, 91, 116, 114, 117, 110, 99, 97, 116, 101, 100, 93]

/-- The destination is opened without `O_TRUNC`. -/
def copyFileFast (truncatedFileSize : Nat) : CopyResult :=
  if !input.openSource then ⟨some (-1), input.dest⟩
  else if !input.openDest then ⟨some (-1), input.dest⟩
  else
    let size := if input.stat then input.source.length else 0
    let truncates := truncatedFileSize ≠ 0 ∧ truncatedFileSize < size
    let totalLen := if truncates then truncatedFileSize else size
    let (copied, content) := fastLoop input.source totalLen input.sendfile 0 (input.dest.getD [])
    match copied with
    | none => ⟨none, some content⟩
    | some copyTotalLen =>
      let content :=
        if truncates then writeAt content copyTotalLen (truncateMsg.take input.saved) else content
      ⟨some (if copyTotalLen = totalLen then 0 else -1), some content⟩

end FileUtil

namespace EventPublish

/-- One round of the loop of `SendEventToSandBox`: the file has the name of an event file
or not, and the application's directory is there or not. -/
def sendEventToSandBox (isEventFile desPathExists : Bool) : MoveResult :=
  if !isEventFile then ⟨true, input.dest⟩
  else if !desPathExists then ⟨!input.removeSource, input.dest⟩
  else
    let copied := FileUtil.copyFile input
    if copied.ret = some (-1) then ⟨true, copied.dest⟩ else ⟨!input.removeSource, copied.dest⟩

end EventPublish

namespace HiviewDbUtil

def moveDbFileToUploadDir : MoveResult :=
  let copied := FileUtil.copyFile input
  if copied.ret ≠ some 0 then ⟨true, copied.dest⟩ else ⟨!input.removeSource, copied.dest⟩

end HiviewDbUtil

end Hiview.Service
