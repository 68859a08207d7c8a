import Hiview.Lib.Numeral
import Hiview.Lib.Transition

/-! `SysEventSequenceManager`: the two persisted files as text, the constructor
that reads them and skips ahead, and `SetSequence`, which persists every
hundredth call. A process can die between any two writes; what it still had to
write is then lost. -/
namespace Hiview.EventStore

inductive SeqFile where
  | main | backup
  deriving DecidableEq

/-- The sequence file and its backup, as far as they exist. -/
structure SeqDisk where
  main : Option (List UInt8)
  backup : Option (List UInt8)
  deriving DecidableEq

structure SeqWrite where
  file : SeqFile
  seq : Int
  deriving DecidableEq

def seqIncrement : Int := 100

/-- A sum of signed 64-bit numbers; nothing when it overflows. -/
def addInt64 (first second : Int) : Option Int :=
  if -9223372036854775808 ≤ first + second ∧ first + second ≤ 9223372036854775807 then
    some (first + second)
  else none

/-- The file is opened without truncation, so that a longer old text shows
behind the terminator of the new one. -/
def saveStringToFile (old : Option (List UInt8)) (content : List UInt8) : List UInt8 :=
  content ++ 0 :: (old.getD []).drop (content.length + 1)

namespace SeqDisk

def writeEventSeqToFile (disk : SeqDisk) (write : SeqWrite) : SeqDisk :=
  match write.file with
  | .main => { disk with main := some (saveStringToFile disk.main (Numeral.toString write.seq)) }
  | .backup =>
    { disk with backup := some (saveStringToFile disk.backup (Numeral.toString write.seq)) }

def writeAll (disk : SeqDisk) (writes : List SeqWrite) : SeqDisk :=
  writes.foldl writeEventSeqToFile disk

end SeqDisk

/-- `CheckFileExistThenReadSeq` into a variable that holds zero. -/
def readSeq (file : Option (List UInt8)) : Int := file.elim 0 Numeral.strtoll

/-- `ReadSeqFromFile`: the sequence, and the writes that repair the files. The
last resort is the greatest sequence found in the local db files. -/
def readSeqFromFile (localMax : Int) (disk : SeqDisk) : Int × List SeqWrite :=
  let seq := readSeq disk.main
  let seqBackup := readSeq disk.backup
  if seq = seqBackup ∧ (disk.main.isNone ∨ seq ≠ 0) then (seq, [])
  else if seq - seqBackup = seqIncrement then (seq, [⟨.backup, seq⟩])
  else (localMax, [⟨.main, localMax⟩, ⟨.backup, localMax⟩])

def writeSeqToFile (seq : Int) : List SeqWrite := [⟨.main, seq⟩, ⟨.backup, seq⟩]

/-- What a start takes from its surroundings: whether a backup is restored, what
that leaves of the two files, and the sequence in the local db files, none of
them negative. -/
structure StartEnv where
  oversea : Bool
  restored : SeqDisk
  localMax : Nat
  nonneg : 0 ≤ readSeq restored.main
  bounded : localMax ≤ 9223372036854775807

structure SysEventSequenceManager where
  startSeq : Int
  curSeq : Int
  setCount : Nat
  deriving DecidableEq

namespace SysEventSequenceManager

variable (env : StartEnv) (disk : SeqDisk) (manager : SysEventSequenceManager)

def restore : SeqDisk :=
  if !env.oversea && disk.main.isNone then env.restored else disk

/-- The constructor: the manager and the writes it makes, in order. -/
def new : Option (SysEventSequenceManager × List SeqWrite) :=
  let read := readSeqFromFile env.localMax disk
  (addInt64 read.1 seqIncrement).map fun startSeq =>
    (⟨startSeq, startSeq, 0⟩, read.2 ++ writeSeqToFile startSeq)

def getSequence : Int := manager.curSeq

/-- `setCount` is a local static: it counts the calls of the process. -/
def setSequence (seq : Int) :
    SysEventSequenceManager × List SeqWrite :=
  let setCount := manager.setCount + 1
  ({ manager with curSeq := seq, setCount },
    if setCount % 100 = 0 then writeSeqToFile seq else [])

end SysEventSequenceManager

/-- A process and the writes it has not made yet. -/
structure SeqProcess where
  manager : SysEventSequenceManager
  pending : List SeqWrite
  deriving DecidableEq

/-- The files, the process if one is running, and the numbers given to events
since the beginning, in order. -/
structure SeqState where
  disk : SeqDisk
  process : Option SeqProcess
  given : List Int
  deriving DecidableEq

inductive SeqLabel where
  | start (env : StartEnv)
  | write
  | event
  | crash

namespace SeqState

/-- `SysEventStore::OnEvent` for an event that is preserved. -/
def onEvent (state : SeqState) (manager : SysEventSequenceManager) : Option SeqState :=
  let eventSeq := manager.getSequence
  (addInt64 eventSeq 1).map fun next =>
    let set := manager.setSequence next
    { state with process := some ⟨set.1, set.2⟩, given := state.given ++ [eventSeq] }

def step (state : SeqState) : SeqLabel → Option SeqState
  | .start env =>
    match state.process with
    | some _ => none
    | none =>
      let disk := SysEventSequenceManager.restore env state.disk
      (SysEventSequenceManager.new env disk).map fun started =>
        { state with disk, process := some ⟨started.1, started.2⟩ }
  | .write =>
    match state.process with
    | some ⟨manager, write :: pending⟩ =>
      some { state with
        disk := state.disk.writeEventSeqToFile write
        process := some ⟨manager, pending⟩ }
    | _ => none
  | .event =>
    match state.process with
    | some ⟨manager, []⟩ => state.onEvent manager
    | _ => none
  | .crash => some { state with process := none }

def initial (disk : SeqDisk) : SeqState := ⟨disk, none, []⟩

end SeqState
end Hiview.EventStore
