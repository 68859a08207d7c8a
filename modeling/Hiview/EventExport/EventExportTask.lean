import Hiview.EventExport.ExportDbManager

/-! `EventExportTask` and `EventExportUtil` on the record of a module that inherits
from no other module and has no upgrade parameter, so that there is no inherit
flag file. -/
namespace Hiview.EventExport
open ExportDbManager

/-- What `SysEventSequenceManager` gives out: the sequence the process started
with, and the one of the next event. -/
structure SequenceView where
  startSeq : Int
  curSeq : Int
  deriving DecidableEq

namespace EventExportUtil

variable (sequence : SequenceView) (record : Option ExportDetailRecord)

def handleExportSwitchOn :
    Option ExportDetailRecord :=
  handleExportSwitchChanged record sequence.curSeq

def handleExportSwitchOff : Option ExportDetailRecord :=
  handleExportSwitchChanged record invalidSeqVal

def getModuleExportEnabledSeq : Int :=
  if isUnrecordedModule record then sequence.curSeq else sequence.startSeq

def syncDbByExportSwitchStatus
    (isSwitchOff : Bool) : Option ExportDetailRecord :=
  if isSwitchOff then
    if getExportEnabledSeq record ≠ invalidSeqVal then
      handleExportSwitchChanged record invalidSeqVal
    else record
  else if getExportEnabledSeq record = invalidSeqVal then
    handleExportSwitchChanged record (getModuleExportEnabledSeq sequence record)
  else record

end EventExportUtil

namespace EventExportTask

/-- The most that is exported in one period. -/
def exportMaxCnt : Int := 1000000

/-- The range `InitReadRequest` finds for a task, if it is a valid one. -/
def initReadRequest (record : Option ExportDetailRecord) (maxSeq : Int) : Option (Int × Int) :=
  let beginSeq := getExportBeginSeq record
  if beginSeq = invalidSeqVal then none
  else if maxSeq < beginSeq then none
  else some (beginSeq, if maxSeq > beginSeq + exportMaxCnt then beginSeq + exportMaxCnt else maxSeq)

theorem initReadRequest_spec (found : initReadRequest record maxSeq = some range) :
    getExportBeginSeq record ≠ invalidSeqVal ∧ range.1 = getExportBeginSeq record ∧
      range.1 ≤ range.2 ∧ range.2 ≤ maxSeq := by
  revert found
  fun_cases initReadRequest record maxSeq with
  | case3 beginSeq valid =>
    rintro ⟨⟩
    rw [exportMaxCnt]
    split <;> omega
  | _ => nofun

end EventExportTask
end Hiview.EventExport
