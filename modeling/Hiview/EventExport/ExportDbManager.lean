
/-! `ExportDbManager`: the record of one module in the export database. Operations
on the database succeed. -/
namespace Hiview.EventExport

def invalidSeqVal : Int := -1

structure ExportDetailRecord where
  exportEnabledSeq : Int
  exportedMaxSeq : Int
  deriving DecidableEq

namespace ExportDbManager

section
variable (record : Option ExportDetailRecord)

def isUnrecordedModule : Bool := record.isNone

def getExportEnabledSeq : Int :=
  record.elim invalidSeqVal ExportDetailRecord.exportEnabledSeq

/-- A module without a record reads as one whose switch is off. -/
def getExportBeginSeq : Int :=
  match record with
  | none => invalidSeqVal
  | some found =>
    if found.exportEnabledSeq = invalidSeqVal then invalidSeqVal
    else max found.exportEnabledSeq found.exportedMaxSeq

/-- A switch that is on or off already is not written again. -/
def handleExportSwitchChanged (curSeq : Int) :
    Option ExportDetailRecord :=
  match record with
  | none => some ⟨curSeq, invalidSeqVal⟩
  | some found =>
    if (found.exportEnabledSeq ≠ invalidSeqVal ∧ curSeq ≠ invalidSeqVal) ∨
        (found.exportEnabledSeq = invalidSeqVal ∧ curSeq = invalidSeqVal) then some found
    else some { found with exportEnabledSeq := curSeq }

def handleExportTaskFinished (eventSeq : Int) :
    Option ExportDetailRecord :=
  match record with
  | none => some ⟨invalidSeqVal, eventSeq⟩
  | some found => some { found with exportedMaxSeq := eventSeq }

theorem getExportEnabledSeq_changed (curSeq : Int) :
    getExportEnabledSeq (handleExportSwitchChanged record curSeq) = curSeq ∨
      curSeq ≠ invalidSeqVal ∧ getExportEnabledSeq record ≠ invalidSeqVal ∧
        handleExportSwitchChanged record curSeq = record := by
  cases record with
  | none => exact .inl rfl
  | some found =>
    rw [handleExportSwitchChanged]
    split
    · case isTrue same =>
      rcases same with ⟨valid, on⟩ | ⟨off, invalid⟩
      · exact .inr ⟨on, valid, rfl⟩
      · exact .inl (off.trans invalid.symm)
    · exact .inl rfl

theorem getExportEnabledSeq_finished (eventSeq : Int) :
    getExportEnabledSeq (handleExportTaskFinished record eventSeq) = getExportEnabledSeq record := by
  cases record with
  | none => rfl
  | some found => rfl

end

theorem enabled_le_begin (valid : getExportBeginSeq record ≠ invalidSeqVal) :
    getExportEnabledSeq record ≠ invalidSeqVal ∧
      getExportEnabledSeq record ≤ getExportBeginSeq record := by
  cases record with
  | none => exact absurd rfl valid
  | some found =>
    rw [getExportBeginSeq] at valid ⊢
    split
    · case isTrue off =>
      rw [if_pos off] at valid
      exact absurd rfl valid
    · case isFalse on => exact ⟨on, Int.le_max_left _ _⟩

end ExportDbManager
end Hiview.EventExport
