import Hiview.TraceManager.TraceCommon
import Hiview.TraceManager.TraceStorage

/-! The strategies that dump a trace under the quota of a caller. The clock is read
wherever the controller compares dates; the two dates of a call are the one of the first
check and the one at which the remaining size is asked for. -/
namespace Hiview.TraceManager
open TraceStorage

def TraceRet.ofFlow (code : TraceFlowCode) : TraceRet := { flowError := code }

/-- What the state machine's dump gives: its return and the parts of `TraceRetInfo`. -/
structure TraceDump where
  ret : TraceRet := {}
  outputFiles : List String
  fileSize : Nat
  deriving DecidableEq

/-- A dump with what it leaves; `zipped` is the size of a trace handed to the zip handler. -/
structure DumpOutcome where
  ret : TraceRet
  storage : TraceStorage
  table : List TraceFlowRecord
  zipped : Option Nat := none

/-- The end of a dump that leaves the storage and the table so. -/
def DumpOutcome.of (ret : TraceRet) (left : TraceStorage × List TraceFlowRecord) (zipped : Option Nat) :
    DumpOutcome :=
  { ret := ret, storage := left.1, table := left.2, zipped := zipped }

section
variable (storage : TraceStorage) (table : List TraceFlowRecord) (checked uploaded : CalendarDate) (dump : TraceDump)

/-- The handlers are the ones that the strategy was built with. -/
def TraceDevStrategy.doDump (traceHandler zipHandler : Bool) : DumpOutcome :=
  let (overFlow, storage) := storage.isIoOverFlow checked.text
  if overFlow then .of (.ofFlow .traceDumpDeny) (storage, table) none
  else if !dump.ret.isSuccess then .of dump.ret (storage, table) none
  else if dump.outputFiles.isEmpty then .of (.ofState .fail) (storage, table) none
  else if !traceHandler then .of (.ofState .fail) (storage, table) none
  else if !zipHandler then .of dump.ret (storage.storeIoSize table dump.fileSize) none
  else
    let (traceRemainingSize, storage) := storage.getRemainingTraceSize uploaded.text
    if traceRemainingSize ≤ dump.fileSize then
      .of (.ofFlow .traceUploadDeny) (storage.storeIoSize table dump.fileSize) none
    else .of dump.ret (storage.storeTraceSize table dump.fileSize) (some dump.fileSize)

/-- The trace handler of this strategy is the one that zips. -/
def TraceFlowControlStrategy.doDump (traceHandler : Bool) : DumpOutcome :=
  if !traceHandler then .of (.ofState .fail) (storage, table) none
  else
    let (overFlow, storage) := storage.isZipOverFlow checked.text
    if overFlow then .of (.ofFlow .traceDumpDeny) (storage, table) none
    else if !dump.ret.isSuccess then .of dump.ret (storage, table) none
    else if dump.outputFiles.isEmpty then .of (.ofState .fail) (storage, table) none
    else
      let (traceRemainingSize, storage) := storage.getRemainingTraceSize uploaded.text
      if dump.fileSize > traceRemainingSize then
        .of (.ofFlow .traceUploadDeny) (storage.decreaseDynamicThreshold table) none
      else .of dump.ret (storage.storeTraceSize table dump.fileSize) (some dump.fileSize)

end

/-! ### How a dump ends -/

def remaining (zipQuota used : Int) : Int := if zipQuota ≤ used then 0 else (zipQuota - used) + zipQuota / 10

def TraceStorage.broughtTo (storage : TraceStorage) (date : CalendarDate) : TraceStorage :=
  (storage.isDateChange date.text).2

/-- At most the counters other than the size of the uploads were changed and stored. -/
inductive Touched (storage : TraceStorage) (table : List TraceFlowRecord) :
    TraceStorage × List TraceFlowRecord → Prop where
  | same : Touched storage table (storage, table)
  | saved (record : TraceFlowRecord) (callerName : record.callerName = storage.traceFlowRecord.callerName)
      (systemTime : record.systemTime = storage.traceFlowRecord.systemTime)
      (usedZipSize : record.usedZipSize = storage.traceFlowRecord.usedZipSize) :
      Touched storage table (storage.save table record)

inductive DumpOutcome.Ends (storage : TraceStorage) (table : List TraceFlowRecord) (checked uploaded : CalendarDate) :
    DumpOutcome → Prop where
  | unread (ret : TraceRet) : Ends storage table checked uploaded (.of ret (storage, table) none)
  | denied (ret : TraceRet) {left : TraceStorage × List TraceFlowRecord}
      (touched : Touched (storage.broughtTo checked) table left) :
      Ends storage table checked uploaded (.of ret left none)
  | refused (ret : TraceRet) {left : TraceStorage × List TraceFlowRecord}
      (touched : Touched ((storage.broughtTo checked).broughtTo uploaded) table left) :
      Ends storage table checked uploaded (.of ret left none)
  | handed (ret : TraceRet) {size : Nat}
      (fits : size ≤ remaining storage.quota.zipQuota
        ((storage.broughtTo checked).broughtTo uploaded).traceFlowRecord.usedZipSize) :
      Ends storage table checked uploaded
        (.of ret (((storage.broughtTo checked).broughtTo uploaded).storeTraceSize table size) (some size))

section
variable {storage : TraceStorage} {table : List TraceFlowRecord}

@[simp]
theorem broughtTo_quota (storage : TraceStorage) (date : CalendarDate) :
    (storage.broughtTo date).quota = storage.quota := by
  rw [broughtTo, isDateChange]
  split <;> rfl

@[simp]
theorem broughtTo_callerName (storage : TraceStorage) (date : CalendarDate) :
    (storage.broughtTo date).traceFlowRecord.callerName = storage.traceFlowRecord.callerName := by
  rw [broughtTo, isDateChange]
  split <;> rfl

@[simp]
theorem broughtTo_systemTime (storage : TraceStorage) (date : CalendarDate) :
    (storage.broughtTo date).traceFlowRecord.systemTime = date.text := by
  rw [broughtTo, isDateChange]
  split
  · rfl
  · case isFalse same => exact (not_not.mp same).symm

section
variable (storage : TraceStorage) (date : CalendarDate)

theorem broughtTo_usedZipSize :
    (storage.broughtTo date).traceFlowRecord.usedZipSize =
      if date.text = storage.traceFlowRecord.systemTime then storage.traceFlowRecord.usedZipSize else 0 := by
  by_cases same : date.text = storage.traceFlowRecord.systemTime <;>
    simp [broughtTo, isDateChange, same]

theorem isIoOverFlow_snd :
    (storage.isIoOverFlow date.text).2 = storage.broughtTo date ∨
      storage.isIoOverFlow date.text = (true, storage) := by
  rw [isIoOverFlow]
  split
  · exact .inr rfl
  · simp only
    split <;> exact .inl rfl

theorem isZipOverFlow_snd :
    (storage.isZipOverFlow date.text).2 = storage.broughtTo date ∨
      storage.isZipOverFlow date.text = (true, storage) := by
  rw [isZipOverFlow]
  split
  · exact .inr rfl
  · simp only
    split <;> exact .inl rfl

end

theorem getRemainingTraceSize_eq (positive : 0 < storage.quota.zipQuota) (date : CalendarDate) :
    storage.getRemainingTraceSize date.text =
      (remaining storage.quota.zipQuota (storage.broughtTo date).traceFlowRecord.usedZipSize,
        storage.broughtTo date) := by
  have limited : ¬ storage.quota.zipQuota ≤ 0 := Int.not_le.mpr positive
  rw [getRemainingTraceSize, if_neg limited, remaining, broughtTo]
  by_cases same : date.text = storage.traceFlowRecord.systemTime
  · simp [isDateChange, same]
    split <;> rfl
  · simp [isDateChange, same, limited]

theorem storeIoSize_touched (storage : TraceStorage) (table : List TraceFlowRecord) (size : Int) :
    Touched storage table (storage.storeIoSize table size) := by
  rw [storeIoSize]
  split
  · exact .same
  · exact .saved _ rfl rfl rfl

theorem decreaseDynamicThreshold_touched (storage : TraceStorage) (table : List TraceFlowRecord) :
    Touched storage table (storage.decreaseDynamicThreshold table) := by
  rw [decreaseDynamicThreshold]
  split
  · exact .same
  · exact .saved _ rfl rfl rfl

section
variable (positive : 0 < storage.quota.zipQuota) (checked uploaded : CalendarDate) (dump : TraceDump)
include positive

theorem TraceDevStrategy.doDump_ends (traceHandler zipHandler : Bool) :
    (doDump storage table checked uploaded dump traceHandler zipHandler).Ends storage table checked uploaded := by
  have limited : 0 < (storage.broughtTo checked).quota.zipQuota := by rwa [broughtTo_quota]
  rw [doDump]
  rcases isIoOverFlow_snd storage checked with brought | denied
  · generalize storage.isIoOverFlow checked.text = result at brought
    obtain ⟨overFlow, storage⟩ := result
    subst brought
    simp only [getRemainingTraceSize_eq limited]
    split_ifs with _ _ _ _ _ fits
    · exact .denied _ .same
    · exact .denied _ .same
    · exact .denied _ .same
    · exact .denied _ .same
    · exact .denied _ (storeIoSize_touched _ _ _)
    · exact .refused _ (storeIoSize_touched _ _ _)
    · exact .handed _ (broughtTo_quota _ checked ▸ Int.le_of_lt (Int.not_le.mp fits))
  · rw [denied]
    exact .unread _

theorem TraceFlowControlStrategy.doDump_ends (traceHandler : Bool) :
    (doDump storage table checked uploaded dump traceHandler).Ends storage table checked uploaded := by
  have limited : 0 < (storage.broughtTo checked).quota.zipQuota := by rwa [broughtTo_quota]
  rw [doDump]
  split
  · exact .unread _
  · rcases isZipOverFlow_snd storage checked with brought | denied
    · generalize storage.isZipOverFlow checked.text = result at brought
      obtain ⟨overFlow, storage⟩ := result
      subst brought
      simp only [getRemainingTraceSize_eq limited]
      split_ifs with _ _ _ fits
      · exact .denied _ .same
      · exact .denied _ .same
      · exact .denied _ .same
      · exact .refused _ (decreaseDynamicThreshold_touched _ _)
      · exact .handed _ (broughtTo_quota _ checked ▸ Int.not_lt.mp fits)
    · rw [denied]
      exact .unread _

end

end
end Hiview.TraceManager
