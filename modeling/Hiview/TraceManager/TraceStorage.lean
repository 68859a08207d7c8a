import Mathlib.Tactic.Common

/-! The daily record of what a caller has used, kept in `TraceStorage` and in one row of
the table `trace_flow_control`. The ten percent over the quota are taken exactly. -/
namespace Hiview.TraceManager

/-- What `GetDate` returns; the empty text marks a record that was never stored. -/
structure CalendarDate where
  text : String
  nonempty : text ≠ ""
  deriving DecidableEq

structure TraceFlowRecord where
  systemTime : String := ""
  callerName : String
  usedIoSize : Int := 0
  usedZipSize : Int := 0
  dynamicDecrease : Int := 0
  deriving DecidableEq

/-- What `InitTraceQuota` reads for the caller. -/
structure TraceQuota where
  ioQuota : Int := 0
  zipQuota : Int := 0
  decreaseUnit : Int := 0
  deriving DecidableEq

namespace FlowTable
variable (table : List TraceFlowRecord)

def row (callerName : String) : Option TraceFlowRecord := table.find? fun row => row.callerName = callerName

/-- The record stays as it is when there is no row. -/
def query (record : TraceFlowRecord) : TraceFlowRecord := (row table record.callerName).getD record

def update (record : TraceFlowRecord) : List TraceFlowRecord :=
  table.map fun row => if row.callerName = record.callerName then record else row

def insert (record : TraceFlowRecord) : List TraceFlowRecord := table ++ [record]

def store (record : TraceFlowRecord) : List TraceFlowRecord :=
  if (query table { callerName := record.callerName }).systemTime ≠ "" then update table record
  else insert table record

/-- The row of the caller has a date. -/
def Dated (callerName : String) : Prop :=
  ∀ stored, row table callerName = some stored → stored.systemTime ≠ ""

variable {table}

section
variable (record : TraceFlowRecord) (callerName : String)

theorem query_callerName : (query table record).callerName = record.callerName := by
  rw [query]
  cases found : row table record.callerName with
  | none => rfl
  | some stored => simpa using List.find?_some found

theorem row_update :
    row (update table record) callerName =
      (row table callerName).map fun stored => if callerName = record.callerName then record else stored := by
  induction table with
  | nil => rfl
  | cons first rest ih =>
    simp only [row, update, List.map_cons, List.find?_cons] at ih ⊢
    by_cases own : first.callerName = record.callerName
    · by_cases asked : record.callerName = callerName
      · subst asked
        simp [own]
      · simp [own, asked, ih]
    · by_cases asked : first.callerName = callerName
      · have other : callerName ≠ record.callerName := asked ▸ own
        simp [asked, other]
      · simp [own, asked, ih]

theorem row_insert :
    row (insert table record) callerName =
      (row table callerName).or (if record.callerName = callerName then some record else none) := by
  rw [row, insert, List.find?_append, row]
  by_cases own : record.callerName = callerName <;> simp [own]

end

theorem row_store_other (other : record.callerName ≠ callerName) :
    row (store table record) callerName = row table callerName := by
  rw [store]
  split
  · simp [row_update, other.symm]
  · rw [row_insert, if_neg other, Option.or_none]

theorem row_store (dated : Dated table record.callerName) :
    row (store table record) record.callerName = some record := by
  rw [store, query]
  cases found : row table record.callerName with
  | none => simp [row_insert, found]
  | some stored =>
    have nonempty := dated stored found
    simp [row_update, found, nonempty]

end FlowTable

structure TraceStorage where
  quota : TraceQuota
  traceFlowRecord : TraceFlowRecord
  deriving DecidableEq

namespace TraceStorage

/-- The constructor: `InitTraceQuota` and `InitTableRecord`. -/
def create (name : String) (quota : TraceQuota) (table : List TraceFlowRecord) : TraceStorage :=
  { quota := quota, traceFlowRecord := FlowTable.query table { callerName := name } }

variable (storage : TraceStorage)

variable (nowDays : String)

def isDateChange : Bool × TraceStorage :=
  if nowDays ≠ storage.traceFlowRecord.systemTime then
    (true, { storage with
      traceFlowRecord :=
        { systemTime := nowDays, callerName := storage.traceFlowRecord.callerName } })
  else (false, storage)

def getRemainingTraceSize : Int × TraceStorage :=
  let zipQuota := storage.quota.zipQuota
  if zipQuota ≤ 0 then (0, storage)
  else
    let (changed, storage) := storage.isDateChange nowDays
    if changed then (zipQuota + zipQuota / 10, storage)
    else if zipQuota ≤ storage.traceFlowRecord.usedZipSize then (0, storage)
    else ((zipQuota - storage.traceFlowRecord.usedZipSize) + zipQuota / 10, storage)

def isZipOverFlow : Bool × TraceStorage :=
  if storage.quota.zipQuota ≤ 0 then (true, storage)
  else
    let (changed, storage) := storage.isDateChange nowDays
    if changed then (false, storage)
    else
      (storage.quota.zipQuota - storage.traceFlowRecord.dynamicDecrease < storage.traceFlowRecord.usedZipSize,
        storage)

def isIoOverFlow : Bool × TraceStorage :=
  if storage.quota.ioQuota ≤ 0 then (true, storage)
  else
    let (changed, storage) := storage.isDateChange nowDays
    if changed then (false, storage)
    else (storage.quota.ioQuota < storage.traceFlowRecord.usedIoSize, storage)

variable (table : List TraceFlowRecord)

/-- The record that is kept and stored. -/
def save (record : TraceFlowRecord) : TraceStorage × List TraceFlowRecord :=
  ({ storage with traceFlowRecord := record }, FlowTable.store table record)

def decreaseDynamicThreshold : TraceStorage × List TraceFlowRecord :=
  let record := storage.traceFlowRecord
  if storage.quota.zipQuota ≤ 0 then (storage, table)
  else storage.save table { record with dynamicDecrease := record.dynamicDecrease + storage.quota.decreaseUnit }

def storeTraceSize (traceSize : Int) : TraceStorage × List TraceFlowRecord :=
  let record := storage.traceFlowRecord
  storage.save table
    { record with
      usedIoSize := if storage.quota.ioQuota > 0 then record.usedIoSize + traceSize else record.usedIoSize
      usedZipSize := if storage.quota.zipQuota > 0 then record.usedZipSize + traceSize else record.usedZipSize }

def storeIoSize (traceSize : Int) : TraceStorage × List TraceFlowRecord :=
  let record := storage.traceFlowRecord
  if storage.quota.ioQuota ≤ 0 then (storage, table)
  else storage.save table { record with usedIoSize := record.usedIoSize + traceSize }

end TraceStorage
end Hiview.TraceManager
