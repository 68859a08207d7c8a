import Hiview.Lib.Transition
import Hiview.TraceManager.TraceStrategy

/-! The daily upload quota of one caller over whole runs of its dumps. The record of the
caller holds one date: the sizes are accounted for as long as the clock does not return to
a date under which a trace was already handed over. -/
namespace Hiview.TraceManager
open List

/-- The sum of the sizes handed to the zip handler under a date. -/
def handedUnder (date : String) : List (String × Nat) → Nat
  | [] => 0
  | (day, size) :: rest => (if day = date then size else 0) + handedUnder date rest

/-- No date gets more than the quota and ten percent, and nothing once it has the quota. -/
structure WithinQuota (zipQuota : Int) (handed : List (String × Nat)) : Prop where
  bounded : ∀ date, (handedUnder date handed : Int) ≤ zipQuota + zipQuota / 10
  refused : ∀ earlier date size later, handed = earlier ++ (date, size) :: later →
    zipQuota ≤ handedUnder date earlier → size = 0

/-- The calls of one caller, one after another; `create` is a new controller, after a
restart or not, and `other` what other callers store. -/
inductive QuotaCall where
  | create
  | flowControl (traceHandler : Bool) (checked uploaded : CalendarDate) (dump : TraceDump)
  | dev (traceHandler zipHandler : Bool) (checked uploaded : CalendarDate) (dump : TraceDump)
  | other (record : TraceFlowRecord)

structure QuotaRun where
  storage : TraceStorage
  table : List TraceFlowRecord := []
  handed : List (String × Nat) := []
  deriving DecidableEq

namespace QuotaRun

variable (name : String) (quota : TraceQuota) (state : QuotaRun)

def start : QuotaRun := { storage := .create name quota [] }

/-- The trace is handed over under the date at which the remaining size was asked for. -/
def after (uploaded : CalendarDate) (outcome : DumpOutcome) : QuotaRun :=
  { storage := outcome.storage
    table := outcome.table
    handed := state.handed ++ (outcome.zipped.map fun size => (uploaded.text, size)).toList }

def step : QuotaCall → Option QuotaRun
  | .create => some { state with storage := .create name quota state.table }
  | .flowControl traceHandler checked uploaded dump =>
    some (state.after uploaded
      (TraceFlowControlStrategy.doDump state.storage state.table checked uploaded dump traceHandler))
  | .dev traceHandler zipHandler checked uploaded dump =>
    some (state.after uploaded
      (TraceDevStrategy.doDump state.storage state.table checked uploaded dump traceHandler zipHandler))
  | .other record =>
    if record.callerName = name then none else some { state with table := FlowTable.store state.table record }

/-- A date that restarts the counters has no trace yet. -/
def ClockGuard : QuotaCall → Prop
  | .flowControl _ checked uploaded _ | .dev _ _ checked uploaded _ =>
    (checked.text ≠ state.storage.traceFlowRecord.systemTime → handedUnder checked.text state.handed = 0) ∧
      (uploaded.text ≠ checked.text → handedUnder uploaded.text state.handed = 0)
  | .create | .other _ => True

instance : (call : QuotaCall) → Decidable (state.ClockGuard call)
  | .flowControl _ _ _ _ | .dev _ _ _ _ _ => inferInstanceAs (Decidable (_ ∧ _))
  | .create | .other _ => inferInstanceAs (Decidable True)

end QuotaRun

/-! ### What was handed over -/

theorem handedUnder_append (date : String) (first second : List (String × Nat)) :
    handedUnder date (first ++ second) = handedUnder date first + handedUnder date second := by
  induction first with
  | nil => simp [handedUnder]
  | cons entry rest ih => simp [handedUnder, ih, Nat.add_assoc]

theorem handedUnder_single (date day : String) (size : Nat) :
    handedUnder date [(day, size)] = if day = date then size else 0 := rfl

theorem withinQuota_nil (positive : 0 < zipQuota) : WithinQuota zipQuota [] where
  bounded date := by
    rw [handedUnder]
    omega
  refused earlier date size later split := by simp at split

theorem WithinQuota.hand {zipQuota : Int} (within : WithinQuota zipQuota handed) {size : Nat}
    (fits : (size : Int) ≤ remaining zipQuota (handedUnder date handed)) :
    WithinQuota zipQuota (handed ++ [(date, size)]) := by
  rw [remaining] at fits
  constructor
  · intro day
    have bounded := within.bounded day
    rw [handedUnder_append, handedUnder_single]
    by_cases same : date = day
    · subst same
      rw [if_pos rfl]
      split at fits <;> omega
    · rw [if_neg same]
      exact bounded
  · intro earlier day small later parts reached
    rcases eq_nil_or_concat later with rfl | ⟨between, last, rfl⟩
    · obtain ⟨rfl, same⟩ := append_inj' parts rfl
      cases same
      omega
    · rw [concat_eq_append, ← cons_append, ← append_assoc] at parts
      obtain ⟨before, -⟩ := append_inj' parts rfl
      exact within.refused earlier day small between before reached

/-! ### Accounting -/

/-- What the caller used under the date of a record is what was handed over. -/
def TraceFlowRecord.Exact (handed : List (String × Nat)) (record : TraceFlowRecord) : Prop :=
  record.usedZipSize = handedUnder record.systemTime handed

/-- The kept record and the stored one are exact, the stored one is of some date. -/
structure Accounted (name : String) (quota : TraceQuota) (handed : List (String × Nat))
    (left : TraceStorage × List TraceFlowRecord) : Prop where
  quota : left.1.quota = quota
  callerName : left.1.traceFlowRecord.callerName = name
  record : left.1.traceFlowRecord.Exact handed
  dated : FlowTable.Dated left.2 name
  row : ∀ stored, FlowTable.row left.2 name = some stored → stored.Exact handed

section
variable {name : String} {quota : TraceQuota} {handed : List (String × Nat)} {storage : TraceStorage}
  {table : List TraceFlowRecord} {date : CalendarDate}

section
variable (accounted : Accounted name quota handed (storage, table))
include accounted

theorem Accounted.broughtTo
    (fresh : date.text ≠ storage.traceFlowRecord.systemTime → handedUnder date.text handed = 0) :
    Accounted name quota handed (storage.broughtTo date, table) := by
  obtain ⟨sameQuota, callerName, record, dated, row⟩ := accounted
  refine ⟨(broughtTo_quota _ _).trans sameQuota, (broughtTo_callerName _ _).trans callerName, ?_, dated, row⟩
  rw [TraceFlowRecord.Exact, broughtTo_systemTime, broughtTo_usedZipSize]
  split
  · case isTrue same =>
    rw [same]
    exact record
  · case isFalse changed => rw [fresh changed]; rfl

theorem Accounted.save {record : TraceFlowRecord} (callerName : record.callerName = name)
    (dated : record.systemTime ≠ "") (exactly : record.Exact more) :
    Accounted name quota more (storage.save table record) := by
  subst callerName
  have stored : FlowTable.row (storage.save table record).2 record.callerName = some record :=
    FlowTable.row_store accounted.dated
  exact ⟨accounted.quota, rfl, exactly, fun found same => Option.some.inj (stored.symm.trans same) ▸ dated,
    fun found same => Option.some.inj (stored.symm.trans same) ▸ exactly⟩

theorem Accounted.touched (dated : storage.traceFlowRecord.systemTime ≠ "") (touched : Touched storage table left) :
    Accounted name quota handed left := by
  cases touched with
  | same => exact accounted
  | saved record callerName systemTime usedZipSize =>
    refine accounted.save (callerName.trans accounted.callerName) (systemTime.trans_ne dated) ?_
    rw [TraceFlowRecord.Exact, usedZipSize, systemTime]
    exact accounted.record

theorem Accounted.storeTraceSize (positive : 0 < quota.zipQuota) (dated : storage.traceFlowRecord.systemTime ≠ "")
    (size : Nat) :
    Accounted name quota (handed ++ [(storage.traceFlowRecord.systemTime, size)])
      (storage.storeTraceSize table size) := by
  have record : storage.traceFlowRecord.usedZipSize = _ := accounted.record
  have limited : storage.quota.zipQuota > 0 := by rwa [show storage.quota = quota from accounted.quota]
  apply accounted.save
  · exact accounted.callerName
  · exact dated
  · simp [TraceFlowRecord.Exact, limited, record, handedUnder_append, handedUnder_single]

end

theorem broughtTo_dated (storage : TraceStorage) (date : CalendarDate) :
    (storage.broughtTo date).traceFlowRecord.systemTime ≠ "" :=
  (broughtTo_systemTime storage date).trans_ne date.nonempty

end

namespace QuotaRun

structure Kept (name : String) (quota : TraceQuota) (state : QuotaRun) : Prop where
  accounted : Accounted name quota state.handed (state.storage, state.table)
  within : WithinQuota quota.zipQuota state.handed
  unnamed : handedUnder "" state.handed = 0

variable {name : String} {quota : TraceQuota} {state next : QuotaRun}

theorem start_kept (positive : 0 < quota.zipQuota) : Kept name quota (start name quota) where
  accounted := ⟨rfl, rfl, rfl, nofun, nofun⟩
  within := withinQuota_nil positive
  unnamed := rfl

theorem create_kept (kept : Kept name quota state) :
    Kept name quota { state with storage := .create name quota state.table } := by
  obtain ⟨⟨-, -, -, dated, row⟩, within, unnamed⟩ := kept
  refine ⟨⟨rfl, FlowTable.query_callerName _, ?_, dated, row⟩, within, unnamed⟩
  rw [TraceStorage.create, FlowTable.query]
  cases found : FlowTable.row state.table name with
  | none => simp [TraceFlowRecord.Exact, unnamed]
  | some stored =>
    exact row stored found

theorem other_kept (kept : Kept name quota state) (other : record.callerName ≠ name) :
    Kept name quota { state with table := FlowTable.store state.table record } := by
  obtain ⟨⟨sameQuota, callerName, exactly, dated, row⟩, within, unnamed⟩ := kept
  have same : FlowTable.row (FlowTable.store state.table record) name = _ := FlowTable.row_store_other other
  exact ⟨⟨sameQuota, callerName, exactly, fun stored found => dated stored (same.symm.trans found),
    fun stored found => row stored (same.symm.trans found)⟩, within, unnamed⟩

theorem after_kept (positive : 0 < quota.zipQuota) (kept : Kept name quota state)
    (first : checked.text ≠ state.storage.traceFlowRecord.systemTime → handedUnder checked.text state.handed = 0)
    (second : uploaded.text ≠ checked.text → handedUnder uploaded.text state.handed = 0)
    (ends : outcome.Ends state.storage state.table checked uploaded) :
    Kept name quota (state.after uploaded outcome) := by
  have sameQuota : state.storage.quota = quota := kept.accounted.quota
  have brought := kept.accounted.broughtTo first
  have asked := brought.broughtTo (by rwa [broughtTo_systemTime])
  cases ends with
  | unread ret =>
    simp [after, DumpOutcome.of]
    exact kept
  | denied ret touched =>
    simp [after, DumpOutcome.of]
    exact ⟨brought.touched (broughtTo_dated _ _) touched, kept.within, kept.unnamed⟩
  | refused ret touched =>
    simp [after, DumpOutcome.of]
    exact ⟨asked.touched (broughtTo_dated _ _) touched, kept.within, kept.unnamed⟩
  | @handed ret size fits =>
    simp [after, DumpOutcome.of]
    have used : ((state.storage.broughtTo checked).broughtTo uploaded).traceFlowRecord.usedZipSize = _ := asked.record
    rw [broughtTo_systemTime] at used
    rw [used, sameQuota] at fits
    have stored := asked.storeTraceSize positive (broughtTo_dated _ _) size
    rw [broughtTo_systemTime] at stored
    refine ⟨stored, kept.within.hand fits, ?_⟩
    rw [handedUnder_append, kept.unnamed, handedUnder_single, if_neg uploaded.nonempty]

theorem step_kept (positive : 0 < quota.zipQuota) (kept : Kept name quota state) (guarded : state.ClockGuard call)
    (stepped : step name quota state call = some next) : Kept name quota next := by
  have limited : 0 < state.storage.quota.zipQuota := by
    rwa [show state.storage.quota = quota from kept.accounted.quota]
  cases call with
  | create =>
    cases stepped
    exact create_kept kept
  | flowControl traceHandler checked uploaded dump =>
    cases stepped
    exact after_kept positive kept guarded.1 guarded.2
      (TraceFlowControlStrategy.doDump_ends limited checked uploaded dump traceHandler)
  | dev traceHandler zipHandler checked uploaded dump =>
    cases stepped
    exact after_kept positive kept guarded.1 guarded.2
      (TraceDevStrategy.doDump_ends limited checked uploaded dump traceHandler zipHandler)
  | other record =>
    rw [step] at stepped
    split at stepped
    · cases stepped
    · case isFalse other =>
      cases stepped
      exact other_kept kept other

theorem newYear_nonempty : "2025-01-01" ≠ "" := by decide

theorem nextDay_nonempty : "2025-01-02" ≠ "" := by decide

def newYear : CalendarDate := ⟨"2025-01-01", newYear_nonempty⟩

def nextDay : CalendarDate := ⟨"2025-01-02", nextDay_nonempty⟩

def sampleQuota : TraceQuota := { ioQuota := 100, zipQuota := 10 }

def sameDay : List QuotaCall :=
  [.dev true true newYear newYear { outputFiles := ["trace"], fileSize := 10 }, .create,
    .flowControl true newYear newYear { outputFiles := ["trace"], fileSize := 1 }]

/-- The clock goes to the next day and back. -/
def clockBack : List QuotaCall :=
  [.dev true true newYear newYear { outputFiles := ["trace"], fileSize := 10 },
    .dev true true nextDay nextDay { outputFiles := ["trace"], fileSize := 1 },
    .dev true true newYear newYear { outputFiles := ["trace"], fileSize := 10 }]

theorem withinQuota_of_guarded (positive : 0 < quota.zipQuota) {calls : List QuotaCall}
    (guarded : Transition.Guarded (step name quota) ClockGuard (start name quota) calls)
    (ran : Transition.run (step name quota) (start name quota) calls = some state) :
    WithinQuota quota.zipQuota state.handed :=
  (Transition.run_guarded (step_kept positive) (start_kept positive) guarded ran).within

/-- The first trace of a date takes the whole quota, so the second one is refused. -/
theorem withinQuota_of_guarded_second :
    ∃ state, Transition.run (step "xperf" sampleQuota) (start "xperf" sampleQuota) sameDay = some state ∧
      state.handed = [("2025-01-01", 10)] ∧ WithinQuota 10 state.handed :=
  ⟨_, rfl, rfl, @withinQuota_of_guarded "xperf" sampleQuota _ (by decide) sameDay (by decide) rfl⟩

theorem clockBack_exceeds :
    ∃ state, Transition.run (step "xperf" sampleQuota) (start "xperf" sampleQuota) clockBack = some state ∧
      handedUnder "2025-01-01" state.handed = 20 ∧ ¬ WithinQuota 10 state.handed := by
  refine ⟨_, rfl, rfl, fun within => ?_⟩
  exact absurd (within.bounded "2025-01-01") (by decide)

end QuotaRun
end Hiview.TraceManager
