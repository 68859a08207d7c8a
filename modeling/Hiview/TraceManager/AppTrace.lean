import Hiview.Lib.Numeral
import Hiview.Lib.Transition
import Hiview.TraceManager.TraceStrategy

/-! The traces that an app captures. A dump asks for a record under the date of the dump
and leaves one under the date of the caller's `happenTime`; only when the two dates agree
does the record keep the app from a second trace on that date. -/
namespace Hiview.TraceManager
open List

structure AppCaller where
  bundleName : String := ""
  bundleVersion : String := ""
  uid : Int
  pid : Int
  happenTime : Int
  deriving DecidableEq

structure AppEventTask where
  id : Int := 0
  taskDate : Int := 0
  taskType : Int := 0
  uid : Int := 0
  pid : Int := 0
  bundleName : String := ""
  bundleVersion : String := ""
  startTime : Int := 0
  finishTime : Int := 0
  resourcePath : String := ""
  resourceSize : Int := 0
  state : Int := 0
  deriving DecidableEq

/-- The table `unified_collection_task`, with the last number that its `id` took. -/
structure AppTaskTable where
  rows : List AppEventTask := []
  lastId : Nat := 0
  deriving DecidableEq

namespace AppEventTaskStorage
variable (table : AppTaskTable)

def getAppEventTask (uid eventDate : Int) : AppEventTask :=
  (table.rows.find? fun row => row.uid = uid ∧ row.taskDate = eventDate).getD {}

def insertAppEventTask (task : AppEventTask) : AppTaskTable :=
  { rows := table.rows ++ [{ task with id := table.lastId + 1 }], lastId := table.lastId + 1 }

def removeAppEventTask (eventDate : Int) : AppTaskTable :=
  { table with rows := table.rows.filter fun row => ¬ row.taskDate < eventDate }

end AppEventTaskStorage

/-- A call of `TraceAppStrategy::DoDump`: the caller, what the state machine says about the
app and dumps, the file that the handler makes of it, and the clock at the dump and at the
cleaning, in milliseconds. -/
structure AppDump where
  appCaller : AppCaller
  appPid : Int
  traceOpenTime : Int
  traceDumpTime : Nat
  ret : TraceRet := {}
  outputFiles : List String
  outputFile : String := ""
  resourceSize : Int := 0
  cleanTime : Nat
  deriving DecidableEq

section
variable (date : Int → String)

/-- `TimestampFormatToDate` with the format `%Y%m%d`, read as a number. -/
def dateNum (width : Nat) (seconds : Int) : Option Int := Numeral.fromChars width (Numeral.ascii (date seconds))

def TraceFlowController.hasCallOnceToday (table : AppTaskTable) (uid : Int) (happenTime : Nat) : Bool :=
  match dateNum date 32 (happenTime / 1000 : Nat) with
  | none => true
  | some num => (AppEventTaskStorage.getAppEventTask table uid num).id > 0

namespace TraceAppStrategy
variable (dump : AppDump) (table : AppTaskTable)

def makeAppEventTask : Option AppEventTask :=
  (dateNum date 64 (dump.appCaller.happenTime.tdiv 1000)).map fun num =>
    { taskDate := num
      taskType := 1
      uid := dump.appCaller.uid
      pid := dump.appCaller.pid
      bundleName := dump.appCaller.bundleName
      bundleVersion := dump.appCaller.bundleVersion
      startTime := dump.traceOpenTime
      finishTime := dump.traceDumpTime
      resourcePath := dump.outputFile
      resourceSize := dump.resourceSize
      state := 2 }

def cleanOldAppTrace : AppTaskTable :=
  let timeNow := dump.cleanTime / 1000
  let secondsOfThreeDays := 3 * 86400
  if timeNow < secondsOfThreeDays then table
  else
    match dateNum date 32 (timeNow - secondsOfThreeDays : Nat) with
    | none => table
    | some num => AppEventTaskStorage.removeAppEventTask table num

/-- The caller is recorded, and the records of the time before are cleaned. -/
def recordCaller : AppTaskTable :=
  cleanOldAppTrace date dump
    (match makeAppEventTask date dump with
    | some task => AppEventTaskStorage.insertAppEventTask table task
    | none => table)

def doDump : TraceRet × AppTaskTable :=
  if dump.appPid ≠ dump.appCaller.pid ∨ dump.traceOpenTime = 0 then (.ofState .fail, table)
  else if TraceFlowController.hasCallOnceToday date table dump.appCaller.uid dump.traceDumpTime then
    (.ofFlow .traceHasCapturedTrace, table)
  else if !dump.ret.isSuccess then (dump.ret, table)
  else if dump.outputFiles.getLastD "" = "" then (.ofState .fail, table)
  else (dump.ret, recordCaller date dump table)

end TraceAppStrategy
end
open TraceFlowController (hasCallOnceToday)
open TraceAppStrategy (cleanOldAppTrace doDump recordCaller)

/-! ### Runs -/

/-- The table, the clock, and the callers with the dates of the dumps that succeeded. -/
structure AppRun where
  table : AppTaskTable := {}
  now : Nat := 0
  captured : List (Int × String) := []
  deriving DecidableEq

namespace AppRun
variable (date : Int → String)

def day (dump : AppDump) : String := date (dump.traceDumpTime / 1000 : Nat)

variable (state : AppRun)

def after (dump : AppDump) (result : TraceRet × AppTaskTable) : AppRun :=
  { table := result.2
    now := dump.cleanTime
    captured := state.captured ++ if result.1.isSuccess then [(dump.appCaller.uid, day date dump)] else [] }

/-- The clock does not go back. -/
def step (dump : AppDump) : Option AppRun :=
  if state.now ≤ dump.traceDumpTime ∧ dump.traceDumpTime ≤ dump.cleanTime then
    some (after date state dump (doDump date dump state.table))
  else none

/-- No caller succeeded twice on a date. -/
def OnceADay : Prop := state.captured.Nodup

/-- The caller's time is on the date of the dump. -/
def HappenGuard (_ : AppRun) (dump : AppDump) : Prop :=
  date (dump.appCaller.happenTime.tdiv 1000) = day date dump

instance (dump : AppDump) : Decidable (HappenGuard date state dump) :=
  inferInstanceAs (Decidable (_ = _))

end AppRun

/-- The local calendar: later times do not have smaller dates. -/
structure Calendar where
  date : Int → String
  monotone : ∀ {earlier later first second : Int}, 0 ≤ earlier → earlier ≤ later → dateNum date 64 earlier = some first →
    dateNum date 64 later = some second → first ≤ second

variable {table : AppTaskTable} {date : Int → String} {row : AppEventTask}

theorem hasCallOnceToday_of_row (ids : ∀ row ∈ table.rows, 0 < row.id) (stored : row ∈ table.rows)
    (dated : dateNum date 64 (happenTime / 1000 : Nat) = some row.taskDate) :
    hasCallOnceToday date table row.uid happenTime = true := by
  rw [hasCallOnceToday]
  split
  · rfl
  · case h_2 num read =>
    have wide : dateNum date 64 (happenTime / 1000 : Nat) = some num := Numeral.fromChars_wider (by decide) read
    have same : row.taskDate = num := Option.some.inj (dated.symm.trans wide)
    have present : (table.rows.find? fun other => other.uid = row.uid ∧ other.taskDate = num).isSome := by
      rw [List.find?_isSome]
      exact ⟨row, stored, by simp [same]⟩
    obtain ⟨found, isFound⟩ := Option.isSome_iff_exists.mp present
    rw [AppEventTaskStorage.getAppEventTask, isFound, Option.getD_some, decide_eq_true_eq]
    exact ids found (mem_of_find?_eq_some isFound)

theorem hasCallOnceToday_dated {uid : Int} {happenTime : Nat}
    (first : hasCallOnceToday date table uid happenTime = false) :
    ∃ num, dateNum date 64 (happenTime / 1000 : Nat) = some num := by
  rw [hasCallOnceToday] at first
  split at first
  · cases first
  · case h_2 num read => exact ⟨num, Numeral.fromChars_wider (by decide) read⟩

theorem doDump_cases (date : Int → String) (dump : AppDump) (table : AppTaskTable) :
    ((doDump date dump table).1.isSuccess = false ∧
        (doDump date dump table).2 = table) ∨
      ((doDump date dump table).1.isSuccess = true ∧
        hasCallOnceToday date table dump.appCaller.uid dump.traceDumpTime = false ∧
        (doDump date dump table).2 = recordCaller date dump table) := by
  fun_cases doDump date dump table with
  | case3 _ _ failed => exact .inl ⟨by simpa using failed, rfl⟩
  | case5 _ first dumped => exact .inr ⟨by simpa using dumped, by simpa using first, rfl⟩
  | _ => exact .inl ⟨rfl, rfl⟩

theorem mem_of_mem_cleanOldAppTrace (stored : row ∈ (cleanOldAppTrace date dump table).rows) :
    row ∈ table.rows := by
  simp only [cleanOldAppTrace] at stored
  split at stored
  · exact stored
  · split at stored
    · exact stored
    · exact mem_of_mem_filter stored

theorem mem_cleanOldAppTrace (calendar : Calendar) {dump : AppDump} (stored : row ∈ table.rows) {time : Int}
    (later : (dump.cleanTime / 1000 : Nat) ≤ time) (dated : dateNum calendar.date 64 time = some row.taskDate) :
    row ∈ (cleanOldAppTrace calendar.date dump table).rows := by
  simp only [cleanOldAppTrace]
  split
  · exact stored
  · split
    · exact stored
    · case h_2 num read =>
      have wide : dateNum calendar.date 64 _ = some num := Numeral.fromChars_wider (by decide) read
      have order : num ≤ row.taskDate := calendar.monotone (Int.natCast_nonneg _) (by omega) wide dated
      exact mem_filter.mpr ⟨stored, by simpa using order⟩

namespace AppRun

/-- The caller of every date that may still come is recorded. -/
structure Kept (calendar : Calendar) (state : AppRun) : Prop where
  once : state.OnceADay
  ids : ∀ row ∈ state.table.rows, 0 < row.id
  recorded : ∀ uid time, (uid, calendar.date time) ∈ state.captured → (state.now / 1000 : Nat) ≤ time →
    ∃ row ∈ state.table.rows, row.uid = uid ∧ dateNum calendar.date 64 time = some row.taskDate

variable {dump : AppDump} {calendar : Calendar}

theorem day_notMem {state : AppRun} (kept : Kept calendar state) (order : state.now ≤ dump.traceDumpTime)
    (first : hasCallOnceToday calendar.date state.table dump.appCaller.uid
      dump.traceDumpTime = false) : (dump.appCaller.uid, day calendar.date dump) ∉ state.captured := by
  intro captured
  obtain ⟨row, stored, uid, dated⟩ := kept.recorded dump.appCaller.uid (dump.traceDumpTime / 1000 : Nat) captured
    (by exact_mod_cast Nat.div_le_div_right order)
  have again := hasCallOnceToday_of_row kept.ids stored dated
  rw [uid, first] at again
  cases again

theorem recordCaller_rows {table : AppTaskTable} {time : Int} (later : (dump.cleanTime / 1000 : Nat) ≤ time)
    {uid : Int} (known : (∃ row ∈ table.rows, row.uid = uid ∧ dateNum calendar.date 64 time = some row.taskDate) ∨
      (uid = dump.appCaller.uid ∧ ∃ num, dateNum calendar.date 64 time = some num ∧
        dateNum calendar.date 64 (dump.appCaller.happenTime.tdiv 1000) = some num)) :
    ∃ row ∈ (recordCaller calendar.date dump table).rows,
      row.uid = uid ∧ dateNum calendar.date 64 time = some row.taskDate := by
  rw [recordCaller]
  rcases known with ⟨row, stored, same, dated⟩ | ⟨rfl, num, dated, made⟩
  · refine ⟨row, mem_cleanOldAppTrace calendar ?_ later dated, same, dated⟩
    split
    · exact mem_append_left _ stored
    · exact stored
  · simp [TraceAppStrategy.makeAppEventTask, made]
    exact ⟨_, mem_cleanOldAppTrace calendar (mem_append_right _ (mem_singleton_self _)) later dated,
      rfl, dated⟩

theorem recordCaller_ids {date : Int → String} {table : AppTaskTable} (ids : ∀ row ∈ table.rows, 0 < row.id) :
    ∀ row ∈ (recordCaller date dump table).rows, 0 < row.id := by
  intro row stored
  have before := mem_of_mem_cleanOldAppTrace stored
  split at before
  · rcases mem_append.mp before with old | new
    · exact ids row old
    · rw [mem_singleton.mp new]
      exact Int.natCast_pos.mpr (Nat.succ_pos _)
  · exact ids row before

theorem step_kept {state next : AppRun} (kept : Kept calendar state) (guarded : HappenGuard calendar.date state dump)
    (stepped : step calendar.date state dump = some next) : Kept calendar next := by
  rw [step] at stepped
  split at stepped
  · case isTrue order =>
    have later : ∀ time : Int, (dump.cleanTime / 1000 : Nat) ≤ time → (state.now / 1000 : Nat) ≤ time := by
      omega
    obtain rfl := Option.some.inj stepped
    rcases doDump_cases calendar.date dump state.table with ⟨failed, same⟩ | ⟨succeeds, first, table⟩
    · simp [after, failed, same]
      exact ⟨kept.once, kept.ids, fun uid time captured after => kept.recorded uid time captured (later time after)⟩
    · simp [after, succeeds, table]
      refine ⟨?_, recordCaller_ids kept.ids, fun uid time captured after => ?_⟩
      · rw [OnceADay, nodup_append]
        refine ⟨kept.once, nodup_singleton _, ?_⟩
        intro entry old other new same
        rw [mem_singleton.mp new] at same
        exact day_notMem kept order.1 first (same ▸ old)
      · apply recordCaller_rows after
        rcases mem_append.mp captured with old | new
        · exact .inl (kept.recorded uid time old (later time after))
        · obtain ⟨rfl, sameDay⟩ := Prod.mk.inj (mem_singleton.mp new)
          obtain ⟨num, read⟩ := hasCallOnceToday_dated first
          refine .inr ⟨rfl, num, ?_, ?_⟩
          · rw [dateNum, sameDay]
            exact read
          · rw [dateNum, guarded]
            exact read
  · cases stepped

theorem start_kept (calendar : Calendar) : Kept calendar {} where
  once := nodup_nil
  ids _ stored := absurd stored not_mem_nil
  recorded _ _ captured := absurd captured not_mem_nil

theorem onceADay_of_guarded (calendar : Calendar) {dumps : List AppDump} {state : AppRun}
    (guarded : Transition.Guarded (step calendar.date) (HappenGuard calendar.date) {} dumps)
    (ran : Transition.run (step calendar.date) {} dumps = some state) : state.OnceADay :=
  (Transition.run_guarded step_kept (start_kept calendar) guarded ran).once

/-- The fourth day of the clock, and the fifth from its first second on. -/
def twoDates (seconds : Int) : String := if seconds < 345600 then "19700104" else "19700105"

theorem dateNum_twoDates (seconds : Int) :
    dateNum twoDates 64 seconds = some (if seconds < 345600 then 19700104 else 19700105) := by
  rw [dateNum, twoDates]
  split <;> decide

theorem twoDates_monotone (_ : 0 ≤ earlier) (order : earlier ≤ later) (before : dateNum twoDates 64 earlier = some first)
    (after : dateNum twoDates 64 later = some second) : first ≤ second := by
  rw [dateNum_twoDates] at before after
  obtain rfl := Option.some.inj before
  obtain rfl := Option.some.inj after
  split <;> split <;> omega

def twoDatesCalendar : Calendar := ⟨twoDates, twoDates_monotone⟩

/-- A dump of the second date, with the time that its caller gives. -/
def dumpAt (traceDumpTime : Nat) (happenTime : Int) : AppDump where
  appCaller := { uid := 20010001, pid := 1234, happenTime := happenTime }
  appPid := 1234
  traceOpenTime := 1
  traceDumpTime := traceDumpTime
  outputFiles := ["trace"]
  cleanTime := traceDumpTime

def honestCaller : List AppDump := [dumpAt 400000000 400000000, dumpAt 400001000 400001000]

def earlierCaller : List AppDump := [dumpAt 400000000 300000000, dumpAt 400001000 300000000]

theorem onceADay_of_guarded_second :
    ∃ state, Transition.run (step twoDates) {} honestCaller = some state ∧
      state.captured = [(20010001, "19700105")] ∧ state.OnceADay := by
  have captured : (Transition.run (step twoDates) {} honestCaller).map AppRun.captured =
      some [(20010001, "19700105")] := by decide +kernel
  obtain ⟨state, ran, same⟩ := Option.map_eq_some_iff.mp captured
  exact ⟨state, ran, same, @onceADay_of_guarded twoDatesCalendar honestCaller state (by decide +kernel) ran⟩

/-- The records are under the date before, where no dump looks for them. -/
theorem earlierCaller_twice :
    ∃ state, Transition.run (step twoDatesCalendar.date) {} earlierCaller = some state ∧
      state.captured = [(20010001, "19700105"), (20010001, "19700105")] ∧ ¬ state.OnceADay := by
  have captured : (Transition.run (step twoDatesCalendar.date) {} earlierCaller).map AppRun.captured =
      some [(20010001, "19700105"), (20010001, "19700105")] := by decide +kernel
  obtain ⟨state, ran, same⟩ := Option.map_eq_some_iff.mp captured
  refine ⟨state, ran, same, ?_⟩
  rw [OnceADay, same]
  decide

end AppRun
end Hiview.TraceManager
