import Hiview.EventValidator.DailyCount
import Hiview.Lib.Transition

/-! Runs of the daily controller. The answers and the reports are exact as long as the number of
calls fits into the type of the counter and lies on the same side of the event's own threshold and
of the one in the cache, which is that of the first event of this name since the last flush. -/
namespace Hiview.EventValidator
open Transition DailyController List

/-- A call of `CheckThreshold` and its answer. -/
structure Call where
  date : Nat
  event : Event
  passed : Bool

/-- How many calls there were for a name on a date. -/
def number (calls : List Call) (date : Nat) (key : CacheKey) : Nat :=
  calls.countP fun call => decide (call.date = date ∧ call.event.key = key)

def ownThreshold (config : DailyConfig) (event : Event) : Int :=
  (configThreshold config event.key event.eventType).toInt

/-- The answers to the calls, the latest first, are those of the threshold. -/
def Exact (config : DailyConfig) : List Call → Prop
  | [] => True
  | call :: before =>
    (call.passed = true ↔ (number before call.date call.event.key + 1 : Int) ≤ ownThreshold config call.event) ∧
      Exact config before

def Report.count (report : Report) (key : CacheKey) : Int :=
  ((stored report.rows key).map Int32.toInt).getD 0

theorem number_cons (call : Call) (calls : List Call) (date : Nat) (key : CacheKey) :
    number (call :: calls) date key =
      number calls date key + if call.date = date ∧ call.event.key = key then 1 else 0 := by
  simp [number, countP_cons]

theorem number_bumped (calls : List Call) (date : Nat) (event : Event) (passed : Bool) :
    number (⟨date, event, passed⟩ :: calls) date = bumped (number calls date) event.key := by
  funext key
  rw [number_cons, bumped]
  by_cases same : key = event.key
  · simp [same]
  · simp [same, Ne.symm same]

theorem number_future {date later : Nat} (past : ∀ call ∈ calls, call.date ≤ date) (after : date < later)
    (key : CacheKey) : number calls later key = 0 := by
  apply countP_eq_zero.mpr
  intro call member
  have bound := past call member
  simp only [decide_eq_true_eq, not_and]
  omega

/-- The controller has counted the calls. -/
structure Counts (config : DailyConfig) (calls : List Call) (controller : DailyController) : Prop where
  valid : controller.config.isValid = true
  same : ∀ key type, configThreshold controller.config key type = configThreshold config key type
  past : ∀ call ∈ calls, call.date ≤ controller.date
  tallies : Tallies (number calls controller.date) controller.cache controller.rows
  reported : ∀ report ∈ controller.reports, report.date < controller.date ∧
    ∀ key, report.count key = number calls report.date key

variable {calendar : Calendar} {config : DailyConfig} {calls : List Call} {controller : DailyController}

theorem Counts.flush (counts : Counts config calls controller) : Counts config calls controller.updateCacheToDb :=
  ⟨counts.valid, counts.same, counts.past, counts.tallies.flush, counts.reported⟩

theorem checkTimeOfCache_eq (controller : DailyController) (readings : Readings) :
    ∃ time, (controller.checkTimeOfCache readings).2 = { controller with lastUpdateTime := time } := by
  unfold checkTimeOfCache
  split
  · exact ⟨readings.cacheTime, rfl⟩
  · split
    · exact ⟨controller.lastUpdateTime, rfl⟩
    · exact ⟨readings.nowTime, rfl⟩

theorem Counts.tryToUpdateCacheToDb (counts : Counts config calls controller) (readings : Readings) :
    Counts config calls (controller.tryToUpdateCacheToDb readings) ∧
      (controller.tryToUpdateCacheToDb readings).date = controller.date := by
  obtain ⟨time, same⟩ := checkTimeOfCache_eq controller readings
  have checked : Counts config calls { controller with lastUpdateTime := time } :=
    ⟨counts.valid, counts.same, counts.past, counts.tallies, counts.reported⟩
  unfold DailyController.tryToUpdateCacheToDb
  dsimp only
  rw [same]
  split
  · exact ⟨checked.flush, rfl⟩
  · exact ⟨checked, rfl⟩

theorem Counts.report (counts : Counts config calls controller) (empty : controller.cache = [])
    (after : controller.date < calendar.date time) : Counts config calls (controller.report calendar time) where
  valid := counts.valid
  same := counts.same
  past call member := Nat.le_of_lt (Nat.lt_of_le_of_lt (counts.past call member) after)
  tallies := by
    change Tallies (number calls (calendar.date time)) controller.cache []
    rw [empty]
    exact Tallies.empty (number_future counts.past after)
  reported := by
    refine forall_mem_append.mpr ⟨fun report before => ?_, forall_mem_singleton.mpr ⟨after, fun key => ?_⟩⟩
    · obtain ⟨earlier, counted⟩ := counts.reported report before
      exact ⟨earlier.trans after, counted⟩
    · apply counts.tallies.stored_eq
      rw [empty]
      rfl

/-- The readings of a call do not go back, and have one date. -/
def InOrder (calendar : Calendar) (clock : Int) (readings : Readings) : Prop :=
  clock ≤ readings.nowTime ∧ readings.nowTime ≤ readings.cacheTime ∧ readings.cacheTime ≤ readings.dbTime ∧
    readings.dbTime ≤ readings.exceedTime ∧ calendar.date readings.nowTime = calendar.date readings.exceedTime

instance (calendar : Calendar) (clock : Int) (readings : Readings) : Decidable (InOrder calendar clock readings) :=
  inferInstanceAs (Decidable (_ ∧ _ ∧ _ ∧ _ ∧ _))

variable {readings : Readings}

theorem InOrder.dbTime_date (ordered : InOrder calendar clock readings) :
    calendar.date readings.dbTime = calendar.date readings.nowTime := by
  obtain ⟨-, first, second, third, same⟩ := ordered
  have lower := calendar.monotone (Int.le_trans first second)
  have upper := calendar.monotone third
  omega

theorem Counts.prepared (counts : Counts config calls controller) (ordered : InOrder calendar clock readings)
    (current : controller.date ≤ calendar.date clock) :
    Counts config calls (controller.prepared calendar readings) ∧
      (controller.prepared calendar readings).date = calendar.date readings.nowTime := by
  obtain ⟨updated, date⟩ := counts.tryToUpdateCacheToDb readings
  have later := calendar.monotone ordered.1
  unfold DailyController.prepared tryToReportDb needReport
  split
  · rename_i changed
    have different := of_decide_eq_true changed
    refine ⟨updated.flush.report rfl ?_, ordered.dbTime_date⟩
    change (controller.tryToUpdateCacheToDb readings).date < calendar.date readings.dbTime
    rw [ordered.dbTime_date]
    omega
  · rename_i unchanged
    exact ⟨updated, by simpa using unchanged⟩

/-- The configuration is valid and has the same thresholds. -/
structure SameThresholds (config updated : DailyConfig) : Prop where
  valid : updated.isValid = true
  same : ∀ key type, updated.getThreshold key type = config.getThreshold key type

structure Record where
  controller : DailyController
  clock : Int
  calls : List Call

/-- A call of the controller, at readings of the clock, or a new configuration with the thresholds
of the given one. -/
inductive Step (config : DailyConfig)
  | checkThreshold (event : Event) (readings : Readings)
  | onConfigUpdate (updated : Option ConfigJson) (same : SameThresholds config (.parse updated))

section
variable (calendar : Calendar)

def Record.start (config : DailyConfig) (time : Int) : Record :=
  ⟨.new calendar config time, time, []⟩

def step (record : Record) : Step config → Option Record
  | .checkThreshold event readings =>
    if InOrder calendar record.clock readings then
      let (passed, checked) := record.controller.checkThreshold calendar event readings
      some ⟨checked, readings.exceedTime, ⟨calendar.date readings.nowTime, event, passed⟩ :: record.calls⟩
    else none
  | .onConfigUpdate updated _ => some { record with controller := record.controller.onConfigUpdate updated }

/-- All answers are right, and all reports have the numbers of calls of their dates. -/
structure Right (config : DailyConfig) (record : Record) : Prop where
  exact : Exact config record.calls
  reported : ∀ report ∈ record.controller.reports, ∀ key, report.count key = number record.calls report.date key

structure Sound (config : DailyConfig) (record : Record) : Prop where
  counts : Counts config record.calls record.controller
  current : record.controller.date ≤ calendar.date record.clock
  exact : Exact config record.calls

/-- The number of the call fits into the counter, and is on the same side of the threshold that is
used and of the event's own. -/
def Fits (record : Record) : Step config → Prop
  | .checkThreshold event readings => InOrder calendar record.clock readings →
    number record.calls (calendar.date readings.nowTime) event.key + 1 < 2147483648 ∧
      ((number record.calls (calendar.date readings.nowTime) event.key + 1 : Int) ≤
          ((record.controller.prepared calendar readings).getThreshold event.key event.eventType).toInt ↔
        (number record.calls (calendar.date readings.nowTime) event.key + 1 : Int) ≤ ownThreshold config event)
  | .onConfigUpdate _ _ => True

instance (record : Record) : (label : Step config) → Decidable (Fits calendar record label)
  | .checkThreshold _ _ => inferInstanceAs (Decidable (_ → _ ∧ (_ ↔ _)))
  | .onConfigUpdate _ _ => .isTrue trivial

end

variable {record next : Record}

theorem Sound.right (sound : Sound calendar config record) : Right config record :=
  ⟨sound.exact, fun report member => (sound.counts.reported report member).2⟩

theorem start_sound (valid : config.isValid = true) (time : Int) :
    Sound calendar config (.start calendar config time) where
  counts := {
    valid := valid
    same := fun _ _ => rfl
    past := by simp [Record.start]
    tallies := Tallies.empty fun _ => rfl
    reported := by simp [Record.start, new] }
  current := Nat.le_refl _
  exact := trivial

theorem Counts.onConfigUpdate (counts : Counts config calls controller)
    (same : SameThresholds config (.parse updated)) : Counts config calls (controller.onConfigUpdate updated) where
  valid := same.valid
  same key type := by simp only [DailyController.onConfigUpdate, configThreshold, same.same]
  past := counts.past
  tallies := counts.flush.tallies
  reported := counts.reported

theorem counter_eq (counts : Counts config calls controller) (key : CacheKey) :
    (number calls controller.date key + 1 < 2147483648 ∧
      (controller.getCount key + 1).toInt = number calls controller.date key + 1) ∨
    (number calls controller.date key + 1 = 2147483648 ∧ (controller.getCount key + 1).toInt = -2147483648) := by
  have bound := counts.tallies.fits key
  have counted := counts.tallies.getCount key
  have sum : (controller.getCount key + 1).toInt = ((controller.getCount key).toInt + 1).bmod 4294967296 :=
    Int32.toInt_add _ _
  rw [counted, Int.bmod_def] at sum
  split at sum <;> omega

theorem counter_passes (counts : Counts config calls controller) (key : CacheKey) (threshold : Int32) :
    controller.getCount key + 1 ≤ threshold ↔
      number calls controller.date key + 1 = 2147483648 ∨
        (number calls controller.date key + 1 : Int) ≤ threshold.toInt := by
  have lower : -2147483648 ≤ threshold.toInt := Int32.le_toInt threshold
  rw [Int32.le_iff_toInt_le]
  rcases counter_eq counts key with ⟨fits, same⟩ | ⟨overflows, same⟩ <;> omega

theorem Exact.append_iff (exact : Exact config calls) (call : Call) :
    Exact config (call :: calls) ↔
      (call.passed = true ↔
        (number calls call.date call.event.key + 1 : Int) ≤ ownThreshold config call.event) :=
  ⟨And.left, fun answer => ⟨answer, exact⟩⟩

theorem checked_frame (controller : DailyController) (event : Event) (readings : Readings) :
    (controller.checkThreshold calendar event readings).2.config = (controller.prepared calendar readings).config ∧
      (controller.checkThreshold calendar event readings).2.date = (controller.prepared calendar readings).date ∧
      (controller.checkThreshold calendar event readings).2.reports =
        (controller.prepared calendar readings).reports := by
  unfold checkThreshold
  dsimp only
  obtain ⟨cacheTime, rowTime, result⟩ := updateCacheAndDb_eq (controller.prepared calendar readings) event.key
    ((controller.prepared calendar readings).getThreshold event.key event.eventType)
    ((controller.prepared calendar readings).getCount event.key + 1) readings.exceedTime
  rw [result]
  exact ⟨rfl, rfl, rfl⟩

theorem number_other_date (call : Call) (calls : List Call) {date : Nat} (different : call.date ≠ date)
    (key : CacheKey) : number (call :: calls) date key = number calls date key := by
  rw [number_cons, if_neg fun both => different both.1]
  rfl

section Check
variable {clock : Int} {readings : Readings} (counts : Counts config calls controller)
  (ordered : InOrder calendar clock readings) (current : controller.date ≤ calendar.date clock) (event : Event)
include counts ordered current

theorem check_answer :
    (controller.checkThreshold calendar event readings).1 = true ↔
      number calls (calendar.date readings.nowTime) event.key + 1 = 2147483648 ∨
        (number calls (calendar.date readings.nowTime) event.key + 1 : Int) ≤
          ((controller.prepared calendar readings).getThreshold event.key event.eventType).toInt := by
  obtain ⟨ready, date⟩ := counts.prepared ordered current
  have passes := counter_passes ready event.key
    ((controller.prepared calendar readings).getThreshold event.key event.eventType)
  rw [date] at passes
  rw [← passes, checkThreshold]
  simp [ready.valid]

theorem check_reports (passed : Bool) :
    ∀ report ∈ (controller.checkThreshold calendar event readings).2.reports,
      report.date < calendar.date readings.nowTime ∧ ∀ key, report.count key =
        number (⟨calendar.date readings.nowTime, event, passed⟩ :: calls) report.date key := by
  obtain ⟨ready, date⟩ := counts.prepared ordered current
  intro report member
  rw [(checked_frame controller event readings).2.2] at member
  obtain ⟨earlier, counted⟩ := ready.reported report member
  rw [date] at earlier
  refine ⟨earlier, ?_⟩
  intro key
  rw [number_other_date _ _ (Nat.ne_of_gt earlier)]
  exact counted key

theorem check_counts (passed : Bool)
    (fits : number calls (calendar.date readings.nowTime) event.key + 1 < 2147483648) :
    Counts config (⟨calendar.date readings.nowTime, event, passed⟩ :: calls)
      (controller.checkThreshold calendar event readings).2 := by
  obtain ⟨ready, date⟩ := counts.prepared ordered current
  obtain ⟨sameConfig, sameDate, -⟩ := @checked_frame calendar controller event readings
  constructor
  · rw [sameConfig]
    exact ready.valid
  · rw [sameConfig]
    exact ready.same
  · intro call member
    rw [sameDate, date]
    rcases mem_cons.mp member with new | before
    · rw [new]
    · rw [← date]
      exact ready.past call before
  · have counted : ((controller.prepared calendar readings).getCount event.key + 1).toInt =
        number calls (controller.prepared calendar readings).date event.key + 1 := by
      rcases counter_eq ready event.key with ⟨-, same⟩ | ⟨overflows, -⟩
      · exact same
      · rw [date] at overflows
        omega
    rw [sameDate, date, number_bumped, ← date]
    exact ready.tallies.checked counted _ _
  · rw [sameDate, date]
    exact check_reports counts ordered current event passed

end Check

theorem step_check (ordered : InOrder calendar record.clock readings) :
    step calendar record (.checkThreshold event readings : Step config) =
      some ⟨(record.controller.checkThreshold calendar event readings).2, readings.exceedTime,
        ⟨calendar.date readings.nowTime, event, (record.controller.checkThreshold calendar event readings).1⟩ ::
          record.calls⟩ :=
  if_pos ordered

theorem Sound.onConfigUpdate (sound : Sound calendar config record) (same : SameThresholds config (.parse updated)) :
    Sound calendar config { record with controller := record.controller.onConfigUpdate updated } :=
  ⟨sound.counts.onConfigUpdate same, sound.current, sound.exact⟩

/-- The guard says exactly which calls are answered rightly. -/
theorem fits_iff_right (sound : Sound calendar config record) {label : Step config} :
    Fits calendar record label ↔ ∀ next, step calendar record label = some next → Right config next := by
  cases label with
  | onConfigUpdate updated same =>
    refine ⟨?_, fun _ => trivial⟩
    intro _ next stepped
    cases stepped
    exact (sound.onConfigUpdate same).right
  | checkThreshold event readings =>
    by_cases ordered : InOrder calendar record.clock readings
    · have answer := check_answer sound.counts ordered sound.current event
      have number_le : number record.calls (calendar.date readings.nowTime) event.key < 2147483648 := by
        obtain ⟨ready, date⟩ := sound.counts.prepared ordered sound.current
        rw [← date]
        exact ready.tallies.fits event.key
      have own_lt : ownThreshold config event < 2147483648 := Int32.toInt_lt _
      rw [step_check ordered]
      constructor
      · intro fits next same
        cases same
        refine ⟨(sound.exact.append_iff _).mpr ?_, ?_⟩
        · rw [answer]
          have both := fits ordered
          dsimp only
          omega
        · intro report member
          exact (check_reports sound.counts ordered sound.current event _ report member).2
      · intro right _
        have exactly := (sound.exact.append_iff _).mp (right _ rfl).exact
        rw [answer] at exactly
        dsimp only at exactly
        omega
    · refine ⟨?_, fun _ inOrder => absurd inOrder ordered⟩
      intro _ next stepped
      rw [step, if_neg ordered] at stepped
      cases stepped

theorem step_sound (sound : Sound calendar config record) {label : Step config}
    (stepped : step calendar record label = some next) (right : Right config next) : Sound calendar config next := by
  cases label with
  | onConfigUpdate updated same =>
    cases stepped
    exact sound.onConfigUpdate same
  | checkThreshold event readings =>
    by_cases ordered : InOrder calendar record.clock readings
    · have fits : Fits calendar record (.checkThreshold event readings : Step config) := by
        apply (fits_iff_right sound).mpr
        intro other enabled
        rwa [Option.some_inj.mp (enabled.symm.trans stepped)]
      rw [step_check ordered] at stepped
      cases stepped
      refine ⟨check_counts sound.counts ordered sound.current event _ (fits ordered).1, ?_, right.exact⟩
      rw [(checked_frame record.controller event readings).2.1,
        (sound.counts.prepared ordered sound.current).2]
      exact Nat.le_of_eq ordered.2.2.2.2
    · rw [step, if_neg ordered] at stepped
      cases stepped

/-- In every run with a valid configuration, all answers are those of the thresholds and all reports
have the numbers of calls of their dates, if and only if every call fits. -/
theorem right_iff_fits (valid : config.isValid = true) (time : Int) (labels : List (Step config)) :
    (∀ taken rest final, labels = taken ++ rest →
        run (step calendar) (.start calendar config time) taken = some final → Right config final) ↔
      Guarded (step calendar) (Fits calendar) (.start calendar config time) labels :=
  (guarded_iff (fun sound => fits_iff_right sound) (fun sound stepped right => step_sound sound stepped right)
    Sound.right (start_sound valid time)).symm

/-- Thresholds for the types, and one for a name. -/
def sampleJson : ConfigJson where
  common := some [("BEHAVIOR", 2), ("FAULT", 1), ("SECURITY", 1), ("STATISTIC", 1)]
  custom := some [("AAFWK", some [("ABILITY", 3)])]

def sampleConfig : DailyConfig := .parse (some sampleJson)

def days : Calendar where
  date time := (time / 86400).toNat
  monotone ordered := Int.toNat_le_toNat (Int.ediv_le_ediv (by decide) ordered)

def readAt (time : Int) : Readings := ⟨time, time, time, time⟩

/-- Three events of one type, a new configuration, and one more event on the next day. -/
def sampleLabels : List (Step sampleConfig) :=
  [.checkThreshold ⟨"KERNEL", "HUNG", 4⟩ (readAt 1), .checkThreshold ⟨"KERNEL", "HUNG", 4⟩ (readAt 700),
    .onConfigUpdate (some sampleJson) ⟨rfl, fun _ _ => rfl⟩, .checkThreshold ⟨"KERNEL", "HUNG", 4⟩ (readAt 701),
    .checkThreshold ⟨"KERNEL", "HUNG", 4⟩ (readAt 90000)]

theorem sample_right : sampleConfig.isValid = true ∧ ∀ taken rest final, sampleLabels = taken ++ rest →
    run (step days) (.start days sampleConfig 0) taken = some final → Right sampleConfig final := by
  have valid : sampleConfig.isValid = true := by decide
  exact ⟨valid, (right_iff_fits valid 0 sampleLabels).mpr (by decide)⟩

/-- An event of a type with threshold 1, and one of the same name and a type with threshold 2. -/
def twoTypes : List (Step sampleConfig) :=
  [.checkThreshold ⟨"KERNEL", "HUNG", 1⟩ (readAt 1), .checkThreshold ⟨"KERNEL", "HUNG", 4⟩ (readAt 2)]

/-- The second event is within its threshold and is refused. -/
theorem second_type_refused : ∃ final, run (step days) (.start days sampleConfig 0) twoTypes = some final ∧
    ¬ Right sampleConfig final := by
  refine ⟨_, rfl, ?_⟩
  intro right
  exact absurd right.exact.1 (by decide)

end Hiview.EventValidator
