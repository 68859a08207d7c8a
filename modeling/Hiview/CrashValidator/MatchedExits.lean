import Hiview.CrashValidator.Validator
import Hiview.Lib.Transition

/-! The outcomes of abnormal exits. Every exit is reported once, when its timer fires. The report says
that there was no crash event when none of the process is in the maps, and an event that did
arrive may be missing there: events that stand for local reports are not recorded, and when the
last exit has been matched the events of all processes are dropped. -/
namespace Hiview.CrashValidator
open Assoc Transition Validator
open List hiding erase lookup

/-- What matters of the past: a crash event of an application, local or not, or that the last exit
has been matched. -/
inductive Item
  | crash (pid : Int32) (isLocal : Bool)
  | emptied

/-- A report, and whether a crash event of the process had arrived before. -/
structure Outcome where
  report : CrashReport
  arrived : Bool

structure State where
  validator : Validator
  timers : List Int32
  exits : List Int32
  outcomes : List Outcome
  history : List Item

def State.start : State := ⟨.new, [], [], [], []⟩

/-- A crash event of the process has arrived; the latest item comes first. -/
def arrived : List Item → Int32 → Bool
  | [], _ => false
  | .crash other _ :: rest, pid => other == pid || arrived rest pid
  | .emptied :: rest, pid => arrived rest pid

/-- A crash event of the process that is not a local report has arrived since the last exit was
matched. -/
def arrivedSince : List Item → Int32 → Bool
  | [], _ => false
  | .crash other isLocal :: rest, pid => (other == pid && !isLocal) || arrivedSince rest pid
  | .emptied :: _, _ => false

def isCrash (event : CrashEvent) : Bool :=
  decide (event.eventName ≠ .processExit ∧ minAppUid ≤ event.uid)

def noted (event : CrashEvent) : List Item :=
  if isCrash event then [.crash event.pid (isLocalReport event)] else []

/-- The processes with an event in one of the maps, and one more. -/
def outstanding (validator : Validator) (pid : Int32) : List Int32 :=
  (pid :: (validator.processExitEvents.map Prod.fst ++ validator.cppCrashEvents.map Prod.fst ++
    validator.cppCrashExceptionEvents.map Prod.fst)).dedup

inductive Step
  | onEvent (event : CrashEvent)
  | matchTimer (pid : Int32)

/-- An event is handled while there are at most 100 outstanding processes, and no process exits twice. A
timer fires once. -/
def step (state : State) : Step → Option State
  | .onEvent event =>
    let handled := state.validator.onEvent event
    if (outstanding state.validator event.pid).length ≤ maxCrashEventSize ∧
        handled.timer.all fun pid => pid ∉ state.exits then
      some { state with
        validator := handled.validator
        timers := state.timers ++ handled.timer.toList
        exits := state.exits ++ handled.timer.toList
        history := noted event ++ state.history }
    else none
  | .matchTimer pid =>
    if pid ∈ state.timers then
      let (report, validator) := state.validator.matchEvent pid
      some { state with
        validator := validator
        timers := state.timers.erase pid
        outcomes := state.outcomes ++ report.toList.map fun report => ⟨report, arrived state.history pid⟩
        history :=
          if report.isSome && validator.processExitEvents.isEmpty then .emptied :: state.history
          else state.history }
    else none

/-- Every abnormal exit has either a timer or exactly one report, and a report is a dismatch exactly if
no crash event of the process had arrived. -/
structure Right (state : State) : Prop where
  account : (state.outcomes.map (·.report.pid) ++ state.timers).Perm state.exits
  once : state.exits.Nodup
  names : ∀ outcome ∈ state.outcomes, outcome.report.name = .cppCrashDismatch ↔ outcome.arrived = false

/-- When a timer fires, a crash event of its process has arrived since the last exit was matched and is not
a local report, if any has arrived at all. -/
def Kept (state : State) : Step → Prop
  | .onEvent _ => True
  | .matchTimer pid => pid ∈ state.timers → arrived state.history pid = true → arrivedSince state.history pid = true

/-- A map of the validator has one event for each process. -/
structure ByPid (events : List (Int32 × CrashEvent)) : Prop where
  distinct : Distinct events
  keyed : ∀ entry ∈ events, entry.2.pid = entry.1

variable {events : List (Int32 × CrashEvent)} {event : CrashEvent} {pid : Int32}

theorem byPid_nil : ByPid [] := ⟨nodup_nil, by simp⟩

theorem ByPid.erase (byPid : ByPid events) (pid : Int32) : ByPid (erase events pid) where
  distinct := (filter_sublist.map Prod.fst).nodup byPid.distinct
  keyed entry member := byPid.keyed entry (mem_filter.mp member).1

theorem ByPid.insert (byPid : ByPid events) (event : CrashEvent) : ByPid (Assoc.insert events event.pid event) where
  distinct := byPid.distinct.insert _ _
  keyed entry member := by
    rcases mem_cons.mp member with new | before
    · rw [new]
    · exact byPid.keyed entry (mem_filter.mp before).1

theorem ByPid.lookup_pid (byPid : ByPid events) (found : lookup events pid = some event) : event.pid = pid :=
  byPid.keyed (pid, event) ((lookup_eq_some byPid.distinct).mp found)

theorem lookup_erase (events : List (Int32 × CrashEvent)) (pid other : Int32) :
    lookup (erase events pid) other = if other = pid then none else lookup events other :=
  lookup_filter_ne events pid other

/-- What adding an event to a map does, if the map is not full. -/
structure Added (events : List (Int32 × CrashEvent)) (event : CrashEvent) (next : List (Int32 × CrashEvent)) :
    Prop where
  byPid : ByPid events → ByPid next
  found : ∀ pid, (lookup next pid).isSome ↔ pid = event.pid ∨ (lookup events pid).isSome

theorem added_insert (events : List (Int32 × CrashEvent)) (event : CrashEvent) :
    Added events event (Assoc.insert events event.pid event) where
  byPid byPid := byPid.insert event
  found pid := by
    rw [lookup_insert]
    split <;> simp_all

theorem added_same (present : lookup events event.pid = some kept) : Added events event events where
  byPid := id
  found pid := by
    constructor
    · exact Or.inr
    · rintro (same | there)
      · rw [same, present]
        rfl
      · exact there

theorem added_addExit (room : events.length ≤ maxCrashEventSize) : Added events event (addExit events event) := by
  rw [addExit, if_neg (Nat.not_lt.mpr room)]
  split
  · rename_i kept present
    exact added_same present
  · exact added_insert events event

theorem added_addCrash (room : events.length ≤ maxCrashEventSize) : Added events event (addCrash events event) := by
  rw [addCrash, if_neg (Nat.not_lt.mpr room)]
  split
  · exact added_insert events event
  · rename_i kept present
    split
    · exact added_insert events event
    · exact added_same present

structure Maps (validator : Validator) : Prop where
  exits : ByPid validator.processExitEvents
  crashes : ByPid validator.cppCrashEvents
  exceptions : ByPid validator.cppCrashExceptionEvents

/-- A crash event of the process is in the maps. -/
def Recorded (validator : Validator) (pid : Int32) : Prop :=
  (lookup validator.cppCrashEvents pid).isSome ∨ (lookup validator.cppCrashExceptionEvents pid).isSome

variable {validator : Validator} {state next : State} {exit : CrashEvent}

theorem Maps.room (maps : Maps validator) (few : (outstanding validator pid).length ≤ maxCrashEventSize) :
    validator.processExitEvents.length ≤ maxCrashEventSize ∧
      validator.cppCrashEvents.length ≤ maxCrashEventSize ∧
      validator.cppCrashExceptionEvents.length ≤ maxCrashEventSize := by
  have within {events : List (Int32 × CrashEvent)} (distinct : Distinct events)
      (listed : ∀ key ∈ events.map Prod.fst, key ∈ outstanding validator pid) :
      events.length ≤ maxCrashEventSize := by
    have fewer := (subperm_of_subset distinct listed).length_le
    rw [length_map] at fewer
    exact fewer.trans few
  refine ⟨within maps.exits.distinct ?_, within maps.crashes.distinct ?_, within maps.exceptions.distinct ?_⟩ <;>
  · intro key member
    simp only [outstanding, mem_dedup, mem_cons, mem_append]
    simp [member]

theorem matched_pid (maps : Maps validator) (exited : lookup validator.processExitEvents pid = some exit) :
    (matched validator pid exit).pid = pid := by
  unfold matched
  split
  · rename_i event snapshot
    exact maps.crashes.lookup_pid (Option.filter_eq_some_iff.mp snapshot).1
  · split
    · rename_i event found
      exact maps.exceptions.lookup_pid found
    · rename_i event _ found
      exact maps.crashes.lookup_pid found
    · exact maps.exits.lookup_pid exited

theorem matched_name : (matched validator pid exit).name = .cppCrashDismatch ↔ ¬ Recorded validator pid := by
  unfold matched Recorded
  split
  · rename_i event snapshot
    have found := (Option.filter_eq_some_iff.mp snapshot).1
    simp [reportMatchEvent, found]
  · split
    · rename_i event found
      simp [reportMatchEvent, found]
    · rename_i event _ found
      simp [reportMatchEvent, found]
    · rename_i noException noCrash
      simp [reportDisMatchEvent, noException, noCrash]

theorem removeMatchEvent_exits (validator : Validator) (pid : Int32) :
    (removeMatchEvent validator pid).processExitEvents = erase validator.processExitEvents pid := by
  unfold removeMatchEvent
  dsimp only
  split <;> rfl

theorem Maps.removeMatchEvent (maps : Maps validator) (pid : Int32) : Maps (removeMatchEvent validator pid) := by
  unfold Validator.removeMatchEvent
  dsimp only
  split
  · exact ⟨maps.exits.erase pid, byPid_nil, byPid_nil⟩
  · exact ⟨maps.exits.erase pid, maps.crashes.erase pid, maps.exceptions.erase pid⟩

theorem recorded_removeMatchEvent (different : other ≠ pid) :
    Recorded (removeMatchEvent validator pid) other ↔
      (removeMatchEvent validator pid).processExitEvents.isEmpty = false ∧ Recorded validator other := by
  unfold removeMatchEvent Recorded
  dsimp only
  split
  · rename_i empty
    simp [empty, lookup]
  · rename_i left
    simp [left, lookup_erase, different]

inductive Took (state : State) (event : CrashEvent) : State → Prop
  | unrecorded (items : noted event = [] ∨ noted event = [.crash event.pid true]) :
    Took state event { state with history := noted event ++ state.history }
  | exited (room : state.validator.processExitEvents.length ≤ maxCrashEventSize) (fresh : event.pid ∉ state.exits) :
    Took state event { state with
      validator := { state.validator with processExitEvents := addExit state.validator.processExitEvents event }
      timers := state.timers ++ [event.pid]
      exits := state.exits ++ [event.pid] }
  | crashed (room : state.validator.cppCrashEvents.length ≤ maxCrashEventSize) :
    Took state event { state with
      validator := { state.validator with cppCrashEvents := addCrash state.validator.cppCrashEvents event }
      history := .crash event.pid false :: state.history }
  | excepted (room : state.validator.cppCrashExceptionEvents.length ≤ maxCrashEventSize) :
    Took state event { state with
      validator := { state.validator with
        cppCrashExceptionEvents := addCrash state.validator.cppCrashExceptionEvents event }
      history := .crash event.pid false :: state.history }

theorem noted_exit (isExit : event.eventName = .processExit) : noted event = [] := by
  simp [noted, isCrash, isExit]

theorem noted_crash (isCrash : event.eventName ≠ .processExit) (app : ¬ event.uid < minAppUid) :
    noted event = [.crash event.pid (isLocalReport event)] := by
  simp [noted, CrashValidator.isCrash, isCrash, Int.not_lt.mp app]

theorem step_onEvent (maps : Maps state.validator) (stepped : step state (.onEvent event) = some next) :
    Took state event next := by
  simp only [step] at stepped
  split at stepped
  · rename_i allowed
    obtain ⟨few, fresh⟩ := allowed
    obtain ⟨roomExits, roomCrashes, roomExceptions⟩ := maps.room few
    have quiet (same : state.validator.onEvent event = ⟨state.validator, none, (state.validator.onEvent event).faultLog⟩)
        (items : noted event = [] ∨ noted event = [.crash event.pid true]) : Took state event next := by
      rw [same] at stepped
      simp only [Option.toList_none, append_nil, Option.some.injEq] at stepped
      subst stepped
      exact .unrecorded items
    by_cases normal : event.eventName = .processExit ∧ isNormalExitEvent event
    · exact quiet (by simp [onEvent, normal]) (.inl (noted_exit normal.1))
    by_cases isLocal : isLocalReport event = true
    · refine quiet (by simp [onEvent, normal, isLocal]) ?_
      unfold noted
      rw [isLocal]
      split
      · exact .inr rfl
      · exact .inl rfl
    by_cases system : event.uid < minAppUid
    · refine quiet (by simp [onEvent, normal, isLocal, system]) (.inl ?_)
      simp [noted, isCrash, Int.not_le.mpr system]
    have handled : state.validator.onEvent event = ⟨addEventToMap state.validator event,
        if event.eventName = .processExit then some event.pid else none, none⟩ := by
      simp [onEvent, normal, isLocal, system]
    rw [handled] at stepped fresh
    by_cases isExit : event.eventName = .processExit
    · simp only [isExit, if_true, Option.toList_some, noted_exit isExit, nil_append, addEventToMap,
        Option.some.injEq] at stepped
      simp only [isExit, if_true, Option.all_some, decide_eq_true_eq] at fresh
      subst stepped
      exact .exited roomExits fresh
    · simp only [isExit, if_false, Option.toList_none, append_nil, noted_crash isExit system, isLocal,
        singleton_append, Option.some.injEq] at stepped
      subst stepped
      cases kind : event.eventName with
      | processExit => exact (isExit kind).elim
      | cppCrash =>
        simp [addEventToMap, kind]
        exact .crashed roomCrashes
      | cppCrashException =>
        simp [addEventToMap, kind]
        exact .excepted roomExceptions
  · cases stepped

structure Sound (state : State) : Prop where
  maps : Maps state.validator
  pending : ∀ pid, (lookup state.validator.processExitEvents pid).isSome ↔ pid ∈ state.timers
  recorded : ∀ pid, pid ∉ state.outcomes.map (·.report.pid) →
    (Recorded state.validator pid ↔ arrivedSince state.history pid = true)
  right : Right state

theorem start_sound : Sound .start where
  maps := ⟨byPid_nil, byPid_nil, byPid_nil⟩
  pending pid := by simp [State.start, new, lookup]
  recorded pid _ := by simp [State.start, new, Recorded, lookup, arrivedSince]
  right := ⟨List.Perm.nil, nodup_nil, by simp [State.start]⟩

theorem arrived_of_since (since : arrivedSince history pid = true) :
    arrived history pid = true := by
  induction history with
  | nil => cases since
  | cons item rest ih =>
    cases item with
    | emptied => cases since
    | crash other isLocal =>
      rw [arrivedSince, Bool.or_eq_true, Bool.and_eq_true] at since
      rw [arrived, Bool.or_eq_true]
      exact since.imp And.left ih

variable (sound : Sound state)
include sound

theorem Sound.unrecorded (items : noted event = [] ∨ noted event = [.crash event.pid true]) :
    Sound { state with history := noted event ++ state.history } where
  maps := sound.maps
  pending := sound.pending
  recorded pid unreported := by
    rw [sound.recorded pid unreported]
    rcases items with nothing | aLocal
    · rw [nothing]
      rfl
    · rw [aLocal, singleton_append, arrivedSince]
      simp
  right := ⟨sound.right.account, sound.right.once, sound.right.names⟩

theorem Sound.exited (room : state.validator.processExitEvents.length ≤ maxCrashEventSize)
    (fresh : event.pid ∉ state.exits) :
    Sound { state with
      validator := { state.validator with processExitEvents := addExit state.validator.processExitEvents event }
      timers := state.timers ++ [event.pid]
      exits := state.exits ++ [event.pid] } where
  maps := ⟨(added_addExit room).byPid sound.maps.exits, sound.maps.crashes, sound.maps.exceptions⟩
  pending pid := by
    rw [(added_addExit room).found pid, sound.pending pid, mem_append, mem_singleton, or_comm]
  recorded := sound.recorded
  right := by
    refine ⟨?_, ?_, sound.right.names⟩
    · rw [← append_assoc]
      exact sound.right.account.append_right _
    · refine nodup_append.mpr ⟨sound.right.once, nodup_singleton _, ?_⟩
      intro pid member other single same
      rw [mem_singleton.mp single] at same
      exact fresh (same ▸ member)

theorem Sound.crashed (maps : Maps validator)
    (exits : validator.processExitEvents = state.validator.processExitEvents)
    (found : ∀ pid, Recorded validator pid ↔ pid = event.pid ∨ Recorded state.validator pid) :
    Sound { state with validator := validator, history := .crash event.pid false :: state.history } where
  maps := maps
  pending pid := by
    rw [exits]
    exact sound.pending pid
  recorded pid unreported := by
    rw [found pid, sound.recorded pid unreported, arrivedSince, Bool.or_eq_true, Bool.not_false, Bool.and_true,
      beq_iff_eq, @eq_comm _ pid event.pid]
  right := ⟨sound.right.account, sound.right.once, sound.right.names⟩

theorem Sound.onEvent (stepped : step state (.onEvent event) = some next) : Sound next := by
  cases step_onEvent sound.maps stepped with
  | unrecorded items => exact sound.unrecorded items
  | exited room fresh => exact sound.exited room fresh
  | crashed room =>
    have added := @added_addCrash _ event room
    refine sound.crashed ⟨sound.maps.exits, added.byPid sound.maps.crashes, sound.maps.exceptions⟩ rfl ?_
    intro pid
    rw [Recorded, added.found pid, or_assoc]
    rfl
  | excepted room =>
    have added := @added_addCrash _ event room
    refine sound.crashed ⟨sound.maps.exits, sound.maps.crashes, added.byPid sound.maps.exceptions⟩ rfl ?_
    intro pid
    rw [Recorded, added.found pid, or_left_comm]
    rfl

omit sound

/-- The state after the timer of an exit has fired. -/
def matchedState (state : State) (pid : Int32) (exit : CrashEvent) : State where
  validator := removeMatchEvent state.validator pid
  timers := state.timers.erase pid
  exits := state.exits
  outcomes := state.outcomes ++ [⟨matched state.validator pid exit, arrived state.history pid⟩]
  history :=
    if (removeMatchEvent state.validator pid).processExitEvents.isEmpty then .emptied :: state.history
    else state.history

theorem Sound.matchTimer_eq (sound : Sound state) (running : pid ∈ state.timers) :
    ∃ exit, lookup state.validator.processExitEvents pid = some exit ∧
      step state (.matchTimer pid) = some (matchedState state pid exit) := by
  obtain ⟨exit, exited⟩ := Option.isSome_iff_exists.mp ((sound.pending pid).mpr running)
  rw [step, if_pos running, matchEvent, exited]
  simp [matchedState]

theorem Right.unreported (right : Right state) (running : pid ∈ state.timers) :
    pid ∉ state.outcomes.map (·.report.pid) := by
  intro reported
  have nodup := right.account.nodup_iff.mpr right.once
  exact (nodup_append.mp nodup).2.2 pid reported pid running rfl

section
variable (sound : Sound state) (running : pid ∈ state.timers)
  (exited : lookup state.validator.processExitEvents pid = some exit)
include sound running exited

theorem Sound.account_matched :
    ((matchedState state pid exit).outcomes.map (·.report.pid) ++ (matchedState state pid exit).timers).Perm
      (matchedState state pid exit).exits := by
  have reported : (matched state.validator pid exit).pid = pid := matched_pid sound.maps exited
  simp [matchedState, reported]
  exact ((perm_cons_erase running).symm.append_left _).trans sound.right.account

/-- The report of a timer has the right name exactly if the event that arrived is still recorded. -/
theorem Sound.right_matched_iff :
    Right (matchedState state pid exit) ↔
      (arrived state.history pid = true → arrivedSince state.history pid = true) := by
  have name : (matched state.validator pid exit).name = .cppCrashDismatch ↔
      ¬ arrivedSince state.history pid = true := by
    rw [matched_name, sound.recorded pid (sound.right.unreported running)]
  constructor
  · intro right didArrive
    have here := right.names ⟨matched state.validator pid exit, arrived state.history pid⟩ (by simp [matchedState])
    rw [name, didArrive] at here
    by_contra lost
    exact absurd (here.mp lost) (by simp)
  · intro kept
    refine ⟨sound.account_matched running exited, sound.right.once,
      forall_mem_append.mpr ⟨sound.right.names, forall_mem_singleton.mpr ?_⟩⟩
    rw [name, ← Bool.not_eq_true]
    exact not_congr ⟨arrived_of_since, kept⟩

end

theorem Sound.matched (sound : Sound state)
    (exited : lookup state.validator.processExitEvents pid = some exit)
    (right : Right (matchedState state pid exit)) : Sound (matchedState state pid exit) where
  maps := sound.maps.removeMatchEvent pid
  pending other := by
    have timers : state.timers.Nodup :=
      (nodup_append.mp (sound.right.account.nodup_iff.mpr sound.right.once)).2.1
    dsimp only [matchedState]
    rw [removeMatchEvent_exits, lookup_erase, timers.mem_erase_iff, ← sound.pending other]
    by_cases same : other = pid
    · simp [same]
    · simp [same]
  recorded other unreported := by
    have reported : (Validator.matched state.validator pid exit).pid = pid := matched_pid sound.maps exited
    simp only [matchedState, map_append, map_cons, map_nil, reported, mem_append,
      mem_singleton, not_or] at unreported
    dsimp only [matchedState]
    rw [recorded_removeMatchEvent unreported.2, sound.recorded other unreported.1]
    split
    · rename_i empty
      simp [empty, arrivedSince]
    · rename_i left
      simp [left]
  right := right

theorem kept_iff_right (sound : Sound state) {label : Step} :
    Kept state label ↔ ∀ next, step state label = some next → Right next := by
  cases label with
  | onEvent event => exact ⟨fun _ next stepped => (sound.onEvent stepped).right, fun _ => trivial⟩
  | matchTimer pid =>
    by_cases running : pid ∈ state.timers
    · obtain ⟨exit, exited, stepped⟩ := sound.matchTimer_eq running
      have exactly := sound.right_matched_iff running exited
      rw [stepped]
      constructor
      · intro kept next same
        cases same
        exact exactly.mpr (kept running)
      · intro right _
        exact exactly.mp (right _ rfl)
    · refine ⟨?_, fun _ there => absurd there running⟩
      intro _ next stepped
      rw [step, if_neg running] at stepped
      cases stepped

theorem step_sound (sound : Sound state) {label : Step} (stepped : step state label = some next)
    (right : Right next) : Sound next := by
  cases label with
  | onEvent event => exact sound.onEvent stepped
  | matchTimer pid =>
    by_cases running : pid ∈ state.timers
    · obtain ⟨exit, exited, same⟩ := sound.matchTimer_eq running
      cases stepped.symm.trans same
      exact sound.matched exited right
    · rw [step, if_neg running] at stepped
      cases stepped

/-- In every run, each abnormal exit is reported exactly once and as a dismatch exactly if no crash event of
its process had arrived, if and only if every timer that fires after such an event finds one that
arrived since the last exit was matched and is not a local report. -/
theorem right_iff_kept (labels : List Step) :
    (∀ taken rest final, labels = taken ++ rest → run step .start taken = some final → Right final) ↔
      Guarded step Kept .start labels :=
  (guarded_iff (fun sound => kept_iff_right sound) (fun sound stepped right => step_sound sound stepped right)
    Sound.right start_sound).symm

/-- An event of an application that was killed by `SIGSEGV`. -/
def appEvent (eventName : EventName) (pid : Int32) (errorCode : Int) : CrashEvent :=
  ⟨eventName, pid, 20010001, 11, errorCode, 0, 0, [], [], [], [], []⟩

/-- The crash event of process 2 comes before its exit, and the exit of process 1 is matched in between. -/
def matchedBetween : List Step :=
  [.onEvent (appEvent .processExit 1 0), .onEvent (appEvent .cppCrash 1 0), .onEvent (appEvent .cppCrash 2 0),
    .matchTimer 1, .onEvent (appEvent .processExit 2 0), .matchTimer 2]

/-- The only crash event is an exception event for a local report. -/
def localOnly : List Step :=
  [.onEvent (appEvent .cppCrashException 1 206), .onEvent (appEvent .processExit 1 0), .matchTimer 1]

/-- The exit is reported as a dismatch although a crash event of the process had arrived. -/
theorem crash_dismatched :
    (∃ final, run step .start matchedBetween = some final ∧ ¬ Right final) ∧
      ∃ final, run step .start localOnly = some final ∧ ¬ Right final := by
  have wrong : ∀ labels ∈ [matchedBetween, localOnly], (run step .start labels).map (fun final =>
      decide (∀ outcome ∈ final.outcomes, outcome.report.name = .cppCrashDismatch ↔ outcome.arrived = false)) =
        some false := by
    decide
  have misnames (labels : List Step) (member : labels ∈ [matchedBetween, localOnly]) :
      ∃ final, run step .start labels = some final ∧ ¬ Right final := by
    obtain ⟨final, ran, misnamed⟩ := Option.map_eq_some_iff.mp (wrong labels member)
    exact ⟨final, ran, fun right => of_decide_eq_false misnamed right.names⟩
  exact ⟨misnames matchedBetween (by simp), misnames localOnly (by simp)⟩

end Hiview.CrashValidator
