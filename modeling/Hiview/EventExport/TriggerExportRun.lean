import Hiview.EventExport.TriggerExportEngine

/-! When the trigger export engine covers every event: events come in the order of
their sequences, none of them joins a task that has read its range, and no range is
cut off. -/
namespace Hiview.EventExport
open ExportDbManager EventExportTask
open List hiding head range tail
open TriggerExportTask (allEvent appendEvent)

namespace TriggerExportTask

theorem has_listEvent (event : TriggerExportEvent) (list : ExportEventList) :
    (listEvent event list).Has event := by
  fun_induction listEvent event list with
  | case1 => exact ⟨_, mem_singleton_self _, rfl, mem_singleton_self _⟩
  | case2 eventNames rest present => exact ⟨_, mem_cons_self, rfl, contains_iff_mem.mp present⟩
  | case3 => exact ⟨_, mem_cons_self, rfl, mem_append_right _ (mem_singleton_self _)⟩
  | case4 => exact ⟨_, mem_cons_self, rfl, mem_singleton_self _⟩
  | case5 _ _ _ _ _ ih =>
    obtain ⟨found, member, named⟩ := ih
    exact ⟨found, mem_cons_of_mem _ member, named⟩

theorem has_listEvent_of_has (has : list.Has other) : (listEvent event list).Has other := by
  obtain ⟨found, member, named⟩ := has
  fun_induction listEvent event list with
  | case1 => cases member
  | case2 => exact ⟨found, member, named⟩
  | case3 =>
    rcases mem_cons.mp member with rfl | inRest
    · exact ⟨_, mem_cons_self, named.1, mem_append_left _ named.2⟩
    · exact ⟨found, mem_cons_of_mem _ inRest, named⟩
  | case4 => exact ⟨found, mem_cons_of_mem _ member, named⟩
  | case5 _ _ _ _ _ ih =>
    rcases mem_cons.mp member with rfl | inRest
    · exact ⟨_, mem_cons_self, named⟩
    · obtain ⟨later, inLater, named⟩ := ih inRest
      exact ⟨later, mem_cons_of_mem _ inLater, named⟩

theorem has_foldl (events : List TriggerExportEvent) (list : ExportEventList)
    (has : list.Has event ∨ event ∈ events) :
    (events.foldl (fun list event => listEvent event list) list).Has event := by
  induction events generalizing list with
  | nil => exact has.resolve_right not_mem_nil
  | cons first rest ih =>
    refine ih _ ?_
    rcases has with before | member
    · exact .inl (has_listEvent_of_has before)
    · rcases mem_cons.mp member with rfl | later
      · exact .inl (has_listEvent event list)
      · exact .inr later

theorem has_parseExportEventList (configured : ExportEventList) {task : TriggerExportTask}
    (member : event ∈ task.allEvent) : (task.parseExportEventList configured).Has event := by
  rw [parseExportEventList, if_neg (ne_nil_of_mem member)]
  exact has_foldl _ _ (.inr member)

end TriggerExportTask
open TriggerExportTask (allEvent has_parseExportEventList)

namespace TriggerExportEngine

section
variable (state : TriggerExportEngine)

/-- The tasks that have not read their range. -/
def unread : List TriggerExportTask :=
  match state.running with
  | some (_, .ranged _) | some (_, .finished) => state.taskList.tail
  | some (_, .started) | none => state.taskList

/-- The events of the task that has read its range and not its list. -/
def reading : List TriggerExportEvent :=
  match state.running with
  | some (_, .ranged _) => state.taskList.head?.elim [] allEvent
  | _ => []

/-- The sequence from which on events can still be exported. -/
def reach : Int :=
  match state.running with
  | some (_, .ranged range) => range.2
  | _ => getExportBeginSeq state.record

def joinsLate (config : TriggerConfig) (state : TriggerExportEngine) (event : TriggerExportEvent) : Bool :=
  match state.running, state.taskList.getLast? with
  | some (id, phase), some lastTask =>
    lastTask.id = id && phase ≠ .started && joins config lastTask event
  | _, _ => false

/-- A task without events leaves no event of another task behind, and the range of
a task with events is not cut off. -/
def reads (task : TriggerExportTask) : Bool :=
  if task.allEvent = [] then state.taskList.all fun other => other.allEvent = []
  else task.getExportRangeEndSeq state.curSeq ≤ getExportBeginSeq state.record + exportMaxCnt

def Guard (config : TriggerConfig) (state : TriggerExportEngine) : TriggerLabel → Prop
  | .append event => (∀ item ∈ state.appended, item.1.seq < event.seq) ∧ state.reach ≤ event.seq ∧
      joinsLate config state event = false
  | .readRange => ∀ running ∈ state.running, ∀ task ∈ state.findTask running.1,
      state.reads task = true
  | _ => True

structure Inv : Prop where
  ids : state.taskList.map TriggerExportTask.id =
    (state.running.map Prod.fst).toList ++ state.queue
  rising : (state.taskList.map TriggerExportTask.id).Pairwise (· < ·)
  enabled : ∃ record, state.record = some record ∧ 0 ≤ record.exportEnabledSeq
  ordered : (state.unread.flatMap allEvent).Pairwise fun first second =>
    first.seq < second.seq
  known : ∀ event ∈ state.unread.flatMap allEvent,
    ∃ before, (event, before) ∈ state.appended
  low : ∀ event ∈ state.unread.flatMap allEvent, state.reach ≤ event.seq
  range : ∀ id range, state.running = some (id, .ranged range) →
    (getExportBeginSeq state.record ≤ range.2) ∧
      ∀ event ∈ state.reading, range.1 ≤ event.seq ∧ event.seq < range.2
  covered : ∀ item ∈ state.appended, item.2 ≤ state.runs.length ∧
    (item.1 ∈ state.unread.flatMap allEvent ∨ item.1 ∈ state.reading ∨
      ∃ run ∈ state.runs.drop item.2, run.Covers item.1)
  handed : ∀ event ∈ state.handed, event ∈ state.submitted ∨
    ∃ before, (event, before) ∈ state.appended

end

theorem rebuildExistTaskList_events (config : TriggerConfig) (tasks : List TriggerExportTask)
    (event : TriggerExportEvent) :
    (rebuildExistTaskList config tasks event).1.flatMap allEvent =
      tasks.flatMap allEvent ++ [event] := by
  unfold rebuildExistTaskList
  cases last : tasks.getLast? with
  | none =>
    obtain rfl := List.getLast?_eq_none_iff.mp last
    rfl
  | some lastTask =>
    obtain ⟨front, rfl⟩ := List.getLast?_eq_some_iff.mp last
    dsimp only
    split
    · simp [appendEvent]
    · simp

section Steps
variable {config : TriggerConfig} {state : TriggerExportEngine} (inv : Inv state)
include inv

variable {phase : TaskPhase}

theorem running_head {id : Nat} (running : state.running = some (id, phase)) :
    ∃ head tail, state.taskList = head :: tail ∧ head.id = id ∧
      tail.map TriggerExportTask.id = state.queue ∧ state.findTask id = some head ∧
      removeTask id state.taskList = tail := by
  have ids := inv.ids
  rw [running] at ids
  obtain ⟨head, tail, parts, sameId, rest⟩ := map_eq_cons_iff.mp ids
  refine ⟨head, tail, parts, sameId, rest, ?_, ?_⟩
  · rw [findTask, parts]
    exact List.find?_cons_of_pos (decide_eq_true sameId)
  · rw [removeTask, parts]
    exact eraseP_cons_of_pos (decide_eq_true sameId)

variable {event : TriggerExportEvent}

theorem rebuildExistTaskList_head (inTime : joinsLate config state event = false) {id : Nat}
    (busy : state.running = some (id, phase)) (read : phase ≠ .started) :
    ∃ head tail later, state.taskList = head :: tail ∧
      (rebuildExistTaskList config state.taskList event).1 = head :: later ∧
      later.flatMap allEvent = tail.flatMap allEvent ++ [event] := by
  have whole := rebuildExistTaskList_events config state.taskList event
  suffices ∃ head tail later, state.taskList = head :: tail ∧
      (rebuildExistTaskList config state.taskList event).1 = head :: later by
    obtain ⟨head, tail, later, cut, kept⟩ := this
    rw [kept, cut, flatMap_cons, flatMap_cons, append_assoc] at whole
    exact ⟨head, tail, later, cut, kept, append_cancel_left whole⟩
  obtain ⟨head, tail, cut, sameId, -⟩ := running_head inv busy
  obtain ⟨lastTask, last⟩ : ∃ lastTask, state.taskList.getLast? = some lastTask :=
    ⟨_, cut ▸ List.getLast?_cons⟩
  obtain ⟨front, parts⟩ := List.getLast?_eq_some_iff.mp last
  rw [rebuildExistTaskList, last]
  dsimp only
  split
  · case isTrue joined =>
    cases front with
    | nil =>
      obtain ⟨rfl, rfl⟩ := List.cons.inj (cut.symm.trans parts)
      rw [joinsLate, busy, last] at inTime
      simp [sameId, read, joined] at inTime
    | cons first rest =>
      rw [parts, dropLast_concat]
      exact ⟨first, rest ++ [lastTask], _, rfl, rfl⟩
  · rw [cut]
    exact ⟨head, tail, _, rfl, rfl⟩

/-- Where an event goes: behind all events that are not read yet. -/
theorem unread_processTriggerEvent (inTime : joinsLate config state event = false) :
    (processTriggerEvent config state event).unread.flatMap allEvent =
        state.unread.flatMap allEvent ++ [event] ∧
      (processTriggerEvent config state event).reading = state.reading := by
  have whole := rebuildExistTaskList_events config state.taskList event
  simp [unread, reading, processTriggerEvent]
  cases busy : state.running with
  | none => exact ⟨whole, rfl⟩
  | some task =>
    obtain ⟨id, phase⟩ := task
    cases phase with
    | started => exact ⟨whole, rfl⟩
    | _ =>
      obtain ⟨head, tail, later, cut, kept, grown⟩ := rebuildExistTaskList_head inv inTime busy nofun
      rw [kept, cut]
      exact ⟨grown, rfl⟩

theorem ids_processTriggerEvent (config : TriggerConfig) (event : TriggerExportEvent) :
    (processTriggerEvent config state event).taskList.map TriggerExportTask.id =
        (state.running.map Prod.fst).toList ++ (processTriggerEvent config state event).queue ∧
      ((processTriggerEvent config state event).taskList.map TriggerExportTask.id).Pairwise
        (· < ·) := by
  have rising := inv.rising
  change (rebuildExistTaskList config state.taskList event).1.map _ =
      (state.running.map Prod.fst).toList ++
        (state.queue ++ (rebuildExistTaskList config state.taskList event).2) ∧
    ((rebuildExistTaskList config state.taskList event).1.map _).Pairwise _
  rw [← append_assoc, ← inv.ids, rebuildExistTaskList]
  cases last : state.taskList.getLast? with
  | none =>
    rw [List.getLast?_eq_none_iff.mp last]
    exact ⟨rfl, pairwise_singleton _ _⟩
  | some lastTask =>
    obtain ⟨front, parts⟩ := List.getLast?_eq_some_iff.mp last
    rw [parts] at rising ⊢
    simp only
    split
    · rw [dropLast_concat, append_nil]
      have same : (front ++ [lastTask.appendEvent event]).map TriggerExportTask.id =
          (front ++ [lastTask]).map TriggerExportTask.id := by
        simp [appendEvent]
      exact ⟨same, same ▸ rising⟩
    · refine ⟨by simp, ?_⟩
      rw [map_append]
      refine pairwise_append.mpr ⟨rising, pairwise_singleton _ _, ?_⟩
      intro id member other only
      rw [map_singleton, mem_singleton] at only
      subst only
      rw [map_append, pairwise_append] at rising
      rw [map_append] at member
      rcases mem_append.mp member with early | latest
      · exact Nat.lt_succ_of_lt (rising.2.2 id early _ (mem_singleton_self _))
      · rw [map_singleton, mem_singleton] at latest
        exact Nat.lt_succ_of_le latest.le

theorem append_inv (guard : Guard config state (.append event)) (submitted : event ∈ state.submitted) :
    Inv (processTriggerEvent config state event) := by
  obtain ⟨latest, above, inTime⟩ := guard
  obtain ⟨ids, rising⟩ := ids_processTriggerEvent inv config event
  obtain ⟨grown, same⟩ := unread_processTriggerEvent inv inTime
  refine ⟨ids, rising, inv.enabled, ?_, ?_, ?_, ?_, ?_, ?_⟩
  · rw [grown]
    refine pairwise_append.mpr ⟨inv.ordered, pairwise_singleton _ _, ?_⟩
    intro other member _ only
    obtain rfl := mem_singleton.mp only
    obtain ⟨before, known⟩ := inv.known other member
    exact latest _ known
  · rw [grown]
    refine forall_mem_append.mpr ⟨fun other old => ?_, forall_mem_singleton.mpr ⟨_, mem_cons_self⟩⟩
    obtain ⟨before, known⟩ := inv.known other old
    exact ⟨before, mem_cons_of_mem _ known⟩
  · rw [grown]
    exact forall_mem_append.mpr ⟨inv.low, forall_mem_singleton.mpr above⟩
  · rw [same]
    exact inv.range
  · rw [grown, same]
    refine forall_mem_cons.mpr ⟨⟨Nat.le_refl _, .inl ?_⟩, fun item member => ?_⟩
    · exact mem_append_right _ (mem_singleton_self _)
    · obtain ⟨early, place⟩ := inv.covered item member
      exact ⟨early, place.imp (mem_append_left _) id⟩
  · intro other member
    rcases inv.handed other member with waiting | ⟨before, known⟩
    · by_cases this : other = event
      · subst this
        exact .inr ⟨_, mem_cons_self⟩
      · exact .inl ((mem_erase_of_ne this).mpr waiting)
    · exact .inr ⟨before, mem_cons_of_mem _ known⟩

variable {next : TriggerExportEngine}

theorem start_inv (stepped : step config state .start = some next) : Inv next := by
  rw [step] at stepped
  split at stepped
  · case h_1 id rest idle waiting =>
    cases stepped
    cases state
    cases idle
    cases waiting
    exact ⟨inv.ids, inv.rising, inv.enabled, inv.ordered, inv.known, inv.low, nofun, inv.covered, inv.handed⟩
  · cases stepped

theorem valid_begin : getExportBeginSeq state.record ≠ invalidSeqVal := by
  obtain ⟨record, found, positive⟩ := inv.enabled
  have valid : record.exportEnabledSeq ≠ invalidSeqVal := by
    rw [invalidSeqVal]
    omega
  rw [found, getExportBeginSeq, if_neg valid, invalidSeqVal]
  omega

/-- A range that is read contains the events of its task and leaves the others. -/
theorem readRange_range (parts : state.taskList = head :: tail) (unread : state.unread = state.taskList)
    (low : state.reach = getExportBeginSeq state.record) (uncut : state.reads head = true) :
    (initReadRequest state.record (head.getExportRangeEndSeq state.curSeq) = none ∧
      head.allEvent = []) ∨
    ∃ range, initReadRequest state.record (head.getExportRangeEndSeq state.curSeq) = some range ∧
      getExportBeginSeq state.record ≤ range.2 ∧
      (∀ event ∈ head.allEvent, range.1 ≤ event.seq ∧ event.seq < range.2) ∧
      ∀ event ∈ tail.flatMap allEvent, range.2 ≤ event.seq := by
  have ordered := inv.ordered
  have above := inv.low
  rw [unread, parts, flatMap_cons] at ordered above
  rw [low] at above
  rw [reads] at uncut
  split at uncut
  · case isTrue empty =>
    have others : tail.flatMap allEvent = [] := by
      rw [flatMap_eq_nil_iff]
      intro task member
      rw [parts, all_eq_true] at uncut
      exact of_decide_eq_true (uncut task (mem_cons_of_mem _ member))
    rw [empty, others]
    cases found : initReadRequest state.record (head.getExportRangeEndSeq state.curSeq) with
    | none => exact .inl ⟨rfl, rfl⟩
    | some range =>
      obtain ⟨-, begins, ends, -⟩ := initReadRequest_spec found
      exact .inr ⟨range, rfl, begins ▸ ends, nofun, nofun⟩
  · case isFalse filled =>
    obtain ⟨front, last, shape⟩ : ∃ front last, head.allEvent = front ++ [last] :=
      ⟨_, _, (dropLast_concat_getLast filled).symm⟩
    have ends : head.getExportRangeEndSeq state.curSeq = last.seq + 1 := by
      rw [TriggerExportTask.getExportRangeEndSeq, shape, List.getLast?_concat]
      rfl
    have begins := above last (by simp [shape])
    rw [decide_eq_true_eq, ends] at uncut
    obtain ⟨inHead, -, between⟩ := pairwise_append.mp ordered
    rw [shape] at inHead
    obtain ⟨-, -, toLast⟩ := pairwise_append.mp inHead
    refine .inr ⟨(getExportBeginSeq state.record, last.seq + 1), ?_, by omega,
      fun event member => ⟨above event (mem_append_left _ member), ?_⟩, fun event member => ?_⟩
    · rw [ends, initReadRequest, if_neg (valid_begin inv), if_neg (by omega), if_neg (by omega)]
    · rw [shape] at member
      rcases mem_append.mp member with early | latest
      · exact Int.lt_add_one_of_le (Int.le_of_lt (toLast event early last (mem_singleton_self _)))
      · rw [mem_singleton.mp latest]
        exact Int.lt_add_one_of_le (Int.le_refl _)
    · exact Int.add_one_le_of_lt (between last (by simp [shape]) event member)

theorem finished_inv {id : Nat} {head : TriggerExportTask} (busy : state.running = some (id, phase))
    (parts : state.taskList = head :: tail) {record : Option ExportDetailRecord} {runs : List ExportRun}
    (enabled : ∃ found, record = some found ∧ 0 ≤ found.exportEnabledSeq)
    (ordered : (tail.flatMap allEvent).Pairwise fun first second => first.seq < second.seq)
    (known : ∀ event ∈ tail.flatMap allEvent, ∃ before, (event, before) ∈ state.appended)
    (low : ∀ event ∈ tail.flatMap allEvent, getExportBeginSeq record ≤ event.seq)
    (covered : ∀ item ∈ state.appended, item.2 ≤ runs.length ∧
      (item.1 ∈ tail.flatMap allEvent ∨ ∃ run ∈ runs.drop item.2, run.Covers item.1)) :
    Inv { state with running := some (id, .finished), record := record, runs := runs } := by
  cases state
  cases busy
  cases parts
  refine ⟨inv.ids, inv.rising, enabled, ordered, known, low, nofun, ?_, inv.handed⟩
  intro item member
  obtain ⟨early, place⟩ := covered item member
  exact ⟨early, place.imp_right .inr⟩

theorem readRange_inv (guard : Guard config state .readRange) (stepped : step config state .readRange = some next) :
    Inv next := by
  rw [step] at stepped
  split at stepped
  · case h_1 id busy =>
    obtain ⟨head, tail, parts, sameId, rest, found, -⟩ := running_head inv busy
    have uncut := guard _ busy _ found
    rw [found] at stepped
    cases stepped
    cases state
    cases busy
    cases parts
    rcases readRange_range inv rfl rfl rfl uncut with ⟨invalid, empty⟩ | ⟨range, valid, ends, inside, later⟩
    · have all : (head :: tail).flatMap allEvent = tail.flatMap allEvent := by rw [flatMap_cons, empty, nil_append]
      simp [invalid]
      refine finished_inv inv rfl rfl inv.enabled (all ▸ inv.ordered) (all ▸ inv.known) (all ▸ inv.low) ?_
      intro item member
      obtain ⟨early, place⟩ := inv.covered item member
      exact ⟨early, all ▸ place.imp_right fun rest => rest.resolve_left not_mem_nil⟩
    · simp [valid]
      refine ⟨inv.ids, inv.rising, inv.enabled, (pairwise_append.mp inv.ordered).2.1,
        fun event member => inv.known event (mem_append_right _ member), later, ?_, ?_, inv.handed⟩
      · rintro _ _ ⟨⟩
        exact ⟨ends, inside⟩
      · intro item member
        obtain ⟨early, place⟩ := inv.covered item member
        refine ⟨early, ?_⟩
        rcases place with waiting | none | done
        · exact (mem_append.mp waiting).symm.imp (fun later => later) .inl
        · exact absurd none not_mem_nil
        · exact .inr (.inr done)
  · cases stepped

theorem begin_finished (passed : getExportBeginSeq state.record ≤ endSeq) :
    (∃ record, handleExportTaskFinished state.record endSeq = some record ∧
        0 ≤ record.exportEnabledSeq) ∧
      getExportBeginSeq (handleExportTaskFinished state.record endSeq) = endSeq := by
  obtain ⟨record, found, positive⟩ := inv.enabled
  have valid : record.exportEnabledSeq ≠ invalidSeqVal := by
    rw [invalidSeqVal]
    omega
  rw [found, getExportBeginSeq, if_neg valid] at passed
  rw [found]
  refine ⟨⟨_, rfl, positive⟩, ?_⟩
  rw [handleExportTaskFinished, getExportBeginSeq, if_neg valid]
  exact Int.max_eq_right (Int.le_trans (Int.le_max_left _ _) passed)

theorem readList_inv (stepped : step config state .readList = some next) : Inv next := by
  rw [step] at stepped
  split at stepped
  · case h_1 id range busy =>
    obtain ⟨head, tail, parts, sameId, rest, found, -⟩ := running_head inv busy
    rw [found] at stepped
    cases stepped
    cases state
    cases busy
    cases parts
    obtain ⟨ends, inside⟩ := inv.range id range rfl
    simp only
    split
    · case isTrue unlisted =>
      have empty : head.allEvent = [] := by
        rw [eq_nil_iff_forall_not_mem]
        intro event member
        obtain ⟨item, listed, -⟩ :=
          has_parseExportEventList config.configured member
        rw [unlisted] at listed
        cases listed
      refine finished_inv inv rfl rfl inv.enabled inv.ordered inv.known
        (fun event member => Int.le_trans ends (inv.low event member)) fun item member => ?_
      obtain ⟨early, place⟩ := inv.covered item member
      exact ⟨early, place.imp_right fun rest => rest.resolve_left (ne_nil_of_mem · empty)⟩
    · obtain ⟨enabled, reached⟩ := begin_finished inv ends
      refine finished_inv inv rfl rfl enabled inv.ordered inv.known ?_ fun item member => ?_
      · rw [reached]
        exact inv.low
      · obtain ⟨early, place⟩ := inv.covered item member
        refine ⟨Nat.le_trans early (by simp), ?_⟩
        rw [drop_append_of_le_length early]
        rcases place with waiting | inHead | ⟨run, done, covers⟩
        · exact .inl waiting
        · exact .inr ⟨_, mem_append_right _ (mem_singleton_self _),
            inside item.1 inHead, has_parseExportEventList _ inHead⟩
        · exact .inr ⟨run, mem_append_left _ done, covers⟩
  · cases stepped

theorem removeTask_inv (stepped : step config state .removeTask = some next) : Inv next := by
  rw [step] at stepped
  split at stepped
  · case h_1 id busy =>
    cases stepped
    obtain ⟨head, tail, parts, sameId, rest, -, removed⟩ := running_head inv busy
    cases state
    cases busy
    cases parts
    rw [removed]
    exact ⟨rest, inv.rising.of_cons, inv.enabled, inv.ordered, inv.known, inv.low, nofun, inv.covered, inv.handed⟩
  · cases stepped

theorem step_inv (guard : Guard config state label) (stepped : step config state label = some next) : Inv next := by
  cases label with
  | store =>
    cases stepped
    exact ⟨inv.ids, inv.rising, inv.enabled, inv.ordered, inv.known, inv.low, inv.range, inv.covered,
      inv.handed⟩
  | processEvent event =>
    cases stepped
    refine ⟨inv.ids, inv.rising, inv.enabled, inv.ordered, inv.known, inv.low, inv.range,
      inv.covered, forall_mem_cons.mpr ⟨.inl mem_cons_self, fun other member => ?_⟩⟩
    exact (inv.handed other member).imp (mem_cons_of_mem _) id
  | append event =>
    rw [step] at stepped
    split at stepped
    · case isTrue submitted =>
      cases stepped
      exact append_inv inv guard submitted
    · cases stepped
  | start => exact start_inv inv stepped
  | readRange => exact readRange_inv inv guard stepped
  | readList => exact readList_inv inv stepped
  | removeTask => exact removeTask_inv inv stepped

theorem complete_of_settled (settled : Settled state) : Complete state := by
  obtain ⟨none, idle, quiet⟩ := settled
  have empty : state.taskList = [] := by
    have ids := inv.ids
    rw [quiet, idle] at ids
    exact map_eq_nil_iff.mp ids
  intro event member
  rcases inv.handed event member with waiting | ⟨before, appended⟩
  · rw [none] at waiting
    cases waiting
  · refine ⟨before, appended, ?_⟩
    rcases (inv.covered _ appended).2 with left | read | covers
    · simp only [unread, quiet, empty, flatMap_nil] at left
      cases left
    · simp only [reading, quiet] at read
      cases read
    · exact covers

end Steps

theorem initial_inv {record : ExportDetailRecord} (enabled : 0 ≤ record.exportEnabledSeq)
    (curSeq : Int) (built : Bool) : Inv (initial record curSeq built) := by
  cases built with
  | false =>
    exact ⟨rfl, .nil, ⟨record, rfl, enabled⟩, .nil, nofun, nofun, nofun, nofun, nofun⟩
  | true =>
    exact ⟨rfl, pairwise_singleton _ _, ⟨record, rfl, enabled⟩, .nil, nofun, nofun, nofun,
      nofun, nofun⟩

theorem complete_of_guarded {config : TriggerConfig} {record : ExportDetailRecord}
    (enabled : 0 ≤ record.exportEnabledSeq) {curSeq : Int} {built : Bool}
    {labels : List TriggerLabel} {state : TriggerExportEngine}
    (guarded : Transition.Guarded (step config) (Guard config) (initial record curSeq built) labels)
    (ran : Transition.run (step config) (initial record curSeq built) labels = some state)
    (settled : Settled state) : Complete state :=
  complete_of_settled (Transition.run_guarded (fun inv guard stepped => step_inv inv guard stepped)
    (initial_inv enabled curSeq built) guarded ran) settled

instance (config : TriggerConfig) (state : TriggerExportEngine) :
    (label : TriggerLabel) → Decidable (Guard config state label)
  | .append _ => inferInstanceAs (Decidable (_ ∧ _ ∧ _))
  | .readRange => inferInstanceAs (Decidable (∀ running ∈ state.running, _))
  | .store | .processEvent _ | .start | .readList | .removeTask => .isTrue trivial

def sampleConfig : TriggerConfig := ⟨1000, []⟩

def firstEvent : TriggerExportEvent := ⟨[65], [88], 0, 1⟩

def secondEvent : TriggerExportEvent := ⟨[65], [89], 10, 2⟩

/-- The second event joins a task that has already read its range. The task is
removed, and no run covers the event. -/
theorem not_complete_late : ∃ state,
    Transition.run (step sampleConfig) (initial ⟨1, invalidSeqVal⟩ 3 false)
        [.processEvent firstEvent, .append firstEvent, .start, .readRange,
          .processEvent secondEvent, .append secondEvent, .readList, .removeTask] = some state ∧
      Settled state ∧ ¬ Complete state := by
  refine ⟨_, rfl, ⟨rfl, rfl, rfl⟩, fun complete => ?_⟩
  obtain ⟨before, -, run, inRuns, covers⟩ := complete secondEvent mem_cons_self
  obtain rfl := mem_singleton.mp (mem_of_mem_drop inRuns)
  exact absurd covers.1.2 (by decide)

theorem complete_of_guarded_inTime : ∃ state,
    Transition.run (step sampleConfig) (initial ⟨1, invalidSeqVal⟩ 3 false)
        [.processEvent firstEvent, .append firstEvent, .processEvent secondEvent,
          .append secondEvent, .start, .readRange, .readList, .removeTask] = some state ∧
      Settled state ∧ Complete state := by
  have guarded : Transition.Guarded (step sampleConfig) (Guard sampleConfig)
      (initial ⟨1, invalidSeqVal⟩ 3 false) [.processEvent firstEvent, .append firstEvent,
        .processEvent secondEvent, .append secondEvent, .start, .readRange, .readList,
        .removeTask] := by decide
  exact ⟨_, rfl, ⟨rfl, rfl, rfl⟩, complete_of_guarded (by decide) guarded rfl ⟨rfl, rfl, rfl⟩⟩

end TriggerExportEngine
end Hiview.EventExport
