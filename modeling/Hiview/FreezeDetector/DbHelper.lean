import Hiview.FreezeDetector.RuleCluster
import Hiview.FreezeDetector.WatchPoint

/-! The choice of the partner event of a freeze among the records of a query: one pass keeps the
distance to the closest record before the trigger and, as long as there is none, to the closest
one behind it. `UINT64_MAX` stands for no distance yet. -/
namespace Hiview.FreezeDetector
open EventRaw Base List
open Numeral (ascii)

structure WatchParams where
  pid : Int64
  tid : Int64
  timestamp : UInt64
  packageName : List UInt8
  stringId : List UInt8

/-- An event of the result set, as its getters find it. -/
structure Record where
  occurrence : Occurrence
  members : Members
  event : Event

/-- `StringUtil::ReplaceStr` of a backslash with an n behind it by a line feed. -/
def replaceLineFeeds : List UInt8 → List UInt8
  | 92 :: 110 :: rest => 10 :: replaceLineFeeds rest
  | char :: rest => char :: replaceLineFeeds rest
  | [] => []

namespace DBHelper

def searchLogFile (info : List UInt8) : List UInt8 := ((behind (ascii "logPath:") info).getD []).takeWhile (· ≠ 44)

section
variable (record : Record)

def time : UInt64 := record.occurrence.happenTime

def packageName : List UInt8 :=
  let packageName := record.event.getEventValue (ascii "PACKAGE_NAME")
  if packageName = [] then record.event.getEventValue (ascii "PROCESS_NAME") else packageName

def pid : Int64 := numberOr record.event (ascii "PID") record.members.pid

def tid : Int64 := record.event.getEventIntValue (ascii "TID")

/-- The rule on package, pid and tid. -/
def satisfies (watchParams : WatchParams) (result : FreezeResult) : Bool :=
  result.samePackage ≠ ascii "true" ∨
    ¬ (¬ (watchParams.stringId = ascii "RENDER_JS_FREEZE" ∨ watchParams.packageName = packageName record) ∨
      watchParams.pid ≠ pid record ∨ watchParams.tid > 0 ∧ tid record > 0 ∧ watchParams.tid ≠ tid record)

def watchPointOf (result : FreezeResult) : WatchPoint :=
  let text (field : String) := record.event.getEventValue (ascii field)
  { domain := result.domain
    stringId := result.stringId
    timestamp := time record
    params :=
      { (default : WatchPointParams) with
        seq := record.occurrence.seq
        pid := pid record
        uid := numberOr record.event (ascii "UID") record.members.uid
        tid := tid record
        packageName := packageName record
        processName := text "PROCESS_NAME"
        msg := replaceLineFeeds (text "MSG")
        freezeExtFile := text "FREEZE_INFO_PATH"
        externalLog := text "EXTERNAL_LOG"
        logFile := searchLogFile (text "info_") } }

end

structure Search where
  frontInterval : UInt64 := -1
  rearInterval : UInt64 := -1
  resultWatchPoint : WatchPoint

def examine (watchParams : WatchParams) (result : FreezeResult) (search : Search) (record : Record) : Search :=
  let timestamp := watchParams.timestamp
  if satisfies record watchParams result = false then search
  else if time record < timestamp ∧ timestamp - time record < search.frontInterval then
    { search with frontInterval := timestamp - time record, resultWatchPoint := watchPointOf record result }
  else if search.frontInterval = -1 then
    if time record - timestamp ≥ search.rearInterval then search
    else { search with rearInterval := time record - timestamp, resultWatchPoint := watchPointOf record result }
  else search

def getResultWatchPoint (watchParams : WatchParams) (result : FreezeResult) (set : List Record)
    (resultWatchPoint : WatchPoint) : WatchPoint :=
  (set.foldl (examine watchParams result) { resultWatchPoint := resultWatchPoint }).resultWatchPoint

/-- The last record before the trigger, or the first one not before it if none is. -/
def Closest (timestamp : UInt64) (records : List Record) (record : Record) : Prop :=
  record ∈ records ∧
    (time record < timestamp ∧ (∀ other ∈ records, time other < timestamp → time other ≤ time record) ∨
      timestamp ≤ time record ∧ ∀ other ∈ records, time record ≤ time other)

/-- The whole range lies between the trigger and every record, or, for a trigger at its end, between it
and every record before it, with a record at the trigger itself. -/
def Confused (timestamp : UInt64) (records : List Record) : Prop :=
  timestamp = 0 ∧ (∃ record, record ∈ records) ∧ (∀ record ∈ records, time record = -1) ∨
    timestamp = -1 ∧ (∃ record ∈ records, time record = 0) ∧ (∃ record ∈ records, time record = -1) ∧
      ∀ record ∈ records, time record = 0 ∨ time record = -1

/-- What the search has after the records seen that satisfy the rule. At the other end of the range a record
behind the trigger is passed over, and the distance of one before it wraps around. -/
inductive Found (timestamp : UInt64) (result : FreezeResult) (initial : WatchPoint) (seen : List Record) : Search → Prop
  | start (far : ∀ other ∈ seen, timestamp = 0 ∧ time other = -1) :
      Found timestamp result initial seen { resultWatchPoint := initial }
  | wrapped (record : Record) (member : record ∈ seen) (farthest : timestamp = -1 ∧ time record = 0)
      (same : ∀ other ∈ seen, time other = 0) :
      Found timestamp result initial seen ⟨-1, time record - timestamp, watchPointOf record result⟩
  | front (record : Record) (rearInterval : UInt64) (member : record ∈ seen) (before : time record < timestamp)
      (near : ¬ (timestamp = -1 ∧ time record = 0))
      (last : ∀ other ∈ seen, time other < timestamp → time other ≤ time record) :
      Found timestamp result initial seen ⟨timestamp - time record, rearInterval, watchPointOf record result⟩
  | rear (record : Record) (member : record ∈ seen) (behind : timestamp ≤ time record)
      (near : ¬ (timestamp = 0 ∧ time record = -1))
      (first : ∀ other ∈ seen, time record ≤ time other ∨ timestamp = -1 ∧ time other = 0) :
      Found timestamp result initial seen ⟨-1, time record - timestamp, watchPointOf record result⟩

theorem Found.examine (found : Found watchParams.timestamp result initial seen search)
    (satisfied : satisfies record watchParams result = true) :
    Found watchParams.timestamp result initial (seen ++ [record]) (examine watchParams result search record) := by
  have extend {p : Record → Prop} (old : ∀ other ∈ seen, p other)
    (new : p record) : ∀ other ∈ seen ++ [record], p other :=
    forall_mem_append.mpr ⟨old, forall_mem_singleton.mpr new⟩
  have after : record ∈ seen ++ [record] := by simp
  rw [DBHelper.examine, if_neg (by simp [satisfied])]
  by_cases before : time record < watchParams.timestamp
  · by_cases farthest : watchParams.timestamp = -1 ∧ time record = 0
    · rw [if_neg (by grind)]
      cases found with
      | start far =>
        rw [if_pos rfl, if_neg (by grind)]
        exact .wrapped record after farthest (extend (fun other old => absurd (far other old).1 (by grind)) farthest.2)
      | wrapped kept member _ same =>
        rw [if_pos rfl, if_pos (by grind)]
        exact .wrapped kept (mem_append_left _ member) (by grind) (extend same farthest.2)
      | front kept _ member earlier near last =>
        rw [if_neg (by grind)]
        exact .front kept _ (mem_append_left _ member) earlier near (extend last fun _ => by grind)
      | rear kept member behind near first =>
        rw [if_pos rfl, if_pos (by grind)]
        exact .rear kept (mem_append_left _ member) behind near (extend first (.inr farthest))
    · have closest (last : ∀ other ∈ seen, time other < watchParams.timestamp → time other ≤ time record) :=
        fun rearInterval => @Found.front _ result initial _ record rearInterval after before farthest
          (extend last fun _ => UInt64.le_refl _)
      cases found with
      | start far =>
        rw [if_pos (by grind)]
        exact closest (fun other old below => absurd (far other old).1 (by grind)) _
      | wrapped kept member _ same =>
        rw [if_pos (by grind)]
        exact closest (fun other old below => by rw [same other old]; exact UInt64.zero_le) _
      | front kept _ member earlier near last =>
        by_cases closer : time kept < time record
        · rw [if_pos (by grind)]
          exact closest (fun other old below => UInt64.le_trans (last other old below) (UInt64.le_of_lt closer)) _
        · rw [if_neg (by grind), if_neg (by grind)]
          exact .front kept _ (mem_append_left _ member) earlier near (extend last fun _ => UInt64.not_lt.mp closer)
      | rear kept member behind near first =>
        rw [if_pos (by grind)]
        exact closest (fun other old below => by grind) _
  · rw [if_neg fun both => before both.1]
    have behind := UInt64.not_lt.mp before
    cases found with
    | start far =>
      by_cases farthest : watchParams.timestamp = 0 ∧ time record = -1
      · rw [if_pos rfl, if_pos (by grind)]
        exact .start (extend far farthest)
      · rw [if_pos rfl, if_neg (by grind)]
        exact .rear record after behind farthest (extend (fun other old => by grind) (.inl (UInt64.le_refl _)))
    | wrapped kept member wraps same =>
      rw [if_pos rfl, if_neg (by grind)]
      exact .rear record after behind (by grind) (extend (fun other old => .inr ⟨wraps.1, same other old⟩) (by grind))
    | front kept _ member earlier near last =>
      rw [if_neg (by grind)]
      exact .front kept _ (mem_append_left _ member) earlier near (extend last fun below => absurd below before)
    | rear kept member later near first =>
      by_cases closer : time kept ≤ time record
      · rw [if_pos rfl, if_pos (by grind)]
        exact .rear kept (mem_append_left _ member) later near (extend first (.inl closer))
      · rw [if_pos rfl, if_neg (by grind)]
        exact .rear record after behind (by grind) (extend (fun other old => by grind) (.inl (UInt64.le_refl _)))

theorem search_found (watchParams : WatchParams) (set : List Record) (result : FreezeResult) (initial : WatchPoint) :
    Found watchParams.timestamp result initial (set.filter (satisfies · watchParams result))
      (set.foldl (examine watchParams result) { resultWatchPoint := initial }) := by
  induction set using List.reverseRecOn with
  | nil => exact .start (by simp)
  | append_singleton before record ih =>
    rw [filter_append, foldl_append]
    by_cases satisfied : satisfies record watchParams result = true
    · rw [filter_singleton, satisfied]
      exact ih.examine satisfied
    · simpa [filter_cons, satisfied, examine] using ih

theorem Closest.time_eq (perm : records.Perm others) (closest : Closest timestamp records record)
    (other : Closest timestamp others another) : time record = time another := by
  obtain ⟨member, choice⟩ := closest
  obtain ⟨member', choice'⟩ := other
  have left := perm.mem_iff.mp member
  have right := perm.mem_iff.mpr member'
  rcases choice with ⟨before, last⟩ | ⟨behind, first⟩ <;> rcases choice' with ⟨before', last'⟩ | ⟨behind', first'⟩
  · exact UInt64.le_antisymm (last' _ left before) (last _ right before')
  · exact absurd (UInt64.le_trans behind' (first' _ left)) (UInt64.not_le.mpr before)
  · exact absurd (UInt64.le_trans behind (first _ right)) (UInt64.not_le.mpr before')
  · exact UInt64.le_antisymm (first _ right) (first' _ left)

/-- Nothing is selected and no record satisfies the rule, or the closest one is selected. -/
def Selects (watchParams : WatchParams) (result : FreezeResult) (set : List Record) : Prop :=
  set.filter (satisfies · watchParams result) = [] ∧ getResultWatchPoint watchParams result set default = default ∨
    ∃ record, Closest watchParams.timestamp (set.filter (satisfies · watchParams result)) record ∧
      getResultWatchPoint watchParams result set default = watchPointOf record result

theorem selects_iff (watchParams : WatchParams) (result : FreezeResult) (set : List Record) :
    Selects watchParams result set ↔ ¬ Confused watchParams.timestamp (set.filter (satisfies · watchParams result)) := by
  have found := search_found watchParams set result default
  rw [Selects, getResultWatchPoint, Confused]
  generalize set.filter (satisfies · watchParams result) = seen at found ⊢
  generalize set.foldl (examine watchParams result) { resultWatchPoint := default } = search at found ⊢
  cases found with
  | start far =>
    cases seen with
    | nil => simp
    | cons first rest =>
      have start := far first mem_cons_self
      refine iff_of_false ?_ (not_not.mpr (.inl ⟨start.1, ⟨first, mem_cons_self⟩, fun other member => (far other member).2⟩))
      rintro (⟨none, -⟩ | ⟨record, closest, same⟩)
      · cases none
      · have none : (0 : UInt64) = time record := congrArg WatchPoint.timestamp same
        exact absurd (none.trans (far record closest.1).2) (by decide)
  | wrapped record member farthest same =>
    refine iff_of_true (.inr ⟨record, ⟨member, .inl ⟨by grind, fun other there _ => by grind⟩⟩, rfl⟩) ?_
    rintro (⟨start, -⟩ | ⟨-, -, ⟨other, there, last⟩, -⟩)
    · grind
    · grind
  | front record _ member before near last =>
    refine iff_of_true (.inr ⟨record, ⟨member, .inl ⟨before, last⟩⟩, rfl⟩) ?_
    rintro (⟨start, -⟩ | ⟨last, -, -, ends⟩)
    · grind
    · grind
  | rear record member behind near first =>
    by_cases wraps : ∃ other ∈ seen, watchParams.timestamp = -1 ∧ time other = 0
    · obtain ⟨other, there, last, zero⟩ := wraps
      refine iff_of_false ?_ (not_not.mpr (.inr ⟨last, ⟨other, there, zero⟩, ⟨record, member, by grind⟩, ?_⟩))
      · rintro (⟨none, -⟩ | ⟨chosen, ⟨-, closest⟩, same⟩)
        · rw [none] at member
          cases member
        · have equal : time record = time chosen := congrArg WatchPoint.timestamp same
          grind
      · intro another there
        grind
    · have none (other : Record) (there : other ∈ seen) : time record ≤ time other :=
        (first other there).resolve_right fun wrapped => wraps ⟨other, there, wrapped⟩
      refine iff_of_true (.inr ⟨record, ⟨member, .inr ⟨behind, none⟩⟩, rfl⟩) ?_
      rintro (⟨start, -, all⟩ | ⟨last, ⟨other, there, zero⟩, -⟩)
      · exact near ⟨start, all record member⟩
      · exact wraps ⟨other, there, last, zero⟩

/-- The closest record that satisfies the rule is selected, none only if none satisfies it, and another
order of the records selects the same time, exactly if the ends of the range are not confused. -/
theorem getResultWatchPoint_closest_iff (watchParams : WatchParams) (result : FreezeResult) (set : List Record) :
    (Selects watchParams result set ∧ ∀ reordered : List Record, reordered.Perm set →
        (getResultWatchPoint watchParams result reordered default).timestamp =
          (getResultWatchPoint watchParams result set default).timestamp) ↔
      ¬ Confused watchParams.timestamp (set.filter (satisfies · watchParams result)) := by
  rw [← selects_iff, and_iff_left_iff_imp]
  intro selected reordered perm
  have matching := perm.filter (satisfies · watchParams result)
  have other : Selects watchParams result reordered := by
    rw [selects_iff] at selected ⊢
    simpa only [Confused, matching.mem_iff] using selected
  rcases selected with ⟨nothing, kept⟩ | ⟨record, closest, chosen⟩
  · rcases other with ⟨-, kept'⟩ | ⟨record, closest, -⟩
    · rw [kept, kept']
    · exact absurd (matching.mem_iff.mp closest.1) (by simp [nothing])
  · rcases other with ⟨nothing, -⟩ | ⟨another, closest', chosen'⟩
    · exact absurd (matching.mem_iff.mpr closest.1) (by simp [nothing])
    · rw [chosen, chosen']
      exact closest'.time_eq matching closest

/-- A record without values, for a rule that asks for none. -/
def recordAt (happenTime : UInt64) : Record :=
  ⟨⟨0, happenTime⟩, .blank, ⟨[], [], 0, 0, 0, 0, 0, 0, 0, 0, none, []⟩⟩

theorem farthest_not_selected :
    satisfies (recordAt (-1)) ⟨0, 0, 0, [], []⟩ {} = true ∧
      (getResultWatchPoint ⟨0, 0, 0, [], []⟩ {} [recordAt (-1)] default).timestamp = 0 := by
  decide

end DBHelper
end Hiview.FreezeDetector
