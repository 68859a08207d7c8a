import Hiview.EventExport.ExportRetry
import Hiview.EventStore.StoreOrder

/-! The progress an export reports against what it has moved. A part of the range
is reported whether its attempts succeed or not. -/
namespace Hiview.EventExport
open EventStore SysEventDatabase Selection
open List hiding below count range

def storeEnv (env : QueryEnv) (store : List DomainDir) (written : Nat → Bool) : ExportEnv :=
  ⟨fun limit asked => (asked.execute env store limit true).1, written⟩

/-- A stored event of the export list, in a file the task looks at. -/
def Listed (store : List DomainDir) (req : EventReadRequest) (entry : Entry) : Prop :=
  ∃ item ∈ req.eventList, ∃ dir ∈ store, dir.domain = item.1 ∧ ∃ file ∈ dir.files,
    (item.2 = [] ∨ file.info.name ∈ item.2) ∧
    (req.taskType = defaultReportInterval ∨ file.info.reportInterval = notCfgReportInterval ∨
      req.taskType = file.info.reportInterval) ∧ entry ∈ file.entries

/-- The export list is a map from domains. -/
structure ByDomain (req : EventReadRequest) : Prop where
  distinct : (req.eventList.map Prod.fst).Nodup
  named : ∀ item ∈ req.eventList, item.1 ≠ []

/-- The listed events below a sequence are among the events of the files. -/
def Covered (store : List DomainDir) (req : EventReadRequest) (endSeq : Int)
    (files : List ZipFile) : Prop :=
  ∀ entry, Listed store req entry → req.beginSeq ≤ entry.id → entry.id < endSeq →
    CachedEvent.ofEntry entry ∈ files.flatMap ZipFile.events

/-- The listed events between two sequences can be shown as text. -/
def Shown (store : List DomainDir) (req : EventReadRequest) (beginSeq endSeq : Int) : Prop :=
  ∀ entry, Listed store req entry → beginSeq ≤ entry.id → entry.id < endSeq → entry.json ≠ []

namespace EventReadHandler

/-- All attempts for some part of the range fail. -/
def GivenUp (env : ExportEnv) (req : EventReadRequest) : List (Int × Int) → EventWriteHandler → Prop
  | [], _ => False
  | range :: rest, writer =>
    (failures env req range.1 range.2 3 writer).length = 3 ∨
      GivenUp env req rest (querySysEventInRange env req range.1 range.2 writer).2

section Store
variable {env : QueryEnv} {store : List DomainDir} {written : Nat → Bool} {req : EventReadRequest}
  {beginSeq endSeq : Int}

variable {item : List UInt8 × List (List UInt8)}

theorem matching_bounds {entry : Entry} (member : entry ∈ matching env store (domainQuery req beginSeq endSeq item)) :
    beginSeq ≤ entry.id ∧ entry.id < endSeq := by
  obtain ⟨file, -, inFile⟩ := mem_flatMap.mp member
  have inRange := (mem_filter.mp inFile).2
  simpa [domainQuery] using inRange

theorem queryArg_domainQuery (item : List UInt8 × List (List UInt8)) :
    (domainQuery req beginSeq endSeq item).queryArg =
      ⟨item.1, item.2, 0, endSeq, beginSeq, req.taskType⟩ := rfl

theorem suits_domainQuery_iff {info : SplitedEventInfo} (below : info.seq < endSeq) :
    suits (domainQuery req beginSeq endSeq item).queryArg info = true ↔
      (item.2 = [] ∨ info.name ∈ item.2) ∧
        (req.taskType = defaultReportInterval ∨ info.reportInterval = notCfgReportInterval ∨
          req.taskType = info.reportInterval) := by
  rw [queryArg_domainQuery, suits]
  simp [below, or_assoc]

theorem mem_matching (ordered : StoreOrdered store) (named : item.1 ≠ []) {entry : Entry} :
    entry ∈ matching env store (domainQuery req beginSeq endSeq item) ↔
      (beginSeq ≤ entry.id ∧ entry.id < endSeq) ∧ ∃ dir ∈ store, dir.domain = item.1 ∧
        ∃ file ∈ dir.files, (item.2 = [] ∨ file.info.name ∈ item.2) ∧
          (req.taskType = defaultReportInterval ∨ file.info.reportInterval = notCfgReportInterval ∨
            req.taskType = file.info.reportInterval) ∧ entry ∈ file.entries := by
  have dirs : getQueryDirsByDomain store item.1 = store.filter fun dir => dir.domain = item.1 :=
    if_neg named
  -- An unrestricted query has no sequence below its upper one.
  have restricted {dir : DomainDir} {file : DbDoc} (inside : dir ∈ store) (member : file ∈ dir.files)
      (held : entry ∈ file.entries) (below : entry.id < endSeq) :
      file.info.seq < endSeq ∧
        unrestricted (domainQuery req beginSeq endSeq item).queryArg = false := by
    have starts := ordered.starts dir inside file member entry held
    have positive := (getFileSeq_eq file).1
    have valid : endSeq ≠ invalidValueInt := by
      rw [invalidValueInt]
      omega
    exact ⟨by omega, by simp [unrestricted, domainQuery, valid]⟩
  constructor
  · intro member
    have bounds := matching_bounds member
    obtain ⟨file, inFiles, inFile⟩ := mem_flatMap.mp member
    obtain ⟨dir, inDirs, inDir⟩ := mem_flatMap.mp inFiles
    change dir ∈ getQueryDirsByDomain store item.1 at inDirs
    rw [dirs] at inDirs
    obtain ⟨inside, sameDomain⟩ := mem_filter.mp inDirs
    obtain ⟨inOrder, chosen⟩ := mem_filter.mp ((containing_sublist _ _ _).subset inDir)
    have inDir := env.sortedFiles.mem_order.mp inOrder
    have held := (mem_filter.mp inFile).1
    obtain ⟨below, limited⟩ := restricted inside inDir held bounds.2
    rw [limited, Bool.false_or, suits_domainQuery_iff below] at chosen
    exact ⟨bounds, dir, inside, of_decide_eq_true sameDomain, file, inDir, chosen.1, chosen.2, held⟩
  · rintro ⟨bounds, dir, inside, sameDomain, file, inDir, name, interval, held⟩
    obtain ⟨below, limited⟩ := restricted inside inDir held bounds.2
    refine mem_flatMap.mpr ⟨file, ?_, mem_filter.mpr ⟨held, ?_⟩⟩
    · refine mem_getQueryFiles ordered env limited inside ?_ inDir
        ((suits_domainQuery_iff below).mpr ⟨name, interval⟩) held bounds.1
      change dir ∈ getQueryDirsByDomain store item.1
      rw [dirs]
      exact mem_filter.mpr ⟨inside, decide_eq_true sameDomain⟩
    · simpa [domainQuery] using bounds

theorem length_matching_le (ordered : StoreOrdered store) (byDomain : ByDomain req) :
    (req.eventList.flatMap fun item =>
      matching env store (domainQuery req beginSeq endSeq item)).length ≤
        (endSeq - beginSeq).toNat := by
  have byDirs : (req.eventList.flatMap fun item =>
      matching env store (domainQuery req beginSeq endSeq item)).Subperm
        (req.eventList.flatMap fun item =>
          (store.filter fun dir => dir.domain = item.1).flatMap DomainDir.entries) := by
    refine subperm_flatMap fun item member => ?_
    have selected := matching_subperm env store (domainQuery req beginSeq endSeq item)
    rwa [queryArg_domainQuery, getQueryDirsByDomain, if_neg (byDomain.named item member)] at selected
  have stored : (req.eventList.flatMap fun item =>
      (store.filter fun dir => dir.domain = item.1).flatMap DomainDir.entries).Subperm
        (store.flatMap DomainDir.entries) := by
    have dirs := flatMap_subperm DomainDir.entries
      (flatMap_filter_subperm DomainDir.domain byDomain.distinct store)
    rwa [flatMap_assoc, flatMap_map] at dirs
  have distinct := nodup_map_of_subperm (byDirs.trans stored) ordered.distinct
  rw [← length_map Entry.id]
  refine length_le_of_between distinct fun number member => ?_
  obtain ⟨entry, inside, rfl⟩ := mem_map.mp member
  obtain ⟨item, -, matched⟩ := mem_flatMap.mp inside
  exact matching_bounds matched

theorem mem_collect {items : List (List UInt8 × List (List UInt8))} {queryCnt : Int}
    (few : (items.flatMap fun item =>
      matching env store (domainQuery req beginSeq endSeq item)).length ≤ queryCnt.toNat)
    (small : queryCnt ≤ queryLimit) {entry : Entry} :
    entry ∈ collect (storeEnv env store written) req beginSeq endSeq items queryCnt ↔
      entry.json ≠ [] ∧ ∃ item ∈ items,
        entry ∈ matching env store (domainQuery req beginSeq endSeq item) := by
  induction items generalizing queryCnt with
  | nil => simp [collect]
  | cons item rest ih =>
    rw [flatMap_cons, length_append] at few
    rw [exists_mem_cons_iff]
    rcases lt_or_ge 0 queryCnt with left | spent
    · have limit : limitOf queryCnt = queryCnt := by
        rw [limitOf]
        split
        · rfl
        · omega
      have all : ((storeEnv env store written).execute queryCnt
          (domainQuery req beginSeq endSeq item)).Perm
            (matching env store (domainQuery req beginSeq endSeq item)) :=
        execute_all (by omega)
      have events : taken queryCnt ((storeEnv env store written).execute (limitOf queryCnt)
          (domainQuery req beginSeq endSeq item)) = ((storeEnv env store written).execute
            queryCnt (domainQuery req beginSeq endSeq item)).filter fun entry => entry.json ≠ [] := by
        rw [taken, limit]
        refine take_of_length_le ((length_filter_le _ _).trans ?_)
        rw [all.length_eq]
        omega
      have count := length_filter_le (fun entry : Entry => entry.json ≠ [])
        ((storeEnv env store written).execute queryCnt (domainQuery req beginSeq endSeq item))
      rw [all.length_eq] at count
      rw [collect, events, mem_append, ih (by omega) (by omega), mem_filter, all.mem_iff,
        decide_eq_true_eq, and_comm, ← and_or_left]
    · have nothing : (matching env store (domainQuery req beginSeq endSeq item)).length = 0 ∧
          (rest.flatMap fun item =>
            matching env store (domainQuery req beginSeq endSeq item)).length = 0 := by
        omega
      rw [collect_spent _ _ _ _ spent, eq_nil_of_length_eq_zero nothing.1]
      have others := flatMap_eq_nil_iff.mp (eq_nil_of_length_eq_zero nothing.2)
      refine iff_of_false not_mem_nil ?_
      rintro ⟨-, found | ⟨other, member, found⟩⟩
      · exact not_mem_nil found
      · rw [others other member] at found
        exact not_mem_nil found

theorem mem_rangeEvents (ordered : StoreOrdered store) (byDomain : ByDomain req)
    (small : endSeq - beginSeq ≤ queryLimit) {event : CachedEvent} :
    event ∈ rangeEvents (storeEnv env store written) req beginSeq endSeq ↔
      ∃ entry, (Listed store req entry ∧ (beginSeq ≤ entry.id ∧ entry.id < endSeq)) ∧
        entry.json ≠ [] ∧ CachedEvent.ofEntry entry = event := by
  rw [rangeEvents, mem_map]
  refine exists_congr fun entry => ?_
  rw [mem_collect (length_matching_le ordered byDomain) small, and_left_comm, ← and_assoc]
  refine and_congr_left fun _ => and_congr_right fun _ => ?_
  constructor
  · rintro ⟨item, member, found⟩
    obtain ⟨bounds, dir, rest⟩ := (mem_matching ordered (byDomain.named item member)).mp found
    exact ⟨⟨item, member, dir, rest⟩, bounds⟩
  · rintro ⟨⟨item, member, rest⟩, bounds⟩
    exact ⟨item, member, (mem_matching ordered (byDomain.named item member)).mpr ⟨bounds, rest⟩⟩

/-- The export has come to a sequence. -/
structure Reached (store : List DomainDir) (req : EventReadRequest) (seq : Int)
    (writer : EventWriteHandler) : Prop where
  ready : Ready writer
  low : req.beginSeq ≤ seq
  covered : Covered store req seq writer.exported
  below : ∀ event ∈ writer.delivered, event.seq < seq

section Part
variable (ordered : StoreOrdered store) (byDomain : ByDomain req)
  (small : endSeq - beginSeq ≤ queryLimit) {writer : EventWriteHandler}
  (reached : Reached store req beginSeq writer)
include ordered byDomain small reached

theorem not_covered_of_failed (failed : (querySysEventInRange (storeEnv env store written) req
      beginSeq endSeq writer).1 = false) :
    ¬ Covered store req endSeq (querySysEventInRange (storeEnv env store written) req
      beginSeq endSeq writer).2.exported := by
  intro covered
  have some : rangeEvents (storeEnv env store written) req beginSeq endSeq ≠ [] := by
    intro nothing
    obtain ⟨next, ran⟩ := querySysEvent_nothing _ _ _ _ reached.ready nothing
    rw [querySysEventInRange, retry, ran] at failed
    cases failed
  obtain ⟨event, inside⟩ := exists_mem_of_ne_nil _ some
  obtain ⟨entry, ⟨listed, bounds⟩, -, rfl⟩ := (mem_rangeEvents ordered byDomain small).mp inside
  have moved := covered entry listed (reached.low.trans bounds.1) bounds.2
  rw [querySysEventInRange, ← EventWriteHandler.delivered,
    retry_delivered _ _ _ _ reached.ready.ascending failed] at moved
  have early := reached.below _ moved
  exact absurd bounds.1 (not_le_of_gt early)

section Succeeded
variable (succeeded : (querySysEventInRange (storeEnv env store written) req beginSeq endSeq
  writer).1 = true)
include succeeded

theorem covered_iff :
    Covered store req endSeq (querySysEventInRange (storeEnv env store written) req
      beginSeq endSeq writer).2.exported ↔ Shown store req beginSeq endSeq := by
  have moved {event : CachedEvent} := @mem_delivered_retry _ _ _ _ _ reached.ready _ succeeded event
  constructor
  · intro covered entry listed low high
    rcases moved.mp (covered entry listed (reached.low.trans low) high) with early | now
    · exact absurd low (not_le_of_gt (reached.below _ early))
    · obtain ⟨other, -, shown, same⟩ := (mem_rangeEvents ordered byDomain small).mp now
      have text : other.json = entry.json := congrArg CachedEvent.eventStr same
      exact text ▸ shown
  · intro shown entry listed low high
    refine moved.mpr ?_
    rcases lt_or_ge entry.id beginSeq with early | late
    · exact .inl (reached.covered entry listed low early)
    · exact .inr ((mem_rangeEvents ordered byDomain small).mpr
        ⟨entry, ⟨listed, late, high⟩, shown entry listed late high, rfl⟩)

theorem reached_next (later : beginSeq ≤ endSeq) (shown : Shown store req beginSeq endSeq) :
    Reached store req endSeq (querySysEventInRange (storeEnv env store written) req
      beginSeq endSeq writer).2 := by
  refine ⟨retry_ready _ _ _ _ reached.ready.ascending succeeded, reached.low.trans later,
    (covered_iff ordered byDomain small reached succeeded).mpr shown, fun event member => ?_⟩
  rcases (mem_delivered_retry _ _ _ _ reached.ready succeeded).mp member with early | now
  · exact lt_of_lt_of_le (reached.below event early) later
  · obtain ⟨entry, ⟨-, bounds⟩, -, rfl⟩ := (mem_rangeEvents ordered byDomain small).mp now
    exact bounds.2

end Succeeded
end Part

theorem shown_split {middle : Int} (low : beginSeq ≤ middle) (high : middle ≤ endSeq) :
    Shown store req beginSeq endSeq ↔
      Shown store req beginSeq middle ∧ Shown store req middle endSeq := by
  constructor
  · intro shown
    exact ⟨fun entry listed above below => shown entry listed above (below.trans_le high),
      fun entry listed above below => shown entry listed (low.trans above) below⟩
  · rintro ⟨early, late⟩ entry listed above below
    rcases lt_or_ge entry.id middle with before | after
    · exact early entry listed above before
    · exact late entry listed after below

theorem exportRanges_covered_iff (ordered : StoreOrdered store) (byDomain : ByDomain req)
    {writer : EventWriteHandler} (reached : Reached store req beginSeq writer)
    (record : Option ExportDetailRecord) :
    (∀ report ∈ (exportRanges (storeEnv env store written) req (splitRange beginSeq endSeq)
        writer record).reported, Covered store req report.endSeq report.writer.exported) ↔
      ¬ GivenUp (storeEnv env store written) req (splitRange beginSeq endSeq) writer ∧
        Shown store req beginSeq endSeq := by
  induction beginSeq using splitRange.induct endSeq generalizing writer record with
  | case1 beginSeq more ih =>
    have high : beginSeq + queryLimit ≤ endSeq := more.le
    have low : beginSeq ≤ beginSeq + queryLimit := by
      rw [queryLimit]
      omega
    have small : beginSeq + queryLimit - beginSeq ≤ queryLimit := by omega
    rw [splitRange, if_pos more, exportRanges, GivenUp, ← retry_failed_iff, ← querySysEventInRange,
      shown_split low high]
    cases outcome : (querySysEventInRange (storeEnv env store written) req beginSeq
        (beginSeq + queryLimit) writer).1 with
    | false =>
      have lost := not_covered_of_failed ordered byDomain small reached outcome
      simp [lost]
    | true =>
      have part := covered_iff ordered byDomain small reached outcome
      simp [part, Bool.true_eq_false]
      rw [and_left_comm]
      refine and_congr_right fun shown => ?_
      exact ih (reached_next ordered byDomain small reached outcome low shown) _
  | case2 beginSeq last =>
    have small : endSeq - beginSeq ≤ queryLimit := by omega
    rw [splitRange, if_neg last, exportRanges, GivenUp, ← retry_failed_iff, ← querySysEventInRange]
    cases outcome : (querySysEventInRange (storeEnv env store written) req beginSeq endSeq
        writer).1 with
    | false =>
      have lost := not_covered_of_failed ordered byDomain small reached outcome
      simp [lost]
    | true =>
      have part := covered_iff ordered byDomain small reached outcome
      simp [exportRanges, GivenUp, part]

end Store

theorem reached_new (store : List DomainDir) (req : EventReadRequest) :
    Reached store req req.beginSeq .new :=
  ⟨ready_new, le_rfl, fun _ _ low high => absurd low (not_le_of_gt high), nofun⟩

section Lost

def oneEventStore : List DomainDir := [⟨Numeral.ascii "AAFWK", [olderFile]⟩]

def oneEventRequest : EventReadRequest :=
  ⟨1, 2, [(Numeral.ascii "AAFWK", [Numeral.ascii "JS_ERROR"])], 0, 2⟩

theorem oneEventStore_ordered : StoreOrdered oneEventStore where
  starts := by decide +kernel
  files := forall_mem_singleton.mpr (pairwise_singleton _ _)
  distinct := nodup_singleton _

theorem oneEventRequest_byDomain : ByDomain oneEventRequest :=
  ⟨nodup_singleton _, by decide +kernel⟩

end Lost
end EventReadHandler
end Hiview.EventExport
