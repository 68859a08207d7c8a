import Hiview.EventStore.StoreOrder

/-! Which events a limited query returns. The files are read from the newest start on
until the limit is reached, whatever the requested order is, and the loop that empties
the queue takes one event more than the limit. -/
variable (files : List DbDoc) (cond : Entry → Bool) (env : QueryEnv) (store : List DomainDir)

namespace Hiview.EventStore
open Numeral (ascii)
open List

/-- What `CreateCompareFunc` puts first is smallest. -/
def compareKey (byTime isAsc : Bool) (entry : Entry) : Int :=
  let value := if byTime then entry.ts else entry.id
  if isAsc then value else -value

namespace SysEventQuery

/-- `Execute` after `Order` with a direction. -/
def executeOrdered (limit : Int) (isInnerQuery : Bool)
    (query : SysEventQuery) {isAsc : Bool} (queue : Dispenser (compareKey query.byTime isAsc)) :
    List Entry × SysEventQuery :=
  let result := SysEventDatabase.query env store limit query
  let entries := queue.order result.1
  let resultNum := if limit < entries.length ∧ isInnerQuery then limit else entries.length
  (entries.take (resultNum + 1).toNat, result.2)

end SysEventQuery

namespace SysEventDatabase

/-- The events of the store that a query asks for: those in the files of its domain whose
names suit its argument. -/
def stored (query : SysEventQuery) : List Entry :=
  (getQueryDirsByDomain store query.queryArg.domain).flatMap fun dir =>
    (dir.files.filter fun file => suits query.queryArg file.info).flatMap (found query.cond)

def queryFiles (arg : SysEventQueryArg) : List DbDoc :=
  env.fileQueue.order (getQueryFiles env store arg)

theorem queryByFiles_split (limit total : Int) (files : List DbDoc) :
    ∃ newer older, files = newer ++ older ∧
      (queryByFiles cond limit total files).1 = newer.flatMap (found cond) ∧
      (older = [] ∨ limit ≤ total + (newer.flatMap (found cond)).length) := by
  fun_induction queryByFiles cond limit total files with
  | case1 => exact ⟨[], [], rfl, rfl, .inl rfl⟩
  | case2 total file rest failed ih =>
    obtain ⟨newer, older, split, result, stop⟩ := ih
    refine ⟨file :: newer, older, by rw [split]; rfl, ?_, ?_⟩
    · rw [flatMap_cons, found_unread cond failed, result]
      rfl
    · rw [flatMap_cons, found_unread cond failed]
      exact stop
  | case3 total file rest _ reached => exact ⟨[file], rest, rfl, by simp, .inr (by simpa using reached)⟩
  | case4 total file rest _ _ more ih =>
    obtain ⟨newer, older, split, result, stop⟩ := ih
    refine ⟨file :: newer, older, by rw [split]; rfl, ?_, ?_⟩
    · exact congrArg (found cond file ++ ·) result
    · rw [flatMap_cons, length_append, Nat.cast_add, ← Int.add_assoc]
      exact stop

/-- The events wanted are fewer than the limit and all in the files read; or the newest
files hold as many as the limit says, and every other one comes later in the order. -/
def NewestFirst (key : Entry → Int) (count : Nat)
    (wanted : List Entry) : Prop :=
  (wanted.length < count ∧ (files.flatMap (found cond)).Perm wanted) ∨
    ∃ newer older rest, files = newer ++ older ∧ (newer.flatMap (found cond)).length = count ∧
      (newer.flatMap (found cond) ++ rest).Perm wanted ∧
      ∀ one ∈ newer.flatMap (found cond), ∀ later ∈ rest, key one ≤ key later

theorem newestFirst_iff {files : List DbDoc} {cond : Entry → Bool} {key : Entry → Int} {count : Nat}
    (positive : 0 < count) :
    NewestFirst files cond key count wanted ↔
      (queryByFiles cond count 0 files).1.length = min count wanted.length ∧
        ∃ rest, ((queryByFiles cond count 0 files).1 ++ rest).Perm wanted ∧
          ∀ one ∈ (queryByFiles cond count 0 files).1, ∀ later ∈ rest, key one ≤ key later := by
  constructor
  · rintro (⟨few, all⟩ | ⟨newer, older, rest, split, reached, all, before⟩)
    · have found : (queryByFiles cond count 0 files).1 = files.flatMap (found cond) :=
        queryByFiles_all (by have size := all.length_eq; omega)
      rw [found]
      refine ⟨by rw [all.length_eq]; omega, [], by rwa [append_nil], ?_⟩
      exact fun _ _ _ member => nomatch member
    · have found : (queryByFiles cond count 0 (newer ++ older)).1 = newer.flatMap (found cond) :=
        queryByFiles_front (by omega) (.inr (by omega))
      have size := all.length_eq
      rw [length_append] at size
      rw [split, found]
      exact ⟨by omega, rest, all, before⟩
  · rintro ⟨length, rest, all, before⟩
    obtain ⟨newer, older, split, result, stop⟩ := queryByFiles_split cond count 0 files
    rw [result] at length all before
    by_cases reached : (newer.flatMap (found cond)).length = count
    · exact .inr ⟨newer, older, rest, split, reached, all, before⟩
    · have none : older = [] := stop.resolve_right (by omega)
      have size := all.length_eq
      rw [length_append] at size
      have done : rest = [] := eq_nil_of_length_eq_zero (by omega)
      rw [none, append_nil] at split
      rw [done, append_nil] at all
      exact .inl ⟨by omega, split ▸ all⟩

def twoEventFile : DbDoc where
  fileName := ascii "JS_ERROR-1-CRITICAL-2-0.db"
  info := ⟨ascii "JS_ERROR", 1, 2, 0⟩
  named := by decide +kernel
  code := .success
  entries := [aafwkEvent "JS_ERROR" 2, aafwkEvent "JS_ERROR" 3]
  unread := fun failed => absurd rfl failed

def twoFileStore : List DomainDir := [⟨ascii "AAFWK", [olderFile, twoEventFile]⟩]

/-- Every event of the domain, in the order of the sequences. -/
def wholeDomain : SysEventQuery :=
  ⟨⟨ascii "AAFWK", [], 0, invalidValueInt, invalidValueInt, defaultReportInterval⟩, fun _ => true, false⟩

section Pruning
variable (typeOf : Entry → Nat) (intervalOf : Entry → Int)

/-- The event, in a file of its domain and name, is one that the argument asks for; its type and its report
interval are its own, since an open file takes events whatever they are. -/
structure Asks (arg : SysEventQueryArg) (dir : DomainDir) (file : DbDoc) (entry : Entry) : Prop where
  domain : arg.domain = [] ∨ dir.domain = arg.domain
  name : arg.names = [] ∨ file.info.name ∈ arg.names
  type : arg.type = 0 ∨ typeOf entry = arg.type
  interval : arg.reportInterval = defaultReportInterval ∨
    intervalOf entry = notCfgReportInterval ∨ arg.reportInterval = intervalOf entry
  fromSeq : arg.fromSeq ≤ entry.id
  toSeq : arg.toSeq = invalidValueInt ∨ entry.id < arg.toSeq

/-- The name of the file has the type and the interval, or nothing is told by its name. -/
def FileFits (arg : SysEventQueryArg) (file : DbDoc) : Prop :=
  unrestricted arg = true ∨ (arg.type = 0 ∨ file.info.type = arg.type) ∧
    (arg.reportInterval = defaultReportInterval ∨
      file.info.reportInterval = notCfgReportInterval ∨ arg.reportInterval = file.info.reportInterval)

theorem fileFits_of_queried (queried : file ∈ queryFiles env store arg) : FileFits arg file := by
  obtain ⟨dir, -, contained⟩ := mem_flatMap.mp (env.fileQueue.mem_order.mp queried)
  have chosen := (mem_filter.mp ((containing_sublist arg _ _).subset contained)).2
  rw [Bool.or_eq_true] at chosen
  refine chosen.imp id fun suited => ?_
  simp only [suits, Bool.and_eq_true, Bool.or_eq_true, decide_eq_true_eq, or_assoc] at suited
  exact ⟨suited.1.1.2, suited.2⟩

/-- Leaving out the files that start too late or lie behind the first sequence never leaves out one with an
event that is asked for; going by the type and the interval in its name does. -/
theorem asked_file_queried_iff (arg : SysEventQueryArg) (bounded : ∀ dir ∈ store, SequenceBounded env dir) :
    ∀ dir ∈ store, ∀ file ∈ dir.files, ∀ entry ∈ file.entries, Asks typeOf intervalOf arg dir file entry →
      (file ∈ queryFiles env store arg ↔ FileFits arg file) := by
  intro dir inside file member entry held asks
  refine ⟨fileFits_of_queried env store, fun fits => ?_⟩
  have chosen : dir ∈ getQueryDirsByDomain store arg.domain := by
    rw [getQueryDirsByDomain]
    split
    · exact inside
    · case isFalse given =>
      exact mem_filter.mpr ⟨inside, decide_eq_true (asks.domain.resolve_left given)⟩
  refine env.fileQueue.mem_order.mpr (mem_flatMap.mpr ⟨dir, chosen, ?_⟩)
  rcases fits with free | ⟨type, interval⟩
  · rw [containing_free free]
    exact env.sortedFiles.mem_order.mpr member
  · have early : arg.toSeq = invalidValueInt ∨ file.info.seq < arg.toSeq :=
      asks.toSeq.imp id (Int.lt_of_le_of_lt ((bounded dir inside).starts file member entry held))
    have suited : suits arg file.info = true := by
      simp [suits]
      exact ⟨⟨⟨asks.name, type⟩, early⟩, or_assoc.mpr interval⟩
    exact (bounded dir inside).mem_containing member suited held asks.fromSeq

end Pruning

theorem bounded_single (file : DbDoc) (starts : ∀ entry ∈ file.entries, file.info.seq ≤ entry.id) :
    SequenceBounded plainDatabase ⟨ascii "AAFWK", [file]⟩ := by
  refine ⟨fun other member => mem_singleton.mp member ▸ starts, fun name => ?_⟩
  exact ((pairwise_singleton HoldsBelow file).filter _).isChain

theorem asked_file_queried_iff_own :
    twoEventFile ∈ queryFiles plainDatabase [⟨ascii "AAFWK", [twoEventFile]⟩]
        ⟨ascii "AAFWK", [], 1, 4, 3, defaultReportInterval⟩ ↔
      FileFits ⟨ascii "AAFWK", [], 1, 4, 3, defaultReportInterval⟩ twoEventFile :=
  asked_file_queried_iff plainDatabase [⟨ascii "AAFWK", [twoEventFile]⟩] (fun _ => 1) (fun _ => 0)
    ⟨ascii "AAFWK", [], 1, 4, 3, defaultReportInterval⟩
    (forall_mem_singleton.mpr (bounded_single twoEventFile (by decide +kernel))) _ (mem_singleton_self _)
    twoEventFile (mem_singleton_self _) (aafwkEvent "JS_ERROR" 3) (by decide +kernel)
    ⟨.inr rfl, .inl rfl, .inr rfl, .inl rfl, by decide, .inr (by decide)⟩

/-- The second event of a file that was made for one of type 1 has the type 2, and is not found under it. -/
theorem asked_file_left_out :
    SequenceBounded plainDatabase ⟨ascii "AAFWK", [twoEventFile]⟩ ∧
      Asks (fun entry => if entry.id = 3 then 2 else 1) (fun _ => 0)
        ⟨ascii "AAFWK", [], 2, 4, 3, defaultReportInterval⟩ ⟨ascii "AAFWK", [twoEventFile]⟩
        twoEventFile (aafwkEvent "JS_ERROR" 3) ∧
      queryFiles plainDatabase [⟨ascii "AAFWK", [twoEventFile]⟩]
        ⟨ascii "AAFWK", [], 2, 4, 3, defaultReportInterval⟩ = [] :=
  ⟨bounded_single twoEventFile (by decide +kernel), ⟨.inr rfl, .inl rfl, .inr rfl, .inl rfl, by decide, .inr (by decide)⟩,
    rfl⟩

end SysEventDatabase
end Hiview.EventStore
