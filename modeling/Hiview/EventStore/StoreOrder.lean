import Hiview.EventStore.QueryPages
import Hiview.Lib.Selection

/-! What a query can find. A store whose files start behind everything the earlier
files of their name hold loses nothing when the files behind the first sequence
are skipped, and a limit that is not exceeded hides nothing. -/
namespace Hiview.EventStore
open Selection List

/-- The later file starts behind everything the earlier one holds. -/
def Follows (earlier later : DbDoc) : Prop :=
  earlier.info.seq < later.info.seq ∧ ∀ entry ∈ earlier.entries, entry.id < later.info.seq

def DomainDir.entries (dir : DomainDir) : List Entry := dir.files.flatMap DbDoc.entries

/-- Every file starts with its first event, the files of one name follow each
other and no sequence is given twice. -/
structure StoreOrdered (store : List DomainDir) : Prop where
  starts : ∀ dir ∈ store, ∀ file ∈ dir.files, ∀ entry ∈ file.entries, file.info.seq ≤ entry.id
  files : ∀ dir ∈ store, dir.files.Pairwise fun first second =>
    first.info.name = second.info.name → Follows first second ∨ Follows second first
  distinct : ((store.flatMap DomainDir.entries).map Entry.id).Nodup

namespace SysEventDatabase

def matching (env : QueryEnv) (store : List DomainDir) (query : SysEventQuery) : List Entry :=
  (getQueryFiles env store query.queryArg).flatMap (found query.cond)

theorem found_unread (cond : Entry → Bool) (failed : file.code ≠ .success) :
    found cond file = [] := by
  rw [found, file.unread failed, filter_nil]

/-- The files in front are read to their end when nothing follows them or the limit is met with them. -/
theorem queryByFiles_front {cond : Entry → Bool} {limit total : Int}
    (few : total + (newer.flatMap (found cond)).length ≤ limit)
    (stops : older = [] ∨ total < limit ∧ total + (newer.flatMap (found cond)).length = limit) :
    (queryByFiles cond limit total (newer ++ older)).1 = newer.flatMap (found cond) := by
  induction newer generalizing total with
  | nil =>
    rcases stops with rfl | ⟨below, met⟩
    · rfl
    · simp only [flatMap_nil, length_nil, Nat.cast_zero, Int.add_zero] at met
      omega
  | cons file rest ih =>
    rw [cons_append, queryByFiles, flatMap_cons]
    rw [flatMap_cons, length_append, Nat.cast_add] at few stops
    split
    · case isTrue failed =>
      rw [found_unread cond failed] at few stops ⊢
      exact ih (by simpa using few) (by simpa using stops)
    · split
      · case isTrue reached =>
        have none : rest.flatMap (found cond) = [] := eq_nil_of_length_eq_zero (by omega)
        rw [none, append_nil]
      · exact congrArg (found cond file ++ ·) (ih (by omega) (stops.imp_right fun met => by omega))

theorem queryByFiles_all {cond : Entry → Bool} {limit total : Int}
    (few : total + (files.flatMap (found cond)).length ≤ limit) :
    (queryByFiles cond limit total files).1 = files.flatMap (found cond) := by
  have front := queryByFiles_front few (.inl rfl)
  rwa [append_nil] at front

theorem query_all {env : QueryEnv} {limit : Int} (few : (matching env store asked).length ≤ limit) :
    (query env store limit asked).1.Perm (matching env store asked) := by
  have queued : ((env.fileQueue.order (getQueryFiles env store asked.queryArg)).flatMap
      (found asked.cond)).Perm (matching env store asked) :=
    (env.fileQueue.perm _).flatMap_right _
  rw [query]
  rw [queryByFiles_all (by rw [queued.length_eq, Int.zero_add]; exact few)]
  exact queued

theorem execute_all {env : QueryEnv} {limit : Int} (few : (matching env store asked).length ≤ limit) :
    (asked.execute env store limit true).1.Perm (matching env store asked) := by
  have all := query_all few
  have queued : (if asked.byTime then env.timeQueue.order (query env store limit asked).1
      else env.seqQueue.order (query env store limit asked).1).Perm (matching env store asked) := by
    split
    · exact (env.timeQueue.perm _).trans all
    · exact (env.seqQueue.perm _).trans all
  rw [SysEventQuery.execute]
  rw [if_neg (by rw [queued.length_eq]; omega), take_of_length_le (by omega)]
  exact queued

theorem mem_containing (restricted : unrestricted arg = false) (follow : files.Pairwise fun first second =>
      first.info.name = second.info.name → ∀ entry ∈ second.entries, entry.id < first.info.seq)
    (behind : ∀ file ∈ files, ∀ seq, seen file.info.name = some seq →
      ∀ entry ∈ file.entries, entry.id < seq) (member : file ∈ files) (suited : suits arg file.info = true)
    (held : entry ∈ file.entries) (late : arg.fromSeq ≤ entry.id) :
    file ∈ containing arg seen files := by
  induction files generalizing seen with
  | nil => cases member
  | cons head rest ih =>
    obtain ⟨follow, others⟩ := pairwise_cons.mp follow
    rw [containing_cons restricted]
    rcases mem_cons.mp member with rfl | later
    · have fresh : outdated arg seen file.info = false := by
        rw [outdated]
        cases known : seen file.info.name with
        | none => rfl
        | some seq =>
          have before := behind file mem_cons_self seq known entry held
          exact decide_eq_false (by omega)
      rw [fresh, suited]
      exact mem_cons_self
    · have kept : file ∈ containing arg seen rest :=
        ih others (fun other inRest => behind other (mem_cons_of_mem _ inRest)) later
      have passed : file ∈ containing arg (noted seen head.info) rest := by
        refine ih others (fun other inRest seq known => ?_) later
        rw [noted] at known
        split at known
        · case isTrue same =>
          cases known
          exact follow other inRest same.symm
        · exact behind other (mem_cons_of_mem _ inRest) seq known
      split
      · exact kept
      · split
        · exact mem_cons_of_mem _ passed
        · exact passed

theorem sortedFiles_seq (env : QueryEnv) (files : List DbDoc) :
    (env.sortedFiles.order files).Pairwise fun newer older => older.info.seq ≤ newer.info.seq := by
  refine (env.sortedFiles.sorted files).imp fun {first second} sorted => ?_
  rw [(getFileSeq_eq first).2, (getFileSeq_eq second).2] at sorted
  omega

section Order
variable {store : List DomainDir} (ordered : StoreOrdered store)
include ordered

theorem sorted_follows (env : QueryEnv) (inside : dir ∈ store) :
    (env.sortedFiles.order dir.files).Pairwise fun first second =>
      first.info.name = second.info.name → ∀ entry ∈ second.entries, entry.id < first.info.seq := by
  have follow := ((env.sortedFiles.perm dir.files).symm.pairwise_iff fun {_ _} either same =>
    (either same.symm).symm).mp (ordered.files dir inside)
  refine (follow.and (sortedFiles_seq env dir.files)).imp fun {first second} both same => ?_
  obtain ⟨follow, sorted⟩ := both
  rcases follow same with ahead | behind
  · have lower := ahead.1
    omega
  · exact behind.2

theorem mem_getQueryFiles (env : QueryEnv) (restricted : unrestricted arg = false) (inside : dir ∈ store)
    (chosen : dir ∈ getQueryDirsByDomain store arg.domain) (member : file ∈ dir.files)
    (suited : suits arg file.info = true) (held : entry ∈ file.entries) (late : arg.fromSeq ≤ entry.id) :
    file ∈ getQueryFiles env store arg := by
  refine mem_flatMap.mpr ⟨dir, chosen, ?_⟩
  refine mem_containing restricted (sorted_follows ordered env inside) (fun _ _ _ known => ?_)
    (env.sortedFiles.mem_order.mpr member) suited held late
  cases known

end Order

section Bounded

/-- The older file holds only events before the newer one. -/
def HoldsBelow (newer older : DbDoc) : Prop := ∀ entry ∈ older.entries, entry.id < newer.info.seq

/-- The files of every name, sorted as the database sorts them, hold events from their own
sequence on and below the sequence of the next file. -/
structure SequenceBounded (env : QueryEnv) (dir : DomainDir) : Prop where
  starts : ∀ file ∈ dir.files, ∀ entry ∈ file.entries, file.info.seq ≤ entry.id
  next : ∀ name, ((env.sortedFiles.order dir.files).filter fun file => file.info.name = name).IsChain
    HoldsBelow

theorem HoldsBelow.pairwise {files : List DbDoc} (chain : files.IsChain HoldsBelow)
    (sorted : files.Pairwise fun newer older => older.info.seq ≤ newer.info.seq) :
    files.Pairwise HoldsBelow := by
  induction files with
  | nil => exact .nil
  | cons first rest ih =>
    cases rest with
    | nil => exact pairwise_singleton _ _
    | cons second rest =>
      obtain ⟨below, chain⟩ := isChain_cons_cons.mp chain
      obtain ⟨smaller, sorted⟩ := pairwise_cons.mp sorted
      have others := ih chain sorted
      refine pairwise_cons.mpr ⟨fun older member => ?_, others⟩
      rcases mem_cons.mp member with rfl | later
      · exact below
      · intro entry held
        have small := (pairwise_cons.mp others).1 older later entry held
        exact Int.lt_of_lt_of_le small (smaller second mem_cons_self)

variable {env : QueryEnv} {dir : DomainDir} (bounded : SequenceBounded env dir)
include bounded

theorem SequenceBounded.sorted_below :
    (env.sortedFiles.order dir.files).Pairwise fun first second =>
      first.info.name = second.info.name → ∀ entry ∈ second.entries, entry.id < first.info.seq := by
  have sorted := sortedFiles_seq env dir.files
  refine pairwise_iff_forall_sublist.mpr fun {first second} both same => ?_
  have ofName := (bounded.next second.info.name)
  have below := HoldsBelow.pairwise ofName (sorted.filter _)
  rw [pairwise_filter, pairwise_iff_forall_sublist] at below
  exact below both (decide_eq_true same) (decide_eq_true rfl)

theorem SequenceBounded.mem_containing (member : file ∈ dir.files) (suited : suits arg file.info = true)
    (held : entry ∈ file.entries) (late : arg.fromSeq ≤ entry.id) :
    file ∈ containing arg (fun _ => none) (env.sortedFiles.order dir.files) := by
  have sorted := env.sortedFiles.mem_order.mpr member
  cases restricted : unrestricted arg with
  | true => rwa [containing_free restricted]
  | false =>
    refine SysEventDatabase.mem_containing restricted bounded.sorted_below (fun _ _ _ known => ?_) sorted suited held
      late
    cases known

end Bounded

theorem matching_subperm (env : QueryEnv) (store : List DomainDir) (asked : SysEventQuery) :
    (matching env store asked).Subperm
      ((getQueryDirsByDomain store asked.queryArg.domain).flatMap DomainDir.entries) := by
  rw [matching, getQueryFiles, flatMap_assoc]
  refine subperm_flatMap fun dir _ => ?_
  have files : (containing asked.queryArg (fun _ => none)
      (env.sortedFiles.order dir.files)).Subperm dir.files :=
    ((containing_sublist _ _ _).trans filter_sublist).subperm.trans
      (env.sortedFiles.perm dir.files).subperm
  exact (subperm_flatMap fun file _ => filter_sublist.subperm).trans (flatMap_subperm _ files)

end SysEventDatabase
end Hiview.EventStore
