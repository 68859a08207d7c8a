import Hiview.EventExport.ExportAttempt

/-! The attempts to export a part of the range. What a failed attempt leaves in the
other packagers is exported once more by the attempt that succeeds. -/
namespace Hiview.EventExport
open EventWriteHandler List

namespace EventReadHandler

section Retry
variable (env : ExportEnv) (req : EventReadRequest) (beginSeq endSeq : Int)

def failures : Nat → EventWriteHandler → List Failure
  | 0, _ => []
  | retryCnt + 1, writer =>
    match querySysEvent env req beginSeq endSeq writer with
    | .ok _ => []
    | .error failure => failure :: failures retryCnt failure.handler.rollback

/-- What the packagers hold when the attempt that comes after the failed ones starts. -/
def leftover (failed : List Failure) (writer : EventWriteHandler) : List CachedEvent :=
  (failed.getLast?.map fun failure => failure.handler.cached).getD (holding writer.packagers)

theorem leftover_cons (failure : Failure) (failed : List Failure) (writer : EventWriteHandler) :
    leftover (failure :: failed) writer = leftover failed failure.handler.rollback := by
  rw [leftover, leftover, holding_rollback, List.getLast?_cons]
  cases failed.getLast? with
  | none => rfl
  | some last => rfl

theorem ascending_rollback {writer : EventWriteHandler} (ascending : Ascending writer.packagers) :
    Ascending writer.rollback.packagers :=
  ascending_of_keys (keys_clearFiles writer.packagers) ascending

theorem failures_spec (ascending : Ascending writer.packagers) (retryCnt : Nat) :
    ∀ failure ∈ failures env req beginSeq endSeq retryCnt writer,
      ∃ start, Failed start env.written (rangeEvents env req beginSeq endSeq) failure := by
  induction retryCnt generalizing writer with
  | zero => nofun
  | succ retryCnt ih =>
    rw [failures]
    rcases querySysEvent_spec env req beginSeq endSeq ascending with
      ⟨next, ran, _⟩ | ⟨failure, ran, failed⟩
    · rw [ran]
      nofun
    · rw [ran]
      exact forall_mem_cons.mpr ⟨⟨writer, failed⟩, ih (ascending_rollback failed.account.ascending)⟩

theorem retry_moved (ascending : Ascending writer.packagers)
    (succeeded : (retry env req beginSeq endSeq retryCnt writer).1 = true) :
    (retry env req beginSeq endSeq retryCnt writer).2.delivered.Perm
      (writer.delivered ++ (rangeEvents env req beginSeq endSeq ++
        leftover (failures env req beginSeq endSeq retryCnt writer) writer)) := by
  induction retryCnt generalizing writer with
  | zero => cases succeeded
  | succ retryCnt ih =>
    rw [retry] at succeeded ⊢
    rw [failures]
    rcases querySysEvent_spec env req beginSeq endSeq ascending with
      ⟨next, ran, finished⟩ | ⟨failure, ran, failed⟩
    · rw [ran]
      exact finished.moved
    · rw [ran] at succeeded ⊢
      have moved := ih (ascending_rollback failed.account.ascending) succeeded
      have kept : failure.handler.rollback.delivered = writer.delivered := failed.account.delivered
      rw [kept] at moved
      rw [leftover_cons]
      exact moved

/-- The handler a part of the range starts with. -/
structure Ready (writer : EventWriteHandler) : Prop where
  ascending : Ascending writer.packagers
  cleared : ∀ item ∈ writer.packagers, item.2.packagedEvents = []
  empty : holding writer.packagers = []

theorem ready_new : Ready .new := ⟨.nil, nofun, rfl⟩

theorem ready_of_finished {next : EventWriteHandler} (finished : Finished writer written events next) : Ready next :=
  ⟨finished.ascending, finished.cleared, finished.empty⟩

theorem querySysEvent_nothing (ready : Ready writer) (nothing : rangeEvents env req beginSeq endSeq = []) :
    ∃ next, querySysEvent env req beginSeq endSeq writer = .ok next := by
  rw [querySysEvent, queryDomains_nothing env req (map_eq_nil_iff.mp nothing)]
  exact handleRequest_nothing env.written ready.cleared req.maxSize

theorem retry_failed_iff (retryCnt : Nat) (writer : EventWriteHandler) :
    (retry env req beginSeq endSeq retryCnt writer).1 = false ↔
      (failures env req beginSeq endSeq retryCnt writer).length = retryCnt := by
  induction retryCnt generalizing writer with
  | zero => exact iff_of_true rfl rfl
  | succ retryCnt ih =>
    rw [retry, failures]
    cases querySysEvent env req beginSeq endSeq writer with
    | ok next => exact iff_of_false nofun (Nat.succ_ne_zero retryCnt).symm
    | error failure => exact (ih _).trans Nat.succ_inj.symm

theorem retry_delivered (ascending : Ascending writer.packagers)
    (failed : (retry env req beginSeq endSeq retryCnt writer).1 = false) :
    (retry env req beginSeq endSeq retryCnt writer).2.delivered = writer.delivered := by
  induction retryCnt generalizing writer with
  | zero => rfl
  | succ retryCnt ih =>
    rw [retry] at failed ⊢
    rcases querySysEvent_spec env req beginSeq endSeq ascending with
      ⟨next, ran, _⟩ | ⟨failure, ran, left⟩
    · rw [ran] at failed
      cases failed
    · rw [ran] at failed ⊢
      exact (ih (ascending_rollback left.account.ascending) failed).trans left.account.delivered

theorem retry_ready (ascending : Ascending writer.packagers)
    (succeeded : (retry env req beginSeq endSeq retryCnt writer).1 = true) :
    Ready (retry env req beginSeq endSeq retryCnt writer).2 := by
  induction retryCnt generalizing writer with
  | zero => cases succeeded
  | succ retryCnt ih =>
    rw [retry] at succeeded ⊢
    rcases querySysEvent_spec env req beginSeq endSeq ascending with
      ⟨next, ran, finished⟩ | ⟨failure, ran, left⟩
    · rw [ran]
      exact ready_of_finished finished
    · rw [ran] at succeeded ⊢
      exact ih (ascending_rollback left.account.ascending) succeeded

theorem leftover_subset (ascending : Ascending writer.packagers)
    (inside : holding writer.packagers ⊆ rangeEvents env req beginSeq endSeq) (retryCnt : Nat) :
    leftover (failures env req beginSeq endSeq retryCnt writer) writer ⊆
      rangeEvents env req beginSeq endSeq := by
  induction retryCnt generalizing writer with
  | zero => exact inside
  | succ retryCnt ih =>
    rw [failures]
    rcases querySysEvent_spec env req beginSeq endSeq ascending with
      ⟨next, ran, _⟩ | ⟨failure, ran, left⟩
    · rw [ran]
      exact inside
    · rw [ran, leftover_cons]
      refine ih (ascending_rollback left.account.ascending) ?_
      rw [holding_rollback]
      refine List.Subset.trans (List.Subset.trans ?_ left.inside)
        (append_subset.mpr ⟨List.Subset.refl _, inside⟩)
      exact List.Subset.trans (subset_append_left _ _) (holding_perm failure.handler).symm.subset

theorem mem_delivered_retry {writer : EventWriteHandler} (ready : Ready writer) {retryCnt : Nat}
    (succeeded : (retry env req beginSeq endSeq retryCnt writer).1 = true) {event : CachedEvent} :
    event ∈ (retry env req beginSeq endSeq retryCnt writer).2.delivered ↔
      event ∈ writer.delivered ∨ event ∈ rangeEvents env req beginSeq endSeq := by
  have stale : leftover _ writer ⊆ rangeEvents env req beginSeq endSeq :=
    leftover_subset env req beginSeq endSeq ready.ascending
      (ready.empty ▸ nil_subset _) retryCnt
  rw [(retry_moved env req beginSeq endSeq ready.ascending succeeded).mem_iff, mem_append,
    mem_append]
  exact or_congr_right ⟨fun either => either.elim id (@stale event), .inl⟩

theorem leftover_eq_nil_iff (ready : Ready writer) (retryCnt : Nat) :
    leftover (failures env req beginSeq endSeq retryCnt writer) writer = [] ↔
      ∀ failure ∈ (failures env req beginSeq endSeq retryCnt writer).getLast?, alone failure := by
  rw [leftover]
  cases last : (failures env req beginSeq endSeq retryCnt writer).getLast? with
  | none => exact ⟨fun _ => nofun, fun _ => ready.empty⟩
  | some failure =>
    obtain ⟨start, failed⟩ := failures_spec env req beginSeq endSeq ready.ascending retryCnt
      failure (mem_of_getLast? last)
    simpa using cached_eq_nil_iff failed

theorem cached_rollback (handler : EventWriteHandler) : handler.rollback.cached = handler.cached :=
  flatMap_map _ _ _

end Retry

/-- One event of each of two users, and a first file that cannot be written. -/
def twoUsers : ExportEnv :=
  ⟨fun _ _ => [⟨1, 1, [65], [69], 0, [49], [50], [123, 125]⟩,
    ⟨2, 2, [65], [69], 200000, [49], [50], [123, 125]⟩], fun call => call != 0⟩

def twoUsersRequest : EventReadRequest := ⟨1, 3, [([65], [[69]])], 0, 2⟩

/-- Times as they are printed for the names, one millisecond from call to call. -/
def stamps (call : Nat) : List UInt8 := Numeral.ascii "20240101000000" ++ Numeral.decimal (100 + call)

/-- When the file of the second user fails, the first one is on disk and given up. -/
def secondFails : ExportEnv := ⟨twoUsers.execute, fun call => call != 1⟩

end EventReadHandler
end Hiview.EventExport
