import Hiview.EventExport.EventReadHandler
import Hiview.EventExport.PackagerAccount

/-! One attempt to export a part of the range: what it hands to the write handler,
and what it leaves behind when it fails. -/
namespace Hiview.EventExport
open EventStore EventWriteHandler List

/-- Everything that waits to be moved to the export directory. -/
def ReadState.waiting (state : ReadState) : List CachedEvent :=
  state.cachedSysEvents ++ holding state.writer.packagers

namespace EventReadHandler
variable (env : ExportEnv) (req : EventReadRequest)

/-- The events of a result set that are exported. -/
def taken (queryCnt : Int) (resultSet : List Entry) : List Entry :=
  (resultSet.filter fun entry => entry.json ≠ []).take queryCnt.toNat

def collect (beginSeq endSeq : Int) : List (List UInt8 × List (List UInt8)) → Int → List Entry
  | [], _ => []
  | item :: rest, queryCnt =>
    let events := taken queryCnt
      (env.execute (limitOf queryCnt) (domainQuery req beginSeq endSeq item))
    events ++ collect beginSeq endSeq rest (queryCnt - events.length)

/-- The events of a part of the range, as the write handler gets them. -/
def rangeEvents (beginSeq endSeq : Int) : List CachedEvent :=
  (collect env req beginSeq endSeq req.eventList (endSeq - beginSeq)).map .ofEntry

theorem taken_nil (queryCnt : Int) : taken queryCnt [] = [] := take_nil

variable {queryCnt : Int}

theorem taken_spent (spent : queryCnt ≤ 0) (entries : List Entry) : taken queryCnt entries = [] := by
  rw [taken, Int.toNat_of_nonpos spent, take_zero]

theorem taken_skip (empty : entry.json = []) (queryCnt : Int) (rest : List Entry) :
    taken queryCnt (entry :: rest) = taken queryCnt rest := by
  rw [taken, filter_cons_of_neg (by simpa using empty), taken]

theorem taken_cons (text : entry.json ≠ []) (left : 0 < queryCnt) (rest : List Entry) :
    taken queryCnt (entry :: rest) = entry :: taken (queryCnt - 1) rest := by
  have count : queryCnt.toNat = (queryCnt - 1).toNat + 1 := by omega
  rw [taken, filter_cons_of_pos (by simpa using text), count, take_succ_cons, taken]

theorem handed_perm (state : ReadState) (events : List CachedEvent) :
    (state.cachedSysEvents ++ events ++ holding state.writer.packagers).Perm
      (state.waiting ++ events) := by
  rw [ReadState.waiting, append_assoc, append_assoc]
  exact perm_append_comm.append_left _

theorem waiting_cacheEntry (state : ReadState) (entry : Entry) :
    (cacheEntry state entry).waiting.Perm (state.waiting ++ [CachedEvent.ofEntry entry]) :=
  handed_perm state [CachedEvent.ofEntry entry]

variable (limit : Int)

theorem flush_spec (ascending : Ascending state.writer.packagers) :
    (∃ next, flush env req limit state = .ok next ∧ Account state.writer next.writer ∧
      Clean env.written state.writer.calls next.writer.calls ∧
      next.waiting.Perm state.waiting) ∨
    ∃ failure, flush env req limit state = .error failure ∧
      Failed state.writer env.written state.cachedSysEvents failure := by
  rw [flush]
  split
  · rw [queryCallback]
    rcases handleRequest_open env.written ascending state.cachedSysEvents req.maxSize with
      ⟨next, ran, account, clean, grown⟩ | ⟨failure, ran, failed⟩
    · rw [ran]
      exact .inl ⟨⟨[], next⟩, rfl, account, clean, grown⟩
    · rw [ran]
      exact .inr ⟨failure, rfl, failed⟩
  · exact .inl ⟨state, rfl, ⟨rfl, ascending, Nat.le_refl _⟩, clean_self _ _, .refl _⟩

theorem handleQueryResult_spec (entries : List Entry) (queryCnt : Int)
    {state : ReadState} (ascending : Ascending state.writer.packagers) :
    (∃ next, handleQueryResult env req limit entries queryCnt state =
        .ok (queryCnt - (taken queryCnt entries).length, next) ∧
      Account state.writer next.writer ∧
      Clean env.written state.writer.calls next.writer.calls ∧
      next.waiting.Perm (state.waiting ++ (taken queryCnt entries).map .ofEntry)) ∨
    ∃ failure, handleQueryResult env req limit entries queryCnt state = .error failure ∧
      Failed state.writer env.written
        (state.cachedSysEvents ++ (taken queryCnt entries).map .ofEntry) failure := by
  induction entries generalizing queryCnt state with
  | nil =>
    rw [handleQueryResult, taken_nil]
    exact .inl ⟨state, by simp, ⟨rfl, ascending, Nat.le_refl _⟩, clean_self _ _, by simp⟩
  | cons entry rest ih =>
    rw [handleQueryResult]
    split
    · case isTrue spent =>
      rw [taken_spent spent]
      exact .inl ⟨state, by simp, ⟨rfl, ascending, Nat.le_refl _⟩, clean_self _ _, by simp⟩
    · case isFalse left =>
      split
      · case isTrue empty =>
        rw [taken_skip empty]
        exact ih queryCnt ascending
      · case isFalse text =>
        rw [taken_cons text (by omega)]
        rcases flush_spec env req limit ascending with
          ⟨flushed, ran, account, clean, same⟩ | ⟨failure, ran, failed⟩
        · rw [ran]
          have cached := (waiting_cacheEntry flushed entry).trans (same.append_right _)
          rcases @ih (queryCnt - 1) (cacheEntry flushed entry) account.ascending with
            ⟨next, went, account', clean', grown⟩ | ⟨failure, went, failed⟩
          · refine .inl ⟨next, ?_, account.trans account',
              (clean_trans account.later account'.later).mpr ⟨clean, clean'⟩, ?_⟩
            · simp only [went, length_cons, Nat.cast_add, Nat.cast_one]
              rw [Int.sub_sub, Int.add_comm 1]
            · rw [map_cons, append_cons]
              exact grown.trans (cached.append_right _)
          · refine .inr ⟨failure, went, failed.shift account (List.Perm.subset ?_)⟩
            refine (handed_perm _ _).trans ((cached.append_right _).trans ?_)
            rw [← append_cons]
            exact (handed_perm _ _).symm
        · rw [ran]
          exact .inr ⟨failure, rfl, failed.weaken (subset_append_left _ _)⟩

theorem collect_spent (beginSeq endSeq : Int) (spent : queryCnt ≤ 0) (items : List (List UInt8 × List (List UInt8))) :
    collect env req beginSeq endSeq items queryCnt = [] := by
  induction items with
  | nil => rfl
  | cons item rest ih =>
    rw [collect, taken_spent spent]
    simpa using ih

theorem queryCallback_spec (ascending : Ascending state.writer.packagers) :
    (∃ next, queryCallback env req state true = .ok next ∧
      Finished state.writer env.written state.waiting next) ∨
    ∃ failure, queryCallback env req state true = .error failure ∧
      Failed state.writer env.written state.cachedSysEvents failure :=
  handleRequest_last env.written ascending state.cachedSysEvents req.maxSize

theorem queryDomains_spec (beginSeq endSeq : Int) (items : List (List UInt8 × List (List UInt8)))
    (queryCnt : Int) {state : ReadState} (ascending : Ascending state.writer.packagers) :
    (∃ next, queryDomains env req beginSeq endSeq items queryCnt state = .ok next ∧
      Finished state.writer env.written
        (state.waiting ++ (collect env req beginSeq endSeq items queryCnt).map .ofEntry) next) ∨
    ∃ failure, queryDomains env req beginSeq endSeq items queryCnt state = .error failure ∧
      Failed state.writer env.written
        (state.cachedSysEvents ++ (collect env req beginSeq endSeq items queryCnt).map .ofEntry)
        failure := by
  induction items generalizing queryCnt state with
  | nil =>
    rw [collect, map_nil, append_nil, append_nil]
    exact queryCallback_spec env req ascending
  | cons item rest ih =>
    rw [queryDomains]
    split
    · case isTrue spent =>
      rw [collect_spent env req beginSeq endSeq spent, map_nil, append_nil, append_nil]
      exact queryCallback_spec env req ascending
    · rw [collect, map_append]
      rcases handleQueryResult_spec env req (limitOf queryCnt)
          (env.execute (limitOf queryCnt) (domainQuery req beginSeq endSeq item)) queryCnt
          ascending with ⟨middle, ran, account, clean, grown⟩ | ⟨failure, ran, failed⟩
      · simp only [ran]
        rcases @ih (queryCnt - (taken queryCnt (env.execute (limitOf queryCnt)
            (domainQuery req beginSeq endSeq item))).length) middle account.ascending with
          ⟨next, went, finished⟩ | ⟨failure, went, failed⟩
        · refine .inl ⟨next, went, finished.shift account clean ?_⟩
          rw [← append_assoc]
          exact grown.append_right _
        · refine .inr ⟨failure, went, failed.shift account (List.Perm.subset ?_)⟩
          refine (handed_perm _ _).trans ((grown.append_right _).trans ?_)
          rw [append_assoc]
          exact (handed_perm _ _).symm
      · simp only [ran]
        refine .inr ⟨failure, rfl, failed.weaken ?_⟩
        rw [← append_assoc]
        exact subset_append_left _ _

theorem handleQueryResult_nothing (nothing : taken queryCnt entries = []) (state : ReadState) :
    handleQueryResult env req limit entries queryCnt state = .ok (queryCnt, state) := by
  fun_induction handleQueryResult env req limit entries queryCnt state with
  | case1 => rfl
  | case2 => rfl
  | case3 entry rest queryCnt state left empty ih =>
    rw [taken_skip empty] at nothing
    exact ih nothing
  | case4 entry rest queryCnt state left text | case5 entry rest queryCnt state left text =>
    rw [taken_cons text (by omega)] at nothing
    cases nothing

theorem queryDomains_nothing (nothing : collect env req beginSeq endSeq items queryCnt = []) (state : ReadState) :
    queryDomains env req beginSeq endSeq items queryCnt state = queryCallback env req state true := by
  induction items generalizing queryCnt with
  | nil => rfl
  | cons item rest ih =>
    obtain ⟨now, later⟩ := append_eq_nil_iff.mp nothing
    rw [queryDomains]
    split
    · rfl
    · simp only [handleQueryResult_nothing env req _ now]
      rw [now, length_nil, Int.natCast_zero, Int.sub_zero] at later
      exact ih later

/-- An attempt moves the events of its part together with everything an earlier
attempt has left in the packagers, or it fails. -/
theorem querySysEvent_spec (beginSeq endSeq : Int) {writer : EventWriteHandler}
    (ascending : Ascending writer.packagers) :
    (∃ next, querySysEvent env req beginSeq endSeq writer = .ok next ∧
      Finished writer env.written
        (rangeEvents env req beginSeq endSeq ++ holding writer.packagers) next) ∨
    ∃ failure, querySysEvent env req beginSeq endSeq writer = .error failure ∧
      Failed writer env.written (rangeEvents env req beginSeq endSeq) failure := by
  rcases @queryDomains_spec env req beginSeq endSeq req.eventList (endSeq - beginSeq)
      ⟨[], writer⟩ ascending with ⟨next, ran, finished⟩ | failed
  · exact .inl ⟨next, ran, finished.shift ⟨rfl, ascending, Nat.le_refl _⟩ (clean_self _ _)
      perm_append_comm⟩
  · exact .inr failed

end EventReadHandler
end Hiview.EventExport
