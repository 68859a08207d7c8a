import Hiview.EventExport.EventWriteHandler

/-! What the write handler owes: every event it takes over is cached in a packager
or written to a temporary file until the files are moved. A failed request gives
up the files and the cache of the packager that failed, and no other cache. -/
namespace Hiview.EventExport
open ExportEventPackager List

namespace ExportEventPackager
variable (call : Nat) (written : Bool) (packager : ExportEventPackager)

def held : List CachedEvent :=
  packager.packagedEvents.events ++ packager.packagedFiles.flatMap ZipFile.events

theorem package_ok (ok : (packager.package call written).1 = true) :
    (packager.package call written).2.held.Perm packager.held := by
  revert ok
  fun_cases packager.package call written with
  | case1 => exact fun _ => .refl _
  | case2 =>
    rintro rfl
    change ([] ++ (packager.packagedFiles ++ [ZipFile.mk call packager.uid packager.packagedEvents]).flatMap _).Perm _
    rw [nil_append, flatMap_append, flatMap_singleton]
    exact perm_append_comm

theorem package_cleared : (packager.package call written).2.packagedEvents = [] := by
  rw [package]
  split
  · case isTrue empty => exact empty
  · rfl

theorem package_subset : (packager.package call written).2.held ⊆ packager.held := by
  cases ok : (packager.package call written).1 with
  | true => exact (package_ok call written packager ok).subset
  | false =>
    revert ok
    fun_cases packager.package call written with
    | case1 => nofun
    | case2 =>
      rintro rfl
      exact subset_append_right _ _

theorem package_iff :
    (packager.package call written).1 = true ↔ (packager.writes = true → written = true) := by
  rw [package, writes]
  by_cases empty : packager.packagedEvents = []
  · simp [empty]
  · simp [empty]

theorem held_store (event : CachedEvent) : (packager.store event).held.Perm (event :: packager.held) :=
  (CachedEventMap.events_insert event packager.packagedEvents).append_right _

theorem appendEvent_ok (ok : (packager.appendEvent call written event).1 = true) :
    (packager.appendEvent call written event).2.held.Perm (event :: packager.held) := by
  revert ok
  fun_cases packager.appendEvent call written event with
  | case1 _ packaged done =>
    exact fun _ => (held_store _ event).trans ((package_ok call written packager done).cons event)
  | case2 _ packaged failed => exact fun ok => absurd ok failed
  | case3 => exact fun _ => held_store packager event

theorem appendEvent_failed (failed : (packager.appendEvent call written event).1 = false) :
    (packager.appendEvent call written event).2 = (packager.package call written).2 := by
  revert failed
  fun_cases packager.appendEvent call written event with
  | case2 => exact fun _ => rfl
  | _ => nofun

theorem appendEvent_iff :
    (packager.appendEvent call written event).1 = true ↔
      ((packager.overflows event && packager.writes) = true → written = true) := by
  rw [appendEvent, Bool.and_eq_true]
  cases packager.overflows event with
  | true =>
    rw [if_pos rfl]
    have first : (if (packager.package call written).1 = true then
        (true, (packager.package call written).2.store event) else packager.package call written).1 =
        (packager.package call written).1 := by
      split
      · case isTrue packaged => exact packaged.symm
      · rfl
    simpa only [first, true_and] using package_iff call written packager
  | false => simp

end ExportEventPackager

namespace EventWriteHandler

/-- Everything the packagers have taken over and not given up. -/
def holding (packagers : List (List UInt8 × ExportEventPackager)) : List CachedEvent :=
  packagers.flatMap fun item => item.2.held

theorem holding_perm (handler : EventWriteHandler) :
    (holding handler.packagers).Perm (handler.cached ++ handler.pending) :=
  (flatMap_append_perm _ _ _).symm

theorem getEventPackager_spec (uid : Int) (maxFileSize : Nat) (key : List UInt8)
    (packagers : List (List UInt8 × ExportEventPackager)) :
    (∃ packager, (key, packager) ∈ getEventPackager uid maxFileSize key packagers) ∧
      holding (getEventPackager uid maxFileSize key packagers) = holding packagers := by
  fun_induction getEventPackager uid maxFileSize key packagers with
  | case1 => exact ⟨⟨_, mem_singleton_self _⟩, rfl⟩
  | case2 packager rest => exact ⟨⟨packager, mem_cons_self⟩, rfl⟩
  | case3 => exact ⟨⟨_, mem_cons_self⟩, rfl⟩
  | case4 other packager rest _ _ ih =>
    obtain ⟨⟨found, member⟩, kept⟩ := ih
    exact ⟨⟨found, mem_cons_of_mem _ member⟩, congrArg (packager.held ++ ·) kept⟩

/-- Every call in a stretch of calls has written its file. -/
def Clean (written : Nat → Bool) (first next : Nat) : Prop :=
  ∀ call, first ≤ call → call < next → written call = true

theorem clean_self (written : Nat → Bool) (call : Nat) : Clean written call call :=
  fun _ low high => absurd (Nat.lt_of_le_of_lt low high) (Nat.lt_irrefl _)

theorem clean_once :
    Clean written call (if used then call + 1 else call) ↔ (used = true → written call = true) := by
  cases used with
  | false => exact ⟨fun _ never => absurd never Bool.false_ne_true, fun _ => clean_self written call⟩
  | true =>
    constructor
    · intro clean _
      exact clean call (Nat.le_refl _) (Nat.lt_succ_self _)
    · intro once other low high
      obtain rfl : other = call := Nat.le_antisymm (Nat.le_of_lt_succ high) low
      exact once rfl

theorem clean_trans (low : first ≤ middle) (high : middle ≤ last) :
    Clean written first last ↔ Clean written first middle ∧ Clean written middle last := by
  constructor
  · intro clean
    exact ⟨fun call above below => clean call above (Nat.lt_of_lt_of_le below high),
      fun call above below => clean call (Nat.le_trans low above) below⟩
  · rintro ⟨early, late⟩ call above below
    rcases Nat.lt_or_ge call middle with before | after
    · exact early call above before
    · exact late call after below

section Append
variable (written : Nat → Bool) (calls : Nat) (event : CachedEvent)

theorem appendTo_calls (packagers : List (List UInt8 × ExportEventPackager)) :
    calls ≤ (appendTo written calls event packagers).2.1 ∧
      ((appendTo written calls event packagers).1 = true ↔
        Clean written calls (appendTo written calls event packagers).2.1) := by
  fun_induction appendTo written calls event packagers with
  | case1 => exact ⟨Nat.le_refl _, ⟨fun _ => clean_self written calls, fun _ => rfl⟩⟩
  | case2 packager _ _ used =>
    refine ⟨?_, (appendEvent_iff _ _ packager).trans clean_once.symm⟩
    unfold used
    split
    · exact Nat.le_succ calls
    · exact Nat.le_refl calls
  | case3 _ _ _ _ _ ih => exact ih

theorem appendTo_ok {packagers : List (List UInt8 × ExportEventPackager)}
    (present : ∃ packager, (getPackagerKey event, packager) ∈ packagers)
    (ok : (appendTo written calls event packagers).1 = true) :
    (holding (appendTo written calls event packagers).2.2).Perm (event :: holding packagers) := by
  fun_induction appendTo written calls event packagers with
  | case1 =>
    obtain ⟨packager, absent⟩ := present
    cases absent
  | case2 packager rest => exact (appendEvent_ok _ _ packager ok).append_right (holding rest)
  | case3 key packager rest other _ ih =>
    obtain ⟨found, member⟩ := present
    have inRest : (getPackagerKey event, found) ∈ rest := by
      rcases mem_cons.mp member with same | inside
      · exact absurd (congrArg Prod.fst same).symm other
      · exact inside
    exact ((ih ⟨found, inRest⟩ ok).append_left packager.held).trans perm_middle

end Append

def Ascending (packagers : List (List UInt8 × ExportEventPackager)) : Prop :=
  packagers.Pairwise fun first second => first.1 < second.1

variable {packagers : List (List UInt8 × ExportEventPackager)}

theorem mem_getEventPackager {uid : Int} {maxFileSize : Nat}
    (member : item ∈ getEventPackager uid maxFileSize key packagers) :
    item ∈ packagers ∨ item = (key, .new uid maxFileSize) := by
  fun_induction getEventPackager uid maxFileSize key packagers with
  | case1 => exact .inr (mem_singleton.mp member)
  | case2 => exact .inl member
  | case3 => exact (mem_cons.mp member).symm
  | case4 _ _ _ _ _ ih =>
    rcases mem_cons.mp member with same | inside
    · exact .inl (same ▸ mem_cons_self)
    · exact (ih inside).imp (mem_cons_of_mem _) id

theorem ascending_getEventPackager (uid : Int) (maxFileSize : Nat) (key : List UInt8)
    (ascending : Ascending packagers) :
    Ascending (getEventPackager uid maxFileSize key packagers) := by
  fun_induction getEventPackager uid maxFileSize key packagers with
  | case1 => exact pairwise_singleton _ _
  | case2 => exact ascending
  | case3 other packager rest _ before =>
    refine pairwise_cons.mpr ⟨fun item member => ?_, ascending⟩
    rcases mem_cons.mp member with rfl | inside
    · exact before
    · exact List.lt_trans before ((pairwise_cons.mp ascending).1 item inside)
  | case4 other packager rest different after ih =>
    obtain ⟨low, others⟩ := pairwise_cons.mp ascending
    refine pairwise_cons.mpr ⟨fun item member => ?_, ih others⟩
    rcases mem_getEventPackager member with inside | rfl
    · exact low item inside
    · exact Std.lt_of_le_of_ne after different

theorem keys_appendTo (written : Nat → Bool) (calls : Nat) (event : CachedEvent)
    (packagers : List (List UInt8 × ExportEventPackager)) :
    (appendTo written calls event packagers).2.2.map Prod.fst = packagers.map Prod.fst := by
  fun_induction appendTo written calls event packagers with
  | case1 => rfl
  | case2 => rfl
  | case3 key _ _ _ _ ih => exact congrArg (key :: ·) ih

variable {written : Nat → Bool} {calls : Nat}

theorem cleared_first (ascending : Ascending ((key, packager) :: rest)) (cleared : emptied.packagedEvents = []) :
    ∀ item ∈ (key, emptied) :: rest, item.1 = key → item.2.packagedEvents = [] := by
  refine forall_mem_cons.mpr ⟨fun _ => cleared, fun item inside sameKey => ?_⟩
  have above := (pairwise_cons.mp ascending).1 item inside
  rw [sameKey] at above
  exact absurd above (List.lt_irrefl _)

theorem holding_packaged (call : Nat) (written : Bool) (packager : ExportEventPackager) :
    holding ((key, (packager.package call written).2) :: rest) ⊆ holding ((key, packager) :: rest) :=
  append_subset.mpr ⟨Subset.trans (package_subset _ _ packager) (subset_append_left _ _), subset_append_right _ _⟩

theorem appendTo_failed (ascending : Ascending packagers)
    (failed : (appendTo written calls event packagers).1 = false) :
    (∀ item ∈ (appendTo written calls event packagers).2.2,
        item.1 = getPackagerKey event → item.2.packagedEvents = []) ∧
      holding (appendTo written calls event packagers).2.2 ⊆ holding packagers := by
  fun_induction appendTo written calls event packagers with
  | case1 => cases failed
  | case2 packager rest appended =>
    have left : appended.2 = _ := appendEvent_failed _ _ packager failed
    rw [left]
    exact ⟨cleared_first ascending (package_cleared _ _ packager), holding_packaged _ _ packager⟩
  | case3 key packager rest other _ ih =>
    obtain ⟨cleared, kept⟩ := ih (pairwise_cons.mp ascending).2 failed
    exact ⟨forall_mem_cons.mpr ⟨fun sameKey => absurd sameKey other, cleared⟩, append_subset.mpr
      ⟨subset_append_left _ _, Subset.trans kept (subset_append_right _ _)⟩⟩

theorem packageFrom_calls (written : Nat → Bool) (calls : Nat)
    (packagers : List (List UInt8 × ExportEventPackager)) :
    calls ≤ (packageFrom written calls packagers).2.1 ∧
      ((packageFrom written calls packagers).1 = none ↔
        Clean written calls (packageFrom written calls packagers).2.1) := by
  induction packagers generalizing calls with
  | nil => exact ⟨Nat.le_refl _, ⟨fun _ => clean_self written calls, fun _ => rfl⟩⟩
  | cons item rest ih =>
    obtain ⟨key, packager⟩ := item
    have used : calls ≤ if packager.writes then calls + 1 else calls := by
      split
      · exact Nat.le_succ calls
      · exact Nat.le_refl calls
    have first := (package_iff calls (written calls) packager).trans clean_once.symm
    rw [packageFrom]
    cases packaged : (packager.package calls (written calls)).1 with
    | true =>
      obtain ⟨later, others⟩ := ih (if packager.writes then calls + 1 else calls)
      refine ⟨Nat.le_trans used later, ?_⟩
      simp
      rw [clean_trans used later]
      exact others.trans (and_iff_right (first.mp packaged)).symm
    | false =>
      refine ⟨used, ?_⟩
      rw [packaged] at first
      simpa using first

theorem packageFrom_ok (ok : (packageFrom written calls packagers).1 = none) :
    (∀ item ∈ (packageFrom written calls packagers).2.2, item.2.packagedEvents = []) ∧
      (holding (packageFrom written calls packagers).2.2).Perm (holding packagers) := by
  fun_induction packageFrom written calls packagers with
  | case1 => exact ⟨nofun, .refl _⟩
  | case2 calls key packager rest packaged used done later ih =>
    obtain ⟨cleared, kept⟩ := ih ok
    exact ⟨forall_mem_cons.mpr ⟨package_cleared _ _ packager, cleared⟩, (package_ok _ _ packager done).append kept⟩
  | case3 => cases ok

theorem packageFrom_failed (ascending : Ascending packagers)
    (failed : (packageFrom written calls packagers).1 = some key) :
    (∀ item ∈ (packageFrom written calls packagers).2.2, item.1 = key →
        item.2.packagedEvents = []) ∧
      holding (packageFrom written calls packagers).2.2 ⊆ holding packagers := by
  fun_induction packageFrom written calls packagers with
  | case1 => cases failed
  | case2 calls other packager rest packaged used done later ih =>
    obtain ⟨cleared, kept⟩ := ih (pairwise_cons.mp ascending).2 failed
    exact ⟨forall_mem_cons.mpr ⟨fun _ => package_cleared _ _ packager, cleared⟩, append_subset.mpr
      ⟨Subset.trans (package_subset _ _ packager) (subset_append_left _ _), Subset.trans kept (subset_append_right _ _)⟩⟩
  | case3 calls other packager rest packaged used refused =>
    cases failed
    exact ⟨cleared_first ascending (package_cleared _ _ packager), holding_packaged _ _ packager⟩

theorem keys_packageFrom (written : Nat → Bool) (calls : Nat)
    (packagers : List (List UInt8 × ExportEventPackager)) :
    (packageFrom written calls packagers).2.2.map Prod.fst = packagers.map Prod.fst := by
  fun_induction packageFrom written calls packagers with
  | case1 => rfl
  | case2 calls key packager rest packaged used done later ih => exact congrArg (key :: ·) ih
  | case3 => rfl

theorem ascending_of_keys {packagers others : List (List UInt8 × ExportEventPackager)}
    (same : others.map Prod.fst = packagers.map Prod.fst) (ascending : Ascending packagers) :
    Ascending others := by
  have keys : (packagers.map Prod.fst).Pairwise (· < ·) := pairwise_map.mpr ascending
  rw [← same] at keys
  exact pairwise_map.mp keys

/-- What no request changes before it is finished. -/
structure Account (handler next : EventWriteHandler) : Prop where
  exported : next.exported = handler.exported
  ascending : Ascending next.packagers
  later : handler.calls ≤ next.calls

theorem Account.trans (early : Account first second) (late : Account second third) : Account first third :=
  ⟨late.exported.trans early.exported, late.ascending, Nat.le_trans early.later late.later⟩

/-- No other packager holds events when one fails. -/
def alone (failure : Failure) : Prop :=
  ∀ item ∈ failure.handler.packagers, item.1 ≠ failure.key → item.2.packagedEvents.events = []

/-- What a failed request leaves behind before it is rolled back. -/
structure Failed (handler : EventWriteHandler) (written : Nat → Bool) (given : List CachedEvent)
    (failure : Failure) : Prop where
  account : Account handler failure.handler
  unclean : ¬ Clean written handler.calls failure.handler.calls
  cleared : ∀ item ∈ failure.handler.packagers, item.1 = failure.key → item.2.packagedEvents = []
  inside : holding failure.handler.packagers ⊆ given ++ holding handler.packagers

variable {failure : Failure}

theorem Failed.shift {first second : EventWriteHandler} (account : Account first second)
    (moved : later ++ holding second.packagers ⊆ given ++ holding first.packagers)
    (failed : Failed second written later failure) : Failed first written given failure :=
  ⟨account.trans failed.account,
    fun all => failed.unclean ((clean_trans account.later failed.account.later).mp all).2,
    failed.cleared, List.Subset.trans failed.inside moved⟩

variable {handler : EventWriteHandler}

theorem Failed.weaken (inside : given ⊆ more) (failed : Failed handler written given failure) :
    Failed handler written more failure :=
  ⟨failed.account, failed.unclean, failed.cleared, List.Subset.trans failed.inside
    (append_subset.mpr ⟨List.Subset.trans inside (subset_append_left _ _),
      subset_append_right _ _⟩)⟩

section Requests
variable (written : Nat → Bool) {handler : EventWriteHandler} (ascending : Ascending handler.packagers)
include ascending

theorem appendEvent_spec (maxFileSize : Nat) (event : CachedEvent) :
    (∃ next, appendEvent written maxFileSize handler event = .ok next ∧
      Account handler next ∧ Clean written handler.calls next.calls ∧
      (holding next.packagers).Perm (event :: holding handler.packagers)) ∨
    ∃ failure, appendEvent written maxFileSize handler event = .error failure ∧
      Failed handler written [event] failure := by
  obtain ⟨present, kept⟩ := getEventPackager_spec event.uid maxFileSize (getPackagerKey event)
    handler.packagers
  have sorted := ascending_getEventPackager event.uid maxFileSize (getPackagerKey event) ascending
  obtain ⟨later, clean⟩ := appendTo_calls written handler.calls event
    (getEventPackager event.uid maxFileSize (getPackagerKey event) handler.packagers)
  have rising := ascending_of_keys (keys_appendTo written handler.calls event _) sorted
  rw [appendEvent]
  cases ok : (appendTo written handler.calls event
    (getEventPackager event.uid maxFileSize (getPackagerKey event) handler.packagers)).1 with
  | true =>
    have grown := appendTo_ok written handler.calls event present ok
    rw [kept] at grown
    exact .inl ⟨_, rfl, ⟨rfl, rising, later⟩, clean.mp ok, grown⟩
  | false =>
    obtain ⟨cleared, fewer⟩ := appendTo_failed sorted ok
    rw [kept] at fewer
    refine .inr ⟨_, rfl, ⟨rfl, rising, later⟩, fun all => ?_, cleared,
      List.Subset.trans fewer (subset_append_right _ _)⟩
    cases ok.symm.trans (clean.mpr all)

theorem appendAll_spec (maxFileSize : Nat) (events : List CachedEvent) :
    (∃ next, events.foldlM (appendEvent written maxFileSize) handler = .ok next ∧
      Account handler next ∧ Clean written handler.calls next.calls ∧
      (holding next.packagers).Perm (events ++ holding handler.packagers)) ∨
    ∃ failure, events.foldlM (appendEvent written maxFileSize) handler = .error failure ∧
      Failed handler written events failure := by
  induction events generalizing handler with
  | nil => exact .inl ⟨handler, rfl, ⟨rfl, ascending, Nat.le_refl _⟩, clean_self _ _, .refl _⟩
  | cons event rest ih =>
    rw [foldlM_cons]
    rcases appendEvent_spec written ascending maxFileSize event with
      ⟨middle, appended, account, clean, grown⟩ | ⟨failure, failed, left⟩
    · rw [appended]
      rcases ih account.ascending with ⟨next, ran, account', clean', grown'⟩ | ⟨failure, failed, left⟩
      · refine .inl ⟨next, ran, account.trans account',
          (clean_trans account.later account'.later).mpr ⟨clean, clean'⟩, ?_⟩
        exact (grown'.trans (grown.append_left rest)).trans perm_middle
      · exact .inr ⟨failure, failed,
          left.shift account ((grown.append_left rest).trans perm_middle).subset⟩
    · rw [failed]
      exact .inr ⟨failure, rfl, left.weaken (cons_subset_cons _ (nil_subset _))⟩

theorem packageAll_spec :
    (∃ next, handler.packageAll written = .ok next ∧ Account handler next ∧
      Clean written handler.calls next.calls ∧
      (∀ item ∈ next.packagers, item.2.packagedEvents = []) ∧
      (holding next.packagers).Perm (holding handler.packagers)) ∨
    ∃ failure, handler.packageAll written = .error failure ∧ Failed handler written [] failure := by
  obtain ⟨later, clean⟩ := packageFrom_calls written handler.calls handler.packagers
  have rising := ascending_of_keys (keys_packageFrom written handler.calls handler.packagers) ascending
  rw [packageAll]
  cases ok : (packageFrom written handler.calls handler.packagers).1 with
  | none =>
    obtain ⟨cleared, kept⟩ := packageFrom_ok ok
    exact .inl ⟨_, rfl, ⟨rfl, rising, later⟩, clean.mp ok, cleared, kept⟩
  | some key =>
    obtain ⟨cleared, fewer⟩ := packageFrom_failed ascending ok
    refine .inr ⟨_, rfl, ⟨rfl, rising, later⟩, fun all => ?_, cleared, fewer⟩
    cases ok.symm.trans (clean.mpr all)

end Requests

theorem keys_clearFiles (packagers : List (List UInt8 × ExportEventPackager)) :
    (clearFiles packagers).map Prod.fst = packagers.map Prod.fst := by
  rw [clearFiles, map_map]
  rfl

theorem holding_clearFiles (packagers : List (List UInt8 × ExportEventPackager)) :
    holding (clearFiles packagers) = packagers.flatMap fun item => item.2.packagedEvents.events := by
  rw [holding, clearFiles, flatMap_map]
  refine congrArg (packagers.flatMap ·) (funext fun item => ?_)
  exact append_nil _

variable (cleared : ∀ item ∈ packagers, item.2.packagedEvents = [])
include cleared

theorem cleared_clearFiles :
    ∀ item ∈ clearFiles packagers, item.2.packagedEvents = [] :=
  forall_mem_map.mpr cleared

theorem events_eq_nil :
    (packagers.flatMap fun item => item.2.packagedEvents.events) = [] := by
  rw [flatMap_eq_nil_iff]
  intro item member
  rw [cleared item member]
  rfl

omit cleared

theorem delivered_finish (cleared : ∀ item ∈ handler.packagers, item.2.packagedEvents = []) :
    handler.finish.delivered.Perm (handler.delivered ++ holding handler.packagers) := by
  have files : handler.pending.Perm (holding handler.packagers) := by
    have all := holding_perm handler
    rw [cached, events_eq_nil cleared, nil_append] at all
    exact all.symm
  rw [delivered, finish, flatMap_append, flatMap_assoc]
  exact files.append_left handler.delivered

/-- What the request that completes an attempt leaves behind. -/
structure Finished (handler : EventWriteHandler) (written : Nat → Bool)
    (events : List CachedEvent) (next : EventWriteHandler) : Prop where
  ascending : Ascending next.packagers
  later : handler.calls ≤ next.calls
  clean : Clean written handler.calls next.calls
  cleared : ∀ item ∈ next.packagers, item.2.packagedEvents = []
  empty : holding next.packagers = []
  moved : next.delivered.Perm (handler.delivered ++ events)

theorem Account.delivered {next : EventWriteHandler} (account : Account handler next) :
    next.delivered = handler.delivered :=
  congrArg (List.flatMap ZipFile.events) account.exported

theorem Finished.shift {next : EventWriteHandler} (account : Account first second)
    (clean : Clean written first.calls second.calls) (same : events.Perm given)
    (finished : Finished second written events next) : Finished first written given next := by
  refine ⟨finished.ascending, Nat.le_trans account.later finished.later,
    (clean_trans account.later finished.later).mpr ⟨clean, finished.clean⟩, finished.cleared,
    finished.empty, ?_⟩
  have moved := finished.moved
  rw [account.delivered] at moved
  exact moved.trans (same.append_left _)

theorem handleRequest_open (written : Nat → Bool) (ascending : Ascending handler.packagers)
    (events : List CachedEvent) (maxFileSize : Nat) :
    (∃ next, handler.handleRequest written ⟨events, false, maxFileSize⟩ = .ok next ∧
      Account handler next ∧ Clean written handler.calls next.calls ∧
      (holding next.packagers).Perm (events ++ holding handler.packagers)) ∨
    ∃ failure, handler.handleRequest written ⟨events, false, maxFileSize⟩ = .error failure ∧
      Failed handler written events failure := by
  rw [handleRequest]
  rcases appendAll_spec written ascending maxFileSize events with
    ⟨next, ran, account, clean, grown⟩ | ⟨failure, ran, failed⟩
  · rw [ran]
    exact .inl ⟨next, rfl, account, clean, grown⟩
  · rw [ran]
    exact .inr ⟨failure, rfl, failed⟩

theorem handleRequest_last (written : Nat → Bool) (ascending : Ascending handler.packagers)
    (events : List CachedEvent) (maxFileSize : Nat) :
    (∃ next, handler.handleRequest written ⟨events, true, maxFileSize⟩ = .ok next ∧
      Finished handler written (events ++ holding handler.packagers) next) ∨
    ∃ failure, handler.handleRequest written ⟨events, true, maxFileSize⟩ = .error failure ∧
      Failed handler written events failure := by
  rw [handleRequest]
  rcases appendAll_spec written ascending maxFileSize events with
    ⟨middle, ran, account, clean, grown⟩ | ⟨failure, ran, failed⟩
  · rw [ran]
    rcases packageAll_spec written account.ascending with
      ⟨next, packaged, account', clean', cleared, kept⟩ | ⟨failure, packaged, failed⟩
    · simp only [Bool.not_true, Bool.false_eq_true, if_false, packaged]
      have moved := delivered_finish cleared
      rw [account'.delivered] at moved
      have finished : Finished middle written (holding middle.packagers) next.finish :=
        ⟨ascending_of_keys (keys_clearFiles next.packagers) account'.ascending, account'.later, clean',
          cleared_clearFiles cleared, (holding_clearFiles next.packagers).trans (events_eq_nil cleared),
          moved.trans (kept.append_left _)⟩
      exact .inl ⟨next.finish, rfl, finished.shift account clean grown⟩
    · simp only [Bool.not_true, Bool.false_eq_true, if_false, packaged]
      exact .inr ⟨failure, rfl, failed.shift account grown.subset⟩
  · rw [ran]
    exact .inr ⟨failure, rfl, failed⟩

theorem packageFrom_cleared (cleared : ∀ item ∈ packagers, item.2.packagedEvents = []) :
    (packageFrom written calls packagers).1 = none := by
  induction packagers with
  | nil => rfl
  | cons item rest ih =>
    obtain ⟨key, packager⟩ := item
    obtain ⟨empty, others⟩ := forall_mem_cons.mp cleared
    have packaged : packager.package calls (written calls) = (true, packager) := if_pos empty
    have unused : packager.writes = false := by simpa [writes] using empty
    simpa only [packageFrom, packaged, unused, if_true, Bool.false_eq_true, if_false] using ih others

theorem handleRequest_nothing (written : Nat → Bool)
    (cleared : ∀ item ∈ handler.packagers, item.2.packagedEvents = []) (maxFileSize : Nat) :
    ∃ next, handler.handleRequest written ⟨[], true, maxFileSize⟩ = .ok next := by
  have packaged := @packageFrom_cleared handler.packagers written handler.calls cleared
  rw [handleRequest, foldlM_nil]
  simp only [pure, Except.pure, Bool.not_true, Bool.false_eq_true, if_false, packageAll, packaged]
  exact ⟨_, rfl⟩

theorem holding_rollback (handler : EventWriteHandler) :
    holding handler.rollback.packagers = handler.cached :=
  holding_clearFiles handler.packagers

theorem cached_eq_nil_iff (failed : Failed handler written given failure) :
    failure.handler.cached = [] ↔ alone failure := by
  rw [cached, flatMap_eq_nil_iff]
  constructor
  · intro empty item member _
    exact empty item member
  · intro single item member
    by_cases same : item.1 = failure.key
    · rw [failed.cleared item member same]
      rfl
    · exact single item member same

end EventWriteHandler
end Hiview.EventExport
