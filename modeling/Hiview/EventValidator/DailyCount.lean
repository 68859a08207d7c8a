import Hiview.EventValidator.DailyController

/-! The counts of a day in the cache and in the database. Between the flushes the database lags
behind the cache; what it will hold after the next flush is the number of calls. -/
namespace Hiview.EventValidator
open Assoc DailyDbHelper
open DailyController (updateCache updateDb updateRows)

def stored (rows : List (CacheKey × EventInfo)) (key : CacheKey) : Option Int32 :=
  (lookup rows key).map EventInfo.count

section
variable (rows : List (CacheKey × EventInfo)) (key other : CacheKey) (info : EventInfo)

theorem stored_updateEventInfo :
    stored (updateEventInfo rows key info) other =
      if other = key then (stored rows other).map (fun _ => info.count) else stored rows other := by
  rw [stored, updateEventInfo, lookup_map_at rows key other fun row =>
    ⟨info.count, if info.exceedTime = 0 then row.exceedTime else info.exceedTime⟩]
  split
  · rw [stored, Option.map_map, Option.map_map]
    rfl
  · rfl

theorem stored_insertEventInfo :
    stored (insertEventInfo rows key info) other =
      (stored rows other).or (if other = key then some info.count else none) := by
  rw [stored, insertEventInfo, lookup_append, Option.map_or, lookup_cons]
  by_cases same : other = key
  · simp [stored, same]
  · simp [stored, same, Ne.symm same, lookup]

end

variable {key : CacheKey}

theorem stored_updateRows_other (other : entry.1 ≠ key) :
    stored (updateRows rows entry) key = stored rows key := by
  unfold updateRows
  split
  · rfl
  · rw [stored_updateEventInfo, if_neg (Ne.symm other)]

theorem stored_flush_absent (absent : lookup cache key = none) :
    stored (cache.foldl updateRows rows) key = stored rows key := by
  induction cache generalizing rows with
  | nil => rfl
  | cons entry rest ih =>
    rw [lookup_cons] at absent
    by_cases same : entry.1 = key
    · simp [same] at absent
    · rw [if_neg same] at absent
      rw [List.foldl_cons, ih absent, stored_updateRows_other same]

theorem stored_flush (distinct : Distinct cache) (found : lookup cache key = some info) :
    stored (cache.foldl updateRows rows) key =
      if info.count = 1 then stored rows key else (stored rows key).map fun _ => info.count := by
  induction cache generalizing rows with
  | nil => cases found
  | cons entry rest ih =>
    obtain ⟨fresh, distinctRest⟩ := List.nodup_cons.mp distinct
    rw [lookup_cons] at found
    rw [List.foldl_cons]
    by_cases same : entry.1 = key
    · have absent : lookup rest key = none := by
        cases later : lookup rest key with
        | none => rfl
        | some other =>
          have member := (lookup_eq_some distinctRest).mp later
          exact absurd (List.mem_map_of_mem member) (same ▸ fresh)
      rw [if_pos same, Option.some.injEq] at found
      rw [stored_flush_absent absent, updateRows, found]
      split
      · rfl
      · rw [stored_updateEventInfo, if_pos same.symm]
    · rw [if_neg same] at found
      rw [ih distinctRest found, stored_updateRows_other same]

/-- The cache and the rows count the numbers: a row that is not up to date will be written with the
next flush. -/
structure Tallies (numbers : CacheKey → Nat) (cache : List (CacheKey × ControlInfo))
    (rows : List (CacheKey × EventInfo)) : Prop where
  distinct : Distinct cache
  fits : ∀ key, numbers key < 2147483648
  cached : ∀ key info, lookup cache key = some info → info.count.toInt = numbers key
  written : ∀ key, 0 < numbers key → ∃ count, stored rows key = some count ∧
    (count.toInt = numbers key ∨ ∃ info, lookup cache key = some info ∧ info.count ≠ 1)
  unused : ∀ key, numbers key = 0 → stored rows key = none ∧ lookup cache key = none

theorem Tallies.empty (none_yet : ∀ key, numbers key = 0) : Tallies numbers [] [] where
  distinct := List.nodup_nil
  fits key := by
    rw [none_yet key]
    decide
  cached key info found := by cases found
  written key positive := absurd (none_yet key) (by omega)
  unused key _ := ⟨rfl, rfl⟩

variable {numbers : CacheKey → Nat} {cache : List (CacheKey × ControlInfo)} {rows : List (CacheKey × EventInfo)}

theorem Tallies.stored_eq (tallies : Tallies numbers cache rows) (absent : lookup cache key = none) :
    ((stored rows key).map Int32.toInt).getD 0 = numbers key := by
  by_cases used : 0 < numbers key
  · obtain ⟨count, row, here | ⟨info, found, -⟩⟩ := tallies.written key used
    · simp [row, here]
    · rw [absent] at found
      cases found
  · have zero : numbers key = 0 := by omega
    simp [(tallies.unused key zero).1, zero]

theorem Tallies.flush (tallies : Tallies numbers cache rows) :
    Tallies numbers [] (cache.foldl updateRows rows) where
  distinct := List.nodup_nil
  fits := tallies.fits
  cached key info found := by cases found
  written key positive := by
    obtain ⟨count, row, upToDate⟩ := tallies.written key positive
    cases found : lookup cache key with
    | none =>
      refine ⟨count, (stored_flush_absent found).trans row, .inl ?_⟩
      rcases upToDate with here | ⟨info, other, -⟩
      · exact here
      · rw [found] at other
        cases other
    | some info =>
      rw [stored_flush tallies.distinct found]
      split
      · rename_i isFirst
        refine ⟨count, row, .inl ?_⟩
        rcases upToDate with here | ⟨other, same, later⟩
        · exact here
        · rw [found] at same
          cases same
          exact absurd isFirst later
      · exact ⟨info.count, by rw [row, Option.map_some], .inl (tallies.cached key info found)⟩
  unused key zero := by
    obtain ⟨row, absent⟩ := tallies.unused key zero
    exact ⟨(stored_flush_absent absent).trans row, rfl⟩

theorem Tallies.getCount {controller : DailyController}
    (tallies : Tallies numbers controller.cache controller.rows) (key : CacheKey) :
    (controller.getCount key).toInt = numbers key := by
  unfold DailyController.getCount
  cases found : lookup controller.cache key with
  | some info => exact tallies.cached key info found
  | none =>
    have right := tallies.stored_eq found
    unfold queryEventInfo
    cases row : lookup controller.rows key with
    | none => simpa [stored, row] using right
    | some info =>
      have same : info.count.toInt = numbers key := by simpa [stored, row] using right
      have nonneg : ¬ info.count < 0 := by
        rw [Int32.lt_iff_toInt_lt, same]
        simp
      simpa [nonneg] using same

/-- After a check the count is in the cache, under the threshold that was there before, and in a new row
if it is the first. -/
theorem updateCacheAndDb_eq (controller : DailyController) (key : CacheKey) (threshold count : Int32) (time : Int) :
    ∃ cacheTime rowTime, controller.updateCacheAndDb key threshold count time =
      { controller with
        cache := insert controller.cache key
          ⟨((lookup controller.cache key).map ControlInfo.threshold).getD threshold, count, cacheTime⟩
        rows := if count = 1 then insertEventInfo controller.rows key ⟨count, rowTime⟩ else controller.rows } := by
  unfold DailyController.updateCacheAndDb updateDb updateCache
  dsimp only
  let exceedTime := if count = threshold + 1 then time else 0
  cases found : lookup controller.cache key with
  | none =>
    refine ⟨exceedTime, exceedTime, ?_⟩
    split <;> rfl
  | some info =>
    refine ⟨if exceedTime = 0 then info.exceedTime else exceedTime, exceedTime, ?_⟩
    split <;> rfl

def bumped (numbers : CacheKey → Nat) (key : CacheKey) (other : CacheKey) : Nat :=
  if other = key then numbers key + 1 else numbers other

theorem bumped_self (numbers : CacheKey → Nat) (key : CacheKey) : bumped numbers key key = numbers key + 1 :=
  if_pos rfl

theorem bumped_other (numbers : CacheKey → Nat) (different : other ≠ key) :
    bumped numbers key other = numbers other :=
  if_neg different

theorem Tallies.checked {controller : DailyController} (tallies : Tallies numbers controller.cache controller.rows)
    {count : Int32} (counted : count.toInt = numbers key + 1) (threshold : Int32) (time : Int) :
    Tallies (bumped numbers key) (controller.updateCacheAndDb key threshold count time).cache
      (controller.updateCacheAndDb key threshold count time).rows := by
  obtain ⟨cacheTime, rowTime, result⟩ := updateCacheAndDb_eq controller key threshold count time
  rw [result]
  have isFirst : count = 1 ↔ numbers key = 0 := by
    rw [← Int32.toInt_inj, counted]
    have one : (1 : Int32).toInt = 1 := rfl
    omega
  have bound : count.toInt < 2147483648 := Int32.toInt_lt count
  have row (other : CacheKey) : stored (if count = 1 then insertEventInfo controller.rows key ⟨count, rowTime⟩
      else controller.rows) other =
      if other = key ∧ numbers key = 0 then some count else stored controller.rows other := by
    by_cases new : numbers key = 0
    · rw [if_pos (isFirst.mpr new), stored_insertEventInfo]
      by_cases same : other = key
      · subst same
        simp [(tallies.unused other new).1, new]
      · simp [same]
    · rw [if_neg (fun one => new (isFirst.mp one)), if_neg (fun both => new both.2)]
  constructor
  · exact tallies.distinct.insert _ _
  · intro other
    by_cases same : other = key
    · rw [same, bumped_self]
      omega
    · rw [bumped_other numbers same]
      exact tallies.fits other
  · intro other info found
    rw [lookup_insert] at found
    by_cases same : other = key
    · rw [if_pos same] at found
      cases found
      rw [same, bumped_self]
      exact counted
    · rw [if_neg same] at found
      rw [bumped_other numbers same]
      exact tallies.cached other info found
  · intro other positive
    rw [row, lookup_insert]
    by_cases same : other = key
    · subst same
      rw [bumped_self, if_pos rfl]
      by_cases new : numbers other = 0
      · exact ⟨count, if_pos ⟨rfl, new⟩, .inl counted⟩
      · obtain ⟨old, there, -⟩ := tallies.written other (by omega)
        refine ⟨old, (if_neg fun both => new both.2).trans there, .inr ⟨_, rfl, ?_⟩⟩
        exact fun one => new (isFirst.mp one)
    · rw [bumped_other numbers same] at positive ⊢
      rw [if_neg fun both => same both.1, if_neg same]
      exact tallies.written other positive
  · intro other zero
    by_cases same : other = key
    · rw [same, bumped_self] at zero
      cases zero
    · rw [bumped_other numbers same] at zero
      rw [row, lookup_insert, if_neg fun both => same both.1, if_neg same]
      exact tallies.unused other zero

end Hiview.EventValidator
