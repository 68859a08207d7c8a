import Mathlib.Data.List.Nodup
import Mathlib.Data.List.Perm.Basic
import Mathlib.Data.Finset.Card

/-! Association lists under distinct keys: looking a key up does not depend on
the order of the entries. -/
namespace Hiview.Assoc
open List Option
variable {Key Value : Type} {entries others : List (Key × Value)}

def Distinct (entries : List (Key × Value)) : Prop := (entries.map Prod.fst).Nodup

theorem Distinct.perm (distinct : Distinct entries) (reordered : entries.Perm others) :
    Distinct others := (reordered.map Prod.fst).nodup_iff.mp distinct

variable [DecidableEq Key] {key : Key} {value : Value}

def lookup (entries : List (Key × Value)) (key : Key) : Option Value :=
  (entries.find? (·.1 = key)).map Prod.snd

theorem lookup_cons (entry : Key × Value) (rest : List (Key × Value)) (key : Key) :
    lookup (entry :: rest) key = if entry.1 = key then some entry.2 else lookup rest key := by
  rw [lookup, List.find?_cons]
  by_cases same : entry.1 = key
  · simp [same]
  · simp [same, lookup]

theorem lookup_eq_some (distinct : Distinct entries) :
    lookup entries key = some value ↔ (key, value) ∈ entries := by
  induction entries with
  | nil => simp [lookup]
  | cons entry rest ih =>
    obtain ⟨fresh, distinctRest⟩ := nodup_cons.mp distinct
    rw [lookup_cons]
    by_cases same : entry.1 = key
    · have absent : (key, value) ∉ rest := fun member =>
        fresh (mem_map.mpr ⟨(key, value), member, same.symm⟩)
      subst same
      rw [if_pos rfl, Option.some.injEq, mem_cons]
      refine ⟨fun equal => .inl (Prod.ext rfl equal.symm), fun member => ?_⟩
      exact member.elim (fun equal => (congrArg Prod.snd equal).symm) fun later => (absent later).elim
    · have other : (key, value) ≠ entry := fun equal => same (congrArg Prod.fst equal).symm
      rw [if_neg same, ih distinctRest, mem_cons, or_iff_right other]

theorem lookup_perm (distinct : Distinct entries) (reordered : entries.Perm others) (key : Key) :
    lookup entries key = lookup others key := by
  apply Option.ext
  intro value
  rw [lookup_eq_some distinct, lookup_eq_some (distinct.perm reordered), reordered.mem_iff]

theorem lookup_eq_none : lookup entries key = none ↔ key ∉ entries.map Prod.fst := by
  rw [lookup, map_eq_none_iff, List.find?_eq_none, List.mem_map]
  constructor
  · rintro unmatched ⟨entry, member, same⟩
    exact unmatched entry member (decide_eq_true same)
  · intro absent entry member same
    exact absent ⟨entry, member, of_decide_eq_true same⟩

theorem Distinct.append_fresh (distinct : Distinct entries) (fresh : lookup entries key = none) (value : Value) :
    Distinct (entries ++ [(key, value)]) := by
  rw [Distinct, map_append]
  refine nodup_append.mpr ⟨distinct, nodup_singleton _, ?_⟩
  intro used member new single same
  rw [same, mem_singleton.mp single] at member
  exact lookup_eq_none.mp fresh member

theorem lookup_append (entries others : List (Key × Value)) (key : Key) :
    lookup (entries ++ others) key = (lookup entries key).or (lookup others key) := by
  rw [lookup, List.find?_append, map_or]
  rfl

theorem lookup_filter_ne (entries : List (Key × Value)) (key other : Key) :
    lookup (entries.filter (·.1 ≠ key)) other = if other = key then none else lookup entries other := by
  induction entries with
  | nil => simp [lookup]
  | cons entry rest ih =>
    by_cases dropped : entry.1 = key
    · rw [filter_cons_of_neg (by simpa using dropped), ih, lookup_cons]
      by_cases same : other = key
      · simp [same]
      · simp [same, dropped, Ne.symm same]
    · rw [filter_cons_of_pos (by simpa using dropped), lookup_cons, ih, lookup_cons]
      by_cases same : other = key
      · simp [same, dropped]
      · simp [same]

theorem lookup_filter_value (distinct : Distinct entries) (keep : Value → Bool) (key : Key) :
    lookup (entries.filter (keep ·.2)) key = (lookup entries key).filter keep := by
  have kept : Distinct (entries.filter (keep ·.2)) := (filter_sublist.map Prod.fst).nodup distinct
  apply Option.ext
  intro value
  rw [lookup_eq_some kept, mem_filter, filter_eq_some_iff, lookup_eq_some distinct]

theorem Distinct.map_at (distinct : Distinct entries) (key : Key) (change : Value → Value) :
    Distinct (entries.map fun entry => if entry.1 = key then (entry.1, change entry.2) else entry) := by
  have keys : (entries.map fun entry => if entry.1 = key then (entry.1, change entry.2) else entry).map Prod.fst =
      entries.map Prod.fst := by
    rw [List.map_map]
    apply List.map_congr_left
    intro entry _
    rw [Function.comp_apply]
    split <;> rfl
  rwa [Distinct, keys]

theorem lookup_map_at (entries : List (Key × Value)) (key other : Key) (change : Value → Value) :
    lookup (entries.map fun entry => if entry.1 = key then (entry.1, change entry.2) else entry) other =
      if other = key then (lookup entries other).map change else lookup entries other := by
  induction entries with
  | nil => simp [lookup]
  | cons entry rest ih =>
    rw [map_cons, lookup_cons, ih, lookup_cons]
    by_cases updated : entry.1 = key
    · by_cases same : other = key
      · simp [updated, same]
      · simp [updated, same, Ne.symm same]
    · by_cases found : entry.1 = other
      · subst found
        simp [updated]
      · simp [updated, found]

/-- The value of a key is changed, or the key is added. -/
def insert (entries : List (Key × Value)) (key : Key) (value : Value) : List (Key × Value) :=
  (key, value) :: entries.filter (·.1 ≠ key)

theorem lookup_insert (entries : List (Key × Value)) (key other : Key) (value : Value) :
    lookup (insert entries key value) other = if other = key then some value else lookup entries other := by
  rw [insert, lookup_cons, lookup_filter_ne]
  by_cases same : other = key
  · simp [same]
  · simp [same, Ne.symm same]

theorem Distinct.insert (distinct : Distinct entries) (key : Key) (value : Value) :
    Distinct (insert entries key value) := by
  refine nodup_cons.mpr ⟨?_, (filter_sublist.map Prod.fst).nodup distinct⟩
  intro member
  obtain ⟨entry, kept, same⟩ := mem_map.mp member
  exact absurd same (by simpa using (mem_filter.mp kept).2)

/-- Keys that are there keep their values. -/
def insertAll (entries more : List (Key × Value)) : List (Key × Value) :=
  more.foldl (fun all entry => if (lookup all entry.1).isSome then all else all ++ [entry]) entries

theorem lookup_insertAll (entries more : List (Key × Value)) (key : Key) :
    lookup (insertAll entries more) key = (lookup entries key).or (lookup more key) := by
  induction more generalizing entries with
  | nil => exact Option.or_none.symm
  | cons entry rest ih =>
    rw [insertAll, List.foldl_cons]
    refine (ih _).trans ?_
    rw [lookup_cons]
    split
    · rename_i present
      by_cases same : entry.1 = key
      · obtain ⟨value, found⟩ := Option.isSome_iff_exists.mp present
        rw [if_pos same, ← same, found]
        rfl
      · rw [if_neg same]
    · rw [lookup_append, lookup_cons, Option.or_assoc]
      by_cases same : entry.1 = key
      · rw [if_pos same, if_pos same]
        rfl
      · rw [if_neg same, if_neg same]
        rfl

theorem Distinct.insertAll (distinct : Distinct entries) (more : List (Key × Value)) :
    Distinct (insertAll entries more) := by
  induction more generalizing entries with
  | nil => exact distinct
  | cons entry rest ih =>
    rw [Assoc.insertAll, List.foldl_cons]
    refine ih ?_
    split
    · exact distinct
    · exact distinct.append_fresh (Option.not_isSome_iff_eq_none.mp ‹_›) entry.2

theorem length_insertAll (more : List (Key × Value)) :
    (insertAll [] more).length = (more.map Prod.fst).toFinset.card := by
  have keys : ((insertAll [] more).map Prod.fst).toFinset = (more.map Prod.fst).toFinset := by
    ext key
    rw [List.mem_toFinset, List.mem_toFinset, ← not_iff_not, ← lookup_eq_none, ← lookup_eq_none, lookup_insertAll]
    rfl
  have distinct : Distinct (insertAll [] more) := @Distinct.insertAll Key Value [] _ nodup_nil more
  rw [← keys, List.toFinset_card_of_nodup distinct, length_map]

/-- Keys may be replaced by others that tell them apart. -/
theorem insertAll_rekey [DecidableEq Other] (rekey : Key → Other) (entries more : List (Key × Value))
    (apart : ∀ first ∈ entries ++ more, ∀ second ∈ entries ++ more, rekey first.1 = rekey second.1 → first.1 = second.1) :
    insertAll (entries.map (Prod.map rekey id)) (more.map (Prod.map rekey id)) =
      (insertAll entries more).map (Prod.map rekey id) := by
  induction more generalizing entries with
  | nil => rfl
  | cons entry rest ih =>
    have same : (lookup (entries.map (Prod.map rekey id)) (rekey entry.1)).isSome = (lookup entries entry.1).isSome := by
      rw [Bool.eq_iff_iff, ← not_iff_not, Option.not_isSome_iff_eq_none, Option.not_isSome_iff_eq_none,
        lookup_eq_none, lookup_eq_none]
      refine not_congr ⟨fun member => ?_, fun member => ?_⟩
      · simp only [List.map_map, List.mem_map] at member ⊢
        obtain ⟨other, member, same⟩ := member
        exact ⟨other, member, apart other (by simp [member]) entry (by simp) same⟩
      · obtain ⟨other, member, same⟩ := List.mem_map.mp member
        exact List.mem_map.mpr ⟨_, List.mem_map_of_mem member, congrArg rekey same⟩
    simp only [insertAll, List.map_cons, List.foldl_cons, Prod.map_fst, same] at ih ⊢
    split
    · exact ih entries fun first left second right => apart first (List.mem_append.mpr
        ((List.mem_append.mp left).imp_right (List.mem_cons_of_mem _))) second
        (List.mem_append.mpr ((List.mem_append.mp right).imp_right (List.mem_cons_of_mem _)))
    · have next := ih (entries ++ [entry]) fun first left second right =>
        apart first (by simpa using left) second (by simpa using right)
      simpa using next

/-- The first value of a key is changed where it stands, or the key is added at the end. -/
def upsert (key : Key) (change : Option Value → Value) : List (Key × Value) → List (Key × Value)
  | [] => [(key, change none)]
  | entry :: rest =>
    if entry.1 = key then (entry.1, change (some entry.2)) :: rest else entry :: upsert key change rest

theorem lookup_upsert (entries : List (Key × Value)) (key other : Key) (change : Option Value → Value) :
    lookup (upsert key change entries) other =
      if other = key then some (change (lookup entries key)) else lookup entries other := by
  fun_induction upsert key change entries with
  | case1 =>
    by_cases same : other = key
    · simp [same, lookup]
    · simp [same, Ne.symm same, lookup]
  | case2 entry rest updated =>
    rw [lookup_cons, lookup_cons, lookup_cons]
    by_cases same : other = key
    · simp [updated, same]
    · simp [updated, same, Ne.symm same]
  | case3 entry rest updated ih =>
    rw [lookup_cons, ih, lookup_cons, lookup_cons]
    by_cases found : entry.1 = other
    · subst found
      simp [updated]
    · simp [updated, found]

theorem Distinct.upsert (distinct : Distinct entries) (key : Key) (change : Option Value → Value) :
    Distinct (upsert key change entries) := by
  fun_induction Assoc.upsert key change entries with
  | case1 => exact nodup_singleton _
  | case2 => exact distinct
  | case3 entry rest kept ih =>
    obtain ⟨fresh, others⟩ := nodup_cons.mp distinct
    refine nodup_cons.mpr ⟨fun member => ?_, ih others⟩
    obtain ⟨later, inside, same⟩ := mem_map.mp member
    have known : lookup (Assoc.upsert key change rest) entry.1 = some later.2 := by
      rw [lookup_eq_some (ih others)]
      exact same ▸ inside
    rw [lookup_upsert, if_neg kept, lookup_eq_some others] at known
    exact fresh (mem_map.mpr ⟨_, known, rfl⟩)

end Hiview.Assoc
