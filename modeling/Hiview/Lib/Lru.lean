import Hiview.Lib.Assoc
import Mathlib.Data.Finset.Card

/-! Caches of bounded size that drop the key used longest ago. The entries stand
in the order of their last use, the latest first, so the keys of a cache are the
first ones among all keys that were ever used. -/
namespace Hiview.Lru
open List hiding get lookup
variable {Key Value : Type} [DecidableEq Key]

/-- The keys in the order of their last use, after one more use. -/
def touch (key : Key) (keys : List Key) : List Key := key :: keys.filter (· ≠ key)

/-- The keys of a sequence of uses, the one used last in front. -/
def recent (uses : List Key) : List Key := uses.foldl (fun keys key => touch key keys) []

variable (uses : List Key)

theorem recent_snoc (key : Key) : recent (uses ++ [key]) = touch key (recent uses) := by
  rw [recent, foldl_append]
  rfl

variable {keys : List Key}

theorem nodup_touch (distinct : keys.Nodup) (key : Key) : (touch key keys).Nodup := by
  refine nodup_cons.mpr ⟨?_, distinct.filter _⟩
  simp

variable {key : Key}

theorem mem_touch {other : Key} : other ∈ touch key keys ↔ other = key ∨ other ∈ keys := by
  by_cases same : other = key
  · simp [touch, same]
  · simp [touch, same]

theorem nodup_recent : (recent uses).Nodup := by
  induction uses using List.reverseRecOn with
  | nil => exact nodup_nil
  | append_singleton uses key ih =>
    rw [recent_snoc]
    exact nodup_touch ih key

theorem mem_recent {key : Key} {uses : List Key} : key ∈ recent uses ↔ key ∈ uses := by
  induction uses using List.reverseRecOn with
  | nil => rfl
  | append_singleton uses last ih =>
    rw [recent_snoc, mem_touch, ih, mem_append, mem_singleton, or_comm]

theorem length_recent : (recent uses).length = uses.toFinset.card := by
  rw [← toFinset_card_of_nodup (nodup_recent uses)]
  congr 1
  ext key
  rw [mem_toFinset, mem_toFinset, mem_recent]

theorem recent_since (before between : List Key) (unused : key ∉ between) :
    ∃ earlier, recent (before ++ key :: between) = recent between ++ key :: earlier := by
  induction between using List.reverseRecOn with
  | nil => exact ⟨_, recent_snoc before key⟩
  | append_singleton between last ih =>
    rw [mem_append, mem_singleton, not_or] at unused
    obtain ⟨earlier, order⟩ := ih unused.1
    refine ⟨earlier.filter (· ≠ last), ?_⟩
    rw [← cons_append, ← append_assoc, recent_snoc, order, recent_snoc, touch, touch,
      filter_append, filter_cons_of_pos (by simpa using unused.2), cons_append]

variable {capacity : Nat}

theorem mem_take_recent {before between : List Key} (unused : key ∉ between) (few : between.toFinset.card < capacity) :
    key ∈ (recent (before ++ key :: between)).take capacity := by
  obtain ⟨earlier, order⟩ := recent_since before between unused
  rw [order, take_append, mem_append]
  right
  obtain ⟨room, enough⟩ : ∃ room, capacity - (recent between).length = room + 1 :=
    ⟨capacity - (recent between).length - 1, by rw [length_recent]; omega⟩
  rw [enough, take_succ_cons]
  exact mem_cons_self

theorem filter_ne_self (absent : key ∉ keys) : keys.filter (· ≠ key) = keys := by
  rw [filter_eq_self]
  intro other member
  simpa using fun same : other = key => absent (same ▸ member)

theorem touch_take_of_mem (distinct : keys.Nodup) (used : key ∈ keys.take capacity) :
    (touch key keys).take capacity = touch key (keys.take capacity) := by
  obtain ⟨front, back, split⟩ := append_of_mem (mem_of_mem_take used)
  subst split
  obtain ⟨apart, -⟩ := nodup_cons.mp (nodup_middle.mp distinct)
  rw [mem_append, not_or] at apart
  have inside : front.length < capacity := by
    by_contra beyond
    rw [take_append_of_le_length (by omega)] at used
    exact apart.1 (mem_of_mem_take used)
  obtain ⟨room, enough⟩ : ∃ room, capacity = front.length + (room + 1) := ⟨capacity - front.length - 1, by omega⟩
  subst enough
  rw [touch, touch, take_length_add_append, take_succ_cons, filter_append, filter_append,
    filter_cons_of_neg (by simp), filter_cons_of_neg (by simp), filter_ne_self apart.1,
    filter_ne_self apart.2, filter_ne_self (fun member => apart.2 (mem_of_mem_take member)),
    ← Nat.add_assoc, take_succ_cons, take_length_add_append]

theorem touch_take_of_notMem {room : Nat} (unused : key ∉ keys.take (room + 1)) :
    (touch key keys).take (room + 1) = key :: keys.take room := by
  rw [touch, take_succ_cons]
  congr 1
  by_cases short : keys.length ≤ room + 1
  · rw [take_of_length_le short] at unused
    rw [filter_ne_self unused]
  · have long : room ≤ (keys.take (room + 1)).length := by
      rw [length_take]
      omega
    calc (keys.filter (· ≠ key)).take room
        = ((keys.take (room + 1) ++ keys.drop (room + 1)).filter (· ≠ key)).take room := by
          rw [take_append_drop]
      _ = (keys.take (room + 1) ++ (keys.drop (room + 1)).filter (· ≠ key)).take room := by
          rw [filter_append, filter_ne_self unused]
      _ = keys.take room := by
          rw [take_append_of_le_length long, take_take, Nat.min_eq_left (Nat.le_succ room)]

theorem touch_touch (key : Key) (keys : List Key) : touch key (touch key keys) = touch key keys := by
  rw [touch, touch, filter_cons_of_neg (by simp), filter_ne_self (by simp)]

open Assoc (lookup)

/-- The entry of a key comes to the front when it is read. -/
def get (cache : List (Key × Value)) (key : Key) : Option Value × List (Key × Value) :=
  match lookup cache key with
  | some value => (some value, Assoc.insert cache key value)
  | none => (none, cache)

/-- A new key takes the place of the last one if the cache is full. -/
def put (capacity : Nat) (cache : List (Key × Value)) (key : Key) (value : Value) : List (Key × Value) :=
  if (lookup cache key).isSome then Assoc.insert cache key value
  else if cache.length = capacity then (key, value) :: cache.dropLast
  else (key, value) :: cache

theorem get_fst (cache : List (Key × Value)) (key : Key) : (get cache key).1 = lookup cache key := by
  rw [get]
  cases lookup cache key <;> rfl

theorem lookup_get (cache : List (Key × Value)) (key other : Key) :
    lookup (get cache key).2 other = lookup cache other := by
  rw [get]
  cases found : lookup cache key with
  | none => rfl
  | some value =>
    rw [Assoc.lookup_insert]
    split
    · case isTrue same => rw [same, found]
    · rfl

theorem distinct_get {cache : List (Key × Value)} (distinct : Assoc.Distinct cache) (key : Key) :
    Assoc.Distinct (get cache key).2 := by
  rw [get]
  cases lookup cache key with
  | none => exact distinct
  | some value => exact distinct.insert key value

theorem lookup_put_self (capacity : Nat) (cache : List (Key × Value)) (key : Key) (value : Value) :
    lookup (put capacity cache key value) key = some value := by
  rw [put]
  split
  · rw [Assoc.lookup_insert, if_pos rfl]
  · split <;> rw [Assoc.lookup_cons, if_pos rfl]

theorem lookup_put_other {cache : List (Key × Value)} {other : Key} {value held : Value}
    (distinct : Assoc.Distinct cache) (apart : other ≠ key)
    (found : lookup (put capacity cache key value) other = some held) : lookup cache other = some held := by
  rw [put] at found
  split at found
  · rwa [Assoc.lookup_insert, if_neg apart] at found
  · split at found
    · rw [Assoc.lookup_cons, if_neg (Ne.symm apart),
        Assoc.lookup_eq_some (((dropLast_sublist _).map Prod.fst).nodup distinct)] at found
      rw [Assoc.lookup_eq_some distinct]
      exact (dropLast_sublist _).subset found
    · rwa [Assoc.lookup_cons, if_neg (Ne.symm apart)] at found

section Keys
variable {capacity : Nat} {cache : List (Key × Value)} {keys : List Key}

theorem isSome_lookup {key : Key} : (lookup cache key).isSome ↔ key ∈ cache.map Prod.fst := by
  rw [← not_iff_not, ← Assoc.lookup_eq_none, Option.not_isSome_iff_eq_none]

theorem map_fst_insert (key : Key) (value : Value) :
    (Assoc.insert cache key value).map Prod.fst = touch key (cache.map Prod.fst) := by
  rw [Assoc.insert, map_cons, touch, filter_map]
  rfl

theorem keys_insert (distinct : keys.Nodup) (order : cache.map Prod.fst = keys.take capacity)
    {key : Key} (used : (lookup cache key).isSome) (value : Value) :
    (Assoc.insert cache key value).map Prod.fst = (touch key keys).take capacity := by
  rw [map_fst_insert, order, touch_take_of_mem distinct]
  rwa [← order, ← isSome_lookup]

theorem keys_put (distinct : keys.Nodup) (order : cache.map Prod.fst = keys.take capacity)
    (positive : 0 < capacity) (key : Key) (value : Value) :
    (put capacity cache key value).map Prod.fst = (touch key keys).take capacity := by
  obtain ⟨room, rfl⟩ : ∃ room, capacity = room + 1 := ⟨capacity - 1, by omega⟩
  rw [put]
  split
  · case isTrue used => exact keys_insert distinct order used value
  · case isFalse unused =>
    rw [isSome_lookup, order] at unused
    have size : cache.length = min (room + 1) keys.length := by
      rw [← length_take, ← order, length_map]
    rw [touch_take_of_notMem unused]
    split
    · case isTrue full =>
      rw [map_cons, map_dropLast, order, dropLast_eq_take, length_take, take_take]
      congr 2
      omega
    · case isFalse free =>
      rw [map_cons, order, take_of_length_le (by omega), take_of_length_le (by omega)]

theorem keys_put_get (distinct : keys.Nodup) (order : cache.map Prod.fst = keys.take capacity)
    (positive : 0 < capacity) (key : Key) (value : Value) :
    (put capacity (get cache key).2 key value).map Prod.fst = (touch key keys).take capacity := by
  rw [get]
  cases found : lookup cache key with
  | none => exact keys_put distinct order positive key value
  | some held =>
    have used : (lookup cache key).isSome := by rw [found]; rfl
    have moved := keys_insert distinct order used held
    rw [← touch_touch]
    exact keys_put (nodup_touch distinct key) moved positive key value

end Keys

end Hiview.Lru
