import Mathlib.Data.List.Sort

/-! Heaps in a list, with a smallest key in front. `Algorithms` is what a user of heaps may
rely on; `sorted` keeps it by sorting. -/
namespace Hiview.Heap
open List
variable {Item Key : Type} [LinearOrder Key] (key : Item → Key)

def parent (place : Nat) : Nat := (place - 1) / 2

theorem parent_lt (positive : 0 < place) : parent place < place := by
  rw [parent]
  omega

def IsHeap (items : List Item) : Prop :=
  ∀ place item above, 0 < place → items[place]? = some item → items[parent place]? = some above →
    key above ≤ key item

variable {key} {items : List Item} {first item : Item}

theorem IsHeap.nil : IsHeap key ([] : List Item) := by
  intro place item above _ held
  cases held

theorem IsHeap.front_le (heap : IsHeap key (first :: items)) (member : item ∈ first :: items) :
    key first ≤ key item := by
  obtain ⟨place, held⟩ := mem_iff_getElem?.mp member
  induction place using Nat.strongRecOn generalizing item with
  | ind place ih =>
    rcases Nat.eq_zero_or_pos place with rfl | positive
    · rw [Option.some_inj.mp held]
    · have inside := (List.getElem?_eq_some_iff.mp held).1
      have above := List.getElem?_eq_getElem ((parent_lt positive).trans inside)
      exact (ih (parent place) (parent_lt positive) (mem_of_getElem? above) above).trans
        (heap place item _ positive held above)

theorem IsHeap.of_pairwise (ordered : items.Pairwise (key · ≤ key ·)) : IsHeap key items := by
  intro place item above positive held heldAbove
  obtain ⟨inside, rfl⟩ := List.getElem?_eq_some_iff.mp held
  obtain ⟨below, rfl⟩ := List.getElem?_eq_some_iff.mp heldAbove
  exact pairwise_iff_getElem.mp ordered _ _ below inside (parent_lt positive)

/-- What the algorithms on heaps promise, however they arrange the items. -/
structure Algorithms (key : Item → Key) where
  push : List Item → Item → List Item
  pop : List Item → List Item
  make : List Item → List Item
  push_perm : ∀ {items}, IsHeap key items → ∀ item, (push items item).Perm (item :: items)
  push_heap : ∀ {items}, IsHeap key items → ∀ item, IsHeap key (push items item)
  pop_perm : ∀ {first rest}, IsHeap key (first :: rest) → (pop (first :: rest)).Perm rest
  pop_heap : ∀ {items}, IsHeap key items → IsHeap key (pop items)
  make_perm : ∀ items, (make items).Perm items
  make_heap : ∀ items, IsHeap key (make items)

def sort (key : Item → Key) (items : List Item) : List Item := items.insertionSort (key · ≤ key ·)

theorem sort_perm (items : List Item) : (sort key items).Perm items := perm_insertionSort _ _

theorem sort_heap (items : List Item) : IsHeap key (sort key items) := by
  exact .of_pairwise (pairwise_insertionSort _ _)

def sorted (key : Item → Key) : Algorithms key where
  push items item := sort key (item :: items)
  pop items := sort key items.tail
  make := sort key
  push_perm _ _ := sort_perm _
  push_heap _ _ := sort_heap _
  pop_perm _ := sort_perm _
  pop_heap _ := sort_heap _
  make_perm := sort_perm
  make_heap := sort_heap

end Hiview.Heap
