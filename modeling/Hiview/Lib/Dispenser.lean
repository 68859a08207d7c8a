import Mathlib.Data.List.Sort

/-! Containers that hand their elements out in the order of a key, such as a
sorted vector or a priority queue. Elements with the same key come out in any
order, so the order is a parameter and only what every implementation keeps is
assumed of it. -/
namespace Hiview
variable {α : Type}

structure Dispenser (key : α → Int) where
  order : List α → List α
  perm : ∀ items, (order items).Perm items
  sorted : ∀ items, (order items).Pairwise fun first second => key first ≤ key second

namespace Dispenser
variable {key : α → Int}

theorem mem_order (queue : Dispenser key) : item ∈ queue.order items ↔ item ∈ items :=
  (queue.perm items).mem_iff

/-- Elements with the same key in the order in which they were put in. -/
def stable (key : α → Int) : Dispenser key where
  order := List.insertionSort fun first second => key first ≤ key second
  perm := List.perm_insertionSort _
  sorted items := by
    have total : Std.Total fun first second : α => key first ≤ key second :=
      ⟨fun first second => Int.le_total (key first) (key second)⟩
    have trans : IsTrans α fun first second => key first ≤ key second := ⟨fun _ _ _ => Int.le_trans⟩
    exact List.pairwise_insertionSort _ items

end Dispenser

/-- The first of the items in the order of the key, as many as asked for; items with the
same key in any order. -/
structure IsFirst (key : α → Int) (count : Nat) (items first : List α) : Prop where
  sorted : first.Pairwise fun one other => key one ≤ key other
  length : first.length = min count items.length
  before : ∃ rest, (first ++ rest).Perm items ∧ ∀ one ∈ first, ∀ later ∈ rest, key one ≤ key later

namespace IsFirst
variable {key : α → Int} {count : Nat} {items chosen : List α}

theorem order_iff (queue : Dispenser key) :
    IsFirst key count items (queue.order chosen) ↔
      chosen.length = min count items.length ∧
        ∃ rest, (chosen ++ rest).Perm items ∧ ∀ one ∈ chosen, ∀ later ∈ rest, key one ≤ key later := by
  have same := queue.perm chosen
  constructor
  · rintro ⟨-, length, rest, all, before⟩
    refine ⟨same.length_eq ▸ length, rest, (same.symm.append_right rest).trans all, fun one member => ?_⟩
    exact before one (queue.mem_order.mpr member)
  · rintro ⟨length, rest, all, before⟩
    refine ⟨queue.sorted chosen, same.length_eq ▸ length, rest, (same.append_right rest).trans all, ?_⟩
    exact fun one member => before one (queue.mem_order.mp member)

end IsFirst
end Hiview
