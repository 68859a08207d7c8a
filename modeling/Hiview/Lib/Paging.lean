import Hiview.Lib.Dispenser
import Mathlib.Data.List.Perm.Subperm
import Mathlib.Algebra.Order.BigOperators.Group.List
import Mathlib.Algebra.Order.Group.Nat

/-! Reading a collection page by page. Elements come out by falling key, a page
is closed by the element with which its weight reaches a limit, and the next
page starts below the key of that element. A reader goes on after a page only
if the page passes a test, and otherwise leaves the rest unread. -/
namespace Hiview.Paging
variable {α : Type}

/-- The elements up to the one that brings the weight to the limit, and that one. -/
def fill (weight : α → Nat) (limit : Int) : Int → List α → List α × Option α
  | _, [] => ([], none)
  | total, item :: rest =>
    if limit ≤ total + weight item then ([item], some item)
    else
      let more := fill weight limit (total + weight item) rest
      (item :: more.1, more.2)

def load (weight : α → Nat) : List α → Nat
  | [] => 0
  | item :: rest => weight item + load weight rest

def below (key : α → Int) (bound : Int) (items : List α) : List α :=
  items.filter fun item => key item < bound

/-- A container that hands out some of its elements, by falling key. -/
structure Handout (key : α → Int) where
  order : List α → List α
  inside : ∀ items, (order items).Subperm items
  falling : ∀ items, (order items).Pairwise fun first second => key second ≤ key first

section Fill
variable {weight : α → Nat} {limit : Int}

theorem fill_rest (full : (fill weight limit total items).2 = some last) :
    ∃ front rest, (fill weight limit total items).1 = front ++ [last] ∧
      items = front ++ last :: rest := by
  fun_induction fill weight limit total items with
  | case1 => cases full
  | case2 total item rest =>
    cases full
    exact ⟨[], rest, rfl, rfl⟩
  | case3 total item rest _ more ih =>
    obtain ⟨front, tail, page, whole⟩ := ih full
    exact ⟨item :: front, tail, congrArg (item :: ·) page, congrArg (item :: ·) whole⟩

theorem fill_open (short : (fill weight limit total items).2 = none) :
    (fill weight limit total items).1 = items ∧
      (items = [] ∨ total + load weight items < limit) := by
  fun_induction fill weight limit total items with
  | case1 => exact ⟨rfl, .inl rfl⟩
  | case2 => cases short
  | case3 total item rest unfilled more ih =>
    obtain ⟨page, small⟩ := ih short
    refine ⟨congrArg (item :: ·) page, .inr ?_⟩
    rcases small with rfl | small
    · simpa [load] using unfilled
    · rw [load]
      omega

end Fill

section Pages
variable {key : α → Int} (hand : Handout key) (weight : α → Nat) (limit : Int)
variable {items : List α}

theorem below_shorter (inside : last ∈ items) : (below key (key last) items).length < items.length := by
  refine List.length_filter_lt_length_iff_exists.mpr ⟨last, inside, ?_⟩
  simp

theorem full_inside (full : (fill weight limit 0 (hand.order items)).2 = some last) : last ∈ items := by
  obtain ⟨front, rest, -, whole⟩ := fill_rest full
  exact (hand.inside items).subset (whole ▸ List.mem_append_right front List.mem_cons_self)

/-- The pages of a collection. The last one has not reached the limit. -/
def pages (items : List α) : List (List α) :=
  match _ : (fill weight limit 0 (hand.order items)).2 with
  | none => [(fill weight limit 0 (hand.order items)).1]
  | some last =>
    (fill weight limit 0 (hand.order items)).1 ::
      pages (below key (key last) items)
termination_by items.length
decreasing_by exact below_shorter (full_inside hand weight limit (by assumption))

/-- The pages a reader gets to see. -/
def reached (goesOn : List α → Bool) : List (List α) → List (List α)
  | [] => []
  | page :: rest => page :: if goesOn page then reached goesOn rest else []

theorem pages_full (full : (fill weight limit 0 (hand.order items)).2 = some last) :
    pages hand weight limit items = (fill weight limit 0 (hand.order items)).1 ::
      pages hand weight limit (below key (key last) items) := by
  rw [pages]
  split
  · case h_1 short => cases short.symm.trans full
  · case h_2 found same =>
    cases same.symm.trans full
    rfl

theorem pages_open (short : (fill weight limit 0 (hand.order items)).2 = none) :
    pages hand weight limit items = [hand.order items] := by
  rw [pages]
  split
  · rw [(fill_open short).1]
  · case h_2 last full => cases short.symm.trans full

theorem length_pages_le (items : List α) : (pages hand weight limit items).length ≤ items.length + 1 := by
  cases filled : (fill weight limit 0 (hand.order items)).2 with
  | none =>
    rw [pages_open hand weight limit filled]
    exact Nat.le_add_left 1 items.length
  | some last =>
    have shorter : (below key (key last) items).length < items.length :=
      below_shorter (full_inside hand weight limit filled)
    have rest := length_pages_le (below key (key last) items)
    rw [pages_full hand weight limit filled, List.length_cons]
    omega
termination_by items.length

/-- What is taken from the pages a reader sees, up to a number of results. -/
theorem mem_take_reached {β : Type} {goesOn : List α → Bool} {results : List α → List β} {result : β} :
    result ∈ ((reached goesOn all).flatMap results).take count ↔
      ∃ earlier page later, all = earlier ++ page :: later ∧
        (∀ before ∈ earlier, goesOn before = true) ∧
        result ∈ (results page).take (count - (earlier.flatMap results).length) := by
  induction all generalizing count with
  | nil =>
    constructor
    · intro member
      simp [reached] at member
    · rintro ⟨earlier, page, later, parts, -⟩
      cases earlier <;> cases parts
  | cons first rest ih =>
    rw [reached, List.flatMap_cons, List.take_append, List.mem_append]
    constructor
    · rintro (now | after)
      · exact ⟨[], first, rest, rfl, by simp, now⟩
      · split at after
        · case isTrue passed =>
          obtain ⟨earlier, page, later, parts, allPassed, member⟩ := ih.mp after
          refine ⟨first :: earlier, page, later, congrArg (first :: ·) parts,
            List.forall_mem_cons.mpr ⟨passed, allPassed⟩, ?_⟩
          rwa [List.flatMap_cons, List.length_append, Nat.sub_add_eq]
        · simp at after
    · rintro ⟨earlier, page, later, parts, allPassed, member⟩
      cases earlier with
      | nil =>
        cases parts
        exact .inl member
      | cons head earlier =>
        cases parts
        obtain ⟨passed, others⟩ := List.forall_mem_cons.mp allPassed
        rw [List.flatMap_cons, List.length_append, Nat.sub_add_eq] at member
        rw [if_pos passed]
        exact .inr (ih.mpr ⟨earlier, page, later, rfl, others, member⟩)

theorem reached_sublist (goesOn : List α → Bool) (all : List (List α)) :
    (reached goesOn all).Sublist all := by
  induction all with
  | nil => exact .slnil
  | cons page rest ih =>
    rw [reached]
    split
    · exact ih.cons_cons page
    · exact (List.nil_sublist rest).cons_cons page

end Pages
end Hiview.Paging
