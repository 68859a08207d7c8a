import Mathlib.Data.Int.Interval

/-! Parts picked out of a collection: what is selected part by part is a
selection from the whole, and different numbers in an interval are no more than
the interval is long. -/
namespace Hiview.Selection
open List
variable {α β κ : Type}

theorem subperm_flatMap {items : List α} {pick whole : α → List β}
    (inside : ∀ item ∈ items, (pick item).Subperm (whole item)) :
    (items.flatMap pick).Subperm (items.flatMap whole) := by
  induction items with
  | nil => exact .refl _
  | cons item rest ih =>
    exact (inside item mem_cons_self).append
      (ih fun other member => inside other (mem_cons_of_mem _ member))

theorem flatMap_subperm {picked items : List α} (pick : α → List β) (inside : picked.Subperm items) :
    (picked.flatMap pick).Subperm (items.flatMap pick) := by
  obtain ⟨front, same, sub⟩ := inside
  exact (same.flatMap_right pick).symm.subperm.trans (sub.flatMap pick).subperm

theorem flatMap_filter_subperm [DecidableEq κ] (key : α → κ) {keys : List κ} (distinct : keys.Nodup)
    (items : List α) :
    (keys.flatMap fun wanted => items.filter fun item => key item = wanted).Subperm items := by
  induction keys generalizing items with
  | nil => exact (nil_sublist items).subperm
  | cons wanted rest ih =>
    obtain ⟨fresh, distinct⟩ := nodup_cons.mp distinct
    have others : (rest.flatMap fun other => items.filter fun item => key item = other) =
        rest.flatMap fun other => (items.filter fun item => !decide (key item = wanted)).filter
          fun item => key item = other := by
      refine flatMap_congr fun other member => ?_
      rw [filter_filter]
      refine filter_congr fun item _ => ?_
      by_cases found : key item = other
      · have differs : other ≠ wanted := fun same => fresh (same ▸ member)
        simp [found, differs]
      · simp [found]
    rw [flatMap_cons, others]
    exact ((List.Subperm.refl _).append (ih distinct _)).trans (filter_append_perm _ items).subperm

theorem nodup_map_of_subperm {picked items : List α} (inside : picked.Subperm items)
    (distinct : (items.map key).Nodup) : (picked.map key).Nodup := by
  obtain ⟨front, same, sub⟩ := inside
  exact (same.map key).nodup_iff.mp ((sub.map key).nodup distinct)

theorem length_le_of_between {numbers : List Int} (distinct : numbers.Nodup)
    (between : ∀ number ∈ numbers, low ≤ number ∧ number < high) :
    numbers.length ≤ (high - low).toNat := by
  rw [← toFinset_card_of_nodup distinct, ← Int.card_Ico]
  exact Finset.card_le_card fun number member =>
    Finset.mem_Ico.mpr (between number (mem_toFinset.mp member))

end Hiview.Selection
