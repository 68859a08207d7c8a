import Mathlib.Logic.Relation

/-! Depth-first searches that mark before they descend. A piece of such a search is described by
its targets and by the marks before and after it: every target is marked, what is newly marked
is reached from a target by nodes without a mark, and everything newly marked has all its
successors marked. -/
namespace Hiview.Exploration
open Relation List

variable {Node : Type} {next : Node → Node → Prop} {targets others : Node → Prop} {before middle after : List Node}

/-- A path from a target over nodes that are not marked. -/
def Fresh (next : Node → Node → Prop) (targets marked : Node → Prop) (node : Node) : Prop :=
  ∃ target, targets target ∧ ¬ marked target ∧
    ReflTransGen (fun node other => next node other ∧ ¬ marked other) target node

theorem Fresh.mono {marked fewer : Node → Prop} (fresh : Fresh next targets marked node)
    (more : ∀ node, targets node → others node) (less : ∀ node, fewer node → marked node) :
    Fresh next others fewer node := by
  obtain ⟨target, aimed, unmarked, path⟩ := fresh
  exact ⟨target, more target aimed, fun member => unmarked (less _ member),
    ReflTransGen.mono (fun _ _ edge => ⟨edge.1, fun member => edge.2 (less _ member)⟩) _ _ path⟩

structure Explored (next : Node → Node → Prop) (targets : Node → Prop) (before after : List Node) : Prop where
  grows : before ⊆ after
  took : ∀ node, targets node → node ∈ after
  reached : ∀ node ∈ after, node ∈ before ∨ Fresh next targets (· ∈ before) node
  closed : ∀ node ∈ after, node ∈ before ∨ ∀ successor, next node successor → successor ∈ after

namespace Explored

theorem none : Explored next (fun _ => False) before before :=
  ⟨List.Subset.refl _, fun _ absurd => absurd.elim, fun _ => .inl, fun _ => .inl⟩

theorem marked (member : node ∈ before) : Explored next (· = node) before before :=
  ⟨List.Subset.refl _, fun _ same => same ▸ member, fun _ => .inl, fun _ => .inl⟩

theorem trans (first : Explored next targets before middle) (second : Explored next others middle after) :
    Explored next (fun node => targets node ∨ others node) before after where
  grows := List.Subset.trans first.grows second.grows
  took _ target := target.elim (fun left => second.grows (first.took _ left)) (second.took _)
  reached node member := by
    rcases second.reached node member with old | fresh
    · exact (first.reached node old).imp_right fun fresh => fresh.mono (fun _ => .inl) fun _ => id
    · exact .inr (fresh.mono (fun _ => .inr) fun _ member => first.grows member)
  closed node member := by
    rcases second.closed node member with old | full
    · exact (first.closed node old).imp id fun full successor edge => second.grows (full successor edge)
    · exact .inr full

theorem retarget (explored : Explored next targets before after) (fewer : ∀ node, others node → targets node)
    (covered : ∀ node, targets node → node ∉ before → Fresh next others (· ∈ before) node) :
    Explored next others before after where
  grows := explored.grows
  took node target := explored.took node (fewer node target)
  reached node member := by
    refine (explored.reached node member).imp_right ?_
    rintro ⟨middle, target, unmarked, path⟩
    obtain ⟨start, other, free, front⟩ := covered middle target unmarked
    exact ⟨start, other, free, front.trans path⟩
  closed := explored.closed

/-- A node is marked and its successors are explored. -/
theorem enter (unmarked : node ∉ before) (explored : Explored next (next node) (node :: before) after) :
    Explored next (· = node) before after where
  grows := fun _ member => explored.grows (mem_cons_of_mem _ member)
  took _ same := same ▸ explored.grows mem_cons_self
  reached other member := by
    rcases explored.reached other member with old | fresh
    · rcases mem_cons.mp old with rfl | older
      · exact .inr ⟨other, rfl, unmarked, .refl⟩
      · exact .inl older
    · obtain ⟨successor, edge, free, path⟩ := fresh.mono (fun _ => id) fun _ => mem_cons_of_mem node
      exact .inr ⟨node, rfl, unmarked, path.head ⟨edge, free⟩⟩
  closed other member := by
    rcases explored.closed other member with old | full
    · rcases mem_cons.mp old with rfl | older
      · exact .inr explored.took
      · exact .inl older
    · exact .inr full

theorem mem_iff (explored : Explored next targets before after) :
    node ∈ after ↔ node ∈ before ∨ Fresh next targets (· ∈ before) node := by
  refine ⟨explored.reached node, ?_⟩
  rintro (old | ⟨target, aimed, unmarked, path⟩)
  · exact explored.grows old
  · have whole : node ∈ after ∧ node ∉ before := by
      induction path with
      | refl => exact ⟨explored.took _ aimed, unmarked⟩
      | tail _ edge ih => exact ⟨(explored.closed _ ih.1).resolve_left ih.2 _ edge.1, edge.2⟩
    exact whole.1

/-- A search from nothing marks what is reachable by one step or more. -/
theorem mem_iff_reachable (explored : Explored next (next start) [] after) : node ∈ after ↔ TransGen next start node := by
  rw [explored.mem_iff]
  constructor
  · intro found
    obtain ⟨_, edge, -, path⟩ := found.resolve_left not_mem_nil
    exact .head' edge (ReflTransGen.mono (fun _ _ => And.left) _ _ path)
  · intro path
    obtain ⟨target, edge, path⟩ := TransGen.head'_iff.mp path
    exact .inr ⟨target, edge, not_mem_nil, ReflTransGen.mono (fun _ _ edge => ⟨edge, not_mem_nil⟩) _ _ path⟩

end Explored
end Hiview.Exploration
