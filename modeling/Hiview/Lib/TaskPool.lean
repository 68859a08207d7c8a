import Mathlib.Data.List.Perm.Basic

/-! A pool of tasks of which any may run next. A task that is picked is a distinguished
one, or one of the others. -/
namespace Hiview.TaskPool
open List
variable {Task : Type}

/-- The task at a place of the pool and the tasks that are left. -/
def pick (tasks : List Task) (index : Nat) : Option (Task × List Task) :=
  if bound : index < tasks.length then some (tasks[index], tasks.eraseIdx index) else none

theorem pick_perm (picked : pick tasks index = some (task, left)) : tasks.Perm (task :: left) := by
  rw [pick] at picked
  split at picked
  · case isTrue bound =>
    cases picked
    exact (getElem_cons_eraseIdx_perm bound).symm
  · cases picked

theorem pick_getElem? (picked : pick tasks index = some (task, left)) : tasks[index]? = some task := by
  rw [pick] at picked
  split at picked
  · case isTrue bound =>
    cases picked
    exact List.getElem?_eq_getElem bound
  · cases picked

theorem pick_first (task : Task) (rest : List Task) : pick (task :: rest) 0 = some (task, rest) := rfl

theorem pick_token (picked : pick tasks index = some (task, left)) (pool : tasks.Perm (token :: rest)) :
    (task = token ∧ left.Perm rest) ∨
      ∃ others, task ∈ rest ∧ left.Perm (token :: others) ∧ ∀ other ∈ others, other ∈ rest := by
  classical
  have same := (pick_perm picked).symm.trans pool
  obtain ⟨listed, remaining⟩ := cons_perm_iff_perm_erase.mp same
  by_cases isToken : task = token
  · subst isToken
    rw [erase_cons_head] at remaining
    exact .inl ⟨rfl, remaining⟩
  · rw [erase_cons_tail (by simpa using Ne.symm isToken)] at remaining
    exact .inr ⟨rest.erase task, (mem_cons.mp listed).resolve_left isToken, remaining,
      fun other => mem_of_mem_erase⟩

end Hiview.TaskPool
