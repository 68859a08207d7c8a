import Hiview.Lib.Bytes

/-! Base-128 digit groups with a continuation bit, least significant group
first. Nothing here fixes how the first group of a number is packed: callers
that give it fewer bits strip them before they hand over the rest. -/
namespace Hiview.Varint
open List

/-- The minimal groups of `v`; zero has none. `fuel` bounds their number. -/
def groups : Nat → Nat → List UInt8
  | 0, _ => []
  | fuel + 1, v =>
    if v = 0 then []
    else UInt8.ofNat (if v < 128 then v else v % 128 + 128) :: groups fuel (v / 128)

/-- The number denoted by the seven low bits of each group. -/
def groupValue : List UInt8 → Nat
  | [] => 0
  | group :: rest => group.toNat % 128 + 128 * groupValue rest

/-- Every group but the last one announces a successor. -/
def Chain : List UInt8 → Prop
  | [] => False
  | [last] => last.toNat < 128
  | group :: rest => 128 ≤ group.toNat ∧ Chain rest

/-- The groups up to the first that announces no successor, as far as there are any. -/
def chainAt : List UInt8 → List UInt8
  | [] => []
  | group :: rest => if 128 ≤ group.toNat then group :: chainAt rest else [group]

def decidableChain : (groups : List UInt8) → Decidable (Chain groups)
  | [] => .isFalse id
  | [last] => inferInstanceAs (Decidable (last.toNat < 128))
  | group :: next :: rest =>
    have : Decidable (Chain (next :: rest)) := decidableChain (next :: rest)
    inferInstanceAs (Decidable (128 ≤ group.toNat ∧ Chain (next :: rest)))

instance : DecidablePred Chain := decidableChain

theorem groupValue_groups (fits : v < 128 ^ fuel) : groupValue (groups fuel v) = v := by
  induction fuel generalizing v with
  | zero => simp [groups, groupValue]; omega
  | succ fuel ih =>
    by_cases zero : v = 0
    · simp [groups, zero, groupValue]
    · have rest : v / 128 < 128 ^ fuel := by omega
      simp [groups, if_neg zero, groupValue, ih rest]
      split <;> omega

theorem chain_groups (fits : v < 128 ^ fuel) (positive : 0 < v) : Chain (groups fuel v) := by
  induction fuel generalizing v with
  | zero => omega
  | succ fuel ih =>
    have nonzero : v ≠ 0 := by omega
    by_cases last : v < 128
    · have none : groups fuel (v / 128) = [] := by
        rw [Nat.div_eq_of_lt last]
        cases fuel <;> rfl
      simp [groups, if_neg nonzero, if_pos last, none, Chain]
      omega
    · have rest : Chain (groups fuel (v / 128)) :=
        ih (by omega) (by omega)
      simp [groups, if_neg nonzero, if_neg last]
      cases following : groups fuel (v / 128) with
      | nil => simp [following, Chain] at rest
      | cons group tail =>
        rw [following] at rest
        refine ⟨?_, rest⟩
        simp
        omega

theorem groups_length_le (fuel v : Nat) : (groups fuel v).length ≤ fuel := by
  induction fuel generalizing v with
  | zero => simp [groups]
  | succ fuel ih =>
    simp [groups]
    split
    · simp
    · have := ih (v / 128)
      simp
      omega

theorem chain_cons (more : 128 ≤ group.toNat) : Chain (group :: rest) ↔ Chain rest := by
  cases rest with
  | nil => exact iff_of_false (Nat.not_lt.mpr more) id
  | cons next tail => exact and_iff_right more

theorem chainAt_isPrefix (bytes : List UInt8) : chainAt bytes <+: bytes := by
  induction bytes with
  | nil => exact nil_prefix
  | cons group rest ih =>
    rw [chainAt]
    split
    · exact cons_prefix_cons.mpr ⟨rfl, ih⟩
    · exact cons_prefix_cons.mpr ⟨rfl, nil_prefix⟩

theorem chainAt_of_isPrefix {groups bytes : List UInt8} (chain : Chain groups) (starts : groups <+: bytes) :
    chainAt bytes = groups := by
  induction groups generalizing bytes with
  | nil => exact chain.elim
  | cons group rest ih =>
    obtain ⟨tail, rfl⟩ := starts
    rw [cons_append, chainAt]
    by_cases more : 128 ≤ group.toNat
    · rw [if_pos more, ih ((chain_cons more).mp chain) (prefix_append _ _)]
    · cases rest with
      | nil => rw [if_neg more]
      | cons next others => exact absurd chain.1 more

end Hiview.Varint
