import Hiview.EventRaw.Rebuild

/-! Domains and names of any length. `AppendDomain` and `AppendName` hand the length of
the text to `memcpy_s` and end the text inside the member afterwards: a text that is
longer than the member by one character is cut, a longer one clears the member. -/
namespace Hiview.EventRaw
open CharArray List

section Member
variable {size : Nat}

/-- The longest part that fits is held exactly of texts that are not too long and do not
end before. -/
theorem RawDataBuilder.appendText_cut_iff (positive : 0 < size) (member : CharArray (size + 1))
    (text : List UInt8) :
    (appendText member text).text = text.take size ↔ text.length ≤ size + 1 ∧ 0 ∉ text.take size := by
  rw [appendText_text]
  split
  · rename_i fits
    rw [takeWhile_eq_self_iff, and_iff_right fits]
    constructor
    · intro nonzero member
      exact absurd (nonzero 0 member) (by decide)
    · exact nonzero_of_clean
  · rename_i long
    refine iff_of_false (fun empty => ?_) fun both => long both.1
    have length := congrArg List.length empty
    rw [length_nil, length_take] at length
    omega

end Member

def Setter.Sets (base : BaseInfoKey) : Setter → Prop
  | .domain _ => base = .domain
  | .name _ => base = .name
  | .value key _ => BaseInfoKey.ofText key = some base
  | _ => False

namespace RawDataBuilder
variable (builder : RawDataBuilder)

theorem appendBaseInfoValue_texts (key : BaseInfoKey) (val : Argument) :
    (key ≠ .domain → (builder.appendBaseInfoValue key val).header.domain = builder.header.domain) ∧
      (key ≠ .name → (builder.appendBaseInfoValue key val).header.name = builder.header.name) := by
  unfold appendBaseInfoValue
  split
  · exact ⟨fun other => absurd rfl other, fun _ => rfl⟩
  · exact ⟨fun _ => rfl, fun other => absurd rfl other⟩
  all_goals exact ⟨fun _ => rfl, fun _ => rfl⟩

theorem call_texts (setter : Setter) :
    (¬ setter.Sets .domain → (builder.call setter).header.domain = builder.header.domain) ∧
      (¬ setter.Sets .name → (builder.call setter).header.name = builder.header.name) := by
  cases setter with
  | domain text => exact ⟨fun other => absurd rfl other, fun _ => rfl⟩
  | name text => exact ⟨fun _ => rfl, fun other => absurd rfl other⟩
  | value key val =>
    simp only [Setter.Sets, call, appendValue]
    cases base : BaseInfoKey.ofText key with
    | none => exact ⟨fun _ => by rw [appendParam_header], fun _ => by rw [appendParam_header]⟩
    | some known =>
      obtain ⟨domain, name⟩ := builder.appendBaseInfoValue_texts known val
      exact ⟨fun other => domain fun same => other (congrArg some same),
        fun other => name fun same => other (congrArg some same)⟩
  | _ => exact ⟨fun _ => rfl, fun _ => rfl⟩

/-- The last call of the list that sets this text. -/
def LastSets (calls : List Setter) (base : BaseInfoKey) (setter : Setter) : Prop :=
  ∃ before after, calls = before ++ setter :: after ∧ ∀ other ∈ after, ¬ other.Sets base

theorem foldl_call_texts {after : List Setter} :
    ((∀ other ∈ after, ¬ other.Sets .domain) →
        (after.foldl call builder).header.domain = builder.header.domain) ∧
      ((∀ other ∈ after, ¬ other.Sets .name) →
        (after.foldl call builder).header.name = builder.header.name) := by
  induction after generalizing builder with
  | nil => exact ⟨fun _ => rfl, fun _ => rfl⟩
  | cons setter rest ih =>
    obtain ⟨domain, name⟩ := builder.call_texts setter
    obtain ⟨domains, names⟩ := ih (builder.call setter)
    refine ⟨fun others => ?_, fun others => ?_⟩
    · rw [forall_mem_cons] at others
      exact (domains others.2).trans (domain others.1)
    · rw [forall_mem_cons] at others
      exact (names others.2).trans (name others.1)

theorem run_domain (last : LastSets calls .domain (.domain domain)) :
    ∃ member, (run calls).header.domain = appendText member domain := by
  obtain ⟨before, after, rfl, others⟩ := last
  rw [run, foldl_append, foldl_cons, (foldl_call_texts _).1 others]
  exact ⟨_, rfl⟩

theorem run_name (last : LastSets calls .name (.name name)) :
    ∃ member, (run calls).header.name = appendText member name := by
  obtain ⟨before, after, rfl, others⟩ := last
  rw [run, foldl_append, foldl_cons, (foldl_call_texts _).2 others]
  exact ⟨_, rfl⟩

/-- The decoded texts are the longest parts that fit, exactly if the appended ones exceed
them by one character at most. -/
theorem appended_texts_cut_iff {calls : List Setter} {domain name : List UInt8}
    (lastDomain : LastSets calls .domain (.domain domain)) (lastName : LastSets calls .name (.name name)) :
    ∃ rawData, (run calls).build = some rawData ∧
      ((run calls).event.Within → ∃ decoded, DecodedEvent.new rawData.getData = some decoded ∧
        decoded.isValid = true) ∧
      ∀ decoded, DecodedEvent.new rawData.getData = some decoded → decoded.isValid = true →
        (decoded.header.domain.text = domain.take 16 ↔ domain.length ≤ 17 ∧ 0 ∉ domain.take 16) ∧
        (decoded.header.name.text = name.take 32 ↔ name.length ≤ 33 ∧ 0 ∉ name.take 32) := by
  have formed := run_wellFormed calls
  obtain ⟨rawData, built, held⟩ := build_holds formed.encoded
  refine ⟨rawData, built, fun within => ?_, fun decoded opened valid => ?_⟩
  · rw [held.getData]
    exact ⟨_, formed.new_block within, rfl⟩
  · rw [held.getData] at opened
    have within := within_of_valid opened valid
    obtain rfl := Option.some_inj.mp ((formed.new_block within).symm.trans opened)
    obtain ⟨domainMember, domainSet⟩ := run_domain lastDomain
    obtain ⟨nameMember, nameSet⟩ := run_name lastName
    have header : (run calls).decoded.header = (run calls).header := rfl
    rw [header, domainSet, nameSet]
    exact ⟨appendText_cut_iff (by decide) _ _, appendText_cut_iff (by decide) _ _⟩

/-- A builder given a domain and a name of these lengths. -/
def textCalls (domain name : Nat) : List Setter :=
  [.domain (List.replicate domain 65), .name (List.replicate name 65)]

theorem textCalls_last (domain name : Nat) :
    LastSets (textCalls domain name) .domain (.domain (List.replicate domain 65)) ∧
      LastSets (textCalls domain name) .name (.name (List.replicate name 65)) := by
  refine ⟨⟨[], [.name _], rfl, fun other among => ?_⟩, ⟨[.domain _], [], rfl, fun other among => ?_⟩⟩
  · obtain rfl := mem_singleton.mp among
    intro same
    cases same
  · cases among

theorem appended_texts_cut_by_one : ∃ rawData, (run (textCalls 17 33)).build = some rawData ∧
    ∃ decoded, DecodedEvent.new rawData.getData = some decoded ∧ decoded.isValid = true ∧
      decoded.header.domain.text = List.replicate 16 65 ∧
      decoded.header.name.text = List.replicate 32 65 := by
  obtain ⟨lastDomain, lastName⟩ := textCalls_last 17 33
  obtain ⟨rawData, built, opens, texts⟩ := appended_texts_cut_iff lastDomain lastName
  obtain ⟨decoded, opened, valid⟩ := opens (by decide +kernel)
  obtain ⟨domain, name⟩ := texts decoded opened valid
  exact ⟨rawData, built, decoded, opened, valid, domain.mpr (by decide), name.mpr (by decide)⟩

/-- Two characters more than fit leave nothing of the domain and of the name. -/
theorem long_texts_destroyed :
    ((run (textCalls 18 34)).build.bind fun rawData => DecodedEvent.new rawData.getData).map
      (fun decoded => (decoded.isValid, decoded.header.domain.text, decoded.header.name.text)) =
        some (true, [], []) := by
  decide +kernel

end RawDataBuilder
end Hiview.EventRaw
