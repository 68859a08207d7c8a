import Hiview.Lib.Assoc
import Hiview.Lib.Numeral

/-! The rules of the freeze detector as the rule file gives them, with the attributes as
`GetAttributeValue` reads them. Rules and results are stored under the concatenation of domain
and string id, and the tables of the scopes under the string id alone. -/
namespace Hiview.FreezeDetector
open Assoc
open Numeral (ascii)
open List hiding lookup lookup_cons

structure FreezeResult where
  window : Int64 := 0
  delay : Int64 := 0
  code : UInt64 := 0
  scope : List UInt8 := []
  samePackage : List UInt8 := []
  domain : List UInt8 := []
  stringId : List UInt8 := []
  action : List UInt8 := ascii "and"
  deriving DecidableEq

structure ResultTag where
  delay : Int64
  code : UInt64
  scope : List UInt8
  samePackage : List UInt8
  action : List UInt8

/-- An event of a links element, with its first result element. -/
structure EventTag where
  domain : List UInt8
  stringId : List UInt8
  window : Int64
  result : Option ResultTag

structure RuleTag where
  domain : List UInt8
  stringId : List UInt8
  links : List (List EventTag)

structure FreezeRule where
  domain : List UInt8
  stringId : List UInt8
  results : List (List UInt8 × FreezeResult) := []

inductive FreezeScope where
  | app
  | sys
  | sysWarning
  | appFreezeWarning
  deriving DecidableEq

def FreezeScope.ofText (scope : List UInt8) : Option FreezeScope :=
  if scope = ascii "app" then some .app
  else if scope = ascii "sys" then some .sys
  else if scope = ascii "sysWarning" then some .sysWarning
  else if scope = ascii "appFreezeWarning" then some .appFreezeWarning
  else none

/-- The table of each scope gives the domain of a string id, and whether it is principal. -/
structure FreezeRuleCluster where
  rules : List (List UInt8 × FreezeRule) := []
  pairs : FreezeScope → List (List UInt8 × (List UInt8 × Bool)) := fun _ => []

/-- What the sort of the results is known to do: equal windows may stand in any order. -/
structure Sorting where
  sort : List FreezeResult → List FreezeResult
  perm : ∀ results, (sort results).Perm results
  ordered : ∀ results, (sort results).Pairwise fun front rear => front.window ≤ rear.window

def Sorting.stable : Sorting where
  sort results := results.mergeSort fun front rear => front.window ≤ rear.window
  perm results := results.mergeSort_perm _
  ordered results := (results.pairwise_mergeSort (by simpa using fun _ _ _ => Int64.le_trans)
    (by simpa using fun _ _ => Int64.le_total _ _)).imp (by simp)

/-- A rule without results has none. -/
def Sorting.answer (sorting : Sorting) (list : List FreezeResult) : Option (List FreezeResult) :=
  if list = [] then none else some (sorting.sort list)

theorem Sorting.length_eq_of_answer {sorting : Sorting} (same : sorting.answer list = sorting.answer other) :
    list.length = other.length := by
  unfold answer at same
  split at same
  · split at same
    · simp_all
    · cases same
  · split at same
    · cases same
    · rw [← (sorting.perm list).length_eq, Option.some.inj same, (sorting.perm other).length_eq]

def parseTagEvent (tag : EventTag) : FreezeResult :=
  let result : FreezeResult := { window := tag.window, domain := tag.domain, stringId := tag.stringId }
  match tag.result with
  | none => result
  | some ⟨delay, code, scope, samePackage, action⟩ =>
    { result with delay := delay, code := code, scope := scope, samePackage := samePackage, action := action }

/-- A result that is there already is kept. -/
def FreezeRule.addResult (rule : FreezeRule) (domain stringId : List UInt8) (result : FreezeResult) : FreezeRule :=
  { rule with results := insertAll rule.results [(domain ++ stringId, result)] }

namespace FreezeRuleCluster

def handleScopePair (cluster : FreezeRuleCluster) (result : FreezeResult) (stringId domain : List UInt8)
    (principalPoint : Bool) : FreezeRuleCluster :=
  match FreezeScope.ofText result.scope with
  | none => cluster
  | some scope =>
    { cluster with
      pairs := fun other =>
        if other = scope then Assoc.insert (cluster.pairs scope) stringId (domain, principalPoint)
        else cluster.pairs other }

/-- The first event without a domain or a string id ends the element. -/
def parseTagLinks : FreezeRuleCluster × FreezeRule → List EventTag → FreezeRuleCluster × FreezeRule
  | parsed, [] => parsed
  | (cluster, rule), event :: rest =>
    if event.domain = [] ∨ event.stringId = [] then (cluster, rule)
    else
      let result := parseTagEvent event
      let principalPoint := decide (rule.domain = event.domain ∧ rule.stringId = event.stringId)
      parseTagLinks (cluster.handleScopePair result event.stringId event.domain principalPoint,
        rule.addResult event.domain event.stringId result) rest

variable (cluster : FreezeRuleCluster)

def parseTagRule (tag : RuleTag) : FreezeRuleCluster :=
  if tag.domain = [] ∨ tag.stringId = [] then cluster
  else
    let parsed := tag.links.foldl parseTagLinks (cluster, { domain := tag.domain, stringId := tag.stringId })
    { parsed.1 with rules := insertAll parsed.1.rules [(tag.domain ++ tag.stringId, parsed.2)] }

def parseTagRules (file : List RuleTag) : FreezeRuleCluster := file.foldl parseTagRule {}

def getResult (sorting : Sorting) (domain stringId : List UInt8) :
    Option (List FreezeResult) :=
  match lookup cluster.rules (domain ++ stringId) with
  | none => none
  | some rule => sorting.answer (rule.results.map Prod.snd)

variable (domain stringId : List UInt8)

def isAssignedEvent (scope : FreezeScope) : Bool :=
  (cluster.pairs scope).any fun pair => stringId = pair.1 ∧ domain = pair.2.1

def isApplicationEvent : Bool :=
  cluster.isAssignedEvent domain stringId .app

def isSystemEvent : Bool :=
  cluster.isAssignedEvent domain stringId .sys

def isSysWarningEvent : Bool :=
  cluster.isAssignedEvent domain stringId .sysWarning

end FreezeRuleCluster

/-! ### What the file says -/

def EventTag.scope (tag : EventTag) : Option FreezeScope := FreezeScope.ofText (parseTagEvent tag).scope

namespace RuleTag

def events (tag : RuleTag) : List EventTag := tag.links.flatten

/-- The results of a rule element: the first of those with one domain and one string id. -/
def results (tag : RuleTag) : List FreezeResult :=
  (insertAll [] (tag.events.map fun event => ((event.domain, event.stringId), parseTagEvent event))).map Prod.snd

/-- Nothing in the element lacks a domain or a string id. -/
def Named (tag : RuleTag) : Prop :=
  (tag.domain ≠ [] ∧ tag.stringId ≠ []) ∧ ∀ event ∈ tag.events, event.domain ≠ [] ∧ event.stringId ≠ []

def rule (tag : RuleTag) : FreezeRule where
  domain := tag.domain
  stringId := tag.stringId
  results := insertAll [] (tag.events.map fun event => (event.domain ++ event.stringId, parseTagEvent event))

/-- The concatenations of the events tell their names apart. -/
def Apart (tag : RuleTag) : Prop :=
  ∀ first ∈ tag.events, ∀ second ∈ tag.events,
    first.domain ++ first.stringId = second.domain ++ second.stringId → first.domain = second.domain

theorem answer_results_iff (sorting : Sorting) (tag : RuleTag) :
    sorting.answer (tag.rule.results.map Prod.snd) = sorting.answer tag.results ↔ tag.Apart := by
  let name (event : EventTag) := (event.domain, event.stringId)
  let joined (name : List UInt8 × List UInt8) := name.1 ++ name.2
  let entries := tag.events.map fun event => (name event, parseTagEvent event)
  have stored : tag.rule.results = insertAll [] (entries.map (Prod.map joined id)) := by
    simp [rule, entries, name, joined, Function.comp_def]
  have kept : tag.results = (insertAll [] entries).map Prod.snd := rfl
  have tells (first second : EventTag) : joined (name first) = joined (name second) → first.domain = second.domain →
      name first = name second := by
    intro same equal
    refine Prod.ext equal ?_
    simp only [joined, name, equal] at same
    exact append_cancel_left same
  constructor
  · intro same first left second right equal
    have sizes := Sorting.length_eq_of_answer same
    rw [length_map, stored, kept, length_map, length_insertAll, length_insertAll] at sizes
    have image : ((entries.map (Prod.map joined id)).map Prod.fst).toFinset =
        ((entries.map Prod.fst).toFinset).image joined := by
      ext
      simp
    rw [image, Finset.card_image_iff] at sizes
    have member {event : EventTag} (there : event ∈ tag.events) : name event ∈ (entries.map Prod.fst).toFinset :=
      mem_toFinset.mpr (mem_map.mpr ⟨_, mem_map_of_mem there, rfl⟩)
    exact congrArg Prod.fst (sizes (member left) (member right) equal)
  · intro apart
    have rekeyed := insertAll_rekey joined [] entries (by
      simp only [entries, nil_append, forall_mem_map]
      exact fun first left second right same => tells first second same (apart first left second right same))
    rw [stored, kept, ← map_nil, rekeyed, map_map]
    rfl

end RuleTag

/-- Some event seen has this domain, this string id and this scope. -/
def Listed (seen : List EventTag) (domain stringId : List UInt8) (scope : FreezeScope) : Prop :=
  ∃ event ∈ seen, event.domain = domain ∧ event.stringId = stringId ∧ event.scope = some scope

/-- The domain of the last event seen with this string id and this scope. -/
def lastDomain (seen : List EventTag) (stringId : List UInt8) (scope : FreezeScope) : Option (List UInt8) :=
  (seen.reverse.find? fun event => event.stringId = stringId ∧ event.scope = some scope).map EventTag.domain

theorem listed_of_lastDomain (last : lastDomain seen stringId scope = some domain) :
    Listed seen domain stringId scope := by
  obtain ⟨event, found, rfl⟩ := Option.map_eq_some_iff.mp last
  have same := find?_some found
  rw [decide_eq_true_eq] at same
  exact ⟨event, mem_reverse.mp (mem_of_find?_eq_some found), rfl, same⟩

namespace FreezeRuleCluster

def Tabled (cluster : FreezeRuleCluster) (seen : List EventTag) : Prop :=
  ∀ domain stringId scope, cluster.isAssignedEvent domain stringId scope = true ↔
    lastDomain seen stringId scope = some domain

theorem isAssignedEvent_insert (table : List (List UInt8 × (List UInt8 × Bool))) :
    ((Assoc.insert table key value).any fun pair => stringId = pair.1 ∧ domain = pair.2.1) = true ↔
      stringId = key ∧ domain = value.1 ∨
        stringId ≠ key ∧ (table.any fun pair => stringId = pair.1 ∧ domain = pair.2.1) = true := by
  simp only [Assoc.insert, any_cons, any_filter, Bool.or_eq_true, decide_eq_true_eq, any_eq_true,
    Bool.and_eq_true]
  refine or_congr Iff.rfl ⟨?_, ?_⟩
  · rintro ⟨pair, member, other, same⟩
    exact ⟨same.1 ▸ other, pair, member, same⟩
  · rintro ⟨other, pair, member, same⟩
    exact ⟨pair, member, same.1 ▸ other, same⟩

theorem Tabled.handleScopePair (tabled : Tabled cluster seen) (event : EventTag) (principalPoint : Bool) :
    Tabled (cluster.handleScopePair (parseTagEvent event) event.stringId event.domain principalPoint)
      (seen ++ [event]) := by
  intro domain stringId scope
  have older := tabled domain stringId scope
  have grown : lastDomain (seen ++ [event]) stringId scope =
      if event.stringId = stringId ∧ event.scope = some scope then some event.domain
      else lastDomain seen stringId scope := by
    rw [lastDomain, reverse_append, reverse_singleton, singleton_append, List.find?_cons]
    split_ifs with own <;> simp [own, lastDomain]
  rw [grown, FreezeRuleCluster.handleScopePair]
  by_cases own : event.scope = some scope
  · have entered : FreezeScope.ofText (parseTagEvent event).scope = some scope := own
    simp only [entered, isAssignedEvent, ↓reduceIte, isAssignedEvent_insert]
    by_cases same : event.stringId = stringId
    · rw [if_pos ⟨same, own⟩, Option.some_inj, or_iff_left fun other => other.1 same.symm, and_iff_right same.symm]
      exact eq_comm
    · rw [if_neg fun both => same both.1, or_iff_right fun equal => same equal.1.symm, and_iff_right (Ne.symm same)]
      exact older
  · rw [if_neg fun both => own both.2, ← older]
    cases entered : FreezeScope.ofText (parseTagEvent event).scope with
    | none => rfl
    | some other =>
      have different : scope ≠ other := fun same => own (same ▸ entered)
      simp [isAssignedEvent, different]

/-- What reading some events of a rule does to the tables and to the rule. -/
structure Read (cluster : FreezeRuleCluster) (rule : FreezeRule) (seen events : List EventTag)
    (parsed : FreezeRuleCluster × FreezeRule) : Prop where
  tabled : Tabled parsed.1 (seen ++ events)
  rules : parsed.1.rules = cluster.rules
  rule : parsed.2 = { rule with
    results := insertAll rule.results (events.map fun event => (event.domain ++ event.stringId, parseTagEvent event)) }

theorem parseTagLinks_read (rule : FreezeRule) (named : ∀ event ∈ events, event.domain ≠ [] ∧ event.stringId ≠ [])
    (tabled : Tabled cluster seen) : Read cluster rule seen events (parseTagLinks (cluster, rule) events) := by
  induction events generalizing cluster rule seen with
  | nil => exact ⟨by simpa [parseTagLinks] using tabled, rfl, rfl⟩
  | cons event rest ih =>
    obtain ⟨here, named⟩ := forall_mem_cons.mp named
    rw [parseTagLinks, if_neg (by simp [here])]
    obtain ⟨tabled, rules, rule⟩ := ih _ named (tabled.handleScopePair event _)
    refine ⟨by simpa using tabled, rules.trans ?_, rule⟩
    rw [handleScopePair]
    split <;> rfl

theorem links_read (rule : FreezeRule) {links : List (List EventTag)}
    (named : ∀ event ∈ links.flatten, event.domain ≠ [] ∧ event.stringId ≠ []) (tabled : Tabled cluster seen) :
    Read cluster rule seen links.flatten (links.foldl parseTagLinks (cluster, rule)) := by
  induction links generalizing cluster rule seen with
  | nil => exact ⟨by simpa using tabled, rfl, rfl⟩
  | cons events rest ih =>
    rw [flatten_cons, forall_mem_append] at named
    have first := parseTagLinks_read rule named.1 tabled
    obtain ⟨tabled, rules, rule⟩ := ih _ named.2 first.tabled
    rw [foldl_cons, flatten_cons]
    refine ⟨by rw [← append_assoc]; exact tabled, rules.trans first.rules, rule.trans ?_⟩
    simp [first.rule, insertAll]

theorem parseTagRules_read {file : List RuleTag} (named : ∀ tag ∈ file, tag.Named) (tabled : Tabled cluster seen) :
    Tabled (file.foldl parseTagRule cluster) (seen ++ file.flatMap RuleTag.events) ∧
      (file.foldl parseTagRule cluster).rules =
        insertAll cluster.rules (file.map fun tag => (tag.domain ++ tag.stringId, tag.rule)) := by
  induction file generalizing cluster seen with
  | nil => exact ⟨by simpa using tabled, rfl⟩
  | cons tag rest ih =>
    obtain ⟨here, named⟩ := forall_mem_cons.mp named
    have read := links_read ⟨tag.domain, tag.stringId, []⟩ here.2 tabled
    have next : parseTagRule cluster tag =
        { (tag.links.foldl parseTagLinks (cluster, ⟨tag.domain, tag.stringId, []⟩)).1 with
          rules := insertAll cluster.rules [(tag.domain ++ tag.stringId, tag.rule)] } := by
      rw [parseTagRule, if_neg (by simp [here.1])]
      simp only [read.rules, read.rule]
      rfl
    have start : Tabled (parseTagRule cluster tag) (seen ++ tag.events) := by
      rw [next]
      exact read.tabled
    obtain ⟨tabled, rules⟩ := ih named start
    rw [foldl_cons, flatMap_cons, ← append_assoc]
    refine ⟨tabled, rules.trans ?_⟩
    rw [next]
    rfl

section
variable (sorting : Sorting) (file : List RuleTag) (domain stringId : List UInt8)

/-- The results of the first element with the name. -/
def named : Option (List FreezeResult) :=
  (file.find? fun tag => tag.domain = domain ∧ tag.stringId = stringId).bind fun tag => sorting.answer tag.results

/-- The first element with the concatenation of the name has the name and tells its events apart, or
has another name and happens to answer the same. -/
def RuleFaithful : Prop :=
  ∀ tag, (file.find? fun tag => tag.domain ++ tag.stringId = domain ++ stringId) = some tag →
    if tag.domain = domain then tag.Apart
    else sorting.answer (tag.rule.results.map Prod.snd) = named sorting file domain stringId

theorem find?_named (found : (file.find? fun tag => tag.domain ++ tag.stringId = domain ++ stringId) = some tag)
    (same : tag.domain = domain) :
    (file.find? fun tag => tag.domain = domain ∧ tag.stringId = stringId) = some tag := by
  obtain ⟨joined, before, behind, shape, first⟩ := find?_eq_some_iff_append.mp found
  have joined := of_decide_eq_true joined
  rw [same] at joined
  refine find?_eq_some_iff_append.mpr ⟨decide_eq_true ⟨same, append_cancel_left joined⟩, before, behind, shape, ?_⟩
  intro other member
  have different := first other member
  simp only [Bool.not_eq_true', decide_eq_false_iff_not] at different ⊢
  exact fun equal => different (by rw [equal.1, equal.2])

theorem getResult_faithful_iff {cluster : FreezeRuleCluster}
    (rules : cluster.rules = insertAll [] (file.map fun tag => (tag.domain ++ tag.stringId, tag.rule))) :
    cluster.getResult sorting domain stringId = named sorting file domain stringId ↔
      RuleFaithful sorting file domain stringId := by
  have found : lookup cluster.rules (domain ++ stringId) =
      (file.find? fun tag => tag.domain ++ tag.stringId = domain ++ stringId).map RuleTag.rule := by
    rw [rules, lookup_insertAll, lookup, lookup, List.find?_map, Option.map_map]
    rfl
  rw [getResult, found, RuleFaithful]
  cases first : file.find? fun tag => tag.domain ++ tag.stringId = domain ++ stringId with
  | none =>
    refine iff_of_true ?_ fun tag none => by cases none
    have none : (file.find? fun tag => tag.domain = domain ∧ tag.stringId = stringId) = none := by
      rw [find?_eq_none] at first ⊢
      intro tag member same
      obtain ⟨rfl, rfl⟩ := of_decide_eq_true same
      exact first tag member (decide_eq_true rfl)
    rw [named, none]
    rfl
  | some tag =>
    simp only [Option.map_some, Option.some.injEq, forall_eq']
    split
    · rename_i same
      rw [named, find?_named file domain stringId first same]
      exact RuleTag.answer_results_iff sorting tag
    · rfl

end

def appEvent (domain stringId : String) : EventTag :=
  ⟨ascii domain, ascii stringId, 10, some ⟨0, 1, ascii "app", [], ascii "and"⟩⟩

end FreezeRuleCluster
end Hiview.FreezeDetector
