import Hiview.EventService.QueryDelivery
import Hiview.Lib.Assoc

/-! The rules that `EventQueryWrapperBuilder::Append` makes of the requests of a caller.
Requests with one domain, type and condition share a rule, whose list of names is empty
when all events are asked for, so a name that follows takes the place of all names. -/
namespace Hiview.EventService
open EventStore Assoc EventQueryWrapper List

structure RuleRequest where
  domain : List UInt8
  eventName : List UInt8
  eventType : Nat
  extraInfo : List UInt8
  deriving DecidableEq

/-- A `SysEventQueryRule` with the text of its condition. -/
structure QueryRule where
  domain : List UInt8
  eventList : List (List UInt8)
  eventType : Nat
  condition : List UInt8
  deriving DecidableEq

/-- What requests have in common that share a rule. -/
structure RuleGroup where
  domain : List UInt8
  eventType : Nat
  condition : List UInt8
  deriving DecidableEq

def RuleRequest.group (request : RuleRequest) : RuleGroup :=
  ⟨request.domain, request.eventType, request.extraInfo⟩

def QueryRule.group (rule : QueryRule) : RuleGroup := ⟨rule.domain, rule.eventType, rule.condition⟩

namespace EventQueryWrapperBuilder

def append (request : RuleRequest) : List QueryRule → List QueryRule
  | [] => [⟨request.domain, if request.eventName = [] then [] else [request.eventName], request.eventType,
      request.extraInfo⟩]
  | rule :: rest =>
    if rule.domain = request.domain ∧ request.eventType = rule.eventType ∧ request.extraInfo = rule.condition then
      { rule with eventList := if request.eventName = [] then [] else rule.eventList ++ [request.eventName] } :: rest
    else rule :: append request rest

def build (requests : List RuleRequest) : List QueryRule :=
  requests.foldl (fun rules request => append request rules) []

end EventQueryWrapperBuilder

/-- What a rule looks at in an event; `satisfies` says which conditions hold for it. -/
structure QueriedEvent where
  domain : List UInt8
  name : List UInt8
  type : Nat
  satisfies : List UInt8 → Bool

/-- The domain, the type and the condition suit the event. -/
structure RuleGroup.Suits (group : RuleGroup) (event : QueriedEvent) : Prop where
  domain : group.domain = [] ∨ group.domain = event.domain
  type : group.eventType = 0 ∨ group.eventType = event.type
  condition : event.satisfies group.condition = true

def QueryRule.Selects (rule : QueryRule) (event : QueriedEvent) : Prop :=
  rule.group.Suits event ∧ (rule.eventList = [] ∨ event.name ∈ rule.eventList)

def RuleRequest.Selects (request : RuleRequest) (event : QueriedEvent) : Prop :=
  request.group.Suits event ∧ (request.eventName = [] ∨ request.eventName = event.name)

variable (holds : List UInt8 → Entry → Bool)

/-- The rule as the queries use it, with the condition read. -/
def QueryRule.read (rule : QueryRule) : SysEventQueryRule :=
  ⟨rule.domain, rule.eventList, rule.eventType, holds rule.condition⟩

/-- The event of a file as a rule sees it. -/
def queriedEvent (dir : DomainDir) (file : DbDoc) (entry : Entry) :
    QueriedEvent :=
  ⟨dir.domain, file.info.name, file.info.type, fun condition => holds condition entry⟩

/-- A query looks for the events its rule selects, at the times or sequences asked for. -/
theorem matches_read (kind : WrapperKind) (argument : QueryArgument)
    (rule : QueryRule) (entry : Entry) :
    EventQueryWrapper.Matches store kind argument (rule.read holds) entry ↔
      ∃ dir ∈ store, ∃ file ∈ dir.files, rule.Selects (queriedEvent holds dir file entry) ∧
        entry ∈ file.entries ∧
        (ruleQuery kind argument ⟨[], [], 0, fun _ => true⟩).cond entry = true := by
  have cond : (ruleQuery kind argument (rule.read holds)).cond entry =
      ((ruleQuery kind argument ⟨[], [], 0, fun _ => true⟩).cond entry &&
        holds rule.condition entry) := by
    cases kind <;> simp only [ruleQuery, QueryRule.read, Bool.and_true]
  have dirs : ∀ dir, dir ∈ SysEventDatabase.getQueryDirsByDomain store rule.domain ↔
      dir ∈ store ∧ (rule.domain = [] ∨ rule.domain = dir.domain) := by
    intro dir
    rw [SysEventDatabase.getQueryDirsByDomain]
    split
    · case isTrue every => simp only [every, true_or, and_true]
    · case isFalse given =>
      rw [mem_filter, decide_eq_true_iff, or_iff_right given, @eq_comm _ rule.domain]
  constructor
  · rintro ⟨dir, inside, file, member, name, type, held, matched⟩
    rw [cond, Bool.and_eq_true] at matched
    obtain ⟨inside, domain⟩ := (dirs dir).mp inside
    exact ⟨dir, inside, file, member, ⟨⟨domain, type.imp id Eq.symm, matched.2⟩, name⟩, held, matched.1⟩
  · rintro ⟨dir, inside, file, member, ⟨⟨domain, type, condition⟩, name⟩, held, matched⟩
    refine ⟨dir, (dirs dir).mpr ⟨inside, domain⟩, file, member, name, type.imp id Eq.symm, held, ?_⟩
    rw [cond, Bool.and_eq_true]
    exact ⟨matched, condition⟩

namespace EventQueryWrapperBuilder

def keyed (rule : QueryRule) : RuleGroup × List (List UInt8) := (rule.group, rule.eventList)

/-- What a request makes of the names of its group. -/
def combined (request : RuleRequest) (names : Option (List (List UInt8))) : List (List UInt8) :=
  if request.eventName = [] then [] else names.getD [] ++ [request.eventName]

theorem keyed_append (request : RuleRequest) (rules : List QueryRule) :
    (append request rules).map keyed = upsert request.group (combined request) (rules.map keyed) := by
  induction rules with
  | nil =>
    rfl
  | cons rule rest ih =>
    have same : (keyed rule).1 = request.group ↔ rule.domain = request.domain ∧
        request.eventType = rule.eventType ∧ request.extraInfo = rule.condition := by
      simp only [keyed, QueryRule.group, RuleRequest.group, RuleGroup.mk.injEq,
        @eq_comm _ request.eventType, @eq_comm _ request.extraInfo]
    rw [append, map_cons, upsert]
    split
    · case isTrue found =>
      rw [if_pos (same.mpr found)]
      rfl
    · case isFalse other =>
      rw [if_neg (mt same.mp other), map_cons, ih]

/-- The names that the requests leave to a group, if there are any requests of the group. -/
def groupNames (group : RuleGroup) (requests : List RuleRequest) : Option (List (List UInt8)) :=
  requests.foldl (fun names request => if request.group = group then some (combined request names) else names) none

theorem groupNames_concat (group : RuleGroup) (requests : List RuleRequest) (request : RuleRequest) :
    groupNames group (requests ++ [request]) =
      if request.group = group then some (combined request (groupNames group requests))
      else groupNames group requests := by
  rw [groupNames, foldl_append]
  rfl

theorem keyed_build (requests : List RuleRequest) :
    Assoc.Distinct ((build requests).map keyed) ∧
      ∀ group, Assoc.lookup ((build requests).map keyed) group = groupNames group requests := by
  induction requests using List.reverseRecOn with
  | nil => exact ⟨nodup_nil, fun _ => rfl⟩
  | append_singleton requests request ih =>
    obtain ⟨distinct, known⟩ := ih
    have step : build (requests ++ [request]) = append request (build requests) := by
      rw [build, foldl_append]
      rfl
    rw [step, keyed_append]
    refine ⟨distinct.upsert _ _, fun group => ?_⟩
    rw [Assoc.lookup_upsert, groupNames_concat, known, known]
    by_cases same : group = request.group
    · rw [if_pos same, if_pos same.symm, same]
    · rw [if_neg same, if_neg (Ne.symm same)]

theorem selected_iff (requests : List RuleRequest) (event : QueriedEvent) :
    (∃ rule ∈ build requests, rule.Selects event) ↔
      ∃ group names, groupNames group requests = some names ∧ group.Suits event ∧
        (names = [] ∨ event.name ∈ names) := by
  obtain ⟨distinct, known⟩ := keyed_build requests
  constructor
  · rintro ⟨rule, member, suits, named⟩
    refine ⟨rule.group, rule.eventList, ?_, suits, named⟩
    rw [← known, lookup_eq_some distinct]
    exact mem_map.mpr ⟨rule, member, rfl⟩
  · rintro ⟨group, names, left, suits, named⟩
    rw [← known, lookup_eq_some distinct] at left
    obtain ⟨rule, member, same⟩ := mem_map.mp left
    cases same
    exact ⟨rule, member, suits, named⟩

/-- A request for all events of its group that no request for a name follows. -/
def KeptIn (requests : List RuleRequest) (kept : RuleRequest) : Prop :=
  kept.eventName = [] ∧ ∃ before after, requests = before ++ kept :: after ∧
    ∀ later ∈ after, later.group = kept.group → later.eventName = []

variable {requests : List RuleRequest}

theorem KeptIn.mem (keeps : KeptIn requests kept) : kept ∈ requests := by
  obtain ⟨-, before, after, rfl, -⟩ := keeps
  exact mem_append_right _ mem_cons_self

theorem keptIn_concat :
    KeptIn (requests ++ [request]) kept ↔
      (kept = request ∧ request.eventName = []) ∨
        (KeptIn requests kept ∧ (request.group = kept.group → request.eventName = [])) := by
  constructor
  · rintro ⟨all, before, after, parts, quiet⟩
    rcases eq_nil_or_concat after with rfl | ⟨most, last, rfl⟩
    · obtain ⟨-, single⟩ := append_inj' parts rfl
      cases single
      exact .inl ⟨rfl, all⟩
    · rw [concat_eq_append, ← cons_append, ← append_assoc] at parts
      obtain ⟨rfl, single⟩ := append_inj' parts rfl
      cases single
      rw [concat_eq_append] at quiet
      refine .inr ⟨⟨all, before, most, rfl, fun later member => quiet later (mem_append_left _ member)⟩, ?_⟩
      exact quiet request (mem_append_right _ (mem_singleton_self _))
  · rintro (⟨rfl, all⟩ | ⟨⟨all, before, after, rfl, quiet⟩, last⟩)
    · exact ⟨all, requests, [], rfl, fun _ member => absurd member not_mem_nil⟩
    · exact ⟨all, before, after ++ [request], append_assoc _ _ _,
        forall_mem_append.mpr ⟨quiet, forall_mem_singleton.mpr last⟩⟩

theorem groupNames_eq_nil :
    groupNames group requests = some [] ↔ ∃ kept, KeptIn requests kept ∧ kept.group = group := by
  induction requests using List.reverseRecOn with
  | nil =>
    refine iff_of_false (fun none => ?_) ?_
    · cases none
    · rintro ⟨kept, ⟨-, before, after, parts, -⟩, -⟩
      cases before <;> cases parts
  | append_singleton requests request ih =>
    rw [groupNames_concat]
    by_cases same : request.group = group
    · have cleared : combined request (groupNames group requests) = [] ↔ request.eventName = [] := by
        rw [combined]
        split
        · case isTrue all => exact iff_of_true rfl all
        · case isFalse named => exact iff_of_false (append_ne_nil_of_right_ne_nil _ (cons_ne_nil _ _)) named
      rw [if_pos same, Option.some.injEq, cleared]
      constructor
      · exact fun all => ⟨request, keptIn_concat.mpr (.inl ⟨rfl, all⟩), same⟩
      · rintro ⟨kept, found, rfl⟩
        exact (keptIn_concat.mp found).elim And.right fun earlier => earlier.2 same
    · rw [if_neg same, ih]
      constructor
      · rintro ⟨kept, found, rfl⟩
        exact ⟨kept, keptIn_concat.mpr (.inr ⟨found, fun one => absurd one same⟩), rfl⟩
      · rintro ⟨kept, found, rfl⟩
        rcases keptIn_concat.mp found with ⟨rfl, -⟩ | ⟨earlier, -⟩
        · exact absurd rfl same
        · exact ⟨kept, earlier, rfl⟩

theorem requested_of_mem (left : groupNames group requests = some names) (member : name ∈ names) :
    ∃ request ∈ requests, request.group = group ∧ request.eventName = name := by
  induction requests using List.reverseRecOn generalizing names with
  | nil => cases left
  | append_singleton requests request ih =>
    have earlier : ∀ names, groupNames group requests = some names → name ∈ names →
        ∃ one ∈ requests ++ [request], one.group = group ∧ one.eventName = name := by
      intro names left member
      obtain ⟨one, inside, found⟩ := ih left member
      exact ⟨one, mem_append_left _ inside, found⟩
    rw [groupNames_concat] at left
    split at left
    · case isTrue same =>
      cases left
      rw [combined] at member
      split at member
      · cases member
      · rcases mem_append.mp member with before | last
        · cases known : groupNames group requests with
          | none =>
            rw [known] at before
            cases before
          | some names =>
            rw [known] at before
            exact earlier names known before
        · exact ⟨request, mem_append_right _ (mem_singleton_self _), same,
            (mem_singleton.mp last).symm⟩
    · exact earlier names left member

theorem mem_of_requested (member : request ∈ requests)
    (named : ∀ other ∈ requests, other.group = request.group → other.eventName ≠ []) :
    ∃ names, groupNames request.group requests = some names ∧ request.eventName ∈ names := by
  induction requests using List.reverseRecOn with
  | nil => cases member
  | append_singleton requests last ih =>
    have before := fun other inside => named other (mem_append_left _ inside)
    have lastNamed := named last (mem_append_right _ (mem_singleton_self _))
    rw [groupNames_concat]
    rcases mem_append.mp member with inside | single
    · obtain ⟨names, left, found⟩ := ih inside before
      split
      · case isTrue same =>
        refine ⟨_, rfl, ?_⟩
        rw [combined, if_neg (lastNamed same), left]
        exact mem_append_left _ found
      · exact ⟨names, left, found⟩
    · cases mem_singleton.mp single
      rw [if_pos rfl]
      refine ⟨_, rfl, ?_⟩
      rw [combined, if_neg (lastNamed rfl)]
      exact mem_append_right _ (mem_singleton_self _)

end EventQueryWrapperBuilder

structure RuleGroup.Covers (wider group : RuleGroup) : Prop where
  domain : wider.domain = [] ∨ wider.domain = group.domain
  type : wider.eventType = 0 ∨ wider.eventType = group.eventType
  condition : wider.condition = group.condition

theorem RuleGroup.Covers.suits {wider group : RuleGroup} (covers : wider.Covers group) (suits : group.Suits event) :
    wider.Suits event where
  domain := covers.domain.elim .inl fun same => same ▸ suits.domain
  type := covers.type.elim .inl fun same => same ▸ suits.type
  condition := covers.condition ▸ suits.condition

/-- An event that suits the group and, of the given groups, only those that cover it. -/
theorem RuleGroup.exists_event (group : RuleGroup) (others : List RuleGroup) (names : List (List UInt8)) :
    ∃ event : QueriedEvent, group.Suits event ∧ event.name ∉ names ∧
      ∀ other ∈ others, other.Suits event → other.Covers group := by
  obtain ⟨domain, newDomain⟩ := Infinite.exists_notMem_finset (others.map RuleGroup.domain).toFinset
  obtain ⟨type, newType⟩ := Infinite.exists_notMem_finset (others.map RuleGroup.eventType).toFinset
  obtain ⟨name, newName⟩ := Infinite.exists_notMem_finset names.toFinset
  rw [mem_toFinset] at newDomain newType newName
  refine ⟨⟨if group.domain = [] then domain else group.domain, name,
    if group.eventType = 0 then type else group.eventType, fun condition => condition = group.condition⟩,
    ⟨?_, ?_, decide_eq_true rfl⟩, newName, fun other member suits => ⟨?_, ?_, of_decide_eq_true suits.condition⟩⟩
  · by_cases all : group.domain = []
    · exact .inl all
    · exact .inr (if_neg all).symm
  · by_cases all : group.eventType = 0
    · exact .inl all
    · exact .inr (if_neg all).symm
  · refine suits.domain.imp id fun same => ?_
    by_cases all : group.domain = []
    · simp only [all, if_true] at same
      exact absurd (mem_map.mpr ⟨other, member, same⟩) newDomain
    · simpa only [all, if_false] using same
  · refine suits.type.imp id fun same => ?_
    by_cases all : group.eventType = 0
    · simp only [all, if_true] at same
      exact absurd (mem_map.mpr ⟨other, member, same⟩) newType
    · simpa only [all, if_false] using same

namespace EventQueryWrapperBuilder

/-- Every request for all names is covered by one that no request for a name follows. -/
def KeepsAll (requests : List RuleRequest) : Prop :=
  ∀ request ∈ requests, request.eventName = [] →
    ∃ kept, KeptIn requests kept ∧ kept.group.Covers request.group

/-- Every request for all names is covered by a group in which no name is asked for. -/
def Settled (requests : List RuleRequest) : Prop :=
  ∀ request ∈ requests, request.eventName = [] →
    ∃ kept ∈ requests, kept.group.Covers request.group ∧
      ∀ other ∈ requests, other.group = kept.group → other.eventName = []

variable {requests : List RuleRequest}

theorem requested_of_selected (selected : ∃ rule ∈ build requests, rule.Selects event) :
    ∃ request ∈ requests, request.Selects event := by
  obtain ⟨group, names, left, suits, every | named⟩ := (selected_iff requests event).mp selected
  · obtain ⟨kept, keeps, rfl⟩ := groupNames_eq_nil.mp (every ▸ left)
    exact ⟨kept, keeps.mem, suits, .inl keeps.1⟩
  · obtain ⟨request, member, rfl, name⟩ := requested_of_mem left named
    exact ⟨request, member, suits, .inr name⟩

theorem selected_of_requested (keeps : KeepsAll requests) {event : QueriedEvent} (member : request ∈ requests)
    (asked : request.Selects event) : ∃ rule ∈ build requests, rule.Selects event := by
  rw [selected_iff]
  by_cases all : ∃ wildcard ∈ requests, wildcard.group = request.group ∧ wildcard.eventName = []
  · obtain ⟨wildcard, inside, same, every⟩ := all
    obtain ⟨kept, found, covers⟩ := keeps wildcard inside every
    exact ⟨kept.group, [], groupNames_eq_nil.mpr ⟨kept, found, rfl⟩, covers.suits (same ▸ asked.1), .inl rfl⟩
  · have named : ∀ other ∈ requests, other.group = request.group → other.eventName ≠ [] :=
      fun other inside same every => all ⟨other, inside, same, every⟩
    obtain ⟨names, left, found⟩ := mem_of_requested member named
    have name := asked.2.resolve_left (named request member rfl)
    exact ⟨request.group, names, left, asked.1, .inr (name ▸ found)⟩

theorem keepsAll_of_selected
    (union : ∀ event, (∃ request ∈ requests, request.Selects event) → ∃ rule ∈ build requests, rule.Selects event) :
    KeepsAll requests := by
  intro request member all
  obtain ⟨event, suits, newName, only⟩ := request.group.exists_event (requests.map RuleRequest.group)
    (requests.map RuleRequest.eventName)
  obtain ⟨group, names, left, fits, found⟩ :=
    (selected_iff requests event).mp (union event ⟨request, member, suits, .inl all⟩)
  have empty : names = [] := by
    refine found.resolve_right fun named => ?_
    obtain ⟨other, inside, -, name⟩ := requested_of_mem left named
    exact newName (mem_map.mpr ⟨other, inside, name⟩)
  obtain ⟨kept, keeps, rfl⟩ := groupNames_eq_nil.mp (empty ▸ left)
  exact ⟨kept, keeps, only kept.group (mem_map_of_mem keeps.mem) fits⟩

theorem union_iff (requests : List RuleRequest) :
    (∀ event, (∃ rule ∈ build requests, rule.Selects event) ↔ ∃ request ∈ requests, request.Selects event) ↔
      KeepsAll requests := by
  constructor
  · exact fun union => keepsAll_of_selected fun event => (union event).mpr
  · intro keeps event
    refine ⟨requested_of_selected, ?_⟩
    rintro ⟨request, member, asked⟩
    exact selected_of_requested keeps member asked

theorem keepsAll_of_settled (settled : Settled requests) (reordered : other.Perm requests) :
    KeepsAll other := by
  intro request member all
  obtain ⟨kept, inside, covers, pure⟩ := settled request (reordered.mem_iff.mp member) all
  obtain ⟨before, after, rfl⟩ := append_of_mem (reordered.mem_iff.mpr inside)
  refine ⟨kept, ⟨pure kept inside rfl, before, after, rfl, fun later behind => ?_⟩, covers⟩
  exact pure later (reordered.mem_iff.mp (mem_append_right _ (mem_cons_of_mem _ behind)))

theorem settled_of_orders (keeps : ∀ other, other.Perm requests → KeepsAll other) : Settled requests := by
  have reordered := filter_append_perm (fun request : RuleRequest => decide (request.eventName = [])) requests
  intro request member all
  obtain ⟨kept, found, covers⟩ := keeps _ reordered request (reordered.mem_iff.mpr member) all
  refine ⟨kept, reordered.mem_iff.mp found.mem, covers, fun other here same => ?_⟩
  obtain ⟨none, before, after, parts, quiet⟩ := found
  have ahead : kept ∉ requests.filter fun request => !decide (request.eventName = []) := by
    rw [mem_filter, none]
    exact fun later => Bool.false_ne_true later.2
  by_contra named
  have last : other ∈ requests.filter fun request => !decide (request.eventName = []) :=
    mem_filter.mpr ⟨here, by simpa using named⟩
  rcases append_eq_append_iff.mp parts with ⟨more, -, later⟩ | ⟨more, -, later⟩
  · exact ahead (later ▸ mem_append_right _ mem_cons_self)
  · cases more with
    | nil =>
      rw [nil_append] at later
      exact ahead (later ▸ mem_cons_self)
    | cons first more =>
      have behind : after = more ++ requests.filter fun request => !decide (request.eventName = []) :=
        tail_eq_of_cons_eq later
      exact named (quiet other (behind ▸ mem_append_right _ last) same)

/-- The rules select what was asked for exactly if every request for all names is kept, and they do
so in every order of the requests exactly if each is covered by a group without names. -/
theorem build_selects_union_iff (requests : List RuleRequest) :
    ((∀ event, (∃ rule ∈ build requests, rule.Selects event) ↔ ∃ request ∈ requests, request.Selects event) ↔
        KeepsAll requests) ∧
      ((∀ other, other.Perm requests → ∀ event,
          (∃ rule ∈ build other, rule.Selects event) ↔ ∃ request ∈ requests, request.Selects event) ↔
        Settled requests) := by
  have anyOrder : ∀ other : List RuleRequest, other.Perm requests → ∀ event,
      (∃ request ∈ other, request.Selects event) ↔ ∃ request ∈ requests, request.Selects event :=
    fun other reordered event => exists_congr fun request => and_congr_left fun _ => reordered.mem_iff
  refine ⟨union_iff requests, ?_⟩
  constructor
  · refine fun union => settled_of_orders fun other reordered => (union_iff other).mp fun event => ?_
    exact (union other reordered event).trans (anyOrder other reordered event).symm
  · intro settled other reordered event
    exact ((union_iff other).mpr (keepsAll_of_settled settled reordered) event).trans (anyOrder other reordered event)

def aafwkRequest (eventName : String) : RuleRequest := ⟨Numeral.ascii "AAFWK", Numeral.ascii eventName, 0, []⟩

def appEvent (name : String) : QueriedEvent := ⟨Numeral.ascii "AAFWK", Numeral.ascii name, 1, fun _ => true⟩

/-- A name that follows the request for all events of the domain takes their place; in the other
order all events are selected. -/
theorem build_name_last :
    build [aafwkRequest "", aafwkRequest "JS_ERROR"] =
        [⟨Numeral.ascii "AAFWK", [Numeral.ascii "JS_ERROR"], 0, []⟩] ∧
      build [aafwkRequest "JS_ERROR", aafwkRequest ""] = [⟨Numeral.ascii "AAFWK", [], 0, []⟩] ∧
      (aafwkRequest "").Selects (appEvent "APP_START") ∧
      ¬ ∃ rule ∈ build [aafwkRequest "", aafwkRequest "JS_ERROR"], rule.Selects (appEvent "APP_START") := by
  have rules : build [aafwkRequest "", aafwkRequest "JS_ERROR"] =
    [⟨Numeral.ascii "AAFWK", [Numeral.ascii "JS_ERROR"], 0, []⟩] := by decide +kernel
  refine ⟨rules, by decide +kernel, ⟨⟨.inr rfl, .inl rfl, rfl⟩, .inl rfl⟩, ?_⟩
  rintro ⟨rule, member, -, selected⟩
  cases mem_singleton.mp member
  revert selected
  decide +kernel

end EventQueryWrapperBuilder
end Hiview.EventService
