import Hiview.Lib.Lru

/-! How many queries a process gets in one cycle. `IsQueryFrequenceValid` keeps a
record for each process in a cache of 30 records that all processes share, so the
limit holds as long as the record of a process is not dropped while its cycle
runs. -/
namespace Hiview.EventStore
open Assoc List Lru

structure DbQueryTag where
  isInnerQuery : Bool
  needFrequenceCheck : Bool
  deriving DecidableEq

/-- The default values are those of a process without a record. -/
structure QueryRecord where
  count : Nat := 0
  begin : Nat := 0
  deriving DecidableEq

namespace QueryFrequency

def defaultCacheCapacity : Nat := 30

def queryControlThreshold : Nat := 50

def queryControlPeriodInMilliSeconds : Nat := 1000

abbrev Cache := List (Int × QueryRecord)

/-- The answer and the cache behind it, for a process and the time of the clock. -/
def isQueryFrequenceValid (tag : DbQueryTag) (queryController : Cache) (queryProcessId : Int) (cur : Nat) :
    Bool × Cache :=
  if tag.needFrequenceCheck = false then (true, queryController)
  else
    let read := Lru.get queryController queryProcessId
    let record := read.1.getD {}
    if record.count = 0 ∨ record.begin > cur ∨ cur - record.begin > queryControlPeriodInMilliSeconds then
      (true, Lru.put defaultCacheCapacity read.2 queryProcessId ⟨1, cur⟩)
    else if record.count + 1 ≤ queryControlThreshold then
      (true, Lru.put defaultCacheCapacity read.2 queryProcessId ⟨record.count + 1, record.begin⟩)
    else (tag.isInnerQuery, read.2)

def external : DbQueryTag := ⟨false, true⟩

structure Query where
  pid : Int
  time : Nat
  deriving DecidableEq

structure Answer where
  query : Query
  valid : Bool
  deriving DecidableEq

structure State where
  queryController : Cache
  answers : List Answer
  deriving DecidableEq

def ask (state : State) (query : Query) : State :=
  let result := isQueryFrequenceValid external state.queryController query.pid query.time
  ⟨result.2, state.answers ++ [⟨query, result.1⟩]⟩

def askAll (queries : List Query) : State := queries.foldl ask ⟨[], []⟩

/-- A cycle of a process: when it began and how many queries were accepted in it. -/
structure Cycle where
  begin : Nat
  accepted : Nat
  deriving DecidableEq

/-- One more answer of the same process. It belongs to the latest cycle, or begins a
new one if that has ended. -/
def extend (cycles : List Cycle) (answer : Answer) : List Cycle :=
  match cycles with
  | [] => [⟨answer.query.time, answer.valid.toNat⟩]
  | latest :: earlier =>
    if answer.query.time ≤ latest.begin + queryControlPeriodInMilliSeconds then
      ⟨latest.begin, latest.accepted + answer.valid.toNat⟩ :: earlier
    else ⟨answer.query.time, answer.valid.toNat⟩ :: latest :: earlier

def cycles (pid : Int) (answers : List Answer) : List Cycle :=
  (answers.filter (·.query.pid = pid)).foldl extend []

theorem cycles_snoc_self (answers : List Answer) (answer : Answer) :
    cycles answer.query.pid (answers ++ [answer]) = extend (cycles answer.query.pid answers) answer := by
  simp [cycles, filter_append]

variable {answer : Answer}

theorem cycles_snoc_other (answers : List Answer) (apart : answer.query.pid ≠ pid) :
    cycles pid (answers ++ [answer]) = cycles pid answers := by
  simp [cycles, filter_append, apart]

theorem extend_ended
    (ended : ∀ latest ∈ known.head?, latest.begin + queryControlPeriodInMilliSeconds < answer.query.time) :
    extend known answer = ⟨answer.query.time, answer.valid.toNat⟩ :: known := by
  cases known with
  | nil => rfl
  | cons latest earlier =>
    rw [extend, if_neg]
    exact Nat.not_le.mpr (ended latest rfl)

theorem begin_of_extend (member : cycle ∈ extend known answer) :
    cycle.begin = answer.query.time ∨ ∃ old ∈ known, old.begin = cycle.begin := by
  cases known with
  | nil =>
    rw [extend, mem_singleton] at member
    exact .inl (by rw [member])
  | cons latest earlier =>
    rw [extend] at member
    split at member
    · rcases mem_cons.mp member with rfl | inside
      · exact .inr ⟨latest, mem_cons_self, rfl⟩
      · exact .inr ⟨cycle, mem_cons_of_mem _ inside, rfl⟩
    · rcases mem_cons.mp member with rfl | inside
      · exact .inl rfl
      · exact .inr ⟨cycle, inside, rfl⟩

theorem begin_of_cycles (member : cycle ∈ cycles pid answers) :
    ∃ query ∈ answers.map Answer.query, query.pid = pid ∧ query.time = cycle.begin := by
  induction answers using List.reverseRecOn generalizing cycle with
  | nil => simp [cycles] at member
  | append_singleton answers answer ih =>
    rw [map_append]
    by_cases same : answer.query.pid = pid
    · subst same
      rw [cycles_snoc_self] at member
      rcases begin_of_extend member with now | ⟨old, known, unchanged⟩
      · exact ⟨answer.query, by simp, rfl, now.symm⟩
      · obtain ⟨query, inside, asked, began⟩ := ih known
        exact ⟨query, mem_append_left _ inside, asked, began.trans unchanged⟩
    · rw [cycles_snoc_other answers same] at member
      obtain ⟨query, inside, asked⟩ := ih member
      exact ⟨query, mem_append_left _ inside, asked⟩

/-- Between two queries of a process that are at most a cycle apart, with no other one
of it between them, fewer other processes ask than the cache has places. -/
def FewBetween (queries : List Query) : Prop :=
  ∀ before first between second after, queries = before ++ first :: (between ++ second :: after) →
    second.pid = first.pid → first.pid ∉ between.map Query.pid →
    second.time ≤ first.time + queryControlPeriodInMilliSeconds →
    (between.map Query.pid).toFinset.card < defaultCacheCapacity

def Ordered (queries : List Query) : Prop := queries.Pairwise (fun first second => first.time ≤ second.time)

variable {query : Query} {queries : List Query}

theorem FewBetween.left (few : FewBetween (queries ++ [query])) : FewBetween queries := by
  intro before first between second after split
  refine few before first between second (after ++ [query]) ?_
  rw [split]
  simp

theorem fewBetween_of_card_le (enough : (queries.map Query.pid).toFinset.card ≤ defaultCacheCapacity) :
    FewBetween queries := by
  intro before first between second after split same unasked close
  refine Nat.lt_of_lt_of_le (Finset.card_lt_card ?_) enough
  refine Finset.ssubset_iff_subset_ne.mpr ⟨?_, ?_⟩
  · intro pid member
    rw [mem_toFinset] at member ⊢
    rw [split]
    simp [mem_map.mp member]
  · intro equal
    have asked : first.pid ∈ (queries.map Query.pid).toFinset := by
      rw [mem_toFinset, split]
      simp
    rw [← equal, mem_toFinset] at asked
    exact unasked asked

/-- What the cache knows behind the queries `past`. -/
structure Tracks (past : List Query) (state : State) : Prop where
  answered : state.answers.map Answer.query = past
  order : state.queryController.map Prod.fst = (Lru.recent (past.map Query.pid)).take defaultCacheCapacity
  records : ∀ pid record, Assoc.lookup state.queryController pid = some record →
    0 < record.count ∧ ∃ earlier, cycles pid state.answers = ⟨record.begin, record.count⟩ :: earlier
  bounded : ∀ pid, ∀ cycle ∈ cycles pid state.answers, cycle.accepted ≤ queryControlThreshold

theorem latest_query (asked : ∃ query ∈ past, query.pid = pid) :
    ∃ before first between, past = before ++ first :: between ∧ first.pid = pid ∧
      pid ∉ between.map Query.pid := by
  induction past using List.reverseRecOn with
  | nil =>
    obtain ⟨query, member, -⟩ := asked
    cases member
  | append_singleton past last ih =>
    by_cases same : last.pid = pid
    · exact ⟨past, last, [], rfl, same, not_mem_nil⟩
    · obtain ⟨query, member, found⟩ := asked
      have inside : query ∈ past := by
        rcases mem_append.mp member with inside | final
        · exact inside
        · rw [mem_singleton.mp final] at found
          exact absurd found same
      obtain ⟨before, first, between, split, own, unasked⟩ := ih ⟨query, inside, found⟩
      refine ⟨before, first, between ++ [last], ?_, own, ?_⟩
      · rw [split, append_assoc, cons_append]
      · rw [map_append, mem_append, not_or]
        exact ⟨unasked, by simpa using Ne.symm same⟩

namespace Tracks
variable {past : List Query} {state : State} {query : Query}

section
variable (tracks : Tracks past state)
include tracks

theorem distinct : Assoc.Distinct state.queryController := by
  rw [Assoc.Distinct, tracks.order]
  exact (take_sublist _ _).nodup (nodup_recent _)

theorem begin_le (ordered : Ordered (past ++ [query])) (member : cycle ∈ cycles pid state.answers) :
    cycle.begin ≤ query.time := by
  obtain ⟨asked, inside, -, began⟩ := begin_of_cycles member
  rw [tracks.answered] at inside
  rw [← began]
  exact (pairwise_append.mp ordered).2.2 asked inside query (mem_singleton.mpr rfl)

theorem ended_of_dropped (ordered : Ordered (past ++ [query])) (few : FewBetween (past ++ [query]))
    (dropped : lookup state.queryController query.pid = none) (member : cycle ∈ cycles query.pid state.answers) :
    cycle.begin + queryControlPeriodInMilliSeconds < query.time := by
  obtain ⟨asked, inside, own, began⟩ := begin_of_cycles member
  rw [tracks.answered] at inside
  obtain ⟨before, first, between, split, same, unasked⟩ := latest_query ⟨asked, inside, own⟩
  have earlier : asked.time ≤ first.time := by
    have sorted := (pairwise_append.mp ordered).1
    rw [split] at sorted inside
    rcases mem_append.mp inside with old | recent
    · exact (pairwise_append.mp sorted).2.2 asked old first mem_cons_self
    · rcases mem_cons.mp recent with rfl | later
      · exact Nat.le_refl _
      · exact absurd (mem_map.mpr ⟨asked, later, own⟩) unasked
  by_contra running
  have close : query.time ≤ first.time + queryControlPeriodInMilliSeconds := by omega
  rw [← same] at unasked
  have enough := few before first between query [] (by rw [split]; simp) same.symm unasked close
  rw [lookup_eq_none, tracks.order, split, map_append, map_cons, ← same] at dropped
  exact dropped (mem_take_recent unasked enough)

theorem bounded_snoc
    (own : ∀ cycle ∈ extend (cycles answer.query.pid state.answers) answer, cycle.accepted ≤ queryControlThreshold)
    (pid : Int) :
    ∀ cycle ∈ cycles pid (state.answers ++ [answer]), cycle.accepted ≤ queryControlThreshold := by
  by_cases same : answer.query.pid = pid
  · subst same
    rw [cycles_snoc_self]
    exact own
  · rw [cycles_snoc_other _ same]
    exact tracks.bounded pid

end

theorem recent_snoc (past : List Query) (query : Query) :
    Lru.recent ((past ++ [query]).map Query.pid) = Lru.touch query.pid (Lru.recent (past.map Query.pid)) := by
  rw [map_append, map_singleton, Lru.recent_snoc]

theorem accept (tracks : Tracks past state)
    (next : extend (cycles query.pid state.answers) ⟨query, true⟩ = ⟨record.begin, record.count⟩ :: earlier)
    (counted : 0 < record.count) (within : record.count ≤ queryControlThreshold)
    (before : ∀ cycle ∈ earlier, cycle ∈ cycles query.pid state.answers) :
    Tracks (past ++ [query])
      ⟨put defaultCacheCapacity (get state.queryController query.pid).2 query.pid record,
        state.answers ++ [⟨query, true⟩]⟩ where
  answered := by rw [map_append, tracks.answered]; rfl
  order := by
    rw [recent_snoc]
    exact keys_put_get (nodup_recent _) tracks.order (by decide) query.pid record
  records := by
    intro pid held found
    by_cases same : pid = query.pid
    · subst same
      rw [lookup_put_self] at found
      cases found
      exact ⟨counted, earlier, (cycles_snoc_self state.answers ⟨query, true⟩).trans next⟩
    · have kept := lookup_put_other (distinct_get tracks.distinct _) same found
      rw [lookup_get] at kept
      rw [cycles_snoc_other _ (Ne.symm same)]
      exact tracks.records pid held kept
  bounded := by
    refine tracks.bounded_snoc ?_
    rw [next]
    exact forall_mem_cons.mpr ⟨within, fun cycle old => tracks.bounded _ cycle (before cycle old)⟩

theorem reject (tracks : Tracks past state) (found : Assoc.lookup state.queryController query.pid = some record)
    (next : extend (cycles query.pid state.answers) ⟨query, false⟩ = ⟨record.begin, record.count⟩ :: earlier)
    (same : cycles query.pid state.answers = ⟨record.begin, record.count⟩ :: earlier) :
    Tracks (past ++ [query])
      ⟨(Lru.get state.queryController query.pid).2, state.answers ++ [⟨query, false⟩]⟩ where
  answered := by rw [map_append, tracks.answered]; rfl
  order := by
    have used : (Assoc.lookup state.queryController query.pid).isSome := by rw [found]; rfl
    rw [recent_snoc, Lru.get, found]
    exact Lru.keys_insert (Lru.nodup_recent _) tracks.order used record
  records := by
    intro pid held kept
    rw [Lru.lookup_get] at kept
    by_cases own : pid = query.pid
    · subst own
      obtain ⟨counted, -⟩ := tracks.records _ _ kept
      cases found.symm.trans kept
      exact ⟨counted, earlier, (cycles_snoc_self state.answers ⟨query, false⟩).trans next⟩
    · rw [cycles_snoc_other _ (Ne.symm own)]
      exact tracks.records pid held kept
  bounded := by
    refine tracks.bounded_snoc ?_
    rw [next, ← same]
    exact tracks.bounded query.pid

end Tracks

theorem ask_fresh (fresh : ∀ record, lookup state.queryController query.pid = some record →
      query.time > record.begin + queryControlPeriodInMilliSeconds) :
    ask state query =
      ⟨put defaultCacheCapacity (get state.queryController query.pid).2 query.pid ⟨1, query.time⟩,
        state.answers ++ [⟨query, true⟩]⟩ := by
  have begins : isQueryFrequenceValid external state.queryController query.pid query.time =
      (true, put defaultCacheCapacity (get state.queryController query.pid).2 query.pid
        ⟨1, query.time⟩) := by
    refine (if_neg (by decide)).trans (if_pos ?_)
    rw [get_fst]
    cases found : lookup state.queryController query.pid with
    | none => exact .inl rfl
    | some record =>
      have late := fresh record found
      exact .inr (.inr (by change query.time - record.begin > _; omega))
  rw [ask, begins]

theorem ask_running (found : lookup state.queryController query.pid = some record)
    (counted : 0 < record.count) (began : record.begin ≤ query.time)
    (running : query.time ≤ record.begin + queryControlPeriodInMilliSeconds) :
    ask state query =
      if record.count + 1 ≤ queryControlThreshold then
        ⟨put defaultCacheCapacity (get state.queryController query.pid).2 query.pid
          ⟨record.count + 1, record.begin⟩, state.answers ++ [⟨query, true⟩]⟩
      else ⟨(get state.queryController query.pid).2, state.answers ++ [⟨query, false⟩]⟩ := by
  have continues : isQueryFrequenceValid external state.queryController query.pid query.time =
      if record.count + 1 ≤ queryControlThreshold then
        (true, put defaultCacheCapacity (get state.queryController query.pid).2 query.pid
          ⟨record.count + 1, record.begin⟩)
      else (false, (get state.queryController query.pid).2) := by
    refine (if_neg (by decide)).trans ?_
    simp only [get_fst, found, Option.getD_some]
    refine if_neg ?_
    omega
  rw [ask, continues]
  split <;> rfl

theorem ask_tracks (tracks : Tracks past state) (ordered : Ordered (past ++ [query]))
    (few : FewBetween (past ++ [query])) : Tracks (past ++ [query]) (ask state query) := by
  have begins (fresh : ∀ record, lookup state.queryController query.pid = some record →
        query.time > record.begin + queryControlPeriodInMilliSeconds)
      (ended : ∀ latest ∈ (cycles query.pid state.answers).head?,
        latest.begin + queryControlPeriodInMilliSeconds < query.time) :
      Tracks (past ++ [query]) (ask state query) := by
    rw [ask_fresh fresh]
    exact tracks.accept (extend_ended ended) Nat.one_pos (by decide : 1 ≤ queryControlThreshold)
      (fun _ member => member)
  cases found : lookup state.queryController query.pid with
  | none =>
    refine begins (fun record held => ?_) (fun latest member => ?_)
    · cases found.symm.trans held
    · exact tracks.ended_of_dropped ordered few found (mem_of_mem_head? member)
  | some record =>
    obtain ⟨counted, earlier, known⟩ := tracks.records _ _ found
    have began : record.begin ≤ query.time :=
      tracks.begin_le ordered (known ▸ mem_cons_self : (⟨record.begin, record.count⟩ : Cycle) ∈ _)
    by_cases running : query.time ≤ record.begin + queryControlPeriodInMilliSeconds
    · have next (valid : Bool) : extend (cycles query.pid state.answers) ⟨query, valid⟩ =
          ⟨record.begin, record.count + valid.toNat⟩ :: earlier := by
        rw [known, extend, if_pos running]
      have older : ∀ cycle ∈ earlier, cycle ∈ cycles query.pid state.answers := by
        intro cycle member
        rw [known]
        exact mem_cons_of_mem _ member
      rw [ask_running found counted began running]
      split
      · case isTrue within => exact tracks.accept (next true) (Nat.succ_pos _) within older
      · exact tracks.reject found (next false) known
    · refine begins (fun other held => ?_) (fun latest member => ?_)
      · cases found.symm.trans held
        exact Nat.not_le.mp running
      · rw [known, List.head?_cons, Option.mem_some_iff] at member
        rw [← member]
        exact Nat.not_le.mp running

theorem askAll_tracks (ordered : Ordered queries) (few : FewBetween queries) : Tracks queries (askAll queries) := by
  induction queries using List.reverseRecOn with
  | nil =>
    refine ⟨rfl, rfl, ?_, ?_⟩
    · intro pid record found
      cases found
    · intro pid cycle member
      cases member
  | append_singleton queries query ih =>
    rw [askAll, foldl_append]
    exact ask_tracks (ih (pairwise_append.mp ordered).1 few.left) ordered few

/-- No process gets more queries accepted in a cycle than the threshold says, as long
as its record stays in the cache while the cycle runs. -/
theorem cycle_accepted_le {queries : List Query} (ordered : Ordered queries) (few : FewBetween queries)
    (pid : Int) : ∀ cycle ∈ cycles pid (askAll queries).answers, cycle.accepted ≤ queryControlThreshold :=
  (askAll_tracks ordered few).bounded pid

theorem cycle_accepted_le_alone :
    Ordered (List.replicate 60 ⟨1, 0⟩) ∧ FewBetween (List.replicate 60 ⟨1, 0⟩) ∧
      ∀ cycle ∈ cycles 1 (askAll (List.replicate 60 ⟨1, 0⟩)).answers, cycle.accepted ≤ queryControlThreshold := by
  have ordered : Ordered (List.replicate 60 ⟨1, 0⟩) := by
    unfold Ordered
    decide +kernel
  have few : FewBetween (List.replicate 60 ⟨1, 0⟩) := fewBetween_of_card_le (by decide +kernel)
  exact ⟨ordered, few, cycle_accepted_le ordered few 1⟩

/-- A process asks up to the limit, 30 others ask once, and the first one is accepted
again in the same cycle. -/
theorem cycle_accepted_exceeded :
    Ordered (List.replicate 50 ⟨1, 0⟩ ++ (List.range 30).map (fun other => ⟨other + 2, 0⟩) ++ [⟨1, 0⟩]) ∧
      cycles 1 (askAll (List.replicate 50 ⟨1, 0⟩ ++
        (List.range 30).map (fun other => ⟨other + 2, 0⟩) ++ [⟨1, 0⟩])).answers = [⟨0, 51⟩] := by
  refine ⟨?_, ?_⟩
  · unfold Ordered
    decide +kernel
  · decide +kernel

end QueryFrequency
end Hiview.EventStore
