import Hiview.EventService.EventQueryWrapper
import Hiview.EventStore.QueryPages

/-! What a query from outside delivers. The files of a rule fall into pages, one
for each execution of its query, and the wrapper goes on to the next page as
long as enough events of the last one were transported or ignored. -/
namespace Hiview.EventService
open List hiding after all below count
open EventStore Paging
open SysEventDatabase (found weight readable getQueryFiles)
open SysEventDatabase (length_found query_page unrestricted)

namespace EventQueryWrapper
variable (env : ServiceEnv)

/-- The events the callback has been given or will be given. -/
def stream (wrapper : EventQueryWrapper) : List Entry := wrapper.sent.flatten ++ wrapper.cachedEvents

def oversized (entry : Entry) : Bool := eventJsonSize env entry > maxTransBuf

/-- The caller may see the event and it fits into the transmission buffer. -/
def deliverable (uid : Int) (entry : Entry) : Bool := admissible env uid entry && !oversized env entry

theorem countP_admissible (uid : Int) (entries : List Entry) :
    (entries.filter (deliverable env uid)).length +
        (entries.filter fun entry => admissible env uid entry && oversized env entry).length =
      entries.countP (admissible env uid) := by
  induction entries with
  | nil => rfl
  | cons entry rest ih =>
    cases admitted : admissible env uid entry <;> cases large : oversized env entry <;>
      simp only [filter_cons, countP_cons, deliverable, admitted, large, Bool.and_true,
        Bool.and_false, Bool.not_true, Bool.not_false, ↓reduceIte, length_cons,
        Bool.false_eq_true] at ih ⊢ <;> omega

variable (wrapper : EventQueryWrapper)

theorem transportCachedEvents_spec :
    ∃ sent size, wrapper.transportCachedEvents =
      { wrapper with sent := sent, cachedEvents := [], cachedEventTotalSize := size } ∧
      sent.flatten = wrapper.stream := by
  rw [transportCachedEvents, stream]
  split
  · case isTrue empty =>
    exact ⟨wrapper.sent, wrapper.cachedEventTotalSize, by rw [← empty], by rw [empty, append_nil]⟩
  · exact ⟨_, _, rfl, by rw [flatten_append, flatten_singleton]⟩

/-- The wrapper after a number of events has been taken over into its batches. -/
def advanced (wrapper : EventQueryWrapper) (sent : List (List Entry)) (cached : List Entry)
    (size : Int) (count : Nat) : EventQueryWrapper :=
  { wrapper with
    sent := sent, cachedEvents := cached, cachedEventTotalSize := size
    argument := { wrapper.argument with maxEvents := wrapper.argument.maxEvents - count } }

theorem advanced_advanced (sent sent' : List (List Entry)) (cached cached' : List Entry) (size size' : Int)
    (count count' : Nat) :
    (wrapper.advanced sent cached size count).advanced sent' cached' size' count' =
      wrapper.advanced sent' cached' size' (count' + count) := by
  have left : wrapper.argument.maxEvents - count - count' =
      wrapper.argument.maxEvents - (count' + count : Nat) := by omega
  rw [advanced, advanced, advanced, ← left]

theorem cacheEvent_spec (entry : Entry) :
    ∃ sent cached size, cacheEvent env wrapper entry = wrapper.advanced sent cached size 1 ∧
      sent.flatten ++ cached = wrapper.stream ++ [entry] := by
  rw [cacheEvent]
  split
  · obtain ⟨sent, size, flushed, all⟩ := transportCachedEvents_spec wrapper
    exact ⟨sent, [] ++ [entry], _, by rw [flushed]; rfl, by rw [all, nil_append]⟩
  · exact ⟨_, _, _, rfl, (append_assoc _ _ _).symm⟩

/-- The events that are delivered before no more may be sent. -/
def sendable (wrapper : EventQueryWrapper) (entries : List Entry) : List Entry :=
  (entries.filter (deliverable env wrapper.uid)).take wrapper.argument.maxEvents.toNat

/-- Every event that may be delivered is, up to the number that may be sent. -/
theorem transportSysEvent_spec {entries : List Entry} {wrapper : EventQueryWrapper}
    (details : Details) :
    ∃ sent cached size last, transportSysEvent env entries wrapper details =
        (wrapper.advanced sent cached size (sendable env wrapper entries).length, last) ∧
      sent.flatten ++ cached = wrapper.stream ++ sendable env wrapper entries ∧
      (((entries.filter (deliverable env wrapper.uid)).length : Int) < wrapper.argument.maxEvents →
        last = ⟨details.transported + (entries.filter (deliverable env wrapper.uid)).length,
          details.ignored + (entries.filter fun entry =>
            admissible env wrapper.uid entry && oversized env entry).length⟩) := by
  fun_induction transportSysEvent env entries wrapper details with
  | case1 wrapper details =>
    refine ⟨wrapper.sent, wrapper.cachedEvents, wrapper.cachedEventTotalSize, details, ?_, ?_, fun _ => rfl⟩
    · simp [advanced, sendable]
    · simp [sendable, stream]
  | case2 entry rest wrapper details spent =>
    have nothing : sendable env wrapper (entry :: rest) = [] := by
      rw [sendable, Int.toNat_of_nonpos spent, take_zero]
    rw [nothing]
    refine ⟨wrapper.sent, wrapper.cachedEvents, wrapper.cachedEventTotalSize, details, ?_,
      (append_nil _).symm, fun enough => ?_⟩
    · simp [advanced]
    · omega
  | case3 entry rest wrapper details more hidden ih =>
    have unseen : admissible env wrapper.uid entry = false := by simpa using hidden
    have skipped : deliverable env wrapper.uid entry = false := by simp [deliverable, unseen]
    simp only [sendable, filter_cons, skipped, unseen, Bool.false_and, Bool.false_eq_true, if_false]
    exact ih
  | case4 entry rest wrapper details more shown large ih =>
    have seen : admissible env wrapper.uid entry = true := by simpa using shown
    have tooLarge : oversized env entry = true := decide_eq_true large
    have skipped : deliverable env wrapper.uid entry = false := by simp [deliverable, tooLarge]
    obtain ⟨sent, cached, size, last, moved, all, counted⟩ := ih
    simp only [sendable, filter_cons, skipped, seen, tooLarge, Bool.and_self, Bool.false_eq_true, if_false, if_true,
      length_cons]
    refine ⟨sent, cached, size, last, moved, all, fun enough => ?_⟩
    rw [counted enough, Nat.add_right_comm, Nat.add_assoc]
  | case5 entry rest wrapper details more shown small ih =>
    have under : oversized env entry = false := decide_eq_false small
    have taken : deliverable env wrapper.uid entry = true := by simp_all [deliverable]
    obtain ⟨sent, cached, size, stored, grown⟩ := cacheEvent_spec env wrapper entry
    rw [stored] at ih ⊢
    obtain ⟨sent', cached', size', last, moved, all, counted⟩ := ih
    have left : wrapper.argument.maxEvents.toNat = (wrapper.argument.maxEvents - (1 : Nat)).toNat + 1 := by omega
    have more : sendable env wrapper (entry :: rest) =
        entry :: sendable env (wrapper.advanced sent cached size 1) rest := by
      rw [sendable, filter_cons_of_pos taken, left, take_succ_cons]
      rfl
    rw [more]
    refine ⟨sent', cached', size', last, ?_, ?_, fun enough => ?_⟩
    · rw [moved, advanced_advanced]
      rfl
    · rw [all]
      change (sent.flatten ++ cached) ++ _ = _
      rw [grown, append_assoc]
      rfl
    · rw [filter_cons_of_pos taken, length_cons] at enough ⊢
      rw [filter_cons_of_neg (by simp [under]), counted (by simp only [advanced]; omega), Nat.add_right_comm,
        Nat.add_assoc]
      rfl

section Page
variable (uid : Int) (limit : Int) (cond : Entry → Bool)

/-- The events of a page that are transported or ignored. -/
def survivors (page : List DbDoc) : Nat := (page.flatMap (found cond)).countP (admissible env uid)

def goesOn (page : List DbDoc) : Bool :=
  0 < survivors env uid cond page && limit ≤ survivors env uid cond page

theorem goesOn_iff {page : List DbDoc} :
    goesOn env uid limit cond page = true ↔
      0 < survivors env uid cond page ∧ limit ≤ survivors env uid cond page := by
  rw [goesOn, Bool.and_eq_true, decide_eq_true_eq, decide_eq_true_eq]

/-- The events of a page in the order in which the result set holds them. -/
def ordered (byTime : Bool) (entries : List Entry) : List Entry :=
  if byTime then env.database.timeQueue.order entries else env.database.seqQueue.order entries

def pageEvents (byTime : Bool) (page : List DbDoc) : List Entry :=
  (ordered env byTime (page.flatMap (found cond))).filter (deliverable env uid)

theorem ordered_perm (byTime : Bool) (entries : List Entry) :
    (ordered env byTime entries).Perm entries := by
  rw [ordered]
  split
  · exact env.database.timeQueue.perm entries
  · exact env.database.seqQueue.perm entries

theorem survivors_le_load (page : List DbDoc) : survivors env uid cond page ≤ load (weight cond) page := by
  rw [survivors, ← length_found]
  exact countP_le_length

end Page

section Round
variable (store : List DomainDir)

section
variable (asked : SysEventQuery)

/-- The query behind an execution that ended with the given file. -/
def resumed (last : Option DbDoc) : SysEventQuery :=
  { asked with queryArg := { asked.queryArg with
      toSeq := (last.map getFileSeq).getD asked.queryArg.toSeq } }

/-- The page the next execution of a query reads. -/
def nextPage (limit : Int) : List DbDoc × Option DbDoc :=
  SysEventDatabase.page env.database asked.cond limit (getQueryFiles env.database store asked.queryArg)

theorem execute_page (limit : Int) :
    asked.execute env.database store limit false =
      (ordered env asked.byTime ((nextPage env store asked limit).1.flatMap (found asked.cond)),
        resumed asked (nextPage env store asked limit).2) := by
  rw [SysEventQuery.execute, query_page]
  simp only [Bool.false_eq_true, and_false, if_false]
  refine Prod.ext (take_of_length_le ?_) rfl
  omega

variable (wrapper : EventQueryWrapper)

def executedRound : EventQueryWrapper :=
  transport env (asked.execute env.database store wrapper.queryLimit false).1
    { wrapper with
      query := some (asked.execute env.database store wrapper.queryLimit false).2
      executed := wrapper.executed + 1 }

/-- The next round executes a query of the first of the rules that are left. -/
structure Poised (start : EventQueryWrapper) (asked : SysEventQuery) (wrapper : EventQueryWrapper)
    (rule : SysEventQueryRule) (rest : List SysEventQueryRule) : Prop where
  unfinished : 0 < start.argument.maxEvents
  needed : ∃ next, start.needStartNextQuery = (true, next) ∧ next.queryRules = rule :: rest ∧
    next.buildQuery rule = (asked, wrapper)
  limited : wrapper.queryLimit ≤ 1000

variable {rule : SysEventQueryRule} {rest : List SysEventQueryRule}

theorem queryLoop_round {start wrapper : EventQueryWrapper} {asked : SysEventQuery}
    (admitted : ∀ earlier, env.database.limiter earlier = .succeed) (poised : Poised start asked wrapper rule rest)
    (rounds : Nat) :
    queryLoop env store (rounds + 1) start =
      queryLoop env store rounds (executedRound env store asked wrapper) := by
  obtain ⟨next, need, rules, built⟩ := poised.needed
  have incomplete : start.isQueryComplete = false :=
    decide_eq_false (Int.not_le.mpr poised.unfinished)
  have allowed : ¬ wrapper.queryLimit > 1000 := Int.not_lt.mpr poised.limited
  rw [queryLoop, incomplete, need]
  simp [rules, built, SysEventQuery.executeLimited, admitted, if_neg allowed]
  rfl

/-- What rounds of the loop may change, and what they have delivered. -/
structure Delivered (before after : EventQueryWrapper) (out : List Entry) : Prop where
  kind : after.kind = before.kind
  uid : after.uid = before.uid
  queryLimit : after.queryLimit = before.queryLimit
  queryRules : after.queryRules = before.queryRules
  argument : after.argument =
    { before.argument with maxEvents := before.argument.maxEvents - out.length }
  stream : after.stream = before.stream ++ out

theorem Delivered.trans {first second third : EventQueryWrapper} {out later : List Entry}
    (earlier : Delivered first second out) (following : Delivered second third later) :
    Delivered first third (out ++ later) where
  kind := following.kind.trans earlier.kind
  uid := following.uid.trans earlier.uid
  queryLimit := following.queryLimit.trans earlier.queryLimit
  queryRules := following.queryRules.trans earlier.queryRules
  argument := by
    have left : first.argument.maxEvents - out.length - later.length =
        first.argument.maxEvents - (out ++ later).length := by
      rw [length_append]
      omega
    rw [following.argument, earlier.argument, ← left]
  stream := by rw [following.stream, earlier.stream, append_assoc]

theorem transport_spec (entries : List Entry) (wrapper : EventQueryWrapper) :
    Delivered wrapper (transport env entries wrapper) (sendable env wrapper entries) ∧
      (transport env entries wrapper).isFirstPartialQuery = false ∧
      (transport env entries wrapper).query = wrapper.query ∧
      (((entries.filter (deliverable env wrapper.uid)).length : Int) < wrapper.argument.maxEvents →
        (transport env entries wrapper).transportedEventCnt +
            (transport env entries wrapper).ignoredEventCnt =
          entries.countP (admissible env wrapper.uid)) := by
  obtain ⟨sent, cached, size, last, moved, all, counted⟩ :=
    @transportSysEvent_spec env entries wrapper ⟨0, 0⟩
  rw [transport, moved]
  refine ⟨⟨rfl, rfl, rfl, rfl, rfl, all⟩, rfl, rfl, fun enough => ?_⟩
  rw [← countP_admissible, counted enough]
  simp

theorem executedRound_spec
    {page : List DbDoc × Option DbDoc} (read : nextPage env store asked wrapper.queryLimit = page) :
    Delivered wrapper (executedRound env store asked wrapper)
        ((pageEvents env wrapper.uid asked.cond asked.byTime page.1).take
          wrapper.argument.maxEvents.toNat) ∧
      (executedRound env store asked wrapper).isFirstPartialQuery = false ∧
      (executedRound env store asked wrapper).query = some (resumed asked page.2) ∧
      (((pageEvents env wrapper.uid asked.cond asked.byTime page.1).length : Int) <
          wrapper.argument.maxEvents →
        (executedRound env store asked wrapper).transportedEventCnt +
            (executedRound env store asked wrapper).ignoredEventCnt =
          survivors env wrapper.uid asked.cond page.1) := by
  obtain ⟨moved, later, kept, counted⟩ := transport_spec env
    (ordered env asked.byTime (page.1.flatMap (found asked.cond)))
    { wrapper with query := some (resumed asked page.2), executed := wrapper.executed + 1 }
  rw [executedRound, execute_page, read, survivors, ← (ordered_perm env asked.byTime _).countP_eq]
  exact ⟨⟨moved.kind, moved.uid, moved.queryLimit, moved.queryRules, moved.argument, moved.stream⟩,
    later, kept, counted⟩

/-- The next round starts with the first of the given rules, if there is one. -/
def Between (rules : List SysEventQueryRule) : Prop :=
  wrapper.needStartNextQuery =
    (decide (rules ≠ []), { wrapper with queryRules := rules, query := none })

theorem between_of_thin {wrapper : EventQueryWrapper} {count : Nat} (rules : wrapper.queryRules = rule :: rest)
    (later : wrapper.isFirstPartialQuery = false)
    (counted : wrapper.transportedEventCnt + wrapper.ignoredEventCnt = count)
    (thin : ¬ (0 < (count : Int) ∧ wrapper.queryLimit ≤ count)) : Between wrapper rest := by
  have few : ¬ (0 < (wrapper.transportedEventCnt + wrapper.ignoredEventCnt : Int) ∧
      wrapper.queryLimit ≤ wrapper.transportedEventCnt + wrapper.ignoredEventCnt) := by
    omega
  rw [Between, needStartNextQuery, later, if_neg Bool.false_ne_true, if_neg few, rules]
  rfl

/-- The pages of a query that the rounds with one rule read. -/
def visited (uid limit : Int) (asked : SysEventQuery) : List (List DbDoc) :=
  reached (goesOn env uid limit asked.cond) (pages (readable env.database) (weight asked.cond) limit
    (getQueryFiles env.database store asked.queryArg))

/-- A query that finds anything and selects every file at first selects every
file below a page later. -/
def Resumable : Prop :=
  ∀ entry, asked.cond entry = true → SysEventDatabase.unrestricted asked.queryArg = true →
    SysEventDatabase.Wide asked.queryArg

end

variable {env store} {uid limit : Int} {asked : SysEventQuery} {last : DbDoc}

variable (full : (nextPage env store asked limit).2 = some last)
include full

theorem last_inside :
    last ∈ getQueryFiles env.database store asked.queryArg :=
  full_inside (readable env.database) (weight asked.cond) limit full

theorem resumed_files
    (wide : unrestricted asked.queryArg = true →
      SysEventDatabase.Wide asked.queryArg) :
    getQueryFiles env.database store (resumed asked (some last)).queryArg =
      below getFileSeq (getFileSeq last) (getQueryFiles env.database store asked.queryArg) := by
  exact SysEventDatabase.getQueryFiles_next (getFileSeq_valid last)
    (SysEventDatabase.getQueryFiles_bound (last_inside full)) wide _ _

omit full

theorem visited_open (short : (nextPage env store asked limit).2 = none) :
    visited env store uid limit asked = [(nextPage env store asked limit).1] ∧
      goesOn env uid limit asked.cond (nextPage env store asked limit).1 = false := by
  obtain ⟨whole, light⟩ := fill_open short
  have few := survivors_le_load env uid asked.cond (nextPage env store asked limit).1
  refine ⟨?_, ?_⟩
  · rw [visited, pages_open _ _ _ short, ← whole, reached, reached, ite_self]
    rfl
  · rw [goesOn, Bool.and_eq_false_iff, decide_eq_false_iff_not, decide_eq_false_iff_not]
    change (nextPage env store asked limit).1 = _ at whole
    rw [← whole] at light
    rcases light with empty | light
    · rw [empty] at few ⊢
      exact .inl (Nat.not_lt.mpr few)
    · exact .inr (by omega)

variable (full : (nextPage env store asked limit).2 = some last)
include full

theorem visited_thin
    (thin : goesOn env uid limit asked.cond (nextPage env store asked limit).1 = false) :
    visited env store uid limit asked = [(nextPage env store asked limit).1] := by
  rw [visited, pages_full _ _ _ full, reached]
  change _ :: (if goesOn env uid limit asked.cond (nextPage env store asked limit).1 then _ else _) = _
  rw [thin]
  rfl

theorem visited_on
    (on : goesOn env uid limit asked.cond (nextPage env store asked limit).1 = true)
    (wide : unrestricted asked.queryArg = true →
      SysEventDatabase.Wide asked.queryArg) :
    visited env store uid limit asked =
      (nextPage env store asked limit).1 ::
        visited env store uid limit (resumed asked (some last)) := by
  rw [visited, pages_full _ _ _ full, reached, visited, resumed_files full wide]
  change _ :: (if goesOn env uid limit asked.cond (nextPage env store asked limit).1 then _ else _) = _
  rw [on]
  rfl

omit full

theorem resumable_resumed (last : DbDoc) : Resumable (resumed asked (some last)) := by
  intro entry _ free
  have restricted : unrestricted (resumed asked (some last)).queryArg = false :=
    SysEventDatabase.unrestricted_next (getFileSeq_valid last)
  cases restricted.symm.trans free

theorem found_of_goesOn {cond : Entry → Bool} (on : goesOn env uid limit cond page = true) :
    ∃ entry, cond entry = true := by
  obtain ⟨entry, member, -⟩ := countP_pos_iff.mp ((goesOn_iff env uid limit cond).mp on).1
  obtain ⟨file, -, matched⟩ := mem_flatMap.mp member
  exact ⟨entry, (mem_filter.mp matched).2⟩

theorem queryLoop_spent {wrapper : EventQueryWrapper} (spent : wrapper.argument.maxEvents ≤ 0)
    (rounds : Nat) :
    queryLoop env store (rounds + 1) wrapper = some (wrapper.finishEventQuery .succeed) := by
  have complete : wrapper.isQueryComplete = true := decide_eq_true spent
  rw [queryLoop, complete]
  rfl

section Rounds
variable (admitted : ∀ earlier, env.database.limiter earlier = .succeed)
  {start wrapper : EventQueryWrapper} {rule : SysEventQueryRule} {rest : List SysEventQueryRule}

/-- The rounds with one rule, from the one that reads the given pages on. They end
early when no more events may be sent. -/
def Runs (env : ServiceEnv) (store : List DomainDir) (start wrapper : EventQueryWrapper)
    (rest : List SysEventQueryRule) (asked : SysEventQuery) (all : List (List DbDoc)) : Prop :=
  ∃ final,
    Delivered wrapper final ((all.flatMap (pageEvents env wrapper.uid asked.cond asked.byTime)).take
      wrapper.argument.maxEvents.toNat) ∧
    (0 < final.argument.maxEvents → Between final rest) ∧
    ∀ rounds, queryLoop env store (rounds + 1 + all.length) start =
      queryLoop env store (rounds + 1) final

theorem length_lt_of_left {events : List Entry}
    (moved : Delivered before after (events.take before.argument.maxEvents.toNat))
    (left : 0 < after.argument.maxEvents) : (events.length : Int) < before.argument.maxEvents := by
  rw [moved.argument, length_take] at left
  simp only at left
  omega

theorem poised_on {next : EventQueryWrapper} (unfinished : 0 < next.argument.maxEvents)
    (rules : next.queryRules = rule :: rest) (later : next.isFirstPartialQuery = false)
    (counted : next.transportedEventCnt + next.ignoredEventCnt = count) (many : 0 < count ∧ next.queryLimit ≤ count)
    (kept : next.query = some asked) (limited : next.queryLimit ≤ 1000) : Poised next asked next rule rest := by
  have enough : 0 < (next.transportedEventCnt + next.ignoredEventCnt : Int) ∧
      next.queryLimit ≤ next.transportedEventCnt + next.ignoredEventCnt := by omega
  refine ⟨unfinished, ⟨next, ?_, rules, ?_⟩, limited⟩
  · rw [needStartNextQuery, later, if_neg Bool.false_ne_true, if_pos enough]
  · rw [buildQuery, kept]

include admitted

theorem runs_last (poised : Poised start asked wrapper rule rest)
    (rules : wrapper.queryRules = rule :: rest)
    (thin : goesOn env wrapper.uid wrapper.queryLimit asked.cond
      (nextPage env store asked wrapper.queryLimit).1 = false) :
    Runs env store start wrapper rest asked [(nextPage env store asked wrapper.queryLimit).1] := by
  obtain ⟨moved, later, -, counted⟩ := executedRound_spec env store asked wrapper rfl
  refine ⟨executedRound env store asked wrapper, ?_, fun left => ?_, fun rounds =>
    queryLoop_round env store admitted poised (rounds + 1)⟩
  · rw [flatMap_singleton]
    exact moved
  · refine between_of_thin (moved.queryRules.trans rules) later
      (counted (length_lt_of_left moved left)) ?_
    have few := mt (goesOn_iff env wrapper.uid wrapper.queryLimit asked.cond).mpr
      (Bool.eq_false_iff.mp thin)
    rw [moved.queryLimit]
    omega

theorem runs_spent {page : List DbDoc} (all : List (List DbDoc))
    (poised : Poised start asked wrapper rule rest)
    (positive : 0 < wrapper.argument.maxEvents)
    (moved : Delivered wrapper (executedRound env store asked wrapper)
      ((pageEvents env wrapper.uid asked.cond asked.byTime page).take
        wrapper.argument.maxEvents.toNat))
    (spent : wrapper.argument.maxEvents ≤
      (pageEvents env wrapper.uid asked.cond asked.byTime page).length) :
    Runs env store start wrapper rest asked (page :: all) := by
  have nothing : (executedRound env store asked wrapper).argument.maxEvents ≤ 0 := by
    rw [moved.argument, length_take]
    simp only
    omega
  refine ⟨executedRound env store asked wrapper, ?_, fun left => ?_, fun rounds => ?_⟩
  · rw [flatMap_cons, take_append_of_le_length (by omega)]
    exact moved
  · omega
  · rw [length_cons, ← Nat.add_assoc, queryLoop_round env store admitted poised,
      queryLoop_spent nothing, Nat.add_right_comm, queryLoop_spent nothing]

theorem runs_cons (poised : Poised start asked wrapper rule rest)
    (moved : Delivered wrapper (executedRound env store asked wrapper)
      (pageEvents env wrapper.uid asked.cond asked.byTime page))
    (enough : ((pageEvents env wrapper.uid asked.cond asked.byTime page).length : Int) <
      wrapper.argument.maxEvents) (following : Runs env store (executedRound env store asked wrapper)
      (executedRound env store asked wrapper) rest (resumed asked (some last)) all) :
    Runs env store start wrapper rest asked (page :: all) := by
  obtain ⟨final, delivered, between, rounds⟩ := following
  refine ⟨final, ?_, between, fun left => ?_⟩
  · have parts := moved.trans delivered
    rw [moved.uid] at parts
    have split : wrapper.argument.maxEvents.toNat =
        (pageEvents env wrapper.uid asked.cond asked.byTime page).length +
          (executedRound env store asked wrapper).argument.maxEvents.toNat := by
      rw [moved.argument]
      simp only
      omega
    rw [flatMap_cons, split, take_length_add_append]
    exact parts
  · rw [length_cons, ← Nat.add_assoc, queryLoop_round env store admitted poised, rounds]

/-- The rounds with one rule deliver the events of the pages they visit. -/
theorem runs_visited (poised : Poised start asked wrapper rule rest)
    (positive : 0 < wrapper.argument.maxEvents)
    (rules : wrapper.queryRules = rule :: rest) (resumable : Resumable asked) :
    Runs env store start wrapper rest asked
      (visited env store wrapper.uid wrapper.queryLimit asked) := by
  -- every further page is taken from fewer files
  induction counts : (getQueryFiles env.database store asked.queryArg).length
    using Nat.strong_induction_on generalizing start wrapper asked with
  | h size ih =>
    cases closed : (nextPage env store asked wrapper.queryLimit).2 with
    | none =>
      have single : visited env store wrapper.uid _ asked = _ ∧ _ := visited_open closed
      rw [single.1]
      exact runs_last admitted poised rules single.2
    | some last =>
      cases on : goesOn env wrapper.uid wrapper.queryLimit asked.cond
        (nextPage env store asked wrapper.queryLimit).1 with
      | false =>
        rw [visited_thin closed on]
        exact runs_last admitted poised rules on
      | true =>
        obtain ⟨entry, matched⟩ := found_of_goesOn on
        have wide := resumable entry matched
        obtain ⟨moved, later, kept, counted⟩ := executedRound_spec env store asked wrapper rfl
        rw [visited_on closed on wide]
        rcases lt_or_ge ((pageEvents env wrapper.uid asked.cond asked.byTime
          (nextPage env store asked wrapper.queryLimit).1).length : Int)
          wrapper.argument.maxEvents with enough | spent
        · rw [take_of_length_le (by omega)] at moved
          have left : 0 < (executedRound env store asked wrapper).argument.maxEvents := by
            rw [moved.argument]
            simp only
            omega
          have many := (goesOn_iff env wrapper.uid wrapper.queryLimit asked.cond).mp on
          rw [closed] at kept
          have files := resumed_files closed wide
          have poised' : Poised (executedRound env store asked wrapper) (resumed asked (some last))
              (executedRound env store asked wrapper) rule rest :=
            poised_on left (moved.queryRules.trans rules) later (counted enough)
              (by rwa [moved.queryLimit]) kept (by rw [moved.queryLimit]; exact poised.limited)
          have fewer : (getQueryFiles env.database store
              (resumed asked (some last)).queryArg).length < size := by
            rw [files, ← counts]
            exact below_shorter (last_inside closed)
          have following := ih _ fewer poised' left (moved.queryRules.trans rules)
            (resumable_resumed last) rfl
          rw [moved.uid, moved.queryLimit] at following
          exact runs_cons admitted poised moved enough following
        · exact runs_spent admitted _ poised positive moved spent

end Rounds
end Round
end EventQueryWrapper
end Hiview.EventService
