import Hiview.EventService.PagedQuery

/-! Which stored events a query from outside delivers, over all its rules, and what it
delivers when the number of events is negative. -/
namespace Hiview.EventService
open List hiding after below count head
open EventStore Paging SysEventDatabase

namespace EventQueryWrapper

/-- The query a wrapper builds for a rule, from the argument of the caller. -/
def ruleQuery (kind : WrapperKind) (argument : QueryArgument) (rule : SysEventQueryRule) :
    SysEventQuery :=
  match kind with
  | .timeStamp => ⟨ruleArg rule invalidSeq invalidSeq, fun entry =>
      (clamped argument).beginTime ≤ entry.ts && entry.ts < (clamped argument).endTime &&
        rule.condition entry, true⟩
  | .seq => ⟨ruleArg rule argument.toSeq argument.fromSeq, fun entry =>
      argument.fromSeq ≤ entry.id && entry.id < argument.toSeq && rule.condition entry, false⟩

/-- The number of events with which a page of a rule is full, when the given
number of events may still be sent. -/
def ruleLimit (kind : WrapperKind) (argument : QueryArgument) (budget : Int) : Int :=
  match kind with
  | .timeStamp => if budget < maxQueryEvents then budget else maxQueryEvents
  | .seq =>
    let offset := if argument.fromSeq < argument.toSeq then argument.toSeq - argument.fromSeq else 0
    if offset < maxQueryEvents then offset else maxQueryEvents

theorem ruleLimit_le (kind : WrapperKind) (argument : QueryArgument) (budget : Int) :
    ruleLimit kind argument budget ≤ 1000 := by
  cases kind with
  | timeStamp =>
    simp [ruleLimit, maxQueryEvents]
    omega
  | seq =>
    simp [ruleLimit, maxQueryEvents]
    omega

theorem resumable_ruleQuery (kind : WrapperKind) (argument : QueryArgument)
    (rule : SysEventQueryRule) : Resumable (ruleQuery kind argument rule) := by
  intro entry matched free
  cases kind with
  | timeStamp => exact ⟨(by decide : (-1 : Int) < 0), rfl⟩
  | seq =>
    simp only [ruleQuery, Bool.and_eq_true, decide_eq_true_eq] at matched
    rw [unrestricted, Bool.and_eq_true] at free
    have last : argument.toSeq = -1 := of_decide_eq_true free.2
    refine ⟨?_, rfl⟩
    change argument.fromSeq < 0
    omega

/-- The wrapper still works on what the caller asked for. -/
structure Asks (wrapper : EventQueryWrapper) (kind : WrapperKind) (uid : Int)
    (argument : QueryArgument) : Prop where
  kind : wrapper.kind = kind
  uid : wrapper.uid = uid
  fromSeq : wrapper.argument.fromSeq = argument.fromSeq
  toSeq : wrapper.argument.toSeq = argument.toSeq
  beginTime : (clamped wrapper.argument).beginTime = (clamped argument).beginTime
  endTime : (clamped wrapper.argument).endTime = (clamped argument).endTime

theorem clamped_clamped (argument : QueryArgument) : clamped (clamped argument) = clamped argument := by
  simp [clamped, QueryArgument.mk.injEq]
  refine ⟨?_, ?_, ?_⟩ <;> omega

/-- What `BuildQuery` leaves behind for a new rule. -/
structure Built (before after : EventQueryWrapper) : Prop where
  queryRules : after.queryRules = before.queryRules
  maxEvents : after.argument.maxEvents = before.argument.maxEvents
  stream : after.stream = before.stream

section Build
variable {wrapper : EventQueryWrapper} {kind : WrapperKind} {uid : Int} {argument : QueryArgument}

theorem buildQuery_spec (asks : Asks wrapper kind uid argument) (fresh : wrapper.query = none)
    (positive : 0 < wrapper.argument.maxEvents) (rule : SysEventQueryRule) :
    ∃ after, wrapper.buildQuery rule = (ruleQuery kind argument rule, after) ∧
      Built wrapper after ∧ Asks after kind uid argument ∧
      after.queryLimit = ruleLimit kind argument wrapper.argument.maxEvents := by
  have unclamped : (clamped wrapper.argument).maxEvents = wrapper.argument.maxEvents :=
    if_neg (by omega)
  cases kind with
  | timeStamp =>
    have kept := clamped_clamped wrapper.argument
    refine ⟨(wrapper.buildTimeQuery rule).2, ?_, ⟨rfl, unclamped, rfl⟩,
      ⟨asks.kind, asks.uid, asks.fromSeq, asks.toSeq, ?_, ?_⟩, ?_⟩
    · rw [buildQuery, fresh, asks.kind]
      simp [buildTimeQuery, ruleQuery, asks.beginTime, asks.endTime]
    · exact (congrArg QueryArgument.beginTime kept).trans asks.beginTime
    · exact (congrArg QueryArgument.endTime kept).trans asks.endTime
    · simp [buildTimeQuery, ruleLimit, unclamped]
  | seq =>
    refine ⟨(wrapper.buildSeqQuery rule).2, ?_, ⟨rfl, rfl, rfl⟩,
      ⟨asks.kind, asks.uid, asks.fromSeq, asks.toSeq, asks.beginTime, asks.endTime⟩, ?_⟩
    · rw [buildQuery, fresh, asks.kind]
      simp [buildSeqQuery, ruleQuery, asks.fromSeq, asks.toSeq]
    · simp [buildSeqQuery, ruleLimit, asks.fromSeq, asks.toSeq]

end Build

section Rules
variable (env : ServiceEnv) (store : List DomainDir) (kind : WrapperKind) (uid : Int)
  (argument : QueryArgument)

def rulePages (rule : SysEventQueryRule) (budget : Int) : List (List DbDoc) :=
  pages (readable env.database) (weight (ruleQuery kind argument rule).cond)
    (ruleLimit kind argument budget)
    (getQueryFiles env.database store (ruleQuery kind argument rule).queryArg)

def rulePageEvents (rule : SysEventQueryRule) : List DbDoc → List Entry :=
  pageEvents env uid (ruleQuery kind argument rule).cond (ruleQuery kind argument rule).byTime

/-- The loop goes on with the rule after a page. -/
def ruleGoesOn (rule : SysEventQueryRule) (budget : Int) : List DbDoc → Bool :=
  goesOn env uid (ruleLimit kind argument budget) (ruleQuery kind argument rule).cond

/-- The events sent for a rule when the given number of events may be sent. -/
def ruleEvents (rule : SysEventQueryRule) (budget : Int) : List Entry :=
  ((reached (ruleGoesOn env kind uid argument rule budget)
    (rulePages env store kind argument rule budget)).flatMap
      (rulePageEvents env kind uid argument rule)).take budget.toNat

def served (budget : Int) : List SysEventQueryRule → List Entry
  | [] => []
  | rule :: rest =>
    let events := ruleEvents env store kind uid argument rule budget
    events ++ served (budget - events.length) rest

theorem served_spent {budget : Int} (spent : budget ≤ 0) (rules : List SysEventQueryRule) :
    served env store kind uid argument budget rules = [] := by
  induction rules with
  | nil => rfl
  | cons rule rest ih =>
    have nothing : ruleEvents env store kind uid argument rule budget = [] := by
      rw [ruleEvents, Int.toNat_of_nonpos spent, take_zero]
    rw [served, nothing]
    simpa using ih

variable {env store kind uid argument}

theorem asks_of_delivered (moved : Delivered before after out) (asks : Asks before kind uid argument) :
    Asks after kind uid argument where
  kind := moved.kind.trans asks.kind
  uid := moved.uid.trans asks.uid
  fromSeq := by rw [moved.argument]; exact asks.fromSeq
  toSeq := by rw [moved.argument]; exact asks.toSeq
  beginTime := by rw [moved.argument]; exact asks.beginTime
  endTime := by rw [moved.argument]; exact asks.endTime

/-- Every rule takes at most one round for each file and one more. -/
def roundsPerRule (store : List DomainDir) : Nat := (store.map fun dir => dir.files.length).sum + 1

theorem queryLoop_rule (admitted : ∀ earlier, env.database.limiter earlier = .succeed)
    {wrapper : EventQueryWrapper} {rule : SysEventQueryRule} {rest : List SysEventQueryRule}
    (positive : 0 < wrapper.argument.maxEvents)
    (between : Between wrapper (rule :: rest)) (asks : Asks wrapper kind uid argument) :
    ∃ final read, (0 < final.argument.maxEvents → Between final rest) ∧
      Asks final kind uid argument ∧
      final.stream = wrapper.stream ++
        ruleEvents env store kind uid argument rule wrapper.argument.maxEvents ∧
      final.argument.maxEvents = wrapper.argument.maxEvents -
        (ruleEvents env store kind uid argument rule wrapper.argument.maxEvents).length ∧
      read ≤ roundsPerRule store ∧
      ∀ rounds, queryLoop env store (rounds + 1 + read) wrapper =
        queryLoop env store (rounds + 1) final := by
  obtain ⟨ready, built, kept, asks', limit⟩ := buildQuery_spec
    (show Asks { wrapper with queryRules := rule :: rest, query := none } kind uid argument from
      ⟨asks.kind, asks.uid, asks.fromSeq, asks.toSeq, asks.beginTime, asks.endTime⟩)
    rfl positive rule
  have small := ruleLimit_le kind argument wrapper.argument.maxEvents
  have poised : Poised wrapper (ruleQuery kind argument rule) ready rule rest :=
    ⟨positive, ⟨_, between, rfl, built⟩, by rw [limit]; exact small⟩
  have left : 0 < ready.argument.maxEvents := by
    rw [kept.maxEvents]
    exact positive
  obtain ⟨final, moved, next, rounds⟩ :=
    runs_visited admitted poised left kept.queryRules (resumable_ruleQuery kind argument rule)
  rw [kept.maxEvents, asks'.uid, limit] at moved
  refine ⟨final, _, next, asks_of_delivered moved asks', ?_, ?_, ?_, rounds⟩
  · rw [moved.stream, kept.stream]
    rfl
  · rw [moved.argument]
    simp only [kept.maxEvents]
    rfl
  · calc (visited env store ready.uid ready.queryLimit (ruleQuery kind argument rule)).length
        ≤ (pages (readable env.database) _ ready.queryLimit _).length :=
          (reached_sublist _ _).length_le
      _ ≤ _ := length_pages_le _ _ _ _
      _ ≤ roundsPerRule store :=
          Nat.succ_le_succ (length_getQueryFiles_le env.database store _)

theorem finishEventQuery_sent (wrapper : EventQueryWrapper) :
    (wrapper.finishEventQuery .succeed).2.sent.flatten = wrapper.stream := by
  obtain ⟨sent, size, flushed, all⟩ := transportCachedEvents_spec wrapper
  rw [finishEventQuery, flushed]
  exact all

/-- The loop sends the events of every rule, in the order of the rules. -/
theorem queryLoop_rules (admitted : ∀ earlier, env.database.limiter earlier = .succeed)
    (between : 0 < wrapper.argument.maxEvents → Between wrapper rules) (asks : Asks wrapper kind uid argument)
    {rounds : Nat} (long : rules.length * roundsPerRule store ≤ rounds) :
    ∃ final, queryLoop env store (rounds + 1) wrapper = some (.succeed, final) ∧
      final.sent.flatten = wrapper.stream ++
        served env store kind uid argument wrapper.argument.maxEvents rules := by
  induction rules generalizing wrapper rounds with
  | nil =>
    rcases lt_or_ge 0 wrapper.argument.maxEvents with positive | spent
    · have incomplete : wrapper.isQueryComplete = false := decide_eq_false (by omega)
      refine ⟨(finishEventQuery { wrapper with queryRules := [], query := none } .succeed).2, ?_, ?_⟩
      · rw [queryLoop, incomplete, between positive]
        rfl
      · rw [finishEventQuery_sent, served, append_nil]
        rfl
    · refine ⟨(wrapper.finishEventQuery .succeed).2, queryLoop_spent spent rounds, ?_⟩
      rw [finishEventQuery_sent, served, append_nil]
  | cons rule rest ih =>
    rcases lt_or_ge 0 wrapper.argument.maxEvents with positive | spent
    · obtain ⟨final, read, next, asks', all, left, few, ran⟩ :=
        @queryLoop_rule env store _ _ _ admitted _ _ _ positive (between positive) asks
      rw [length_cons, Nat.succ_mul] at long
      obtain ⟨later, rfl⟩ := Nat.exists_eq_add_of_le' (show read ≤ rounds by omega)
      obtain ⟨last, finished, whole⟩ := ih next asks' (show _ ≤ later by omega)
      refine ⟨last, ?_, ?_⟩
      · rw [Nat.add_right_comm, ran]
        exact finished
      · rw [whole, all, served, left, append_assoc]
    · refine ⟨(wrapper.finishEventQuery .succeed).2, queryLoop_spent spent rounds, ?_⟩
      rw [finishEventQuery_sent, served_spent env store kind uid argument spent, append_nil]

theorem mem_served :
    entry ∈ served env store kind uid argument budget rules ↔
      ∃ before rule after, rules = before ++ rule :: after ∧
        entry ∈ ruleEvents env store kind uid argument rule
          (budget - (served env store kind uid argument budget before).length) := by
  induction rules generalizing budget with
  | nil =>
    constructor
    · intro member
      cases member
    · rintro ⟨before, rule, after, parts, -⟩
      cases before <;> cases parts
  | cons first rest ih =>
    have left (before : List SysEventQueryRule) :
        budget - (served env store kind uid argument budget (first :: before)).length =
          budget - (ruleEvents env store kind uid argument first budget).length -
            (served env store kind uid argument
              (budget - (ruleEvents env store kind uid argument first budget).length)
              before).length := by
      rw [served, length_append]
      omega
    rw [served, mem_append]
    constructor
    · rintro (now | later)
      · exact ⟨[], first, rest, rfl, by simpa [served] using now⟩
      · obtain ⟨before, rule, after, parts, member⟩ := ih.mp later
        exact ⟨first :: before, rule, after, congrArg (first :: ·) parts, by rwa [left]⟩
    · rintro ⟨before, rule, after, parts, member⟩
      cases before with
      | nil =>
        cases parts
        exact .inl (by simpa [served] using member)
      | cons head before =>
        cases parts
        rw [left] at member
        exact .inr (ih.mpr ⟨before, rule, after, rfl, member⟩)

end Rules

section Complete
variable (env : ServiceEnv) (store : List DomainDir)

variable (kind : WrapperKind) (uid : Int) (argument : QueryArgument)

/-- A stored event that a rule asks for. -/
def Matches (rule : SysEventQueryRule)
    (entry : Entry) : Prop :=
  ∃ dir ∈ getQueryDirsByDomain store rule.domain, ∃ file ∈ dir.files,
    (rule.eventList = [] ∨ file.info.name ∈ rule.eventList) ∧
    (rule.eventType = 0 ∨ file.info.type = rule.eventType) ∧
    entry ∈ file.entries ∧ (ruleQuery kind argument rule).cond entry = true

/-- The event decodes, fits into the transmission buffer and may be shown to the caller. -/
def Sendable (entry : Entry) : Prop :=
  entry.json ≠ [] ∧
    ((((env.str8ToStr16 entry.json).length + 1) * u16CharSize : Nat) : Int) ≤ maxTransBuf ∧
    (uid = hidShell →
      CompliantEventChecker.isCompliantEvent env.isSecureEnabeled entry.domain entry.eventName = true)

/-- The event is in a page of the rule, every earlier page has let the loop go on,
and the events sent before leave room for it. -/
def Reaches (rule : SysEventQueryRule)
    (budget : Int) (entry : Entry) : Prop :=
  ∃ earlier page later, rulePages env store kind argument rule budget = earlier ++ page :: later ∧
    (∀ before ∈ earlier, ruleGoesOn env kind uid argument rule budget before = true) ∧
    entry ∈ (rulePageEvents env kind uid argument rule page).take
      (budget.toNat - (earlier.flatMap (rulePageEvents env kind uid argument rule)).length)

variable {env store}

theorem asks_new (maxSeq : Int)
    (rules : List SysEventQueryRule) :
    Asks (new uid argument maxSeq rules) (new uid argument maxSeq rules).kind uid
      (new uid argument maxSeq rules).argument :=
  ⟨rfl, rfl, rfl, rfl, rfl, rfl⟩

theorem runQuery_served (admitted : ∀ earlier, env.database.limiter earlier = .succeed)
    (uid : Int) (argument : QueryArgument) (maxSeq : Int) (rules : List SysEventQueryRule) :
    ∃ final, runQuery env store (new uid argument maxSeq rules) = some (.succeed, final) ∧
      final.sent.flatten =
        served env store (new uid argument maxSeq rules).kind uid
          (new uid argument maxSeq rules).argument
          (new uid argument maxSeq rules).argument.maxEvents rules := by
  have first : Between (new uid argument maxSeq rules) rules := rfl
  exact queryLoop_rules admitted (fun _ => first) (asks_new uid argument maxSeq rules)
    (Nat.le_refl _)

end Complete

section Thinned

/-- A device with the secure switch on. -/
def plainEnv : ServiceEnv := ⟨plainDatabase, fun text => text.map UInt8.toUInt16, true⟩

/-- Events that the shell may not see. -/
def hiddenEvents (count : Nat) : List Entry :=
  (List.range count).map fun index : Nat => aafwkEvent "LIFECYCLE_TIMEOUT" ((index : Int) + 2)

def hiddenFile (count : Nat) : DbDoc where
  fileName := Numeral.ascii "LIFECYCLE_TIMEOUT-1-CRITICAL-2-0.db"
  info := ⟨Numeral.ascii "LIFECYCLE_TIMEOUT", 1, 2, 0⟩
  named := by decide +kernel
  code := .success
  entries := hiddenEvents count
  unread := fun failed => absurd rfl failed

/-- The older event is one that the shell may see. -/
def thinnedStore (count : Nat) : List DomainDir :=
  [⟨Numeral.ascii "AAFWK", [hiddenFile count, olderFile]⟩]

/-- All events of the domain. -/
def aafwkRule : SysEventQueryRule := ⟨Numeral.ascii "AAFWK", [], 0, fun _ => true⟩

def anyTime (maxEvents : Int) : QueryArgument := ⟨0, -1, maxEvents, -1, -1⟩

def stored (store : List DomainDir) : Nat :=
  (store.map fun dir => (dir.files.map fun file => file.entries.length).sum).sum

end Thinned

section Negative

variable {env : ServiceEnv} {store : List DomainDir} {kind : WrapperKind} {uid : Int} {argument : QueryArgument}

theorem served_eq_nil {rules : List SysEventQueryRule} :
    served env store kind uid argument budget rules = [] ↔
      ∀ rule ∈ rules, ∀ entry, ¬ Reaches env store kind uid argument rule budget entry := by
  have unsent (rule : SysEventQueryRule) : ruleEvents env store kind uid argument rule budget = [] ↔
      ∀ entry, ¬ Reaches env store kind uid argument rule budget entry := by
    rw [eq_nil_iff_forall_not_mem]
    exact forall_congr' fun entry => not_congr mem_take_reached
  induction rules with
  | nil => exact iff_of_true rfl fun _ member => absurd member not_mem_nil
  | cons rule rest ih =>
    rw [served, append_eq_nil_iff, forall_mem_cons, unsent]
    refine and_congr_right fun nothing => ?_
    rw [(unsent rule).mpr nothing, length_nil, Int.natCast_zero, Int.sub_zero]
    exact ih

/-- A negative number of events ends the query before any is looked for, so it delivers the same as
the largest number exactly if the store has no event that reaches the caller by one of the rules. -/
theorem runQuery_negative_iff (admitted : ∀ earlier, env.database.limiter earlier = .succeed) (uid : Int)
    (argument : QueryArgument) (negative : argument.maxEvents < 0) (maxSeq : Int) (rules : List SysEventQueryRule) :
    ∃ start unlimited final, start = new uid { argument with maxEvents := 2147483647 } maxSeq rules ∧
      runQuery env store start = some (.succeed, unlimited) ∧
      runQuery env store (new uid argument maxSeq rules) = some (.succeed, final) ∧
      (final.sent.flatten = unlimited.sent.flatten ↔ ∀ rule ∈ rules, ∀ entry,
        ¬ Reaches env store start.kind uid start.argument rule 2147483647 entry) := by
  have kept (argument : QueryArgument) : (new uid argument maxSeq rules).argument.maxEvents = argument.maxEvents := by
    simp [new]
    cases createQueryWrapperByArgument argument <;> rfl
  obtain ⟨unlimited, ran, sent⟩ := @runQuery_served env store admitted uid
    { argument with maxEvents := 2147483647 } maxSeq rules
  have spent : (new uid argument maxSeq rules).argument.maxEvents ≤ 0 := by
    rw [kept]
    omega
  refine ⟨_, unlimited, _, rfl, ran, queryLoop_spent spent _, ?_⟩
  rw [sent, kept]
  exact eq_comm.trans served_eq_nil

theorem runQuery_negative_iff_empty :
    ∃ start unlimited final, start = new 0 (anyTime 2147483647) 2000 [aafwkRule] ∧
      runQuery plainEnv [] start = some (.succeed, unlimited) ∧
      runQuery plainEnv [] (new 0 (anyTime (-1)) 2000 [aafwkRule]) = some (.succeed, final) ∧
      (final.sent.flatten = unlimited.sent.flatten ↔ ∀ rule ∈ [aafwkRule], ∀ entry,
        ¬ Reaches plainEnv [] start.kind 0 start.argument rule 2147483647 entry) :=
  runQuery_negative_iff (fun _ => rfl) 0 (anyTime (-1)) (by decide) 2000 [aafwkRule]

/-- A stored event is delivered when the largest number of events is asked for, and not
when the number is negative. -/
theorem runQuery_negative_silent :
    (runQuery plainEnv [⟨Numeral.ascii "AAFWK", [olderFile]⟩] (new 0 (anyTime (-1)) 2000 [aafwkRule])).map
        (fun result => result.2.sent) = some [] ∧
    (runQuery plainEnv [⟨Numeral.ascii "AAFWK", [olderFile]⟩] (new 0 (anyTime 2147483647) 2000 [aafwkRule])).map
        (fun result => result.2.sent) = some [[aafwkEvent "JS_ERROR" 1]] := by
  decide +kernel

end Negative
end EventQueryWrapper
end Hiview.EventService
