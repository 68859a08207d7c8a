import Hiview.EventStore.SysEventDatabase
import Hiview.EventStore.DocReader

/-! `BaseEventQueryWrapper`: the loop that answers a query from outside, rule by
rule and batch by batch. The condition text of a rule is given as what
`ConditionParser` makes of it, which is no condition if the text is invalid. -/
namespace Hiview.EventService
open EventStore

def maxQueryEvents : Int := 1000
def maxTransBuf : Int := 1024 * 770
def u16CharSize : Nat := 2
def hidShell : Int := 2000
def invalidSeq : Int := -1

namespace CompliantEventChecker

def compliantEventConfigs : List (List UInt8 × List (List UInt8)) :=
  [("AAFWK", ["ABILITY_ONACTIVE", "ABILITY_ONBACKGROUND", "ABILITY_ONFOREGROUND",
      "ABILITY_ONINACTIVE", "JS_ERROR", "START_ABILITY", "TERMINATE_ABILITY"]),
    ("ACE", ["INTERACTION_COMPLETED_LATENCY", "JS_ERROR"]),
    ("AV_CODEC", ["CODEC_START_INFO"]),
    ("GRAPHIC", ["INTERACTION_COMPLETED_LATENCY", "INTERACTION_RESPONSE_LATENCY"]),
    ("LOCATION", ["GNSS_STATE"]),
    ("PERFORMANCE", []),
    ("RELIABILITY", []),
    ("SANITIZER", ["ADDR_SANITIZER"]),
    ("WORKSCHEDULER", ["WORK_ADD", "WORK_REMOVE", "WORK_START", "WORK_STOP"])].map
    fun config => (Numeral.ascii config.1, config.2.map Numeral.ascii)

def isCompliantEvent (isSecureEnabeled : Bool) (domain eventName : List UInt8) : Bool :=
  if !isSecureEnabeled then true
  else match compliantEventConfigs.find? fun config => config.1 = domain with
    | none => false
    | some config => config.2 = [] || config.2.contains eventName

end CompliantEventChecker

/-- `Str8ToStr16` comes from the platform, the secure switch from `const.secure`. -/
structure ServiceEnv where
  database : QueryEnv
  str8ToStr16 : List UInt8 → List UInt16
  isSecureEnabeled : Bool

structure QueryArgument where
  beginTime : Int
  endTime : Int
  maxEvents : Int
  fromSeq : Int
  toSeq : Int

structure SysEventQueryRule where
  domain : List UInt8
  eventList : List (List UInt8)
  eventType : Nat
  condition : Entry → Bool

inductive WrapperKind where
  | timeStamp | seq
  deriving DecidableEq

/-- The cached events stand for their texts and sequence numbers. `sent` holds
the batches handed to `OnQuery`, `executed` counts the queries executed. -/
structure EventQueryWrapper where
  kind : WrapperKind
  uid : Int
  argument : QueryArgument
  queryLimit : Int
  totalEventCnt : Nat
  transportedEventCnt : Nat
  ignoredEventCnt : Nat
  query : Option SysEventQuery
  queryRules : List SysEventQueryRule
  isFirstPartialQuery : Bool
  cachedEvents : List Entry
  cachedEventTotalSize : Int
  executed : Nat
  sent : List (List Entry)

/-- Transported and ignored events of one batch. -/
structure Details where
  transported : Nat
  ignored : Nat

namespace EventQueryWrapper

def createQueryWrapperByArgument (argument : QueryArgument) : WrapperKind :=
  if argument.fromSeq ≠ invalidSeq ∧ argument.toSeq ≠ invalidSeq ∧ argument.fromSeq < argument.toSeq
  then .seq else .timeStamp

def setMaxSequence (kind : WrapperKind) (argument : QueryArgument) (maxSeq : Int) : QueryArgument :=
  match kind with
  | .timeStamp => argument
  | .seq => { argument with toSeq := min argument.toSeq maxSeq }

/-- The wrapper as the service hands it to `Query`. -/
def new (uid : Int) (argument : QueryArgument) (maxSeq : Int) (rules : List SysEventQueryRule) :
    EventQueryWrapper :=
  let kind := createQueryWrapperByArgument argument
  ⟨kind, uid, setMaxSequence kind argument maxSeq, 0, 0, 0, 0, none, rules, true, [], 0, 0, []⟩

section Build
variable (wrapper : EventQueryWrapper) (rule : SysEventQueryRule)

def isQueryComplete : Bool := wrapper.argument.maxEvents ≤ 0

def needStartNextQuery : Bool × EventQueryWrapper :=
  if wrapper.isFirstPartialQuery then (wrapper.queryRules ≠ [], wrapper)
  else
    let queryEventCnt : Int := wrapper.transportedEventCnt + wrapper.ignoredEventCnt
    if 0 < queryEventCnt ∧ wrapper.queryLimit ≤ queryEventCnt then (true, wrapper)
    else
      let rules := wrapper.queryRules.tail
      (rules ≠ [], { wrapper with queryRules := rules, query := none })

/-- The times and the number of events with the defaults put in. -/
def clamped (argument : QueryArgument) : QueryArgument :=
  { argument with
    beginTime := if argument.beginTime < 0 then 0 else argument.beginTime
    endTime := if argument.endTime < 0 then 9223372036854775807 else argument.endTime
    maxEvents := if argument.maxEvents < 0 then 2147483647 else argument.maxEvents }

def ruleArg (toSeq fromSeq : Int) : SysEventQueryArg :=
  ⟨rule.domain, rule.eventList, rule.eventType, toSeq, fromSeq, defaultReportInterval⟩

/-- `TimeStampEventQueryWrapper::BuildQuery` without a query. -/
def buildTimeQuery :
    SysEventQuery × EventQueryWrapper :=
  let argument := clamped wrapper.argument
  let queryLimit := if argument.maxEvents < maxQueryEvents then argument.maxEvents else maxQueryEvents
  let query : SysEventQuery := ⟨ruleArg rule invalidSeq invalidSeq, fun entry =>
    argument.beginTime ≤ entry.ts && entry.ts < argument.endTime && rule.condition entry, true⟩
  (query, { wrapper with argument := argument, queryLimit := queryLimit, query := some query })

/-- `SeqEventQueryWrapper::BuildQuery` without a query. -/
def buildSeqQuery :
    SysEventQuery × EventQueryWrapper :=
  let argument := wrapper.argument
  let offset := if argument.fromSeq < argument.toSeq then argument.toSeq - argument.fromSeq else 0
  let queryLimit := if offset < maxQueryEvents then offset else maxQueryEvents
  let query : SysEventQuery := ⟨ruleArg rule argument.toSeq argument.fromSeq, fun entry =>
    argument.fromSeq ≤ entry.id && entry.id < argument.toSeq && rule.condition entry, false⟩
  (query, { wrapper with queryLimit := queryLimit, query := some query })

def buildQuery :
    SysEventQuery × EventQueryWrapper :=
  match wrapper.query, wrapper.kind with
  | some query, _ => (query, wrapper)
  | none, .timeStamp => wrapper.buildTimeQuery rule
  | none, .seq => wrapper.buildSeqQuery rule

def transportCachedEvents : EventQueryWrapper :=
  if wrapper.cachedEvents = [] then wrapper
  else { wrapper with
    sent := wrapper.sent ++ [wrapper.cachedEvents], cachedEvents := [], cachedEventTotalSize := 0 }

end Build

section Transport
variable (env : ServiceEnv)

/-- The event decodes and the caller may see it. -/
def admissible (uid : Int) (entry : Entry) : Bool :=
  entry.json ≠ [] && (uid ≠ hidShell ||
    CompliantEventChecker.isCompliantEvent env.isSecureEnabeled entry.domain entry.eventName)

/-- The size of the text with its end, cast to `int32_t`. -/
def eventJsonSize (entry : Entry) : Int :=
  castInt (((env.str8ToStr16 entry.json).length + 1) * u16CharSize : Nat)

def cacheEvent (wrapper : EventQueryWrapper) (entry : Entry) : EventQueryWrapper :=
  let size := eventJsonSize env entry
  let ready := if wrapper.queryLimit ≤ wrapper.cachedEvents.length ∨
      maxTransBuf ≤ wrapper.cachedEventTotalSize + size then
    wrapper.transportCachedEvents else wrapper
  { ready with
    cachedEvents := ready.cachedEvents ++ [entry]
    cachedEventTotalSize := ready.cachedEventTotalSize + size
    argument := { ready.argument with maxEvents := ready.argument.maxEvents - 1 } }

def transportSysEvent : List Entry → EventQueryWrapper → Details → EventQueryWrapper × Details
  | [], wrapper, details => (wrapper, details)
  | entry :: rest, wrapper, details =>
    if wrapper.argument.maxEvents ≤ 0 then (wrapper, details)
    else if !admissible env wrapper.uid entry then transportSysEvent rest wrapper details
    else if eventJsonSize env entry > maxTransBuf then
      transportSysEvent rest wrapper { details with ignored := details.ignored + 1 }
    else transportSysEvent rest (cacheEvent env wrapper entry)
      { details with transported := details.transported + 1 }

/-- What a round of the loop does with the events of a query. -/
def transport (entries : List Entry) (wrapper : EventQueryWrapper) : EventQueryWrapper :=
  let result := transportSysEvent env entries wrapper ⟨0, 0⟩
  { result.1 with
    transportedEventCnt := result.2.transported
    totalEventCnt := result.1.totalEventCnt + result.2.transported
    ignoredEventCnt := result.2.ignored
    isFirstPartialQuery := false }

/-- `FinishEventQuery`, with the result for `OnComplete`. -/
def finishEventQuery (wrapper : EventQueryWrapper) (status : DbQueryStatus) :
    DbQueryStatus × EventQueryWrapper :=
  (status, wrapper.transportCachedEvents)

/-- The loop of `Query`, or nothing when the rounds run out. -/
def queryLoop (store : List DomainDir) :
    Nat → EventQueryWrapper → Option (DbQueryStatus × EventQueryWrapper)
  | 0, _ => none
  | rounds + 1, wrapper =>
    if wrapper.isQueryComplete then some (wrapper.finishEventQuery .succeed)
    else
      let needed := wrapper.needStartNextQuery
      match needed.1, needed.2.queryRules with
      | true, rule :: _ =>
        let built := needed.2.buildQuery rule
        let result := built.1.executeLimited env.database store built.2.executed built.2.queryLimit
        let executed := { built.2 with query := some result.2.2, executed := built.2.executed + 1 }
        if result.1 ≠ .succeed then some (executed.finishEventQuery result.1)
        else queryLoop store rounds (transport env result.2.1 executed)
      | _, _ => some (needed.2.finishEventQuery .succeed)

/-- Every rule takes at most one round for each file and one more. -/
def rounds (store : List DomainDir) (wrapper : EventQueryWrapper) : Nat :=
  wrapper.queryRules.length * ((store.map fun dir => dir.files.length).sum + 1) + 1

def runQuery (store : List DomainDir) (wrapper : EventQueryWrapper) :
    Option (DbQueryStatus × EventQueryWrapper) :=
  queryLoop env store (wrapper.rounds store) wrapper

end Transport
end EventQueryWrapper
end Hiview.EventService
