import Hiview.EventExport.EventWriteHandler
import Hiview.EventExport.ExportDbManager
import Hiview.EventStore.SysEventDatabase

/-! `EventReadHandler`: the export range is split, every part is queried domain by
domain and handed to the write handler, and a part that fails is tried again. The
statistics by period are left out. -/
namespace Hiview.EventExport
open EventStore

def uidTransformDivisor : Int := 200000

def getTransformedUid (uid : Int) : Int := uid.tdiv uidTransformDivisor

def CachedEvent.ofEntry (entry : Entry) : CachedEvent :=
  ⟨⟨entry.sysVersion, entry.patchVersion⟩, entry.domain, entry.eventName, entry.json,
    getTransformedUid entry.uid, entry.id⟩

/-- The list is by domain. -/
structure EventReadRequest where
  beginSeq : Int
  endSeq : Int
  eventList : List (List UInt8 × List (List UInt8))
  taskType : Int
  maxSize : Nat

/-- The inner query on the database by its limit, which no limiter refuses, and
which calls of `Package` write their file. -/
structure ExportEnv where
  execute : Int → SysEventQuery → List Entry
  written : Nat → Bool

structure ReadState where
  cachedSysEvents : List CachedEvent
  writer : EventWriteHandler

namespace EventReadHandler

def queryLimit : Int := 1000

section Attempt
variable (env : ExportEnv) (req : EventReadRequest)

/-- The callback that hands the cached events to the write handler. -/
def queryCallback (state : ReadState) (isQueryCompleted : Bool) :
    Except Failure EventWriteHandler :=
  state.writer.handleRequest env.written ⟨state.cachedSysEvents, isQueryCompleted, req.maxSize⟩

/-- The cached events are handed over when there are as many as the limit says. -/
def flush (limit : Int) (state : ReadState) : Except Failure ReadState :=
  if limit ≤ state.cachedSysEvents.length then
    match queryCallback env req state false with
    | .error failure => .error failure
    | .ok writer => .ok ⟨[], writer⟩
  else .ok state

def cacheEntry (state : ReadState) (entry : Entry) : ReadState :=
  { state with cachedSysEvents := state.cachedSysEvents ++ [.ofEntry entry] }

def handleQueryResult (limit : Int) : List Entry → Int → ReadState → Except Failure (Int × ReadState)
  | [], totalQueryCnt, state => .ok (totalQueryCnt, state)
  | entry :: rest, totalQueryCnt, state =>
    if totalQueryCnt ≤ 0 then .ok (totalQueryCnt, state)
    else if entry.json = [] then handleQueryResult limit rest totalQueryCnt state
    else match flush env req limit state with
      | .error failure => .error failure
      | .ok flushed =>
        handleQueryResult limit rest (totalQueryCnt - 1) (cacheEntry flushed entry)

variable (beginSeq endSeq : Int)

def domainQuery (item : List UInt8 × List (List UInt8)) : SysEventQuery :=
  ⟨⟨item.1, item.2, 0, endSeq, beginSeq, req.taskType⟩,
    fun entry => beginSeq ≤ entry.id && entry.id < endSeq, false⟩

def limitOf (queryCnt : Int) : Int := if queryCnt < queryLimit then queryCnt else queryLimit

/-- The loop over the domains, and the last callback. -/
def queryDomains : List (List UInt8 × List (List UInt8)) → Int → ReadState →
    Except Failure EventWriteHandler
  | [], _, state => queryCallback env req state true
  | item :: rest, queryCnt, state =>
    if queryCnt ≤ 0 then queryCallback env req state true
    else
      let resultSet := env.execute (limitOf queryCnt) (domainQuery req beginSeq endSeq item)
      match handleQueryResult env req (limitOf queryCnt) resultSet queryCnt state with
      | .error failure => .error failure
      | .ok (left, next) => queryDomains rest left next

def querySysEvent (writer : EventWriteHandler) : Except Failure EventWriteHandler :=
  queryDomains env req beginSeq endSeq req.eventList (endSeq - beginSeq) ⟨[], writer⟩

def retry : Nat → EventWriteHandler → Bool × EventWriteHandler
  | 0, writer => (false, writer)
  | retryCnt + 1, writer =>
    match querySysEvent env req beginSeq endSeq writer with
    | .ok next => (true, next)
    | .error failure => retry retryCnt failure.handler.rollback

/-- `QuerySysEventInRange` without the listener. -/
def querySysEventInRange (writer : EventWriteHandler) : Bool × EventWriteHandler :=
  retry env req beginSeq endSeq 3 writer

end Attempt

def splitRange (beginSeq endSeq : Int) : List (Int × Int) :=
  if beginSeq + queryLimit < endSeq then
    (beginSeq, beginSeq + queryLimit) :: splitRange (beginSeq + queryLimit) endSeq
  else [(beginSeq, endSeq)]
termination_by (endSeq - beginSeq).toNat
decreasing_by
  rw [queryLimit] at *
  omega

/-- What the listener is told, and the write handler at that moment. -/
structure Report where
  beginSeq : Int
  endSeq : Int
  writer : EventWriteHandler

/-- What a request has led to: the reports to the listener, the write handler and
the record of the module. -/
structure ReadResult where
  succeeded : Bool
  reported : List Report
  writer : EventWriteHandler
  record : Option ExportDetailRecord

/-- The loop over the parts. The listener is told about a part whether it was
exported or not. -/
def exportRanges (env : ExportEnv) (req : EventReadRequest) :
    List (Int × Int) → EventWriteHandler → Option ExportDetailRecord → ReadResult
  | [], writer, record => ⟨true, [], writer, record⟩
  | range :: rest, writer, record =>
    let result := querySysEventInRange env req range.1 range.2 writer
    let noted := ExportDbManager.handleExportTaskFinished record range.2
    let report := ⟨range.1, range.2, result.2⟩
    if !result.1 then ⟨false, [report], result.2, noted⟩
    else
      let later := exportRanges env req rest result.2 noted
      { later with reported := report :: later.reported }

def handleRequest (env : ExportEnv) (req : EventReadRequest) (record : Option ExportDetailRecord) :
    ReadResult :=
  exportRanges env req (splitRange req.beginSeq req.endSeq) .new record

end EventReadHandler
end Hiview.EventExport
