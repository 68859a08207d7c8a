import Hiview.EventStore.DocFormat
import Hiview.EventStore.DbFileName
import Hiview.Lib.Dispenser

/-! Queries on the event database: `SysEventQuery::Execute` down to the db files.
A db file is its name and what reading it yields. Files whose names
`EventDbFileUtil` refuses are removed when the database is opened and are not
part of it. The orders in which `std::sort` and the priority queues put equal
elements are left open. -/
namespace Hiview.EventStore

/-- An event as a query returns it; the text is empty if it cannot be decoded. -/
structure Entry where
  id : Int
  ts : Int
  domain : List UInt8
  eventName : List UInt8
  uid : Int
  sysVersion : List UInt8
  patchVersion : List UInt8
  json : List UInt8
  deriving DecidableEq

/-- A reader that reports an error has not handed out any event. -/
structure DbDoc where
  fileName : List UInt8
  info : SplitedEventInfo
  named : EventDbFileUtil.parseEventInfo fileName = some info
  code : DocStore
  entries : List Entry
  unread : code ≠ .success → entries = []

def getFileSeq (file : DbDoc) : Int := (EventDbFileUtil.parseSeq file.fileName).getD 0

theorem getFileSeq_eq (file : DbDoc) : 0 < file.info.seq ∧ getFileSeq file = file.info.seq := by
  obtain ⟨positive, seq⟩ := EventDbFileUtil.parseSeq_of_parseEventInfo file.named
  exact ⟨positive, by rw [getFileSeq, seq, Option.getD_some]⟩

structure DomainDir where
  domain : List UInt8
  files : List DbDoc

inductive DbQueryStatus where
  | succeed | concurrent | overTime | overLimit | tooFreqently
  deriving DecidableEq

/-- What a query takes from its surroundings. The limiters judge the number of
concurrent queries, their frequency and the time the query took. -/
structure QueryEnv where
  sortedFiles : Dispenser fun file : DbDoc => -getFileSeq file
  fileQueue : Dispenser fun file : DbDoc => -getFileSeq file
  timeQueue : Dispenser Entry.ts
  seqQueue : Dispenser Entry.id
  limiter : Nat → DbQueryStatus

def invalidValueInt : Int := -1
def defaultReportInterval : Int := -1

theorem getFileSeq_valid (file : DbDoc) : getFileSeq file ≠ invalidValueInt := by
  obtain ⟨positive, seq⟩ := getFileSeq_eq file
  rw [seq, invalidValueInt]
  omega

structure SysEventQueryArg where
  domain : List UInt8
  names : List (List UInt8)
  type : Nat
  toSeq : Int
  fromSeq : Int
  reportInterval : Int

/-- The conditions are given as what they say of an event. -/
structure SysEventQuery where
  queryArg : SysEventQueryArg
  cond : Entry → Bool
  byTime : Bool

variable (env : QueryEnv) (store : List DomainDir) (arg : SysEventQueryArg)

namespace SysEventDatabase

abbrev NameSeqMap := List UInt8 → Option Int

def getQueryDirsByDomain (domain : List UInt8) : List DomainDir :=
  if domain = [] then store else store.filter fun dir => dir.domain = domain

/-- No argument rules any file out. -/
def unrestricted : Bool :=
  arg.names = [] && arg.type = 0 && arg.toSeq = invalidValueInt

/-- What `IsContainQueryArg` asks of a file once its name is in the map. -/
def suits (info : SplitedEventInfo) : Bool :=
  (arg.names = [] || arg.names.contains info.name) && (arg.type = 0 || info.type = arg.type) &&
    (arg.toSeq = invalidValueInt || info.seq < arg.toSeq) &&
    (arg.reportInterval = defaultReportInterval || info.reportInterval = notCfgReportInterval ||
      arg.reportInterval = info.reportInterval)

/-- Behind a file that starts at or before the first sequence there are no
further files of the same name to look at. -/
def outdated (seen : NameSeqMap) (info : SplitedEventInfo) : Bool :=
  (seen info.name).any fun seq => seq ≤ arg.fromSeq

def noted (seen : NameSeqMap) (info : SplitedEventInfo) : NameSeqMap := fun name =>
  if name = info.name then some info.seq else seen name

def isContainQueryArg (fileName : List UInt8) (arg : SysEventQueryArg) (seen : NameSeqMap) :
    Bool × NameSeqMap :=
  if unrestricted arg then (true, seen)
  else match EventDbFileUtil.parseEventInfo fileName with
    | none => (false, seen)
    | some info =>
      if outdated arg seen info then (false, seen)
      else (suits arg info, noted seen info)

/-- The loop over the sorted files of one directory. -/
def containing (arg : SysEventQueryArg) : NameSeqMap → List DbDoc → List DbDoc
  | _, [] => []
  | seen, file :: rest =>
    let contained := isContainQueryArg file.fileName arg seen
    if contained.1 then file :: containing arg contained.2 rest
    else containing arg contained.2 rest

def getQueryFiles : List DbDoc :=
  (getQueryDirsByDomain store arg.domain).flatMap fun dir =>
    containing arg (fun _ => none) (env.sortedFiles.order dir.files)

def found (cond : Entry → Bool) (file : DbDoc) : List Entry := file.entries.filter cond

/-- The events found, and the sequence of the file with which the limit was reached. -/
def queryByFiles (cond : Entry → Bool) (limit : Int) : Int → List DbDoc → List Entry × Option Int
  | _, [] => ([], none)
  | totalNum, file :: rest =>
    if file.code ≠ .success then queryByFiles cond limit totalNum rest
    else if limit ≤ totalNum + (found cond file).length then
      (found cond file, some (getFileSeq file))
    else
      let more := queryByFiles cond limit (totalNum + (found cond file).length) rest
      (found cond file ++ more.1, more.2)

def query (limit : Int) (query : SysEventQuery) :
    List Entry × SysEventQuery :=
  let files := env.fileQueue.order (getQueryFiles env store query.queryArg)
  let result := queryByFiles query.cond limit 0 files
  let toSeq := result.2.getD query.queryArg.toSeq
  (result.1, { query with queryArg := { query.queryArg with toSeq := toSeq } })

end SysEventDatabase

namespace SysEventQuery

/-- `Execute`. A limited result has one event more than the limit says. -/
def execute (limit : Int) (isInnerQuery : Bool)
    (query : SysEventQuery) : List Entry × SysEventQuery :=
  let result := SysEventDatabase.query env store limit query
  let entries := if query.byTime then env.timeQueue.order result.1 else env.seqQueue.order result.1
  let resultNum := if limit < entries.length ∧ isInnerQuery then limit else entries.length
  (entries.take (resultNum + 1).toNat, result.2)

/-- `SysEventQueryWrapper::Execute` for a query from outside, the given number
of queries after the first. -/
def executeLimited (earlier : Nat) (limit : Int)
    (query : SysEventQuery) : DbQueryStatus × List Entry × SysEventQuery :=
  if limit > 1000 then (.overLimit, [], query)
  else match env.limiter earlier with
    | .succeed => (.succeed, query.execute env store limit false)
    | status => (status, [], query)

end SysEventQuery

/-- Surroundings in which every query is admitted. -/
def plainDatabase : QueryEnv :=
  ⟨.stable _, .stable _, .stable _, .stable _, fun _ => .succeed⟩

def aafwkEvent (name : String) (seq : Int) : Entry :=
  ⟨seq, seq, Numeral.ascii "AAFWK", Numeral.ascii name, 0, [], [], Numeral.ascii "x"⟩

/-- A file with the first event of a device. -/
def olderFile : DbDoc where
  fileName := Numeral.ascii "JS_ERROR-1-CRITICAL-1-0.db"
  info := ⟨Numeral.ascii "JS_ERROR", 1, 1, 0⟩
  named := by decide +kernel
  code := .success
  entries := [aafwkEvent "JS_ERROR" 1]
  unread := fun failed => absurd rfl failed

end Hiview.EventStore
