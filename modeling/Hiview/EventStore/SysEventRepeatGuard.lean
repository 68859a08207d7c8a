import Hiview.Base.SysEvent

/-! The check of fault events for repetitions. A database keeps, for the domain, the name and the
unique id of an event, the last time at which such an event was allowed to be packed. The store is
opened when it is first used in a check and released at the end; opening it counts the rows. The
fingerprint of a text is a parameter. -/
namespace Hiview.EventStore
open Assoc Base EventRaw Numeral

/-- `SysEventHashRecord` without its time. -/
structure HashKey where
  domain : List UInt8
  name : List UInt8
  eventHash : List UInt8
  deriving DecidableEq

/-- `isOpen` says that `dbStore_` is not null. -/
structure SysEventRepeatDb where
  rows : List (HashKey × Nat)
  dbCount : Nat
  isOpen : Bool

namespace SysEventRepeatDb

variable (db : SysEventRepeatDb)

def refreshDbCount : SysEventRepeatDb :=
  { db with dbCount := db.rows.length }

def checkDbStoreValid : SysEventRepeatDb :=
  if db.isOpen then db else refreshDbCount { db with isOpen := true }

/-- A new object opens its store. -/
def new (rows : List (HashKey × Nat)) : SysEventRepeatDb :=
  checkDbStoreValid ⟨rows, 0, false⟩

def release : SysEventRepeatDb :=
  { db with isOpen := false }

variable (key : HashKey) (happentime : Nat)

/-- The time of the first row of the key, 0 without one. -/
def queryHappentime : Nat × SysEventRepeatDb :=
  ((lookup db.checkDbStoreValid.rows key).getD 0, db.checkDbStoreValid)

def insert : SysEventRepeatDb :=
  let db := db.checkDbStoreValid
  { db with rows := db.rows ++ [(key, happentime)], dbCount := db.dbCount + 1 }

def update : SysEventRepeatDb :=
  let db := db.checkDbStoreValid
  { db with rows := db.rows.map fun row => if row.1 = key then (row.1, happentime) else row }

def clearHistory : SysEventRepeatDb :=
  let db := db.checkDbStoreValid
  { db with rows := db.rows.filter fun row => !decide (row.2 < happentime) }

def maxDbCount : Nat := 10000

def checkAndClearDb : SysEventRepeatDb :=
  if db.dbCount ≤ maxDbCount then db else refreshDbCount (clearHistory db happentime)

end SysEventRepeatDb

def logAllowPack : UInt8 := 0
def logNotAllowPack : UInt8 := 32
def logPacked : UInt8 := 1
def logRepeat : UInt8 := 1

/-- `EventRawDataInfo`: where the parameters of a block begin and where it ends. -/
structure EventRawDataInfo where
  dataPos : Nat
  dataSize : Int32

def EventRawDataInfo.parse (rawData : List UInt8) : EventRawDataInfo where
  dataPos := 4 + HiSysEventHeader.size + (if (headerOf rawData).isTraceOpened = 1 then TraceInfo.size else 0) + 4
  dataSize := (UInt32.ofNat (Bytes.value (rawData.take 4))).toInt32

namespace SysEventRepeatGuard

def timeRange (isBetaVersion : Bool) : Nat :=
  if isBetaVersion then 60 * 60 else 24 * 60 * 60

section Check
variable (sha : List UInt8 → Option (List UInt8)) (window : Nat) (timeNow : Nat)

def getMinValidTime : Nat :=
  if window < timeNow then timeNow - window else 0

def getShaStr (eventData : List UInt8) : Option (List UInt8) :=
  let eventInfo := EventRawDataInfo.parse eventData
  if eventInfo.dataSize.toInt ≤ eventInfo.dataPos then none
  else sha ((eventData.drop eventInfo.dataPos).take (eventInfo.dataSize.toInt.toNat - eventInfo.dataPos))

/-- The unique id of an event, if it has one; both ways to get it may change the event. -/
def getEventUniqueId (event : Base.SysEvent) : Option (Option (List UInt8) × Base.SysEvent) := do
  let (report, event) ← event.getters (ascii "FINGERPRINT")
  if !report.eventValue.isEmpty then return (some report.eventValue, event)
  let (eventData, event) ← event.asRawData
  return ((eventData.bind (getShaStr sha)).filter (!·.isEmpty), event)

/-- `IsEventRepeat` on the database. -/
def isKeyRepeat (db : SysEventRepeatDb) (key : HashKey) : Bool × SysEventRepeatDb :=
  let (happentime, db) := db.queryHappentime key
  let minValidTime := getMinValidTime window timeNow
  if minValidTime < happentime then (true, db.release)
  else if 0 < happentime then (false, (db.update key timeNow).release)
  else (false, ((db.insert key timeNow).checkAndClearDb minValidTime).release)

/-- An event without a unique id is never a repetition and leaves no record. -/
def isEventRepeat (db : SysEventRepeatDb)
    (event : Base.SysEvent) : Option (Bool × SysEventRepeatDb × Base.SysEvent) := do
  let (uniqueId, next) ← getEventUniqueId sha event
  match uniqueId with
  | none => return (false, db, next)
  | some eventHash =>
    let (repeated, db) := isKeyRepeat window timeNow db ⟨event.members.domain, event.members.eventName, eventHash⟩
    return (repeated, db, next)

/-- Events of other types than `FAULT` are left alone. -/
def check (db : SysEventRepeatDb) (event : Base.SysEvent) : Option (SysEventRepeatDb × Base.SysEvent) :=
  if event.members.eventType ≠ 1 then some (db, event)
  else (isEventRepeat sha window timeNow db event).map fun (repeated, db, event) =>
    if repeated then (db, event.setLog (logNotAllowPack ||| logRepeat))
    else (db, event.setLog (logAllowPack ||| logPacked))

end Check
end SysEventRepeatGuard
end Hiview.EventStore
