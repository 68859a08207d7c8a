import Hiview.EventStore.DbFileName

/-! Subscribers of `DataPublisher`: which event names each uid asked for, in memory and in
the table of `DataShareDao`. The answers of the database are given to each call. -/
namespace Hiview.EventService

/-- `StringUtil::ConvertVectorToStr`. -/
def convertVectorToStr (listStr : List (List UInt8)) (split : UInt8) : List UInt8 :=
  listStr.foldl (fun str item => if str = [] then item else str ++ split :: item) []

def eventSplit : UInt8 := 59

/-- A row of the table, without the bundle name and the time of the subscription. -/
structure SubscriberRow where
  uid : Int
  events : List UInt8
  deriving DecidableEq

/-- What a query of one row comes to; `unread` when `GoToNextRow` or `GetString` fails. -/
inductive QueryAnswer where
  | failed
  | unread
  | read
  deriving DecidableEq

/-- Whether the operations of the database succeed; `write` is the update, the insert or
the delete. -/
structure DbAnswers where
  query : QueryAnswer := .read
  count : Bool := true
  write : Bool := true
  deriving DecidableEq

def dbSucc : Int := 0

def dbFailed : Int := -1

def ipcCallSucceed : Int := 0

def errRemoveSubscribe : Int := -34

namespace DataShareDao
variable (rows : List SubscriberRow)

/-- The text in the first row of the uid. -/
def stored (uid : Int) : Option (List UInt8) := (rows.find? (·.uid = uid)).map (·.events)

def isUidExists (uid : Int) (count : Bool) : Bool := count && rows.any (·.uid = uid)

def saveSubscriberInfo (uid : Int) (events : List UInt8) (answers : DbAnswers) : Int × List SubscriberRow :=
  if isUidExists rows uid answers.count then
    if answers.write then
      (dbSucc, rows.map fun row => if row.uid = uid then ⟨uid, events⟩ else row)
    else (dbFailed, rows)
  else if answers.write then (dbSucc, rows ++ [⟨uid, events⟩])
  else (dbFailed, rows)

def deleteSubscriberInfo (uid : Int) (write : Bool) : Int × List SubscriberRow :=
  if write then (dbSucc, rows.filter (·.uid ≠ uid)) else (dbFailed, rows)

def getEventListByUid (uid : Int) : QueryAnswer → Option (List UInt8)
  | .failed => none
  | .unread => some []
  | .read => some ((stored rows uid).getD [])

/-- The first row of each uid. -/
def getTotalSubscriberInfo : List SubscriberRow → List SubscriberRow
  | [] => []
  | row :: rest => row :: (getTotalSubscriberInfo rest).filter (·.uid ≠ row.uid)

end DataShareDao

/-- `eventRelationMap_` as the pairs of an event name and a uid of its set. -/
structure DataPublisher where
  eventRelationMap : Finset (List UInt8 × Int)
  rows : List SubscriberRow

namespace DataPublisher

def insertUid (relation : Finset (List UInt8 × Int)) (uid : Int) (events : List (List UInt8)) :
    Finset (List UInt8 × Int) :=
  events.foldl (fun relation event => insert (event, uid) relation) relation

def eraseUid (relation : Finset (List UInt8 × Int)) (uid : Int) (events : List (List UInt8)) :
    Finset (List UInt8 × Int) :=
  events.foldl (fun relation event => relation.erase (event, uid)) relation

def initSubscriber (rows : List SubscriberRow) : Finset (List UInt8 × Int) :=
  (DataShareDao.getTotalSubscriberInfo rows).foldl
    (fun relation row => insertUid relation row.uid (EventStore.splitStr row.events eventSplit)) ∅

def addSubscriber (publisher : DataPublisher) (uid : Int) (eventList : List (List UInt8))
    (answers : DbAnswers) : Int × DataPublisher :=
  match DataShareDao.getEventListByUid publisher.rows uid answers.query with
  | none => (dbFailed, publisher)
  | some events =>
    let oldEventList := EventStore.splitStr events eventSplit
    let relation := insertUid (eraseUid publisher.eventRelationMap uid oldEventList) uid eventList
    let newEvents := convertVectorToStr eventList eventSplit
    let (ret, rows) := DataShareDao.saveSubscriberInfo publisher.rows uid newEvents answers
    if ret ≠ dbSucc then (ret, ⟨relation, rows⟩) else (ipcCallSucceed, ⟨relation, rows⟩)

def removeSubscriber (publisher : DataPublisher) (uid : Int) (answers : DbAnswers) : Int × DataPublisher :=
  match DataShareDao.getEventListByUid publisher.rows uid answers.query with
  | none => (errRemoveSubscribe, publisher)
  | some events =>
    if events = [] then (errRemoveSubscribe, publisher)
    else
      let relation := eraseUid publisher.eventRelationMap uid (EventStore.splitStr events eventSplit)
      let (ret, rows) := DataShareDao.deleteSubscriberInfo publisher.rows uid answers.write
      if ret ≠ dbSucc then (errRemoveSubscribe, ⟨relation, rows⟩) else (ipcCallSucceed, ⟨relation, rows⟩)

end DataPublisher
end Hiview.EventService
