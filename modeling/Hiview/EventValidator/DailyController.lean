import Hiview.Lib.Assoc

/-! The daily threshold of system events. The number of events of each name is kept in a
cache of the controller and in a database with one file for each date. The cache is written to
the database from time to time, when it has grown, when the configuration is replaced and when the
date has changed; then the file is put aside for the report and a new one is begun. -/
namespace Hiview.EventValidator
open Assoc

abbrev CacheKey := String × String

/-- The part of a configuration file for the version type, as far as its parts are objects. -/
structure ConfigJson where
  common : Option (List (String × Int32))
  custom : Option (List (String × Option (List (String × Int32))))

structure DailyConfig where
  commonThresholds : List (Int32 × Int32)
  customThresholds : List (CacheKey × Int32)
  isValid : Bool

namespace DailyConfig

/-- The type of each name, in the order of the names. -/
def configMap : List (String × Int32) :=
  [("BEHAVIOR", 4), ("FAULT", 1), ("SECURITY", 3), ("STATISTIC", 2)]

/-- The thresholds read before the first name without a valid one, and whether there is none. -/
def parseCommonThreshold (values : List (String × Int32)) :
    List (String × Int32) → List (Int32 × Int32) → Bool × List (Int32 × Int32)
  | [], thresholds => (true, thresholds)
  | (key, type) :: rest, thresholds =>
    let configValue := (lookup values key).getD (-1)
    if configValue < 0 then (false, thresholds)
    else parseCommonThreshold values rest (insert thresholds type configValue)

def parseThresholdOfDomain (domain : String) :
    List (String × Int32) → List (CacheKey × Int32) → Bool × List (CacheKey × Int32)
  | [], thresholds => (true, thresholds)
  | (name, value) :: rest, thresholds =>
    if name = "" ∨ value < 0 then (false, thresholds)
    else parseThresholdOfDomain domain rest (insert thresholds (domain, name) value)

def parseCustomThreshold :
    List (String × Option (List (String × Int32))) → List (CacheKey × Int32) → Bool × List (CacheKey × Int32)
  | [], thresholds => (true, thresholds)
  | (_, none) :: _, thresholds => (false, thresholds)
  | (domain, some names) :: rest, thresholds =>
    if domain = "" then (false, thresholds)
    else match parseThresholdOfDomain domain names thresholds with
      | (true, more) => parseCustomThreshold rest more
      | (false, more) => (false, more)

def parse (config : Option ConfigJson) : DailyConfig :=
  match config with
  | none => ⟨[], [], false⟩
  | some config =>
    match config.common with
    | none => ⟨[], [], false⟩
    | some values =>
      match parseCommonThreshold values configMap [], config.custom with
      | (false, common), _ => ⟨common, [], false⟩
      | (true, common), none => ⟨common, [], false⟩
      | (true, common), some domains =>
        ⟨common, (parseCustomThreshold domains []).2, (parseCustomThreshold domains []).1⟩

def getThreshold (config : DailyConfig) (key : CacheKey) (type : Int32) : Int32 :=
  match lookup config.customThresholds key, lookup config.commonThresholds type with
  | some threshold, _ => threshold
  | none, some threshold => threshold
  | none, none => 0

end DailyConfig

structure ControlInfo where
  threshold : Int32
  count : Int32
  exceedTime : Int

/-- The columns of the database beside the key. -/
structure EventInfo where
  count : Int32
  exceedTime : Int

namespace DailyDbHelper

variable (rows : List (CacheKey × EventInfo)) (key : CacheKey) (info : EventInfo)

def insertEventInfo :
    List (CacheKey × EventInfo) :=
  rows ++ [(key, info)]

def updateEventInfo :
    List (CacheKey × EventInfo) :=
  rows.map fun row =>
    if row.1 = key then (row.1, ⟨info.count, if info.exceedTime = 0 then row.2.exceedTime else info.exceedTime⟩)
    else row

/-- The count of the first row of the key, 0 without one; a negative one is a failure. -/
def queryEventInfo : Option Int32 :=
  match lookup rows key with
  | none => some 0
  | some row => if row.count < 0 then none else some row.count

end DailyDbHelper

/-- The date of a time in seconds. A later time has no earlier date. -/
structure Calendar where
  date : Int → Nat
  monotone : ∀ {earlier later}, earlier ≤ later → date earlier ≤ date later

/-- The database file of a date when it is put aside for the report. -/
structure Report where
  date : Nat
  rows : List (CacheKey × EventInfo)

structure DailyController where
  config : DailyConfig
  cache : List (CacheKey × ControlInfo)
  lastUpdateTime : Int
  date : Nat
  rows : List (CacheKey × EventInfo)
  reports : List Report

/-- An event as the controller sees it. -/
structure Event where
  domain : String
  eventName : String
  eventType : Int32

def Event.key (event : Event) : CacheKey := (event.domain, event.eventName)

/-- The readings of the clock during a call, in the order in which they may be made. -/
structure Readings where
  nowTime : Int
  cacheTime : Int
  dbTime : Int
  exceedTime : Int

namespace DailyController
open DailyDbHelper
variable (calendar : Calendar)

def new (config : DailyConfig) (time : Int) : DailyController :=
  ⟨config, [], 0, calendar.date time, [], []⟩

variable (controller : DailyController)

variable (readings : Readings)

def checkTimeOfCache : Bool × DailyController :=
  if controller.lastUpdateTime = 0 then (false, { controller with lastUpdateTime := readings.cacheTime })
  else if (readings.nowTime - controller.lastUpdateTime).natAbs ≤ 600 then (false, controller)
  else (true, { controller with lastUpdateTime := readings.nowTime })

def checkSizeOfCache : Bool :=
  decide (1000 < controller.cache.length)

/-- A count of 1 has been inserted and need not be updated. -/
def updateRows (rows : List (CacheKey × EventInfo)) (entry : CacheKey × ControlInfo) : List (CacheKey × EventInfo) :=
  if entry.2.count = 1 then rows else updateEventInfo rows entry.1 ⟨entry.2.count, entry.2.exceedTime⟩

def updateCacheToDb : DailyController :=
  { controller with rows := controller.cache.foldl updateRows controller.rows, cache := [] }

def tryToUpdateCacheToDb : DailyController :=
  let (late, checked) := checkTimeOfCache controller readings
  if late || checkSizeOfCache checked then updateCacheToDb checked else checked

def needReport (nowTime : Int) : Bool :=
  decide (controller.date ≠ calendar.date nowTime)

/-- The file is moved away and a new one is made for the date of the clock. -/
def report (dbTime : Int) : DailyController :=
  { controller with
    reports := controller.reports ++ [⟨controller.date, controller.rows⟩]
    date := calendar.date dbTime
    rows := [] }

def tryToReportDb : DailyController :=
  if needReport calendar controller readings.nowTime then report calendar (updateCacheToDb controller) readings.dbTime
  else controller

/-- The threshold of an event that is not in the cache. -/
def configThreshold (config : DailyConfig) (key : CacheKey) (type : Int32) : Int32 :=
  if config.getThreshold key type < 0 then 0 else config.getThreshold key type

def getThreshold (key : CacheKey) (type : Int32) : Int32 :=
  match lookup controller.cache key with
  | some info => info.threshold
  | none => configThreshold controller.config key type

def getCount (controller : DailyController) (key : CacheKey) : Int32 :=
  match lookup controller.cache key with
  | some info => info.count
  | none => (queryEventInfo controller.rows key).getD 0

def updateCache (controller : DailyController) (key : CacheKey) (threshold count : Int32) (exceedTime : Int) :
    DailyController :=
  match lookup controller.cache key with
  | none => { controller with cache := insert controller.cache key ⟨threshold, count, exceedTime⟩ }
  | some info =>
    { controller with
      cache := insert controller.cache key
        ⟨info.threshold, count, if exceedTime = 0 then info.exceedTime else exceedTime⟩ }

def updateDb (controller : DailyController) (key : CacheKey) (count : Int32) (exceedTime : Int) : DailyController :=
  if count = 1 then { controller with rows := insertEventInfo controller.rows key ⟨count, exceedTime⟩ }
  else controller

def updateCacheAndDb (controller : DailyController) (key : CacheKey) (threshold count : Int32) (time : Int) :
    DailyController :=
  let exceedTime := if count = threshold + 1 then time else 0
  updateDb (updateCache controller key threshold count exceedTime) key count exceedTime

def prepared : DailyController :=
  tryToReportDb calendar (tryToUpdateCacheToDb controller readings) readings

def checkThreshold (controller : DailyController) (event : Event) (readings : Readings) : Bool × DailyController :=
  let ready := prepared calendar controller readings
  let threshold := ready.getThreshold event.key event.eventType
  let count := ready.getCount event.key + 1
  (if ready.config.isValid then decide (count ≤ threshold) else true,
    updateCacheAndDb ready event.key threshold count readings.exceedTime)

def onConfigUpdate (config : Option ConfigJson) : DailyController :=
  { updateCacheToDb controller with config := .parse config }

end DailyController
end Hiview.EventValidator
