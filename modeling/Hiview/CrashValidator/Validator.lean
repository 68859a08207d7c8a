import Hiview.Base.StringUtil
import Hiview.Lib.Assoc

/-! The validator of crash reports. It keeps the exits of processes that were killed by a crash signal
and the crash events of processes in three maps. When the timer of an exit fires, the exit is
compared with the crash events of its process and the outcome is reported. -/
namespace Hiview.CrashValidator
open Assoc Numeral

inductive EventName
  | processExit
  | cppCrash
  | cppCrashException
  deriving DecidableEq

/-- What the getters of an event return for the keys that the validator asks for. -/
structure CrashEvent where
  eventName : EventName
  pid : Int32
  uid : Int
  status : Int32
  errorCode : Int
  time : Int
  happenTime : Int
  reason : List UInt8
  summary : List UInt8
  processName : List UInt8
  moduleName : List UInt8
  errorMsg : List UInt8

def crashDumpLocalReport : Int := 206
def maxCrashEventSize : Nat := 100
def minAppUid : Int := 20000

inductive ReportName
  | cppCrashMatched
  | cppCrashExceptionMatched
  | cppCrashDismatch
  deriving DecidableEq

/-- An event that the validator writes; a dismatch has no time and no summary. -/
structure CrashReport where
  name : ReportName
  processName : List UInt8
  pid : Int32
  uid : Int
  happenTime : Option Int
  summary : Option (List UInt8)

/-- The fault log that is made of a crash reported through an exception event. -/
structure FaultLogInfo where
  time : Int
  uid : Int
  pid : Int32
  moduleName : List UInt8
  reason : List UInt8
  summary : List UInt8

structure Validator where
  processExitEvents : List (Int32 × CrashEvent)
  cppCrashEvents : List (Int32 × CrashEvent)
  cppCrashExceptionEvents : List (Int32 × CrashEvent)

namespace Validator

def new : Validator := ⟨[], [], []⟩

variable (events : List (Int32 × CrashEvent))

def erase (pid : Int32) : List (Int32 × CrashEvent) :=
  events.filter (·.1 ≠ pid)

/-- When no exit is left, the crash events of all processes are dropped. -/
def removeMatchEvent (validator : Validator) (pid : Int32) : Validator :=
  let exits := erase validator.processExitEvents pid
  if exits.isEmpty then ⟨exits, [], []⟩
  else ⟨exits, erase validator.cppCrashEvents pid, erase validator.cppCrashExceptionEvents pid⟩

def reportMatchEvent (name : ReportName) (event : CrashEvent) : CrashReport :=
  match name with
  | .cppCrashMatched => ⟨name, event.moduleName, event.pid, event.uid, some event.happenTime, some event.summary⟩
  | .cppCrashExceptionMatched =>
    ⟨name, event.processName, event.pid, event.uid, some event.happenTime, some event.errorMsg⟩
  | .cppCrashDismatch => ⟨name, [], event.pid, event.uid, some event.happenTime, some []⟩

def reportDisMatchEvent (event : CrashEvent) : CrashReport :=
  ⟨.cppCrashDismatch, event.processName, event.pid, event.uid, none, none⟩

/-- The crash event of a process, if it comes from a snapshot of the kernel. -/
def kernelSnapshotEvent (validator : Validator) (pid : Int32) : Option CrashEvent :=
  (lookup validator.cppCrashEvents pid).filter (·.reason == ascii "CppCrashKernelSnapshot")

def matched (validator : Validator) (pid : Int32) (exit : CrashEvent) : CrashReport :=
  match kernelSnapshotEvent validator pid with
  | some event => reportMatchEvent .cppCrashMatched event
  | none =>
    match lookup validator.cppCrashExceptionEvents pid, lookup validator.cppCrashEvents pid with
    | some event, _ => reportMatchEvent .cppCrashExceptionMatched event
    | none, some event => reportMatchEvent .cppCrashMatched event
    | none, none => reportDisMatchEvent exit

def matchEvent (validator : Validator) (pid : Int32) : Option CrashReport × Validator :=
  match lookup validator.processExitEvents pid with
  | none => (none, validator)
  | some exit => (some (matched validator pid exit), removeMatchEvent validator pid)

variable (event : CrashEvent)

/-- `try_emplace`. -/
def addExit : List (Int32 × CrashEvent) :=
  if maxCrashEventSize < events.length then events
  else match lookup events event.pid with
    | some _ => events
    | none => insert events event.pid event

/-- A crash event is kept unless there is an earlier one of its process. -/
def addCrash : List (Int32 × CrashEvent) :=
  if maxCrashEventSize < events.length then events
  else match lookup events event.pid with
    | none => insert events event.pid event
    | some kept => if 0 < kept.time - event.time then insert events event.pid event else events

def addEventToMap (validator : Validator) (event : CrashEvent) : Validator :=
  match event.eventName with
  | .processExit => { validator with processExitEvents := addExit validator.processExitEvents event }
  | .cppCrash => { validator with cppCrashEvents := addCrash validator.cppCrashEvents event }
  | .cppCrashException =>
    { validator with cppCrashExceptionEvents := addCrash validator.cppCrashExceptionEvents event }

/-- `SIGILL`, `SIGABRT`, `SIGBUS`, `SIGFPE`, `SIGSEGV`, `SIGSTKFLT`, `SIGSYS` and `SIGTRAP`. -/
def crashSet : List Int32 := [4, 6, 7, 8, 11, 16, 31, 5]

def isNormalExitEvent : Bool :=
  decide (event.status &&& 127 ∉ crashSet)

/-- The first line of the message, unless it is the only one, and the rest. -/
def splitReason (msg : List UInt8) : List UInt8 × List UInt8 :=
  match msg.findIdx? (· == 10) with
  | some pos => if pos + 1 < msg.length then (msg.take pos, msg.drop (pos + 1)) else ([], msg)
  | none => ([], msg)

def localFaultLog : FaultLogInfo :=
  let msg := splitReason (StringUtil.unescapeJsonStringValue event.errorMsg)
  ⟨event.happenTime, event.uid, event.pid, StringUtil.unescapeJsonStringValue event.processName, msg.1, msg.2⟩

/-- An exception event that stands for a local report of a crash. -/
def isLocalReport : Bool :=
  decide (event.eventName = .cppCrashException ∧ event.errorCode = crashDumpLocalReport)

structure Handled where
  validator : Validator
  timer : Option Int32
  faultLog : Option FaultLogInfo

def onEvent (validator : Validator) (event : CrashEvent) : Handled :=
  if event.eventName = .processExit ∧ isNormalExitEvent event then ⟨validator, none, none⟩
  else if isLocalReport event then ⟨validator, none, some (localFaultLog event)⟩
  else if event.uid < minAppUid then ⟨validator, none, none⟩
  else ⟨addEventToMap validator event, if event.eventName = .processExit then some event.pid else none, none⟩

end Validator
end Hiview.CrashValidator
