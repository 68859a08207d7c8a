import Hiview.Lib.Transition

/-! Publishing of system events to the applications that listen to them. An event is
appended to a file of its application's sandbox, which is named by the millisecond at which
it is written. Resource events are written by a background thread of their own. Two
kinds of events are collected in one temporary file for each application, and a
sending thread copies these files into the sandboxes after a delay.

The steps are the parts that run without an interruption that matters: a call of
`PushEvent` under the mutex, what the thread of a resource event does without the
mutex and then under it, and what the sending thread does under the mutex, file by
file. Copying a file empties its destination when it opens it and writes from its start
afterwards; the other thread may write in between. -/
namespace Hiview.EventPublish

/-- The names of `OS_EVENT_POS_INFOS`, and any other one. -/
inductive EventName
  | appCrash
  | appFreeze
  | appLaunch
  | scrollJank
  | cpuUsageHigh
  | batteryUsage
  | resourceOverlimit
  | addressSanitizer
  | mainThreadJank
  | appHicollie
  | appKilled
  | audioJankFrame
  | appFreezeWarning
  | undefined
  deriving DecidableEq

def osEventPosInfos : EventName → Option Nat
  | .appCrash => some 0
  | .appFreeze => some 1
  | .appLaunch => some 2
  | .scrollJank => some 3
  | .cpuUsageHigh => some 4
  | .batteryUsage => some 5
  | .resourceOverlimit => some 6
  | .addressSanitizer => some 7
  | .mainThreadJank => some 8
  | .appHicollie => some 10
  | .appKilled => some 11
  | .audioJankFrame => some 12
  | .appFreezeWarning => some 14
  | .undefined => none

inductive EventType
  | fault
  | statistic
  | security
  | behavior
  deriving DecidableEq

/-- The sandbox of an application, with the value of its attribute `user.appevent`, if it
can be read and is not empty. -/
structure SandBox where
  eventsMask : Option (BitVec 64)

def checkAppListenedEvents (sandBox : SandBox) (eventName : EventName) : Bool :=
  match osEventPosInfos eventName, sandBox.eventsMask with
  | some position, some eventsMask => eventsMask &&& (1#64 <<< position) != 0#64
  | _, _ => false

/-- The event as it is written: its domain is always the same one. -/
structure EventJson (Params : Type) where
  name : EventName
  eventType : EventType
  params : Params
  deriving DecidableEq

/-- A call of `PushEvent`; `params` is what its text is parsed to, if that is an object. -/
structure Request (Params : Type) where
  uid : Int
  eventName : EventName
  eventType : EventType
  params : Option Params

/-- An event in the file of a millisecond in the sandbox of an application. -/
structure Saved (Params : Type) where
  uid : Int
  milliseconds : Nat
  event : EventJson Params
  deriving DecidableEq

/-- The thread behind `sendingOverlimitThread_` and what it was started with. -/
structure OverLimit (Params : Type) where
  uid : Int
  event : EventJson Params
  saved : Bool

/-- A sending thread that holds the mutex: the temporary files it has listed and not
copied yet, by their applications, and whether the destination of the first is open. -/
structure Sending where
  milliseconds : Nat
  files : List Int
  opened : Bool

structure State (Params : Type) where
  saved : List (Saved Params)
  temp : List (Int × EventJson Params)
  sendingThread : Bool
  sending : Option Sending
  overLimit : Option (OverLimit Params)

def initial (Params : Type) : State Params :=
  ⟨[], [], false, none, none⟩

variable {Params : Type}

def Saved.inFile (uid : Int) (milliseconds : Nat) (event : Saved Params) : Bool :=
  event.uid == uid && event.milliseconds == milliseconds

/-- The file is opened with truncation. -/
def emptied (saved : List (Saved Params)) (uid : Int) (milliseconds : Nat) : List (Saved Params) :=
  saved.filter fun event => !event.inFile uid milliseconds

/-- The temporary file of an application is removed. -/
def removed (temp : List (Int × EventJson Params)) (uid : Int) : List (Int × EventJson Params) :=
  temp.filter fun event => !(event.1 == uid)

def tempFile (temp : List (Int × EventJson Params)) (uid : Int) : List (Int × EventJson Params) :=
  temp.filter fun event => event.1 == uid

variable (state : State Params)

def saveEventToSandBox (uid : Int) (event : EventJson Params) (milliseconds : Nat) :
    State Params :=
  { state with saved := state.saved ++ [⟨uid, milliseconds, event⟩] }

def saveEventToTempFile (uid : Int) (event : EventJson Params) : State Params :=
  { state with temp := state.temp ++ [(uid, event)] }

def startSendingThread : State Params :=
  { state with sendingThread := true }

def startOverLimitThread (uid : Int) (event : EventJson Params) : State Params :=
  match state.overLimit with
  | some _ => state
  | none => { state with overLimit := some ⟨uid, event, false⟩ }

def specialEvents : List EventName :=
  [.resourceOverlimit, .scrollJank, .batteryUsage]

/-- What `PushEvent` does under the mutex. -/
def publish (uid : Int) (event : EventJson Params) (milliseconds : Nat) : State Params :=
  if event.name ∉ specialEvents then saveEventToSandBox state uid event milliseconds
  else if event.name = .resourceOverlimit then startOverLimitThread state uid event
  else startSendingThread (saveEventToTempFile state uid event)

section Publisher
variable (sandBoxes : Int → Option SandBox)

/-- The event of a request that passes the checks before the mutex. -/
def accepted (request : Request Params) : Option (EventJson Params) :=
  if request.uid < 0 then none
  else match sandBoxes request.uid, request.params with
    | some sandBox, some params =>
      if checkAppListenedEvents sandBox request.eventName then
        some ⟨request.eventName, request.eventType, params⟩
      else none
    | _, _ => none

/-- A request for a missing sandbox removes the temporary file of its application, also while the
mutex is held. -/
def rejected (state : State Params) (request : Request Params) : State Params :=
  if request.uid < 0 then state
  else match sandBoxes request.uid with
    | none => { state with temp := removed state.temp request.uid }
    | some _ => state

def pushEvent (state : State Params) (request : Request Params) (milliseconds : Nat) : Option (State Params) :=
  match accepted sandBoxes request with
  | none => some (rejected sandBoxes state request)
  | some event =>
    match state.sending with
    | some _ => none
    | none => some (publish state request.uid event milliseconds)

/-- The thread of a resource event writes the event, without the mutex. -/
def saveOverLimitEvent (milliseconds : Nat) : Option (State Params) :=
  match state.overLimit with
  | some ⟨uid, event, false⟩ =>
    some { saveEventToSandBox state uid event milliseconds with overLimit := some ⟨uid, event, true⟩ }
  | _ => none

def resetOverLimitThread : Option (State Params) :=
  match state.overLimit, state.sending with
  | some ⟨_, _, true⟩, none => some { state with overLimit := none }
  | _, _ => none

/-- The files are those of the directory, in any order. -/
def Lists (temp : List (Int × EventJson Params)) (files : List Int) : Prop :=
  files.Nodup ∧ (∀ uid ∈ files, uid ∈ temp.map Prod.fst) ∧ ∀ uid ∈ temp.map Prod.fst, uid ∈ files

instance (temp : List (Int × EventJson Params)) (files : List Int) : Decidable (Lists temp files) :=
  inferInstanceAs (Decidable (_ ∧ _ ∧ _))

/-- The sending thread takes the mutex, reads the time and lists the temporary files. -/
def startSending (milliseconds : Nat) (files : List Int) : Option (State Params) :=
  if state.sendingThread = true ∧ state.sending.isNone ∧ Lists state.temp files then
    some { state with sending := some ⟨milliseconds, files, false⟩ }
  else none

/-- The next thing the sending thread does under the mutex. -/
def sendNext (state : State Params) (sending : Sending) : State Params :=
  match sending.files with
  | [] => { state with sendingThread := false, sending := none }
  | uid :: rest =>
    match sandBoxes uid with
    | none =>
      { state with temp := removed state.temp uid, sending := some { sending with files := rest } }
    | some _ =>
      if sending.opened then
        { state with
          saved := emptied state.saved uid sending.milliseconds ++
            (tempFile state.temp uid).map fun event => ⟨uid, sending.milliseconds, event.2⟩
          temp := removed state.temp uid
          sending := some ⟨sending.milliseconds, rest, false⟩ }
      else
        { state with
          saved := emptied state.saved uid sending.milliseconds
          sending := some { sending with opened := true } }

inductive Step (Params : Type)
  | pushEvent (request : Request Params) (milliseconds : Nat)
  | saveOverLimitEvent (milliseconds : Nat)
  | resetOverLimitThread
  | startSending (milliseconds : Nat) (files : List Int)
  | sendNext

/-- One step of a caller or of a thread, if it can be taken. -/
def step (state : State Params) : Step Params → Option (State Params)
  | .pushEvent request milliseconds => pushEvent sandBoxes state request milliseconds
  | .saveOverLimitEvent milliseconds => saveOverLimitEvent state milliseconds
  | .resetOverLimitThread => resetOverLimitThread state
  | .startSending milliseconds files => startSending state milliseconds files
  | .sendNext => state.sending.map fun sending => sendNext sandBoxes state sending

end Publisher
end Hiview.EventPublish
