import Hiview.Lib.Numeral
import Mathlib.Data.List.Perm.Subperm

/-! `EventWriteHandler` and its packagers, one for each pair of versions and user.
Whether a call of `Package` writes its file, and which time the name of the file
gets, is left to the surroundings. Every `RenameFile` succeeds. -/
namespace Hiview.EventExport

structure EventVersion where
  systemVersion : List UInt8
  patchVersion : List UInt8
  deriving DecidableEq

/-- The text carries the sequence number, which is kept beside it. -/
structure CachedEvent where
  version : EventVersion
  domain : List UInt8
  name : List UInt8
  eventStr : List UInt8
  uid : Int
  seq : Int
  deriving DecidableEq

abbrev CachedEventMap := List (List UInt8 × List CachedEvent)

namespace CachedEventMap

def insert (event : CachedEvent) : CachedEventMap → CachedEventMap
  | [] => [(event.domain, [event])]
  | (domain, events) :: rest =>
    if domain = event.domain then (domain, events ++ [event]) :: rest
    else (domain, events) :: insert event rest

def events (map : CachedEventMap) : List CachedEvent := map.flatMap fun item => item.2

theorem events_insert (event : CachedEvent) (map : CachedEventMap) :
    (map.insert event).events.Perm (event :: map.events) := by
  induction map with
  | nil => exact .refl _
  | cons item rest ih =>
    obtain ⟨domain, before⟩ := item
    rw [insert]
    split
    · change (before ++ [event] ++ events rest).Perm (event :: (before ++ events rest))
      rw [List.append_assoc]
      exact List.perm_middle
    · exact (ih.append_left before).trans List.perm_middle

end CachedEventMap

/-- A file of a user stands for the events that it was written from. -/
structure ZipFile where
  call : Nat
  uid : Int
  contents : CachedEventMap

namespace ZipFile

def events (file : ZipFile) : List CachedEvent := file.contents.events

/-- `AppendZipFile`: the brand, the model, the version and the identifier of the
device, the time of the call of `Package` in milliseconds, and the user. -/
def name (device : List UInt8) (stamp : Nat → List UInt8) (file : ZipFile) : List UInt8 :=
  Numeral.ascii "HSE_" ++ device ++ 95 :: (stamp file.call ++ Numeral.ascii "_U" ++
    Numeral.toString file.uid ++ Numeral.ascii ".zip")

/-- What is found in the export directory: of the moved files with one name one is
left, whether they were written to one path or moved onto each other. -/
structure Left (nameOf : ZipFile → List UInt8) (moved left : List ZipFile) : Prop where
  among : left.Sublist moved
  once : (left.map nameOf).Nodup
  named : moved.map nameOf ⊆ left.map nameOf

variable {nameOf : ZipFile → List UInt8} {moved : List ZipFile}

/-- Every moved file is left exactly when no two of them share a name. -/
theorem Left.eq_iff (found : Left nameOf moved left) : left = moved ↔ (moved.map nameOf).Nodup := by
  constructor
  · rintro rfl
    exact found.once
  · intro distinct
    have most := (List.subperm_of_subset distinct found.named).length_le
    rw [List.length_map, List.length_map] at most
    exact found.among.eq_of_length_le most

theorem left_self (distinct : (moved.map nameOf).Nodup) : Left nameOf moved moved :=
  ⟨.refl _, distinct, fun _ member => member⟩

end ZipFile

structure ExportEventPackager where
  uid : Int
  maxFileSize : Nat
  totalJsonStrSize : Nat
  packagedEvents : CachedEventMap
  packagedFiles : List ZipFile

def mbToByte : Nat := 1024 * 1024

namespace ExportEventPackager

def new (uid : Int) (maxFileSize : Nat) : ExportEventPackager := ⟨uid, maxFileSize * mbToByte, 0, [], []⟩

variable (call : Nat) (written : Bool) (packager : ExportEventPackager) (event : CachedEvent)

/-- `Package`, when writing the file succeeds or fails as given. The cache is
cleared in both cases. -/
def package : Bool × ExportEventPackager :=
  if packager.packagedEvents = [] then (true, packager)
  else (written, { packager with
    packagedEvents := [], totalJsonStrSize := 0
    packagedFiles := if written then
        packager.packagedFiles ++ [⟨call, packager.uid, packager.packagedEvents⟩]
      else packager.packagedFiles })

/-- An event that does not fit beside the cached ones has them packaged first. -/
def overflows : Bool :=
  packager.totalJsonStrSize + event.eventStr.length > packager.maxFileSize

def store : ExportEventPackager :=
  { packager with
    packagedEvents := packager.packagedEvents.insert event
    totalJsonStrSize := packager.totalJsonStrSize + event.eventStr.length }

def appendEvent :
    Bool × ExportEventPackager :=
  if packager.overflows event then
    let packaged := packager.package call written
    if packaged.1 then (true, packaged.2.store event) else packaged
  else (true, packager.store event)

def clearPackagedFiles : ExportEventPackager :=
  { packager with packagedFiles := [] }

def writes : Bool := packager.packagedEvents ≠ []

end ExportEventPackager

/-- The packagers by key, the number of calls that had a file to write, and the
files that were moved to the export directory. -/
structure EventWriteHandler where
  packagers : List (List UInt8 × ExportEventPackager)
  calls : Nat
  exported : List ZipFile

structure EventWriteRequest where
  events : List CachedEvent
  isQueryCompleted : Bool
  maxSingleFileSize : Nat

/-- The packager whose call of `Package` failed, and the handler at that moment. -/
structure Failure where
  key : List UInt8
  handler : EventWriteHandler

namespace EventWriteHandler

def new : EventWriteHandler := ⟨[], 0, []⟩

/-- `WriteZipFileStrategy::GetPackagerKey`. -/
def getPackagerKey (event : CachedEvent) : List UInt8 :=
  event.version.systemVersion ++ 95 :: (event.version.patchVersion ++ 95 ::
    Numeral.toString event.uid)

def clearFiles (packagers : List (List UInt8 × ExportEventPackager)) :
    List (List UInt8 × ExportEventPackager) :=
  packagers.map fun item => (item.1, item.2.clearPackagedFiles)

variable (handler : EventWriteHandler)

def rollback : EventWriteHandler :=
  { handler with packagers := clearFiles handler.packagers }

def finish : EventWriteHandler :=
  { handler with
    packagers := clearFiles handler.packagers
    exported := handler.exported ++ handler.packagers.flatMap fun item => item.2.packagedFiles }

/-- `GetEventPackager` puts a new packager in its place when there is none. -/
def getEventPackager (uid : Int) (maxFileSize : Nat) (key : List UInt8) :
    List (List UInt8 × ExportEventPackager) → List (List UInt8 × ExportEventPackager)
  | [] => [(key, .new uid maxFileSize)]
  | (other, packager) :: rest =>
    if other = key then (other, packager) :: rest
    else if key < other then (key, .new uid maxFileSize) :: (other, packager) :: rest
    else (other, packager) :: getEventPackager uid maxFileSize key rest

section Requests
variable (written : Nat → Bool)

/-- `AppendEvent` of the packager with the key of the event. -/
def appendTo (calls : Nat) (event : CachedEvent) :
    List (List UInt8 × ExportEventPackager) → Bool × Nat × List (List UInt8 × ExportEventPackager)
  | [] => (true, calls, [])
  | (key, packager) :: rest =>
    if key = getPackagerKey event then
      let appended := packager.appendEvent calls (written calls) event
      let used := if packager.overflows event && packager.writes then calls + 1 else calls
      (appended.1, used, (key, appended.2) :: rest)
    else
      let later := appendTo calls event rest
      (later.1, later.2.1, (key, packager) :: later.2.2)

def appendEvent (maxFileSize : Nat) (handler : EventWriteHandler) (event : CachedEvent) :
    Except Failure EventWriteHandler :=
  let packagers := getEventPackager event.uid maxFileSize (getPackagerKey event) handler.packagers
  let appended := appendTo written handler.calls event packagers
  let next := { handler with packagers := appended.2.2, calls := appended.2.1 }
  if appended.1 then .ok next else .error ⟨getPackagerKey event, next⟩

/-- The loop that packages every packager, up to the first one that fails. -/
def packageFrom (calls : Nat) : List (List UInt8 × ExportEventPackager) →
    Option (List UInt8) × Nat × List (List UInt8 × ExportEventPackager)
  | [] => (none, calls, [])
  | (key, packager) :: rest =>
    let packaged := packager.package calls (written calls)
    let used := if packager.writes then calls + 1 else calls
    if packaged.1 then
      let later := packageFrom used rest
      (later.1, later.2.1, (key, packaged.2) :: later.2.2)
    else (some key, used, (key, packaged.2) :: rest)

def packageAll (handler : EventWriteHandler) : Except Failure EventWriteHandler :=
  let packaged := packageFrom written handler.calls handler.packagers
  let next := { handler with packagers := packaged.2.2, calls := packaged.2.1 }
  match packaged.1 with
  | none => .ok next
  | some key => .error ⟨key, next⟩

/-- `HandleRequest` up to `Rollback`, which the caller applies to a failure. -/
def handleRequest (handler : EventWriteHandler) (request : EventWriteRequest) :
    Except Failure EventWriteHandler :=
  match request.events.foldlM (appendEvent written request.maxSingleFileSize) handler with
  | .error failure => .error failure
  | .ok appended =>
    if !request.isQueryCompleted then .ok appended
    else match appended.packageAll written with
      | .error failure => .error failure
      | .ok packaged => .ok packaged.finish

end Requests

def cached : List CachedEvent :=
  handler.packagers.flatMap fun item => item.2.packagedEvents.events

def pending : List CachedEvent :=
  handler.packagers.flatMap fun item => item.2.packagedFiles.flatMap ZipFile.events

def delivered : List CachedEvent :=
  handler.exported.flatMap ZipFile.events

end EventWriteHandler
end Hiview.EventExport
