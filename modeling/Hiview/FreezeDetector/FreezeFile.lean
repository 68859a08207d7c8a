import Hiview.FreezeDetector.EventFieldValidator

/-! `GetAppFreezeFile` checks a path, resolves it, reads the file and deletes it, at once or in a
delayed task that resolves it again. Between these moments others may change the file system. -/
namespace Hiview.FreezeDetector
open Numeral (ascii)

/-- What paths lead to at one moment. A path is opened by way of its real path; what it removes
is an entry of the real path of its directory. -/
structure PathSystem where
  realPath : List UInt8 → Option (List UInt8)
  entry : List UInt8 → Option (List UInt8)
  absolute : ∀ path real, realPath path = some real → real.head? = some 47
  entry_real : ∀ real, realPath real = some real → entry real = some real

def readPathAllowedPrefix : List (List UInt8) := [ascii "/data/log/", ascii "/data/app/el2/"]

def EventFieldValidator.isAcceptedReadPath (path : List UInt8) : Bool :=
  if path = [] then true
  else if maxPathLen < path.length ∨ path.head? ≠ some 47 then false
  else if Text.contains path (ascii "..") || !path.all (· ∈ safePathChars) then false
  else readPathAllowedPrefix.any (·.isPrefixOf path)

/-- The real path of a file that is read or deleted. -/
inductive FileAccess where
  | read (path : List UInt8)
  | delete (path : List UInt8)
  deriving DecidableEq

def FileAccess.path : FileAccess → List UInt8
  | .read path | .delete path => path

namespace FreezeManager
open EventFieldValidator (isAcceptedReadPath)

section
variable (moments : Nat → PathSystem)

/-- The entry that is removed of a file, at once or by the delayed task, which resolves the path again. -/
def removed (isDelayRemove : Bool) (filePath : List UInt8) : Option (List UInt8) :=
  if isDelayRemove then ((moments 2).realPath filePath).bind (moments 3).entry else (moments 2).entry filePath

/-- The accesses of a call whose moments are its resolution, its read, its removal (or the
resolution of the delayed task) and the removal of the delayed task. -/
def getAppFreezeFile (stackPath : List UInt8) (isDelayRemove isNeedRealPath : Bool) : List FileAccess :=
  if isAcceptedReadPath stackPath = false then []
  else
    match if isNeedRealPath then (moments 0).realPath stackPath else some stackPath with
    | none => []
    | some filePath =>
      if isNeedRealPath ∧ isAcceptedReadPath filePath = false then []
      else
        ((moments 1).realPath filePath).toList.map .read ++ (removed moments isDelayRemove filePath).toList.map .delete

end

def Inside (path : List UInt8) : Prop := ∃ root ∈ readPathAllowedPrefix, root <+: path

theorem inside_of_accepted (accepted : isAcceptedReadPath path = true)
    (absolute : path.head? = some 47) : Inside path := by
  have named : path ≠ [] := fun empty => by simp [empty] at absolute
  rw [isAcceptedReadPath, if_neg named] at accepted
  split at accepted
  · cases accepted
  · split at accepted
    · cases accepted
    · simpa [Inside] using accepted

variable (moments : Nat → PathSystem) (stackPath : List UInt8) (isDelayRemove isNeedRealPath : Bool)

/-- The path that passes the checks of the call. -/
def Admitted (filePath : List UInt8) : Prop :=
  isAcceptedReadPath stackPath = true ∧
    if isNeedRealPath then (moments 0).realPath stackPath = some filePath ∧ isAcceptedReadPath filePath = true
    else filePath = stackPath

/-- At each moment of an access the path leads into the roots, if anywhere. -/
def LeadsInside (filePath : List UInt8) : Prop :=
  (∀ real, (moments 1).realPath filePath = some real → Inside real) ∧
    ∀ entry, removed moments isDelayRemove filePath = some entry → Inside entry

theorem accesses_inside_admitted :
    (∀ access ∈ getAppFreezeFile moments stackPath isDelayRemove isNeedRealPath, Inside access.path) ↔
      ∀ filePath, Admitted moments stackPath isNeedRealPath filePath → LeadsInside moments isDelayRemove filePath := by
  unfold getAppFreezeFile Admitted LeadsInside
  cases isAcceptedReadPath stackPath with
  | false => simp
  | true =>
    cases isNeedRealPath with
    | false => simp [or_imp, forall_and, FileAccess.path]
    | true =>
      cases (moments 0).realPath stackPath with
      | none => simp
      | some real => cases accepted : isAcceptedReadPath real <;> simp [accepted, or_imp, forall_and, FileAccess.path]

theorem leadsInside_of_kept {filePath : List UInt8} (accepted : isAcceptedReadPath filePath = true)
    (absolute : filePath.head? = some 47) (kept : ∀ moment, (moments moment).realPath filePath = some filePath) :
    LeadsInside moments isDelayRemove filePath := by
  have inside := inside_of_accepted accepted absolute
  have entry (moment : Nat) := (moments moment).entry_real filePath (kept moment)
  cases isDelayRemove <;> simpa [LeadsInside, removed, kept, entry] using inside

/-- A file system with one symbolic link. -/
def linked (link target : List UInt8) (absolute : target.head? = some 47) : PathSystem where
  realPath path := if path = link then some target else if path.head? = some 47 then some path else none
  entry path := if path.head? = some 47 then some path else none
  absolute path real found := by
    split at found
    · exact Option.some.inj found ▸ absolute
    · split at found
      · rename_i slash
        exact Option.some.inj found ▸ slash
      · cases found
  entry_real real found := by
    split at found
    · rw [← Option.some.inj found, if_pos absolute]
    · split at found
      · rename_i slash
        rw [if_pos slash]
      · cases found

end FreezeManager
end Hiview.FreezeDetector
