import Hiview.FreezeDetector.WatchPoint

/-! The name of a merged freeze log, which `InitLogInfo` and `MergeEventLog` assemble of the
type of the freeze and of the names that the event gives. -/
namespace Hiview.FreezeDetector
open Numeral (ascii)

inductive FreezeType where
  | appfreeze
  | sysfreeze
  | syswarning
  | appfreezewarning

def FreezeType.text : FreezeType → List UInt8
  | .appfreeze => ascii "appfreeze"
  | .sysfreeze => ascii "sysfreeze"
  | .syswarning => ascii "syswarning"
  | .appfreezewarning => ascii "appfreezewarning"

def isAlpha (char : UInt8) : Bool := 65 ≤ char ∧ char ≤ 90 ∨ 97 ≤ char ∧ char ≤ 122

/-- The characters that `FormatProcessName` keeps. -/
def isNameChar (char : UInt8) : Bool :=
  48 ≤ char ∧ char ≤ 57 ∨ isAlpha char ∨ char = 46 ∨ char = 45 ∨ char = 95

/-- The time as `strftime` prints it in numbers. -/
structure TimeFormat where
  text : UInt64 → List UInt8
  numbers : ∀ timestamp, ∀ char ∈ text timestamp, char = 45 ∨ 48 ≤ char ∧ char ≤ 57

/-- What stands behind the last slash before the first NUL. -/
def formatCmdLine (cmdLine : List UInt8) : List UInt8 :=
  ((cmdLine.takeWhile (· ≠ 0)).reverse.takeWhile (· ≠ 47)).reverse

def formatProcessName (processName : List UInt8) : List UInt8 :=
  (formatCmdLine processName).map fun char => if isNameChar char then char else 95

def faultLoggerPath : List UInt8 := ascii "/data/log/faultlog/faultlogger/"
def freezeDetectorPath : List UInt8 := ascii "/data/log/faultlog/freeze/"

namespace Vendor

/-- What stands behind the flag of the scene board, if anything does. -/
def sceneBoardName (processName : List UInt8) : Option (List UInt8) :=
  ((behind (ascii "com.ohos.sceneboard") processName).filter (· ≠ [])).map
    (List.map fun char => if char = 47 then 95 else char)

/-- From the first letter to the last. The loops read in front of an empty name. -/
def checkProcessName (processName : List UInt8) : Option (List UInt8 × Bool) :=
  let scene := sceneBoardName processName
  let processName := scene.getD processName
  if processName = [] then none
  else
    let trimmed := ((processName.dropWhile (!isAlpha ·)).reverse.dropWhile (!isAlpha ·)).reverse
    some (formatProcessName trimmed, scene.isSome)

/-- The process name that the event gives, or its package name, or its string id. -/
def givenName (watchPoint : WatchPoint) : List UInt8 :=
  let packageName := Text.trim watchPoint.params.packageName
  let processName := Text.trim watchPoint.params.processName
  if processName = [] then (if packageName = [] then watchPoint.stringId else packageName) else processName

variable (format : TimeFormat)

/-- The process name, whether it is one of the scene board, and the name of the log without its type. -/
def initLogInfo (watchPoint : WatchPoint) : Option (List UInt8 × Bool × List UInt8) :=
  let stringId := watchPoint.stringId
  let checked := if stringId = ascii "SCREEN_ON" then some (stringId, false) else checkProcessName (givenName watchPoint)
  checked.map fun checked =>
    (checked.1, checked.2, checked.1 ++ ascii "-" ++ Numeral.toString watchPoint.params.uid.toInt ++ ascii "-" ++
      format.text watchPoint.timestamp ++ ascii "-" ++ Numeral.toString watchPoint.timestamp.toNat)

/-- The paths of the fault log and of the temp log, for the type that the event is given. -/
def mergedLogPaths (type : FreezeType) (watchPoint : WatchPoint) :
    Option (List UInt8 × List UInt8) :=
  (initLogInfo format watchPoint).map fun info =>
    let pubLogPathName := type.text ++ ascii "-" ++ info.2.2
    let tmpLogName := pubLogPathName ++ ascii ".tmp"
    (faultLoggerPath ++ pubLogPathName, freezeDetectorPath ++ tmpLogName)

/-- Every character is one that a process name may keep. -/
def Sanitised (text : List UInt8) : Prop := ∀ char ∈ text, isNameChar char = true

theorem sanitised_of_all (checked : text.all isNameChar = true) : Sanitised text := List.all_eq_true.mp checked

theorem Sanitised.append (left : Sanitised first) (right : Sanitised second) : Sanitised (first ++ second) :=
  List.forall_mem_append.mpr ⟨left, right⟩

theorem Sanitised.plain (sanitised : Sanitised text) : ∀ char ∈ text, char ≠ 47 ∧ char ≠ 0 := by
  intro char member
  have kept := sanitised char member
  exact ⟨fun same => absurd (same ▸ kept) (by decide), fun same => absurd (same ▸ kept) (by decide)⟩

theorem isNameChar_of_number (number : 48 ≤ char ∧ char ≤ 57) : isNameChar char = true := by
  simp [isNameChar, number]

theorem sanitised_toString (num : Int) : Sanitised (Numeral.toString num) := by
  have numbers : Sanitised (Numeral.decimal num.natAbs) := fun char member =>
    isNameChar_of_number (Numeral.decimal_chars _ char member)
  rw [Numeral.toString]
  split
  · exact List.forall_mem_cons.mpr ⟨by decide, numbers⟩
  · exact numbers

theorem sanitised_time (timestamp : UInt64) : Sanitised (format.text timestamp) := by
  intro char member
  rcases format.numbers timestamp char member with rfl | number
  · decide
  · exact isNameChar_of_number number

theorem sanitised_formatProcessName (processName : List UInt8) : Sanitised (formatProcessName processName) := by
  rw [Sanitised, formatProcessName, List.forall_mem_map]
  intro char _
  split
  · assumption
  · decide

theorem checkProcessName_sanitised (named : processName ≠ []) :
    ∃ checked, checkProcessName processName = some checked ∧ Sanitised checked.1 := by
  have kept : (sceneBoardName processName).getD processName ≠ [] := by
    cases scene : sceneBoardName processName with
    | none => exact named
    | some name =>
      obtain ⟨rest, found, rfl⟩ := Option.map_eq_some_iff.mp scene
      simpa using (Option.filter_eq_some_iff.mp found).2
  exact ⟨_, if_neg kept, sanitised_formatProcessName _⟩

theorem givenName_ne_nil {watchPoint : WatchPoint} (named : watchPoint.stringId ≠ []) : givenName watchPoint ≠ [] := by
  rw [givenName]
  split
  · split
    · exact named
    · assumption
  · assumption

theorem initLogInfo_sanitised {watchPoint : WatchPoint} (named : watchPoint.stringId ≠ []) :
    ∃ info, initLogInfo format watchPoint = some info ∧ Sanitised info.2.2 := by
  have hyphen : Sanitised (ascii "-") := sanitised_of_all (by decide)
  have assembled (processName : List UInt8) (sanitised : Sanitised processName) :=
    (((((sanitised.append hyphen).append (sanitised_toString watchPoint.params.uid.toInt)).append hyphen).append
      (sanitised_time format watchPoint.timestamp)).append hyphen).append (sanitised_toString watchPoint.timestamp.toNat)
  by_cases screen : watchPoint.stringId = ascii "SCREEN_ON"
  · refine ⟨_, by rw [initLogInfo, if_pos screen]; rfl, assembled _ ?_⟩
    rw [screen]
    exact sanitised_of_all (by decide)
  · obtain ⟨checked, found, sanitised⟩ := checkProcessName_sanitised (givenName_ne_nil named)
    exact ⟨_, by rw [initLogInfo, if_neg screen, found]; rfl, assembled _ sanitised⟩

/-- Both logs lie directly in their directories, whatever names the event gives. -/
theorem mergedLogPaths_inside (type : FreezeType) (watchPoint : WatchPoint)
    (named : watchPoint.stringId ≠ []) :
    ∃ name tmpName, mergedLogPaths format type watchPoint =
        some (faultLoggerPath ++ name, freezeDetectorPath ++ tmpName) ∧
      ∀ file ∈ [name, tmpName], file ≠ [] ∧ ∀ char ∈ file, char ≠ 47 ∧ char ≠ 0 := by
  obtain ⟨info, initialised, sanitised⟩ := initLogInfo_sanitised format named
  have typed : Sanitised type.text ∧ type.text ≠ [] := by
    cases type <;> exact ⟨sanitised_of_all (by decide), by decide⟩
  have name : Sanitised (type.text ++ ascii "-" ++ info.2.2) :=
    (typed.1.append (sanitised_of_all (by decide))).append sanitised
  refine ⟨_, _, by rw [mergedLogPaths, initialised]; rfl, ?_⟩
  rw [List.forall_mem_cons, List.forall_mem_singleton]
  exact ⟨⟨by simp [typed.2], name.plain⟩, by simp [typed.2], (name.append (sanitised_of_all (by decide))).plain⟩

/-- An event of a process that names itself like a path. -/
def slashedPoint : WatchPoint :=
  ⟨{ (default : WatchPointParams) with processName := ascii "/a/../b" }, ascii "AAFWK", ascii "THREAD_BLOCK_6S", 1⟩

theorem epoch_numbers : ∀ char ∈ ascii "19700101000000", char = 45 ∨ 48 ≤ char ∧ char ≤ 57 := by
  decide +kernel

/-- The first second of the clock, as the format `%Y%m%d%H%M%S` shows it. -/
def epochFormat : TimeFormat := ⟨fun _ => ascii "19700101000000", fun _ => epoch_numbers⟩

theorem mergedLogPaths_inside_slashed :
    slashedPoint.stringId ≠ [] ∧ checkProcessName (givenName slashedPoint) = some (ascii "b", false) ∧
      ∃ name tmpName, mergedLogPaths epochFormat .appfreeze slashedPoint =
          some (faultLoggerPath ++ name, freezeDetectorPath ++ tmpName) ∧
        ∀ file ∈ [name, tmpName], file ≠ [] ∧ ∀ char ∈ file, char ≠ 47 ∧ char ≠ 0 :=
  ⟨by decide, by decide, mergedLogPaths_inside _ _ _ (by decide)⟩

end Vendor
end Hiview.FreezeDetector
