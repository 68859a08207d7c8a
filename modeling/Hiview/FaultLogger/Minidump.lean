import Hiview.Lib.Numeral

/-! The minidump of a crashed process, which is told by its name from the other files of the
temporary folder while the dump may still be on its way. -/
namespace Hiview.FaultLogger
open List
open Numeral (ascii)

structure CrashInfo where
  pid : Int
  id : Int
  module : List UInt8
  /-- the time as `GetFormatedTimeWithMillsec` writes it -/
  time : List UInt8
  /-- the section `ENABLE_MINIDUMP`, empty if there is none -/
  enableMinidump : List UInt8

def faultlogTempFolder : List UInt8 := ascii "/data/log/faultlog/temp/"

def isMinidump (pid : Int) (fileName : List UInt8) : Bool :=
  (ascii "minidump-" ++ Numeral.toString pid).isPrefixOf fileName && (ascii ".dmp").isSuffixOf fileName

def maxCnt (timeOutUs : Nat) : Nat := max (timeOutUs / 200000) 1

/-- The names that the directory iterator of each poll yields are `polls`. -/
def getMinidumpPath (info : CrashInfo) (timeOutUs : Nat) (isDirectory : Bool)
    (polls : Nat → List (List UInt8)) : List UInt8 :=
  if info.enableMinidump ≠ ascii "true" ∨ !isDirectory then []
  else
    match (range (maxCnt timeOutUs)).findSome? fun cnt => (polls cnt).find? (isMinidump info.pid) with
    | some fileName => faultlogTempFolder ++ fileName
    | none => []

/-- The path that is returned, with the source and the destination that `CopyFile` was called for. -/
def dealMiniDumpEvent (info : CrashInfo) (isDirectory : Bool) (polls : Nat → List (List UInt8))
    (copied : Bool) : List UInt8 × Option (List UInt8 × List UInt8) :=
  let minidumpSourcePath := getMinidumpPath info 5000000 isDirectory polls
  if minidumpSourcePath = [] then ([], none)
  else
    let minidumpDestPath := ascii "/data/log/faultlog/faultlogger/minidump-" ++ info.module ++ ascii "-" ++
      Numeral.toString info.id ++ ascii "-" ++ info.time ++ ascii ".dmp"
    (if copied then minidumpDestPath else [], some (minidumpSourcePath, minidumpDestPath))

/-- The name of a dump of process `pid`. -/
def Carries (pid : Int) (fileName : List UInt8) : Prop :=
  ∃ suffix, fileName = ascii "minidump-" ++ (Numeral.toString pid ++ 45 :: (suffix ++ ascii ".dmp"))

/-- The path of such a dump in the temporary folder. -/
def OwnDump (pid : Int) (path : List UInt8) : Prop :=
  ∃ fileName, Carries pid fileName ∧ path = faultlogTempFolder ++ fileName

theorem Carries.isMinidump (carries : Carries pid fileName) : isMinidump pid fileName = true := by
  obtain ⟨suffix, rfl⟩ := carries
  rw [FaultLogger.isMinidump, Bool.and_eq_true, isPrefixOf_iff_prefix, isSuffixOf_iff_suffix]
  constructor
  · exact ⟨_, append_assoc _ _ _⟩
  · exact ⟨ascii "minidump-" ++ (Numeral.toString pid ++ 45 :: suffix), by simp⟩

/-- The first name with the beginning and the end of a dump that the polls list carries the pid. -/
def FirstOwn (info : CrashInfo) (timeOutUs : Nat) (isDirectory : Bool) (polls : Nat → List (List UInt8)) : Prop :=
  info.enableMinidump = ascii "true" → isDirectory → ∀ before fileName behind,
    (range (maxCnt timeOutUs)).flatMap polls = before ++ fileName :: behind → isMinidump info.pid fileName →
      (∀ other ∈ before, ¬ isMinidump info.pid other) → Carries info.pid fileName

variable (info : CrashInfo) (timeOutUs : Nat) (isDirectory : Bool) (polls : Nat → List (List UInt8))

theorem getMinidumpPath_cases :
    (getMinidumpPath info timeOutUs isDirectory polls = [] ∧ (info.enableMinidump = ascii "true" → isDirectory →
      ∀ fileName ∈ (range (maxCnt timeOutUs)).flatMap polls, ¬ isMinidump info.pid fileName)) ∨
    ∃ before fileName behind, getMinidumpPath info timeOutUs isDirectory polls = faultlogTempFolder ++ fileName ∧
      info.enableMinidump = ascii "true" ∧ isDirectory ∧ isMinidump info.pid fileName ∧
      (range (maxCnt timeOutUs)).flatMap polls = before ++ fileName :: behind ∧
      ∀ other ∈ before, ¬ isMinidump info.pid other := by
  rw [getMinidumpPath, ← find?_flatMap]
  split
  · rename_i off
    refine .inl ⟨rfl, fun enabled directory => ?_⟩
    simp [enabled, directory] at off
  · rename_i on
    rw [not_or, not_not, Bool.not_eq_true', Bool.not_eq_false] at on
    split
    · rename_i fileName found
      obtain ⟨selected, before, behind, names, first⟩ := find?_eq_some_iff_append.mp found
      exact .inr ⟨before, fileName, behind, rfl, on.1, on.2, selected, names, by simpa using first⟩
    · rename_i none
      exact .inl ⟨rfl, fun _ _ => find?_eq_none.mp none⟩

theorem ownDump_iff : OwnDump info.pid (faultlogTempFolder ++ fileName) ↔ Carries info.pid fileName := by
  constructor
  · rintro ⟨same, carries, path⟩
    exact append_cancel_left path ▸ carries
  · exact fun carries => ⟨_, carries, rfl⟩

theorem empty_or_own_iff :
    (getMinidumpPath info timeOutUs isDirectory polls = [] ∨
      OwnDump info.pid (getMinidumpPath info timeOutUs isDirectory polls)) ↔
    FirstOwn info timeOutUs isDirectory polls := by
  rcases getMinidumpPath_cases info timeOutUs isDirectory polls with
    ⟨empty, none⟩ | ⟨before, fileName, behind, path, enabled, directory, selected, names, first⟩
  · refine iff_of_true (.inl empty) fun enabled directory before fileName behind names selected => ?_
    exact absurd selected (none enabled directory fileName (by rw [names]; simp))
  · rw [path, ownDump_iff, or_iff_right (by simp [faultlogTempFolder, ascii])]
    constructor
    · intro carries _ _ before' fileName' behind' names' selected' first'
      have found := find?_eq_some_iff_append.mpr ⟨selected, before, behind, names, by simpa using first⟩
      have found' := find?_eq_some_iff_append.mpr ⟨selected', before', behind', names', by simpa using first'⟩
      exact Option.some.inj (found.symm.trans found') ▸ carries
    · exact fun own => own enabled directory before fileName behind names selected first

/-- What is returned within any time, and what is copied. -/
theorem getMinidumpPath_own_iff (copied : Bool) :
    ((getMinidumpPath info timeOutUs isDirectory polls = [] ∨
        OwnDump info.pid (getMinidumpPath info timeOutUs isDirectory polls)) ∧
      (info.enableMinidump = ascii "true" → isDirectory →
        (∃ cnt < maxCnt timeOutUs, ∃ fileName ∈ polls cnt, Carries info.pid fileName) →
        OwnDump info.pid (getMinidumpPath info timeOutUs isDirectory polls)) ↔
      FirstOwn info timeOutUs isDirectory polls) ∧
    ((∀ source dest, (dealMiniDumpEvent info isDirectory polls copied).2 = some (source, dest) →
        OwnDump info.pid source) ↔ FirstOwn info 5000000 isDirectory polls) := by
  constructor
  · rw [← empty_or_own_iff, and_iff_left_iff_imp]
    rintro own enabled directory ⟨cnt, polled, fileName, member, carries⟩
    refine own.resolve_left fun empty => ?_
    rcases getMinidumpPath_cases info timeOutUs isDirectory polls with ⟨-, none⟩ | ⟨_, _, _, path, -⟩
    · exact none enabled directory fileName (mem_flatMap.mpr ⟨cnt, mem_range.mpr polled, member⟩) carries.isMinidump
    · simp [path, faultlogTempFolder, ascii] at empty
  · rw [← empty_or_own_iff, dealMiniDumpEvent]
    split
    · rename_i empty
      exact iff_of_true (fun source dest copies => by cases copies) (.inl empty)
    · rename_i found
      rw [or_iff_right found]
      exact ⟨fun own => own _ _ rfl, fun own source dest copies => by cases copies; exact own⟩

/-- Process 12 has crashed and its dump is not there, but that of process 123 is. -/
theorem getMinidumpPath_longer_pid :
    (dealMiniDumpEvent ⟨12, 7, ascii "app", ascii "0", ascii "true"⟩ true (fun _ => [ascii "minidump-123-1.dmp"])
      true).2 = some (ascii "/data/log/faultlog/temp/minidump-123-1.dmp",
        ascii "/data/log/faultlog/faultlogger/minidump-app-7-0.dmp") ∧
    Carries 123 (ascii "minidump-123-1.dmp") ∧ ¬ Carries 12 (ascii "minidump-123-1.dmp") := by
  refine ⟨by decide +kernel, ⟨ascii "1", by decide +kernel⟩, ?_⟩
  rintro ⟨suffix, same⟩
  rw [show Numeral.toString 12 = ascii "12" by decide +kernel] at same
  simp [ascii] at same

end Hiview.FaultLogger
