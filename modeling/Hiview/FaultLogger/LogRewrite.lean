import Hiview.Lib.Text

/-! Rewriting a fault log line by line: into the log that is kept, whose source is then removed,
and in place with the sanitizer's parsed stack frames. -/
namespace Hiview.FaultLogger
open List
open Numeral (ascii)
open Text (contains)

abbrev Line := List UInt8

/-- What is left to read of an `std::ifstream`, as the parts between newlines: the last part is
ended by none. The stream of a file that could not be opened gives nothing. -/
def ifstream : Option (List UInt8) → List Line
  | none => []
  | some text => Text.splitOn 10 text

/-- Texts that are saved one by one, each with a newline behind it. -/
def saved (lines : List Line) : List UInt8 := lines.flatMap (· ++ [10])

def isBuildInfo (line : Line) : Bool := contains line (ascii "Build info:")

/-- The line that is saved, and the stream behind it; a failed `getline` leaves an empty line. -/
def jumpBuildInfo : List Line → List Line × List Line
  | [] => ([[]], [])
  | line :: rest => (if isBuildInfo line then [] else [line], rest)

/-- The loop of both rewritings, with what a line makes it save. -/
def rewriteLoop (save : σ → Line → List Line × σ) : σ → List Line → List Line
  | _, [] => []
  -- `getline` fails on an empty last part; on another it raises `eof`, and the loop breaks
  | _, [_] => []
  | state, line :: next :: rest =>
    (save state line).1 ++ rewriteLoop save (save state line).2 (next :: rest)

def saveWithMeminfo (deviceMeminfo : Option Line) (hasFindRssInfo : Bool) (line : Line) : List Line × Bool :=
  if !hasFindRssInfo && contains line (ascii "Process Memory(kB):") && deviceMeminfo.isSome then
    (line :: deviceMeminfo.toList, true)
  else ([line], hasFindRssInfo)

/-- The texts that `WriteLogToFile` saves, none when it refuses the path. -/
def writeLogToFile (path : Line) (content : Line → Option (List UInt8)) (sections : Line → Option Line) :
    Option (List Line) :=
  if path = [] then none
  else
    let (first, logFile) := jumpBuildInfo (ifstream (content path))
    some (first ++ rewriteLoop (saveWithMeminfo (sections (ascii "DEVICE_MEMINFO"))) false logFile)

/-- A fault whose log file is open, with what else is written to that file before and after the
old log. -/
structure SaveCall where
  head : List UInt8
  logPath : Line
  sectionMap : Line → Option Line
  tail : List UInt8

/-- The new log, and what is left at the old log's path when removing it has the given outcome. -/
def saveFaultLogToFile (call : SaveCall) (content : Line → Option (List UInt8)) (removed : Bool) :
    List UInt8 × Option (List UInt8) :=
  (call.head ++ saved ((writeLogToFile call.logPath content call.sectionMap).getD []) ++ call.tail,
    if removed then none else content call.logPath)

def shouldParseSandBoxPath (line : Line) : Bool :=
  [".hap+", ".hsp+", ".hqf+", ".abc+", "[anon:ArkTS Code:/"].any fun part => contains line (ascii part)

section
variable (processArkTsLine : Line → Line)

def stackLine (line : Line) : Line := if shouldParseSandBoxPath line then processArkTsLine line else line

def writeStackInfo (srcLogFile : List UInt8) : List Line :=
  rewriteLoop (fun _ line => ([stackLine processArkTsLine line], ())) () (ifstream (some srcLogFile))

/-- The log is too large, or a call did not succeed. -/
def refused (opened synced renamed : Bool) (text : List UInt8) : Bool :=
  text.length > 1024 * 1024 * 5 || !opened || !synced || !renamed

/-- The result, and the text at the path; the temporary file replaces it when every call succeeded. -/
def parserArkTsStackInfo (opened synced renamed : Bool) (text : List UInt8) : Bool × List UInt8 :=
  if refused opened synced renamed text then (false, text)
  else (true, saved (writeStackInfo processArkTsLine text))

end

/-- The lines of a text, whether or not a newline ends the last. -/
def lines (text : List UInt8) : List Line :=
  let parts := Text.splitOn 10 text
  if parts.getLast? = some [] then parts.dropLast else parts

/-- The lines that a kept log has to hold. -/
def keptLines (text : List UInt8) : List Line :=
  match lines text with
  | [] => []
  | first :: rest => if isBuildInfo first then rest else first :: rest

theorem rewriteLoop_cons {save : σ → Line → List Line × σ} :
    rewriteLoop save state (line :: (parts ++ [last])) =
      (save state line).1 ++ rewriteLoop save (save state line).2 (parts ++ [last]) := by
  cases parts <;> rfl

theorem rewriteLoop_map {replace : Line → Line} :
    rewriteLoop (fun _ line => ([replace line], ())) () (parts ++ [last]) = parts.map replace := by
  induction parts with
  | nil => rfl
  | cons line parts ih => rw [cons_append, rewriteLoop_cons, ih, map_cons, singleton_append]

theorem rewriteLoop_sublist (hasFindRssInfo : Bool) :
    parts <+ rewriteLoop (saveWithMeminfo meminfo) hasFindRssInfo (parts ++ [last]) := by
  induction parts generalizing hasFindRssInfo with
  | nil => exact nil_sublist _
  | cons line parts ih =>
    rw [cons_append, rewriteLoop_cons, saveWithMeminfo]
    split
    · exact ((ih true).trans (sublist_append_right _ _)).cons_cons line
    · exact (ih _).cons_cons line

theorem rewriteLoop_plain : rewriteLoop (saveWithMeminfo none) false (parts ++ [last]) = parts := by
  induction parts with
  | nil => rfl
  | cons line parts ih =>
    rw [cons_append, rewriteLoop_cons, saveWithMeminfo, if_neg (by simp)]
    exact congrArg (line :: ·) ih

variable {text body last : List UInt8}

/-- A text with a newline in it, cut at the last one. -/
theorem exists_lastLine (more : 10 ∈ text) : ∃ body last, text = body ++ 10 :: last ∧ 10 ∉ last := by
  obtain ⟨back, front, shape, absent⟩ := eq_append_cons_of_mem (mem_reverse.mpr more)
  refine ⟨front.reverse, back.reverse, ?_, mt mem_reverse.mp absent⟩
  rw [← reverse_reverse text, shape]
  simp

theorem splitOn_lastLine (absent : 10 ∉ last) :
    Text.splitOn 10 (body ++ 10 :: last) = Text.splitOn 10 body ++ [last] := by
  rw [Text.splitOn_append_sep, Text.splitOn_self absent]

theorem lines_lastLine (absent : 10 ∉ last) :
    lines (body ++ 10 :: last) = Text.splitOn 10 body ++ if last = [] then [] else [last] := by
  rw [lines, splitOn_lastLine absent, getLast?_concat, dropLast_concat]
  split <;> simp_all

theorem ended_iff (absent : 10 ∉ last) : (body ++ 10 :: last).getLast? = some 10 ↔ last = [] := by
  rcases eq_nil_or_concat last with rfl | ⟨front, char, rfl⟩
  · simp
  · have other : char ≠ 10 := by
      rintro rfl
      exact absent (by simp)
    simpa [getLast?_cons] using other

/-- Every line of the old log is in the new one, whatever the fault. -/
def LogKept (text : List UInt8) : Prop :=
  ∀ call content removed, call.logPath ≠ [] → content call.logPath = some text →
    ∃ written, keptLines text <+ written ∧
      (saveFaultLogToFile call content removed).1 = call.head ++ saved written ++ call.tail

theorem logKept_oneLine (absent : 10 ∉ text) : LogKept text := by
  intro call content removed named source
  refine ⟨_, ?_, by rw [saveFaultLogToFile, writeLogToFile, if_neg named, source, Option.getD_some]⟩
  rw [keptLines, lines, ifstream, Text.splitOn_self absent, jumpBuildInfo]
  refine Sublist.trans ?_ (sublist_append_left _ _)
  by_cases empty : text = [] <;> simp [empty]

theorem saved_length_le (fewer : kept <+ written) : (saved kept).length ≤ (saved written).length :=
  (fewer.flatMap _).length_le

theorem logKept_lastLine_iff (absent : 10 ∉ last) : LogKept (body ++ 10 :: last) ↔ last = [] := by
  obtain ⟨first, parts, shape⟩ := exists_cons_of_ne_nil (Text.splitOn_ne_nil 10 body)
  have kept : keptLines (body ++ 10 :: last) = (if isBuildInfo first then [] else [first]) ++
      (parts ++ if last = [] then [] else [last]) := by
    rw [keptLines, lines_lastLine absent, shape, cons_append]
    dsimp only
    split <;> rfl
  constructor
  · intro logKept
    obtain ⟨written, whole, same⟩ := logKept ⟨[], [47], fun _ => none, []⟩ (fun _ => some (body ++ 10 :: last)) true
      (by decide) rfl
    rw [saveFaultLogToFile, writeLogToFile, if_neg (by decide), ifstream, splitOn_lastLine absent, shape] at same
    simp only [nil_append, append_nil, Option.getD_some, cons_append, jumpBuildInfo, rewriteLoop_plain] at same
    have size := saved_length_le whole
    rw [← same, kept] at size
    by_contra more
    simp [saved, more] at size
  · rintro rfl call content removed named source
    refine ⟨_, ?_, by rw [saveFaultLogToFile, writeLogToFile, if_neg named, source, Option.getD_some]⟩
    rw [kept, if_pos (Eq.refl []), append_nil, ifstream, splitOn_lastLine absent, shape, cons_append, jumpBuildInfo]
    exact (rewriteLoop_sublist false).append_left _

theorem saved_concat_ne (parts : List Line) (line : Line) : saved (parts ++ [line]) ≠ saved parts := by
  intro same
  have size := congrArg length same
  simp [saved] at size

variable (processArkTsLine : Line → Line) (opened synced renamed : Bool)

/-- The log is left as it is, or every line is there, the frames replaced. -/
def StackKept (text : List UInt8) : Prop :=
  parserArkTsStackInfo processArkTsLine opened synced renamed text = (false, text) ∨
    parserArkTsStackInfo processArkTsLine opened synced renamed text =
      (true, saved ((lines text).map (stackLine processArkTsLine)))

theorem stackKept_iff (text : List UInt8) : StackKept processArkTsLine opened synced renamed text ↔
    refused opened synced renamed text ∨ text = [] ∨ text.getLast? = some 10 := by
  by_cases left : refused opened synced renamed text = true
  · exact iff_of_true (.inl (if_pos left)) (.inl left)
  · rw [StackKept, parserArkTsStackInfo, if_neg left, or_iff_right (by simp), or_iff_right left, writeStackInfo,
      ifstream, Prod.mk.injEq, eq_self_iff_true, true_and]
    by_cases more : 10 ∈ text
    · obtain ⟨body, last, rfl, absent⟩ := exists_lastLine more
      rw [splitOn_lastLine absent, rewriteLoop_map, lines_lastLine absent, ended_iff absent, or_iff_right (by simp)]
      by_cases ended : last = []
      · simp [ended]
      · rw [if_neg ended, map_append]
        exact iff_of_false (saved_concat_ne _ _).symm ended
    · have notEnded : text.getLast? ≠ some 10 := fun ended => more (mem_of_getLast? ended)
      rw [Text.splitOn_self more, lines, Text.splitOn_self more, or_iff_left notEnded]
      by_cases empty : text = []
      · simp [empty, rewriteLoop]
      · simp [empty, rewriteLoop, saved]

end Hiview.FaultLogger
