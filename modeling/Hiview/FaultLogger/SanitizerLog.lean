import Hiview.Lib.Text

/-! The chunks of a sanitizer's log. They are kept in one text, but the end of a report is looked
for in the last chunk alone, as a string that ends where memory has its next zero. -/
namespace Hiview.FaultLogger
open List
open Numeral (ascii)

inductive FaultType where
  | gwpAsan
  | tsan
  | ubsan
  | hwasan
  | asan
  deriving DecidableEq

/-- The ends of the reports, in the order in which they are looked for. -/
def endReports : List (List UInt8 × FaultType) :=
  [(ascii "End GWP-ASan report", .gwpAsan), (ascii "End Tsan report", .tsan), (ascii "End CFI report", .ubsan),
    (ascii "End Ubsan report", .ubsan), (ascii "End Hwasan report", .hwasan), (ascii "End Asan report", .asan)]

/-- Whether the text is found in front of a zero, and how many bytes had to be read for that. -/
def strstr (part : List UInt8) : List UInt8 → Bool × Nat
  | [] => (false, 0)
  | char :: rest =>
    if part.isPrefixOf (char :: rest) then (true, part.length)
    else if char = 0 then (false, 1)
    else ((strstr part rest).1, (strstr part rest).2 + 1)

def faultTypeOf (memory : List UInt8) : List (List UInt8 × FaultType) → Option FaultType × Nat
  | [] => (none, 0)
  | (part, faultType) :: rest =>
    if (strstr part memory).1 then (some faultType, (strstr part memory).2)
    else ((faultTypeOf memory rest).1, max (strstr part memory).2 (faultTypeOf memory rest).2)

/-- A chunk of `sz` bytes, and the memory behind it. -/
structure Chunk where
  buf : List UInt8
  behind : List UInt8

structure Collector where
  asanlog : List UInt8 := []
  /-- the texts that `ReadGwpAsanRecord` was called for -/
  records : List (List UInt8 × FaultType) := []
  /-- the greatest number of bytes read behind a chunk -/
  beyond : Nat := 0
  deriving DecidableEq

def writeSanitizerLog (state : Collector) (chunk : Chunk) : Collector :=
  if chunk.buf = [] then state
  else
    let asanlog := state.asanlog ++ chunk.buf
    let (faultType, read) := faultTypeOf (chunk.buf ++ chunk.behind) endReports
    let beyond := max state.beyond (read - chunk.buf.length)
    match faultType with
    | none => ⟨asanlog, state.records, beyond⟩
    | some faultType => ⟨[], state.records ++ [(asanlog, faultType)], beyond⟩

def atEnd (text : List UInt8) : Bool := endReports.any (·.1.isPrefixOf text)

/-- The number of ends of reports in a text. -/
def completed : List UInt8 → Nat
  | [] => 0
  | char :: rest => (if atEnd (char :: rest) then 1 else 0) + completed rest

/-- The reports that were read are the text up to the last end of a report, with one end in each. -/
structure Reported (text : List UInt8) (state : Collector) : Prop where
  count : state.records.length = completed text
  parts : state.records.flatMap (·.1) ++ state.asanlog = text
  each : ∀ record ∈ state.records, completed record.1 = 1
  rest : completed state.asanlog = 0
  inside : state.beyond = 0

theorem endReports_plain : ∀ entry ∈ endReports, 0 ∉ entry.1 ∧ entry.1 ≠ [] := by decide

theorem isPrefixOf_ended {part : List UInt8} (plain : 0 ∉ part) (text rest : List UInt8) :
    part.isPrefixOf (text ++ 0 :: rest) = part.isPrefixOf text := by
  induction text generalizing part with
  | nil =>
    cases part with
    | nil => rfl
    | cons char part => simp [isPrefixOf, (ne_of_mem_of_not_mem mem_cons_self plain)]
  | cons char text ih => cases part <;> simp_all [isPrefixOf]

theorem atEnd_ended (text rest : List UInt8) : atEnd (text ++ 0 :: rest) = atEnd text := by
  rw [Bool.eq_iff_iff, atEnd, atEnd, any_eq_true, any_eq_true]
  refine exists_congr fun entry => and_congr_right fun member => ?_
  rw [isPrefixOf_ended (endReports_plain entry member).1]

/-- No end of a report reaches over a zero. -/
theorem completed_ended (text rest : List UInt8) :
    completed (text ++ 0 :: rest) = completed text + completed rest := by
  induction text with
  | nil =>
    have plain : atEnd (0 :: rest) = false := atEnd_ended [] rest
    simp [completed, plain]
  | cons char text ih => rw [cons_append, completed, completed, ← cons_append, atEnd_ended, ih, Nat.add_assoc]

theorem completed_pos_iff (text : List UInt8) :
    0 < completed text ↔ endReports.any (fun entry => Text.contains text entry.1) := by
  induction text with
  | nil => decide
  | cons char text ih =>
    simp only [completed, Text.contains, any_eq_true, Bool.or_eq_true, and_or_left, exists_or] at ih ⊢
    rw [← ih, ← any_eq_true, ← atEnd]
    split <;> simp [*]

theorem strstr_ended (plain : 0 ∉ part) (written : part ≠ []) (clean : 0 ∉ text) (behind : List UInt8) :
    (strstr part (text ++ 0 :: behind)).1 = Text.contains text part ∧
      (strstr part (text ++ 0 :: behind)).2 ≤ text.length + 1 := by
  induction text with
  | nil =>
    have front : part.isPrefixOf (0 :: behind) = false := by
      rw [← nil_append (0 :: behind), isPrefixOf_ended plain]
      cases part <;> trivial
    simp [strstr, front, Text.contains, written]
  | cons char text ih =>
    obtain ⟨found, read⟩ := ih (fun member => clean (mem_cons_of_mem _ member))
    have front := isPrefixOf_ended plain (char :: text) behind
    rw [cons_append] at front
    rw [cons_append, strstr, front, Text.contains]
    split
    · rename_i begins
      have starts := isPrefixOf_iff_prefix.mp begins
      exact ⟨by simp [begins], by simpa using starts.length_le.trans (Nat.le_succ _)⟩
    · rename_i begins
      rw [if_neg (ne_of_mem_of_not_mem mem_cons_self clean)]
      exact ⟨by simp [begins, found], by simpa using read⟩

theorem faultTypeOf_ended (clean : 0 ∉ text) (behind : List UInt8)
    (plain : ∀ entry ∈ entries, 0 ∉ entry.1 ∧ entry.1 ≠ []) :
    (faultTypeOf (text ++ 0 :: behind) entries).1.isSome = entries.any (fun entry => Text.contains text entry.1) ∧
      (faultTypeOf (text ++ 0 :: behind) entries).2 ≤ text.length + 1 := by
  fun_induction faultTypeOf (text ++ 0 :: behind) entries with
  | case1 => simp
  | case2 part faultType rest found =>
    have here := plain _ mem_cons_self
    have search := strstr_ended here.1 here.2 clean behind
    exact ⟨by simp [← search.1, found], search.2⟩
  | case3 part faultType rest missing ih =>
    have here := plain _ mem_cons_self
    have search := strstr_ended here.1 here.2 clean behind
    have later := ih fun entry member => plain entry (mem_cons_of_mem _ member)
    exact ⟨by simp [← search.1, missing, later.1], max_le search.2 later.2⟩

/-- A text that is empty or ends with a zero. -/
def Ended (text : List UInt8) : Prop := text = [] ∨ ∃ front, text = front ++ [0]

theorem Ended.append (ended : Ended front) (text : List UInt8) :
    Ended (front ++ (text ++ [0])) ∧ completed (front ++ (text ++ [0])) = completed front + completed text := by
  refine ⟨.inr ⟨front ++ text, (append_assoc _ _ _).symm⟩, ?_⟩
  rcases ended with rfl | ⟨before, rfl⟩
  · rw [nil_append, completed_ended, completed, Nat.add_zero, Nat.zero_add]
  · rw [append_assoc, singleton_append, completed_ended, completed_ended, completed_ended]
    simp [completed]

theorem Reported.write (reported : Reported text state) (ended : Ended text) (pending : Ended state.asanlog)
    (clean : 0 ∉ front) (behind : List UInt8) (single : completed front ≤ 1) :
    Reported (text ++ (front ++ [0])) (writeSanitizerLog state ⟨front ++ [0], behind⟩) ∧
      Ended (writeSanitizerLog state ⟨front ++ [0], behind⟩).asanlog := by
  obtain ⟨found, read⟩ := faultTypeOf_ended clean behind endReports_plain
  have inside : max state.beyond ((faultTypeOf (front ++ 0 :: behind) endReports).2 - (front ++ [0]).length) = 0 := by
    rw [reported.inside, length_append, length_singleton]
    omega
  have grown := (ended.append front).2
  obtain ⟨kept, log⟩ := pending.append front
  rw [reported.rest] at log
  have any := completed_pos_iff front
  rw [← found] at any
  simp only [writeSanitizerLog, append_assoc, singleton_append, append_eq_nil_iff, cons_ne_nil, and_false, if_false]
  cases faultType : (faultTypeOf (front ++ 0 :: behind) endReports).1 with
  | none =>
    rw [faultType] at any
    have none : completed front = 0 := by simpa using any
    refine ⟨⟨?_, ?_, reported.each, ?_, inside⟩, kept⟩
    · rw [grown, none, reported.count, Nat.add_zero]
    · rw [← append_assoc, reported.parts]
    · rw [log, none]
  | some type =>
    rw [faultType] at any
    have one : completed front = 1 := by
      have some := any.mpr rfl
      omega
    refine ⟨⟨?_, ?_, ?_, rfl, inside⟩, .inl rfl⟩
    · rw [grown, one, length_append, reported.count, length_singleton]
    · rw [append_nil, flatMap_append, ← reported.parts]
      simp
    · intro record member
      rcases mem_append.mp member with before | new
      · exact reported.each record before
      · rw [mem_singleton.mp new, log, one]

theorem writeSanitizerLog_reported (chunks : List Chunk)
    (ended : ∀ chunk ∈ chunks, ∃ front, 0 ∉ front ∧ chunk.buf = front ++ [0])
    (single : ∀ chunk ∈ chunks, completed chunk.buf ≤ 1) :
    Reported (chunks.flatMap (·.buf)) (chunks.foldl writeSanitizerLog {}) := by
  suffices run : ∀ text state, Reported text state → Ended text → Ended state.asanlog →
      Reported (text ++ chunks.flatMap (·.buf)) (chunks.foldl writeSanitizerLog state) from
    run [] {} ⟨rfl, rfl, nofun, rfl, rfl⟩ (.inl rfl) (.inl rfl)
  induction chunks with
  | nil =>
    intro text state reported _ _
    simpa using reported
  | cons chunk chunks ih =>
    intro text state reported before pending
    rw [forall_mem_cons] at ended single
    obtain ⟨⟨front, clean, shape⟩, ended⟩ := ended
    obtain ⟨buf, behind⟩ := chunk
    subst shape
    have one : completed front ≤ 1 := by simpa [completed_ended, completed] using single.1
    obtain ⟨written, kept⟩ := reported.write before pending clean behind one
    rw [flatMap_cons, foldl_cons, ← append_assoc]
    exact ih ended single.2 _ _ written (before.append front).1 kept

theorem writeSanitizerLog_reported_two :
    Reported (ascii "End Asan report" ++ 0 :: (ascii "==1==" ++ [0]))
      ⟨ascii "==1==" ++ [0], [(ascii "End Asan report" ++ [0], .asan)], 0⟩ := by
  refine writeSanitizerLog_reported [⟨ascii "End Asan report" ++ [0], []⟩, ⟨ascii "==1==" ++ [0], []⟩] ?_ (by decide)
  simp only [forall_mem_cons]
  exact ⟨⟨_, by decide, rfl⟩, ⟨_, by decide, rfl⟩, nofun⟩

/-- A report that ends in two chunks, each with its terminator behind it. -/
theorem writeSanitizerLog_straddled :
    completed (ascii "End Asan report") = 1 ∧
    [⟨ascii "End Asan re", [0]⟩, ⟨ascii "port", [0]⟩].foldl writeSanitizerLog {} =
      ⟨ascii "End Asan report", [], 1⟩ := by
  decide +kernel

end Hiview.FaultLogger
