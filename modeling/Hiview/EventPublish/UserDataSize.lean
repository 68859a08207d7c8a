import Hiview.Lib.Transition
import Mathlib.Data.List.TakeWhile

/-! The limiter of `UserDataSizeReporter`: a table with the times of the last reports, of which
the oldest are removed once they are a day old, and which takes no more than 128 records. -/
namespace Hiview.EventPublish.UserDataSizeReporter
open List Transition

def reportLimitMs : Nat := 86400000
def recordMaxCnt : Nat := 128

abbrev Record := List UInt8 × Nat
abbrev Report := (List UInt8 × List UInt8) × Nat

/-- One call of `ReportUserDataSize` for a path holder and an event name, with the clock as the
call begins, when it reports and when it notes the report. -/
structure ReportCall where
  pair : List UInt8 × List UInt8
  now : Nat
  reported : Nat
  recorded : Nat

def pathLimmitKey (pair : List UInt8 × List UInt8) : List UInt8 := pair.1 ++ [95] ++ pair.2

/-- The sum is taken in `uint64_t`. -/
def overTime (now : Nat) (record : Record) : Bool :=
  !decide ((record.2 + reportLimitMs) % 18446744073709551616 > now)

def clearOverTimeRecord (records : List Record) (now : Nat) : List Record :=
  match records with
  | [] => []
  | earliest :: _ => if earliest.2 > now then [] else records.dropWhile (overTime now)

def shouldReport (records : List Record) (key : List UInt8) : Bool := (records.find? (·.1 == key)).isNone

/-- The table, with all reports so far and the time. -/
structure Reporting where
  records : List Record := []
  reports : List Report := []
  clock : Nat := 0

section
variable (state : Reporting)

variable (call : ReportCall)

def reportUserDataSize : Reporting :=
  let records := clearOverTimeRecord state.records call.now
  let key := pathLimmitKey call.pair
  if !shouldReport records key then { state with records, clock := call.now }
  else
    { records := if records.length < recordMaxCnt then records ++ [(key, call.recorded)] else records
      reports := state.reports ++ [(call.pair, call.reported)]
      clock := call.recorded }

/-- The clock does not go back. -/
def step : Option Reporting :=
  if state.clock ≤ call.now ∧ call.now ≤ call.reported ∧ call.reported ≤ call.recorded then
    some (reportUserDataSize state call)
  else none

/-- A report finds room in the table, and its day ends before the clock wraps around. -/
def Guard : Prop :=
  (clearOverTimeRecord state.records call.now).length < recordMaxCnt ∧
    call.recorded + reportLimitMs < 18446744073709551616

instance : Decidable (Guard state call) := inferInstanceAs (Decidable (_ ∧ _))

def Bounded : Prop := state.records.length ≤ recordMaxCnt

/-- Two reports of one pair are a day apart. -/
def OnceADay (reports : List Report) : Prop :=
  reports.Pairwise fun earlier later => earlier.1 = later.1 → earlier.2 + reportLimitMs ≤ later.2

/-- A report that is a day old or still has its record. -/
def Noted (now : Nat) (records : List Record) (report : Report) : Prop :=
  report.2 + reportLimitMs ≤ now ∨ ∃ record ∈ records, record.1 = pathLimmitKey report.1 ∧ report.2 ≤ record.2

structure Kept : Prop where
  spaced : OnceADay state.reports
  past : ∀ record ∈ state.records, record.2 ≤ state.clock ∧ record.2 + reportLimitMs < 18446744073709551616
  noted : ∀ report ∈ state.reports, Noted state.clock state.records report

end

variable {next : Reporting}

theorem clearOverTimeRecord_suffix (records : List Record) (now : Nat) :
    clearOverTimeRecord records now <:+ records := by
  unfold clearOverTimeRecord
  split
  · exact suffix_refl _
  · split
    · exact nil_suffix
    · exact dropWhile_suffix _

theorem step_bounded (bounded : Bounded state) (stepped : step state call = some next) : Bounded next := by
  have cleared := Nat.le_trans (clearOverTimeRecord_suffix state.records call.now).length_le bounded
  rw [step] at stepped
  split at stepped
  · cases stepped
    dsimp only [reportUserDataSize, Bounded]
    split
    · exact cleared
    · split
      · rwa [length_append]
      · exact cleared
  · cases stepped

/-- What is removed is a day old. -/
theorem Kept.cleared (kept : Kept state) (later : state.clock ≤ now) (member : report ∈ state.reports) :
    Noted now (clearOverTimeRecord state.records now) report := by
  rcases kept.noted report member with old | ⟨record, held, same, noted⟩
  · exact .inl (Nat.le_trans old later)
  · unfold clearOverTimeRecord
    split
    · case h_1 empty =>
      rw [empty] at held
      cases held
    · case h_2 earliest rest first =>
      have before := (kept.past earliest (first ▸ mem_cons_self)).1
      rw [if_neg (by omega)]
      rw [← takeWhile_append_dropWhile (p := overTime now) (l := state.records), mem_append] at held
      rcases held with removed | stays
      · have small := (kept.past record (takeWhile_subset _ removed)).2
        have old : (record.2 + reportLimitMs) % 18446744073709551616 ≤ now := by
          simpa [overTime] using mem_takeWhile_imp removed
        exact .inl (by omega)
      · exact .inr ⟨record, stays, same, noted⟩

theorem step_kept (kept : Kept state) (guard : Guard state call) (stepped : step state call = some next) :
    Kept next := by
  rw [step] at stepped
  split at stepped
  · case isTrue times =>
    have noted : ∀ report ∈ state.reports, Noted call.now _ report := fun _ => kept.cleared times.1
    have past := fun record member =>
      kept.past record ((clearOverTimeRecord_suffix state.records call.now).subset member)
    cases stepped
    dsimp only [reportUserDataSize]
    split
    · exact ⟨kept.spaced,
      fun record member => ⟨Nat.le_trans (past record member).1 times.1, (past record member).2⟩, noted⟩
    · case isFalse should =>
      rw [Bool.not_eq_true, Bool.not_eq_false', shouldReport, Option.isNone_iff_eq_none, find?_eq_none] at should
      rw [if_pos guard.1]
      refine ⟨pairwise_append.mpr ⟨kept.spaced, pairwise_singleton _ _, ?_⟩, ?_, ?_⟩
      · intro earlier member report new same
        obtain rfl := mem_singleton.mp new
        rcases noted earlier member with old | ⟨record, held, key, -⟩
        · exact Nat.le_trans old times.2.1
        · exact absurd (key.trans (congrArg pathLimmitKey same)) (by simpa using should record held)
      · refine forall_mem_append.mpr ⟨fun record held => ?_,
          forall_mem_singleton.mpr ⟨Nat.le_refl _, guard.2⟩⟩
        have := past record held
        exact ⟨by dsimp only; omega, this.2⟩
      · refine forall_mem_append.mpr ⟨fun report earlier => ?_, forall_mem_singleton.mpr (.inr ?_)⟩
        · rcases noted report earlier with old | ⟨record, held, key, before⟩
          · exact .inl (by dsimp only; omega)
          · exact .inr ⟨record, mem_append_left _ held, key, before⟩
        · exact ⟨_, mem_append_right _ (mem_singleton_self _), rfl, times.2.2⟩
  · cases stepped

/-- The table keeps its limit; and while it has room, each pair is reported once a day. -/
theorem reports_onceADay (calls : List ReportCall) (state : Reporting) (ran : run step {} calls = some state) :
    Bounded state ∧ (Guarded step Guard {} calls → OnceADay state.reports) := by
  refine ⟨run_invariant step_bounded (Nat.zero_le _) ran, fun guarded => ?_⟩
  have start : Kept {} := ⟨.nil, by simp, by simp⟩
  exact (run_guarded step_kept start guarded ran).spaced

def callAt (holder : UInt8) (time : Nat) : ReportCall := ⟨([holder], []), time, time, time⟩

theorem reports_onceADay_repeated :
    ∃ state, run step {} [callAt 1 0, callAt 1 5, callAt 1 86400000] = some state ∧
      state.reports = [(([1], []), 0), (([1], []), 86400000)] ∧ OnceADay state.reports :=
  ⟨_, rfl, by decide, (reports_onceADay [callAt 1 0, callAt 1 5, callAt 1 86400000] _ rfl).2 (by decide)⟩

/-- A table full of the records of 128 other pairs. -/
def crowded : List ReportCall :=
  (List.range 128).map (fun holder => callAt (UInt8.ofNat holder) 0) ++ [callAt 200 1, callAt 200 2]

theorem report_repeated : ∃ state, run step {} crowded = some state ∧
    state.reports.drop 128 = [(([200], []), 1), (([200], []), 2)] ∧ ¬ OnceADay state.reports := by
  have repeated : (run step {} crowded).map (·.reports.drop 128) = some [(([200], []), 1), (([200], []), 2)] := by
    decide +kernel
  obtain ⟨state, ran, last⟩ := Option.map_eq_some_iff.mp repeated
  refine ⟨state, ran, last, fun spaced => ?_⟩
  have pair := spaced.sublist (drop_sublist 128 _)
  rw [last, pairwise_pair] at pair
  exact absurd (pair rfl) (by decide)

end Hiview.EventPublish.UserDataSizeReporter
