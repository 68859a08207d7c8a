import Hiview.EventStore.Sequence

/-! Sequence numbers over any run of starts, writes, events and crashes. The
invariant says what a start would read if the process died now, and the same
for every disk on the way through the writes that are still to be made. -/
namespace Hiview.EventStore
open Numeral SysEventSequenceManager

theorem addInt64_eq (added : addInt64 first second = some sum) :
    sum = first + second ∧ -9223372036854775808 ≤ sum ∧ sum ≤ 9223372036854775807 := by
  rw [addInt64] at added
  split at added
  · cases added
    rename_i inside
    exact ⟨rfl, inside⟩
  · cases added

theorem readSeq_save (low : -9223372036854775808 ≤ seq) (high : seq ≤ 9223372036854775807)
    (old : Option (List UInt8)) :
    readSeq (some (saveStringToFile old (toString seq))) = seq :=
  strtoll_toString low high _

theorem readSeq_bounds (file : Option (List UInt8)) :
    -9223372036854775808 ≤ readSeq file ∧ readSeq file ≤ 9223372036854775807 := by
  cases file with
  | none => decide
  | some text =>
    change -9223372036854775808 ≤ clamp _ ∧ clamp _ ≤ 9223372036854775807
    rw [clamp]
    omega

namespace SeqState

/-- A start that reads these files continues behind every number given. -/
structure CrashSafe (given : List Int) (disk : SeqDisk) : Prop where
  nonneg : 0 ≤ readSeq disk.main
  behind : given = [] ∨ (disk.main.isSome ∧ readSeq disk.main ≠ 0 ∧
    (readSeq disk.backup = readSeq disk.main ∨
      readSeq disk.main - readSeq disk.backup = seqIncrement) ∧
    ∀ seq ∈ given, seq < readSeq disk.main + seqIncrement)

variable {given : List Int} {disk : SeqDisk}

theorem CrashSafe.of_values (present : disk.main.isSome) (readMain : readSeq disk.main = main)
    (readBackup : readSeq disk.backup = backup) (positive : 0 < main)
    (near : given = [] ∨ backup = main ∨ main - backup = seqIncrement)
    (above : ∀ seq ∈ given, seq < main + seqIncrement) : CrashSafe given disk := by
  subst readMain readBackup
  refine ⟨Int.le_of_lt positive, ?_⟩
  rcases near with none | near
  · exact .inl none
  · exact .inr ⟨present, Int.ne_of_gt positive, near, above⟩

/-- The files are safe now and after each of the writes. -/
def Safe (given : List Int) : SeqDisk → List SeqWrite → Prop
  | disk, [] => CrashSafe given disk
  | disk, write :: rest => CrashSafe given disk ∧ Safe given (disk.writeEventSeqToFile write) rest

variable {writes : List SeqWrite}

theorem Safe.now (safe : Safe given disk writes) : CrashSafe given disk := by
  cases writes with
  | nil => exact safe
  | cons write rest => exact safe.1

structure Settled (disk : SeqDisk) (seq : Int) : Prop where
  present : disk.main.isSome
  main : readSeq disk.main = seq
  backup : readSeq disk.backup = seq
  positive : 0 < seq

/-- A process that has persisted `base`, or is about to, and has counted its
calls since. -/
structure Steady (given : List Int) (disk : SeqDisk) (process : SeqProcess) : Prop where
  safe : Safe given disk process.pending
  settled : ∃ base, Settled (disk.writeAll process.pending) base ∧
    process.manager.curSeq = base + (process.manager.setCount % 100 : Nat)
  above : ∀ seq ∈ given, seq < process.manager.curSeq

structure Inv (state : SeqState) : Prop where
  increasing : state.given.Pairwise (· < ·)
  safe : CrashSafe state.given state.disk
  steady : ∀ process, state.process = some process → Steady state.given state.disk process

/-- Writing a number to both files, the main file first: in between the backup
is behind by one increment. -/
theorem writeSeqToFile_safe (safe : CrashSafe given disk) (positive : 0 < seq) (high : seq ≤ 9223372036854775807)
    (behind : given = [] ∨ readSeq disk.backup = seq - seqIncrement)
    (above : ∀ old ∈ given, old < seq + seqIncrement) :
    Safe given disk (writeSeqToFile seq) ∧ Settled (disk.writeAll (writeSeqToFile seq)) seq := by
  have main : readSeq (some (saveStringToFile disk.main (toString seq))) = seq :=
    readSeq_save (by omega) high _
  have backup : readSeq (some (saveStringToFile disk.backup (toString seq))) = seq :=
    readSeq_save (by omega) high _
  have between : CrashSafe given (disk.writeEventSeqToFile ⟨.main, seq⟩) := by
    have kept : readSeq (disk.writeEventSeqToFile ⟨.main, seq⟩).backup = readSeq disk.backup := rfl
    refine .of_values rfl main kept positive ?_ above
    rcases behind with none | behind
    · exact .inl none
    · exact .inr (.inr (by omega))
  have after : CrashSafe given (disk.writeAll (writeSeqToFile seq)) :=
    .of_values rfl main backup positive (.inr (.inl rfl)) above
  exact ⟨⟨safe, between, after⟩, ⟨rfl, main, backup, positive⟩⟩

theorem restore_safe (env : StartEnv) (safe : CrashSafe given disk) :
    CrashSafe given (restore env disk) := by
  rw [restore]
  split
  · rename_i absent
    refine ⟨env.nonneg, .inl ?_⟩
    rcases safe.behind with none | ⟨present, -⟩
    · exact none
    · simp [Option.isNone_iff_eq_none.mp (Bool.and_eq_true_iff.mp absent).2] at present
  · exact safe

/-- What the constructor reads, and that its repairs are safe. -/
theorem readSeqFromFile_safe {localMax : Nat} (bounded : localMax ≤ 9223372036854775807) (safe : CrashSafe given disk) :
    Safe given disk (readSeqFromFile localMax disk).2 ∧ 0 ≤ (readSeqFromFile localMax disk).1 ∧
      (given = [] ∨ readSeq (disk.writeAll (readSeqFromFile localMax disk).2).backup =
        (readSeqFromFile localMax disk).1) ∧
      ∀ seq ∈ given, seq < (readSeqFromFile localMax disk).1 + seqIncrement := by
  have bounds := readSeq_bounds disk.main
  have nonneg := safe.nonneg
  have above : ∀ seq ∈ given, seq < readSeq disk.main + seqIncrement := by
    rcases safe.behind with none | ⟨-, -, -, above⟩
    · rw [none]
      nofun
    · exact above
  simp only [readSeqFromFile]
  by_cases equal : readSeq disk.main = readSeq disk.backup ∧
      (disk.main.isNone ∨ readSeq disk.main ≠ 0)
  · rw [if_pos equal]
    exact ⟨safe, nonneg, .inr equal.1.symm, above⟩
  · rw [if_neg equal]
    by_cases valid : readSeq disk.main - readSeq disk.backup = seqIncrement
    · rw [if_pos valid]
      have backup : readSeq (disk.writeEventSeqToFile ⟨.backup, readSeq disk.main⟩).backup =
          readSeq disk.main := readSeq_save bounds.1 bounds.2 _
      refine ⟨⟨safe, nonneg, ?_⟩, nonneg, .inr backup, above⟩
      rcases safe.behind with none | ⟨present, nonzero, -, -⟩
      · exact .inl none
      · exact .inr ⟨present, nonzero, .inl backup, above⟩
    · rw [if_neg valid]
      have first : given = [] := by
        rcases safe.behind with none | ⟨-, nonzero, same | near, -⟩
        · exact none
        · exact absurd ⟨same.symm, .inr nonzero⟩ equal
        · exact absurd near valid
      have range : -9223372036854775808 ≤ (localMax : Int) ∧
          (localMax : Int) ≤ 9223372036854775807 := by omega
      have main : readSeq (disk.writeEventSeqToFile ⟨.main, localMax⟩).main = localMax :=
        readSeq_save range.1 range.2 _
      have written : 0 ≤ readSeq (disk.writeEventSeqToFile ⟨.main, localMax⟩).main := by
        omega
      refine ⟨⟨safe, ⟨written, .inl first⟩, ⟨written, .inl first⟩⟩, by omega, .inl first, ?_⟩
      rw [first]
      nofun

theorem Safe.append (safe : Safe given disk writes) (following : Safe given (disk.writeAll writes) more) :
    Safe given disk (writes ++ more) := by
  induction writes generalizing disk with
  | nil => exact following
  | cons write rest ih => exact ⟨safe.1, ih safe.2 following⟩

theorem Safe.last (safe : Safe given disk writes) : CrashSafe given (disk.writeAll writes) := by
  induction writes generalizing disk with
  | nil => exact safe
  | cons write rest ih => exact ih safe.2

theorem new_steady (safe : CrashSafe given disk) (started : new env disk = some (manager, writes)) :
    Steady given disk ⟨manager, writes⟩ := by
  obtain ⟨repaired, nonneg, behind, above⟩ := readSeqFromFile_safe env.bounded safe
  obtain ⟨startSeq, added, same⟩ := Option.map_eq_some_iff.mp started
  obtain ⟨sum, -, high⟩ := addInt64_eq added
  have increment : seqIncrement = 100 := rfl
  cases same
  have later : ∀ old ∈ given, old < startSeq := by
    intro old member
    have bound := above old member
    omega
  obtain ⟨written, settled⟩ : Safe given _ (writeSeqToFile startSeq) ∧ _ :=
    writeSeqToFile_safe repaired.last (by omega) high
      (behind.imp_right fun read => by omega)
      (fun old member => by have bound := later old member; omega)
  refine ⟨repaired.append written, ⟨startSeq, ?_, ?_⟩, ?_⟩
  · rw [SeqDisk.writeAll, List.foldl_append]
    exact settled
  · exact (Int.add_zero _).symm
  · exact later

/-- An event gets a number below what a start after a crash would continue with,
and the hundredth call persists just that number. -/
theorem onEvent_inv (inv : Inv state) (running : state.process = some ⟨manager, []⟩)
    (stored : state.onEvent manager = some next) : Inv next := by
  obtain ⟨safe, ⟨base, settled, position⟩, above⟩ := inv.steady _ running
  obtain ⟨seq, added, same⟩ := Option.map_eq_some_iff.mp stored
  obtain ⟨sum, -, high⟩ := addInt64_eq added
  have increment : seqIncrement = 100 := rfl
  have present := settled.present
  have main : readSeq state.disk.main = base := settled.main
  have backup : readSeq state.disk.backup = base := settled.backup
  have positive := settled.positive
  simp only [getSequence] at *
  have extended : ∀ old ∈ state.given ++ [manager.curSeq], old < seq := by
    intro old member
    rcases List.mem_append.mp member with earlier | last
    · have bound := above old earlier
      omega
    · rw [List.mem_singleton.mp last]
      omega
  have crash : CrashSafe (state.given ++ [manager.curSeq]) state.disk :=
    .of_values present main backup positive (.inr (.inl rfl))
      (fun old member => by have bound := extended old member; omega)
  subst same
  refine ⟨?_, crash, ?_⟩
  · rw [List.pairwise_append]
    exact ⟨inv.increasing, List.pairwise_singleton _ _, fun old member last single => by
      rw [List.mem_singleton.mp single]
      exact above old member⟩
  · intro process same
    cases same
    simp only [setSequence]
    by_cases due : (manager.setCount + 1) % 100 = 0
    · obtain ⟨written, persisted⟩ : Safe _ state.disk (writeSeqToFile seq) ∧ _ :=
        writeSeqToFile_safe crash (by omega) high (.inr (by omega))
          (fun old member => by have bound := extended old member; omega)
      simp only [if_pos due]
      exact ⟨written, ⟨seq, persisted, by simp only [due]; omega⟩, extended⟩
    · simp only [if_neg due]
      exact ⟨crash, ⟨base, settled, by simp only; omega⟩, extended⟩

theorem step_inv (inv : Inv state) (stepped : state.step label = some next) : Inv next := by
  cases label with
  | start env =>
    simp only [step] at stepped
    split at stepped
    · cases stepped
    · obtain ⟨started, new, rfl⟩ := Option.map_eq_some_iff.mp stepped
      have safe := restore_safe env inv.safe
      refine ⟨inv.increasing, safe, fun process same => ?_⟩
      cases same
      exact new_steady safe new
  | write =>
    simp only [step] at stepped
    split at stepped
    · rename_i manager write pending running
      cases stepped
      obtain ⟨⟨-, safe⟩, settled, above⟩ := inv.steady _ running
      refine ⟨inv.increasing, safe.now, fun process same => ?_⟩
      cases same
      exact ⟨safe, settled, above⟩
    · cases stepped
  | event =>
    simp only [step] at stepped
    split at stepped
    · rename_i manager running
      exact onEvent_inv inv running stepped
    · cases stepped
  | crash =>
    cases stepped
    exact ⟨inv.increasing, inv.safe, nofun⟩

/-- In every run, with crashes between any two writes, the numbers given to
events increase. -/
theorem given_increasing {disk : SeqDisk} {labels : List SeqLabel} {state : SeqState}
    (nonneg : 0 ≤ readSeq disk.main)
    (ran : Transition.run step (initial disk) labels = some state) :
    state.given.Pairwise (· < ·) := by
  have start : Inv (initial disk) := ⟨.nil, ⟨nonneg, .inl rfl⟩, nofun⟩
  exact (Transition.run_invariant step_inv start ran).increasing

/-- A start that finds neither a backup to restore nor stored events. -/
def plainStart : SeqLabel := .start ⟨false, ⟨none, none⟩, 0, by decide, by decide⟩

/-- A first start that dies between its two writes, and a second one that gives
numbers to two events. -/
theorem given_increasing_interrupted : ∃ state,
    Transition.run step (initial ⟨none, none⟩) [plainStart, .write, .crash,
      plainStart, .write, .write, .write, .event, .event] = some state ∧
    state.given = [200, 201] ∧ state.given.Pairwise (· < ·) := by
  have ran : (Transition.run step (initial ⟨none, none⟩) [plainStart, .write, .crash,
      plainStart, .write, .write, .write, .event, .event]).map given = some [200, 201] := by
    decide +kernel
  obtain ⟨state, ran, numbers⟩ := Option.map_eq_some_iff.mp ran
  exact ⟨state, ran, numbers, given_increasing (by decide) ran⟩

end SeqState
end Hiview.EventStore
