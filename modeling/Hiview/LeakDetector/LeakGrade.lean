
/-! The samples of a process that is watched for a memory leak. The leak is judged by the records
of all samples, but graded by the greatest PSS alone. -/
namespace Hiview.LeakDetector
open List

structure NativeLeakInfo where
  memoryLimit : UInt64
  topMemory : UInt64 := 0
  sampleMemory : List UInt64 := []

structure Sample where
  rss : UInt64
  /-- the sum of `Pss` and `SwapPss`, if `smaps_rollup` can be opened -/
  pss : Option UInt64 := none

inductive LeakGrade where
  | info
  | warning
  | error
  deriving DecidableEq

/-- The number `floor(diff * 1.0 / memoryLimit * 100)` of type `double`. -/
structure Ratio where
  hundredths : UInt64 → UInt64 → Nat
  zero : ∀ limit, hundredths 0 limit = 0

section Judge
variable (ratio : Ratio) (info : NativeLeakInfo)

def collectUserBaseInfo (sample : Sample) : NativeLeakInfo :=
  match sample.pss with
  | none => { info with sampleMemory := info.sampleMemory ++ [sample.rss] }
  | some pss =>
    { info with
      sampleMemory := info.sampleMemory ++ [sample.rss, pss]
      topMemory := if info.topMemory < pss then pss else info.topMemory }

/-- The times of the records are added and removed together with them. -/
def removeData : NativeLeakInfo :=
  if info.sampleMemory.length < 30 then info else { info with sampleMemory := info.sampleMemory.drop 5 }

def collectBaseInfo (sample : Sample) : NativeLeakInfo :=
  removeData (collectUserBaseInfo info sample)

/-- What is known of a process with this limit after its samples. -/
def sampled (limit : UInt64) (samples : List Sample) : NativeLeakInfo :=
  samples.foldl collectBaseInfo { memoryLimit := limit }

def isMemoryLeak : Bool :=
  4194304 ≤ info.topMemory || 8 ≤ info.sampleMemory.length &&
    (info.sampleMemory.drop (info.sampleMemory.length - 8)).all (info.memoryLimit ≤ ·)

def diff : UInt64 := info.topMemory - info.memoryLimit

def judgeSmallMemoryLeakGrade : LeakGrade :=
  if diff info ≤ 6144 then .info else if diff info ≤ 10240 then .warning else .error

def judgeMemoryLeakGradeByRatio : LeakGrade :=
  if info.memoryLimit = 0 then .error
  else if ratio.hundredths (diff info) info.memoryLimit ≤ 30 ∧ diff info < 51200 then .info
  else if ratio.hundredths (diff info) info.memoryLimit ≤ 50 ∧ diff info < 102400 then .warning
  else .error

def judgeMemoryLeakGrade : LeakGrade :=
  if 20480 < info.memoryLimit then judgeMemoryLeakGradeByRatio ratio info else judgeSmallMemoryLeakGrade info

/-- The grade that the judging state sets, if it finds a leak. -/
def stateProcess : Option LeakGrade :=
  if isMemoryLeak info then some (judgeMemoryLeakGrade ratio info) else none

end Judge

/-- Some PSS was read that is not below the limit. -/
def Reached (limit : UInt64) (samples : List Sample) : Prop :=
  limit = 0 ∨ ∃ sample ∈ samples, ∃ pss, sample.pss = some pss ∧ limit ≤ pss

theorem removeData_memory (info : NativeLeakInfo) :
    (removeData info).memoryLimit = info.memoryLimit ∧ (removeData info).topMemory = info.topMemory := by
  rw [removeData]
  split <;> exact ⟨rfl, rfl⟩

theorem collectBaseInfo_memory (info : NativeLeakInfo) (sample : Sample) :
    (collectBaseInfo info sample).memoryLimit = info.memoryLimit ∧
    (collectBaseInfo info sample).topMemory =
      if info.topMemory < sample.pss.getD 0 then sample.pss.getD 0 else info.topMemory := by
  simp only [collectBaseInfo, removeData_memory, collectUserBaseInfo]
  cases sample.pss <;> simp

theorem foldl_memoryLimit (samples : List Sample) (info : NativeLeakInfo) :
    (samples.foldl collectBaseInfo info).memoryLimit = info.memoryLimit := by
  induction samples generalizing info with
  | nil => rfl
  | cons sample samples ih => rw [foldl_cons, ih, (collectBaseInfo_memory info sample).1]

/-- The top memory is the greatest PSS. -/
theorem le_topMemory_iff (samples : List Sample) (info : NativeLeakInfo) :
    bound ≤ (samples.foldl collectBaseInfo info).topMemory ↔
      bound ≤ info.topMemory ∨ ∃ sample ∈ samples, ∃ pss, sample.pss = some pss ∧ bound ≤ pss := by
  induction samples generalizing info with
  | nil => simp
  | cons sample samples ih =>
    have top := (collectBaseInfo_memory info sample).2
    simp only [foldl_cons, ih, mem_cons, exists_eq_or_imp, ← or_assoc]
    refine or_congr_left ?_
    cases shown : sample.pss <;> grind

theorem reached_iff : Reached limit samples ↔ limit ≤ (sampled limit samples).topMemory := by
  rw [sampled, le_topMemory_iff, Reached]
  refine or_congr_left ⟨fun zero => by simp [zero], fun none => ?_⟩
  exact UInt64.le_antisymm none (UInt64.zero_le)

/-- The excess is the difference of the numbers exactly when nothing wraps around. -/
theorem diff_iff : (diff (sampled limit samples)).toNat = (sampled limit samples).topMemory.toNat - limit.toNat ↔
    Reached limit samples := by
  rw [reached_iff, LeakDetector.diff, sampled, foldl_memoryLimit, UInt64.le_iff_toNat_le, UInt64.toNat_sub]
  dsimp only
  have small := limit.toNat_lt
  have bound := (samples.foldl collectBaseInfo { memoryLimit := limit }).topMemory.toNat_lt
  omega

theorem judgeSmallMemoryLeakGrade_mono (more : diff info ≤ diff other) :
    (judgeSmallMemoryLeakGrade info).ctorIdx ≤ (judgeSmallMemoryLeakGrade other).ctorIdx := by
  simp only [judgeSmallMemoryLeakGrade]
  grind

theorem judgeMemoryLeakGrade_zero (ratio : Ratio) (zero : diff info = 0) : judgeMemoryLeakGrade ratio info = .info := by
  rw [judgeMemoryLeakGrade]
  split
  · rename_i large
    have limited : info.memoryLimit ≠ 0 := fun none => absurd (none ▸ large) (by decide)
    rw [judgeMemoryLeakGradeByRatio, if_neg limited, if_pos (by simp [zero, ratio.zero])]
  · rw [judgeSmallMemoryLeakGrade, zero, if_pos (by decide)]

theorem grade_of_stateProcess {grade : LeakGrade} (judged : stateProcess ratio info = some grade) :
    grade = judgeMemoryLeakGrade ratio info := by
  rw [stateProcess] at judged
  split at judged <;> cases judged
  rfl

/-- A leak is graded by the true excess, without an error at or below the limit and, for a small limit,
monotonically, exactly if the limit was reached. -/
theorem stateProcess_reached {grade : LeakGrade} (ratio : Ratio)
    (judged : stateProcess ratio (sampled limit samples) = some grade) :
    ((diff (sampled limit samples)).toNat = (sampled limit samples).topMemory.toNat - limit.toNat ∧
      (limit ≤ 20480 → ∀ more higher, Reached limit more → stateProcess ratio (sampled limit more) = some higher →
        (sampled limit samples).topMemory ≤ (sampled limit more).topMemory → grade.ctorIdx ≤ higher.ctorIdx) ∧
      ((sampled limit samples).topMemory ≤ limit → grade ≠ .error)) ↔ Reached limit samples := by
  refine ⟨fun graded => diff_iff.mp graded.1, fun reached => ?_⟩
  have excess := diff_iff.mpr reached
  rw [grade_of_stateProcess judged]
  refine ⟨excess, ?_, ?_⟩
  · intro small more higher risen raised order
    have limits : ∀ samples, ¬ 20480 < (sampled limit samples).memoryLimit := fun samples => by
      rw [sampled, foldl_memoryLimit]
      exact UInt64.not_lt.mpr small
    rw [grade_of_stateProcess raised, judgeMemoryLeakGrade, judgeMemoryLeakGrade, if_neg (limits _), if_neg (limits _)]
    apply judgeSmallMemoryLeakGrade_mono
    rw [UInt64.le_iff_toNat_le, excess, diff_iff.mpr risen]
    exact Nat.sub_le_sub_right (UInt64.le_iff_toNat_le.mp order) _
  · intro within
    rw [Nat.sub_eq_zero_of_le (UInt64.le_iff_toNat_le.mp within)] at excess
    rw [judgeMemoryLeakGrade_zero ratio (UInt64.toNat_inj.mp excess)]
    nofun

theorem stateProcess_reached_one :
    stateProcess ⟨fun _ _ => 0, fun _ => rfl⟩ (sampled 1000 (replicate 4 ⟨2000, some 1000⟩)) = some .info ∧
    LeakGrade.info ≠ .error :=
  have reached : Reached 1000 (replicate 4 ⟨2000, some 1000⟩) := .inr ⟨_, mem_cons_self, _, rfl, by decide⟩
  have judged := by decide +kernel
  ⟨judged, ((stateProcess_reached _ judged).mpr reached).2.2 (by decide)⟩

/-- No PSS was ever read; the limit 1000 is taken from a top memory of zero. -/
theorem stateProcess_unread :
    stateProcess ⟨fun _ _ => 0, fun _ => rfl⟩ (sampled 1000 (replicate 8 ⟨2000, none⟩)) = some .error ∧
    (sampled 1000 (replicate 8 ⟨2000, none⟩)).topMemory = 0 ∧
    (diff (sampled 1000 (replicate 8 ⟨2000, none⟩))).toNat = 18446744073709550616 := by
  decide +kernel

end Hiview.LeakDetector
