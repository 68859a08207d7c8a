import Hiview.Service.FileCopy
import Mathlib.Algebra.Ring.Nat

/-! When a copy that reports success holds the bytes of the source, when a caller that
removes the source leaves a complete copy behind, and when the copy comes to an end. -/
namespace Hiview.Service
open FileContent Bool FileUtil
variable {source previous content : List UInt8} {size offset : Nat}

/-- The answers of `sendfile` get through what remains. -/
def transfersAll (zeroEnds : Bool) : Nat → List SendfileRet → Bool
  | remaining, answers =>
    if remaining = 0 then true
    else
      match answers with
      | [] => false
      | .error :: _ => false
      | .sent bytes :: rest =>
        if zeroEnds && bytes == 0 then false else transfersAll zeroEnds (remaining - min bytes remaining) rest

theorem transfersAll_zero (zeroEnds : Bool) (answers : List SendfileRet) : transfersAll zeroEnds 0 answers = true := by
  unfold transfersAll
  rfl

theorem part_length (offset : Nat) (inside : size ≤ source.length) (bytes : Nat) :
    ((source.drop offset).take (min bytes (size - offset))).length = min bytes (size - offset) := by
  rw [List.length_take, List.length_drop]
  omega

namespace HiviewService

theorem copyLoop_spec (inside : size ≤ source.length) (answers : List SendfileRet)
    (copied : Copied source previous offset content) (before : offset ≤ size) :
    ((copyLoop source size answers offset content).ret = some 0 ↔ transfersAll false (size - offset) answers) ∧
      ((copyLoop source size answers offset content).ret = some 0 →
        ∃ final, (copyLoop source size answers offset content).dest = some final ∧
          Copied source previous size final) := by
  fun_induction copyLoop source size answers offset content with
  | case1 answers offset content complete =>
    obtain rfl := Nat.le_antisymm before complete
    rw [Nat.sub_self, transfersAll_zero]
    exact ⟨by simp, fun _ => ⟨content, rfl, copied⟩⟩
  | case2 offset content short =>
    unfold transfersAll
    rw [if_neg (by omega)]
    exact ⟨by simp, by simp⟩
  | case3 offset content short rest =>
    unfold transfersAll
    rw [if_neg (by omega)]
    exact ⟨by simp [errDefault], by simp [errDefault]⟩
  | case4 offset content short bytes rest part next beyond =>
    have length : part.length = _ := part_length offset inside bytes
    omega
  | case5 offset content short bytes rest part next within ih =>
    have length : part.length = min bytes (size - offset) := part_length offset inside bytes
    unfold transfersAll
    simp only [Bool.false_and, Bool.false_eq_true, if_false, if_neg (show ¬ size - offset = 0 by omega)]
    rw [Nat.sub_sub, ← length]
    exact ih (length ▸ copied.next (min bytes (size - offset))) (by omega)

/-- Every system call of a copy does its part. -/
def completes (input : CopyInput) : Bool :=
  input.openSource && input.stat && input.openDest && transfersAll false input.source.length input.sendfile

theorem copyFile_success_iff (input : CopyInput) : (copyFile input).ret = some 0 ↔ completes input := by
  unfold copyFile completes
  cases input.openSource <;> cases input.stat <;> cases input.openDest <;> simp [errDefault]
  exact (copyLoop_spec (Nat.le_refl _) input.sendfile (copied_zero _ _) (Nat.zero_le _)).1

theorem copyFile_dest (success : (copyFile input).ret = some 0) :
    (copyFile input).dest = some (input.source ++ (input.dest.getD []).drop input.source.length) := by
  have complete := (copyFile_success_iff input).mp success
  simp only [completes, and_eq_true] at complete
  obtain ⟨⟨⟨openSource, stat⟩, openDest⟩, transferred⟩ := complete
  have loop := copyLoop_spec (Nat.le_refl _) input.sendfile (copied_zero input.source (input.dest.getD []))
    (Nat.zero_le _)
  obtain ⟨final, dest, copied⟩ := loop.2 (loop.1.mpr transferred)
  simp [copyFile, openSource, stat, openDest]
  rw [dest, copied.all (Nat.le_refl _)]

theorem move_removes_iff (input : CopyInput) :
    (move input).source = false ↔ (copyFile input).ret = some 0 ∧ input.removeSource := by
  unfold move
  by_cases success : (copyFile input).ret = some 0 <;> cases input.removeSource <;> simp [success]

theorem move_dest (removed : (move input).source = false) :
    (move input).dest = (copyFile input).dest := by
  obtain ⟨success, removeSource⟩ := (move_removes_iff input).mp removed
  simp [move, success, removeSource]

end HiviewService

namespace FileUtil

theorem fastLoop_done (answers : List SendfileRet) : fastLoop source size answers size content =
    (some size, content) := by
  unfold fastLoop
  exact if_pos (Nat.le_refl _)

theorem fastLoop_spec (inside : size ≤ source.length) (answers : List SendfileRet)
    (copied : Copied source previous offset content) (before : offset ≤ size) :
    ((fastLoop source size answers offset content).1 = some size ↔ transfersAll true (size - offset) answers) ∧
      ((fastLoop source size answers offset content).1 = some size →
        Copied source previous size (fastLoop source size answers offset content).2) := by
  fun_induction fastLoop source size answers offset content with
  | case1 answers offset content complete =>
    obtain rfl := Nat.le_antisymm before complete
    rw [Nat.sub_self, transfersAll_zero]
    exact ⟨by simp, fun _ => copied⟩
  | case2 offset content short =>
    unfold transfersAll
    rw [if_neg (by omega)]
    exact ⟨by simp, by simp⟩
  | case3 offset content short rest =>
    have other : offset ≠ size := by omega
    unfold transfersAll
    rw [if_neg (by omega)]
    exact ⟨by simp [other], by simp [other]⟩
  | case4 offset content short bytes rest part nothing =>
    have length : part.length = min bytes (size - offset) := part_length offset inside bytes
    have other : offset ≠ size := by omega
    have zero : bytes = 0 := by omega
    unfold transfersAll
    rw [if_neg (by omega)]
    exact ⟨by simp [other, zero], by simp [other]⟩
  | case5 offset content short bytes rest part something ih =>
    have length : part.length = min bytes (size - offset) := part_length offset inside bytes
    unfold transfersAll
    simp only [Bool.true_and, beq_iff_eq, if_neg (show ¬ bytes = 0 by omega),
      if_neg (show ¬ size - offset = 0 by omega)]
    rw [Nat.sub_sub, ← length]
    exact ih (length ▸ copied.next (min bytes (size - offset))) (by omega)

/-- A source that cannot be asked for its size counts as empty. -/
def fastCompletes (input : CopyInput) : Bool :=
  input.openSource && input.openDest && (!input.stat || transfersAll true input.source.length input.sendfile)

variable {input : CopyInput}

theorem copyFileFast_opened (openSource : input.openSource = true) (openDest : input.openDest = true)
    (stat : input.stat = true) :
    (copyFileFast input 0).ret = some 0 ↔ transfersAll true input.source.length input.sendfile := by
  rw [← Nat.sub_zero input.source.length,
    ← (fastLoop_spec (Nat.le_refl _) input.sendfile (copied_zero input.source (input.dest.getD [])) (Nat.zero_le _)).1]
  simp [copyFileFast, openSource, openDest, stat]
  generalize fastLoop input.source input.source.length input.sendfile 0 (input.dest.getD []) = loop
  obtain ⟨_ | copyTotalLen, content⟩ := loop <;> simp

theorem copyFileFast_unsized (openSource : input.openSource = true) (openDest : input.openDest = true)
    (stat : input.stat = false) : copyFileFast input 0 = ⟨some 0, some (input.dest.getD [])⟩ := by
  simp [copyFileFast, openSource, openDest, stat, fastLoop_done]

theorem copyFileFast_success_iff (input : CopyInput) : (copyFileFast input 0).ret = some 0 ↔ fastCompletes input := by
  cases openSource : input.openSource with
  | false => simp [copyFileFast, fastCompletes, openSource]
  | true =>
    cases openDest : input.openDest with
    | false => simp [copyFileFast, fastCompletes, openSource, openDest]
    | true =>
      cases stat : input.stat with
      | false => simp [copyFileFast_unsized openSource openDest stat, fastCompletes, openSource, openDest, stat]
      | true => simp [copyFileFast_opened openSource openDest stat, fastCompletes, openSource, openDest, stat]

theorem copyFileFast_dest (success : (copyFileFast input 0).ret = some 0) :
    (copyFileFast input 0).dest = some
      (if input.stat then input.source ++ (input.dest.getD []).drop input.source.length else input.dest.getD []) := by
  have complete := (copyFileFast_success_iff input).mp success
  simp only [fastCompletes, Bool.and_eq_true] at complete
  obtain ⟨⟨openSource, openDest⟩, transferred⟩ := complete
  cases stat : input.stat with
  | false => simp [copyFileFast_unsized openSource openDest stat]
  | true =>
    have loop := fastLoop_spec (Nat.le_refl _) input.sendfile (copied_zero input.source (input.dest.getD []))
      (Nat.zero_le _)
    rw [stat, Bool.not_true, Bool.false_or] at transferred
    have all := loop.1.mpr transferred
    have copied := loop.2 all
    simp [copyFileFast, openSource, openDest, stat]
    generalize fastLoop input.source input.source.length input.sendfile 0 (input.dest.getD []) = final at all copied ⊢
    obtain ⟨_, content⟩ := final
    obtain rfl := all
    exact congrArg some (copied.all (Nat.le_refl _))

theorem copyFile_success_iff (input : CopyInput) :
    (copyFile input).ret = some 0 ↔ input.openSource && input.openDest := by
  unfold copyFile
  cases input.openSource <;> cases input.openDest <;> simp

theorem copyFile_dest (success : (copyFile input).ret = some 0) :
    (copyFile input).dest = some (input.source.take input.written) := by
  have opened := (copyFile_success_iff input).mp success
  rw [and_eq_true] at opened
  simp [copyFile, opened.1, opened.2]

theorem copyFile_failure (input : CopyInput) : (copyFile input).ret = some (-1) ↔ (copyFile input).ret ≠ some 0 := by
  unfold copyFile
  cases input.openSource <;> cases input.openDest <;> simp

end FileUtil

/-- A copy that reports success is one. -/
def CopyResult.Faithful (result : CopyResult) (source : List UInt8) : Prop :=
  result.ret = some 0 → result.dest = some source

/-- Where the source is gone, the destination is complete. -/
def MoveResult.Keeps (result : MoveResult) (source : List UInt8) : Prop :=
  result.source = false → result.dest = some source

structure CopiesComplete (input : CopyInput) (isEventFile desPathExists : Bool) : Prop where
  service : (HiviewService.copyFile input).Faithful input.source
  fast : (FileUtil.copyFileFast input 0).Faithful input.source
  file : (FileUtil.copyFile input).Faithful input.source
  move : (HiviewService.move input).Keeps input.source
  sandbox : (EventPublish.sendEventToSandBox input isEventFile desPathExists).Keeps input.source
  upload : (HiviewDbUtil.moveDbFileToUploadDir input).Keeps input.source

/-- What the state before the call must be like. -/
structure CopyCondition (input : CopyInput) (isEventFile desPathExists : Bool) : Prop where
  /-- an older destination is not longer than the source -/
  service : HiviewService.completes input → (input.dest.getD []).length ≤ input.source.length
  /-- the same, and a source without a size is there already -/
  fast : FileUtil.fastCompletes input →
    if input.stat then (input.dest.getD []).length ≤ input.source.length else input.dest.getD [] = input.source
  /-- the stream takes the whole source -/
  file : input.openSource && input.openDest → input.source.length ≤ input.written
  /-- the application's directory exists -/
  sandbox : isEventFile → input.removeSource → desPathExists = false → input.dest = some input.source

variable (input : CopyInput)

theorem HiviewService.faithful_iff :
    (copyFile input).Faithful input.source ↔
      (completes input → (input.dest.getD []).length ≤ input.source.length) := by
  rw [← copyFile_success_iff]
  refine imp_congr_right fun success => ?_
  rw [copyFile_dest success, Option.some_inj, append_drop_eq_iff]

theorem FileUtil.fast_faithful_iff :
    (copyFileFast input 0).Faithful input.source ↔
      (fastCompletes input →
        if input.stat then (input.dest.getD []).length ≤ input.source.length else input.dest.getD [] = input.source) := by
  rw [← copyFileFast_success_iff]
  refine imp_congr_right fun success => ?_
  rw [copyFileFast_dest success, Option.some_inj]
  cases input.stat with
  | false => rfl
  | true => exact append_drop_eq_iff

theorem FileUtil.faithful_iff :
    (copyFile input).Faithful input.source ↔
      (input.openSource && input.openDest → input.source.length ≤ input.written) := by
  rw [← copyFile_success_iff]
  refine imp_congr_right fun success => ?_
  rw [copyFile_dest success, Option.some_inj]
  constructor
  · intro whole
    have length := congrArg List.length whole
    rw [List.length_take] at length
    omega
  · exact List.take_of_length_le

theorem HiviewService.move_keeps {input : CopyInput} (faithful : (copyFile input).Faithful input.source) :
    (move input).Keeps input.source := by
  intro removed
  rw [move_dest removed]
  exact faithful ((move_removes_iff input).mp removed).1

theorem HiviewDbUtil.upload_keeps {input : CopyInput} (faithful : (copyFile input).Faithful input.source) :
    (moveDbFileToUploadDir input).Keeps input.source := by
  unfold moveDbFileToUploadDir
  by_cases success : (copyFile input).ret = some 0
  · intro _
    simpa [success] using faithful success
  · intro removed
    simp [success] at removed

theorem EventPublish.sandbox_keeps {input : CopyInput} (isEventFile : Bool)
    (faithful : (copyFile input).Faithful input.source) :
    (sendEventToSandBox input isEventFile true).Keeps input.source := by
  unfold sendEventToSandBox
  cases isEventFile with
  | false =>
    intro removed
    cases removed
  | true =>
    by_cases failed : (copyFile input).ret = some (-1)
    · intro removed
      simp [failed] at removed
    · intro _
      have success := not_not.mp (mt (copyFile_failure input).mpr failed)
      simpa [failed] using faithful success

theorem EventPublish.noDirectory_keeps_iff (isEventFile : Bool) :
    (sendEventToSandBox input isEventFile false).Keeps input.source ↔
      (isEventFile → input.removeSource → input.dest = some input.source) := by
  unfold sendEventToSandBox MoveResult.Keeps
  cases isEventFile <;> cases input.removeSource <;> simp

theorem copiesComplete_iff (input : CopyInput) (isEventFile desPathExists : Bool) :
    CopiesComplete input isEventFile desPathExists ↔ CopyCondition input isEventFile desPathExists := by
  constructor
  · intro complete
    refine ⟨(HiviewService.faithful_iff input).mp complete.service,
      (FileUtil.fast_faithful_iff input).mp complete.fast, (FileUtil.faithful_iff input).mp complete.file, ?_⟩
    intro eventFile removeSource missing
    subst missing
    exact (EventPublish.noDirectory_keeps_iff input isEventFile).mp complete.sandbox eventFile removeSource
  · intro condition
    have file := (FileUtil.faithful_iff input).mpr condition.file
    have service := (HiviewService.faithful_iff input).mpr condition.service
    refine ⟨service, (FileUtil.fast_faithful_iff input).mpr condition.fast, file, HiviewService.move_keeps service, ?_,
      HiviewDbUtil.upload_keeps file⟩
    cases desPathExists with
    | true => exact EventPublish.sandbox_keeps isEventFile file
    | false =>
      refine (EventPublish.noDirectory_keeps_iff input isEventFile).mpr ?_
      intro eventFile removeSource
      exact condition.sandbox eventFile removeSource rfl

/-- One byte over two leaves the second, and a full disk loses the file. -/
def overLonger : CopyInput := { source := [1], dest := some [7, 8], sendfile := [.sent 1], written := 0 }

theorem overLonger_incomplete :
    HiviewService.copyFile overLonger = ⟨some 0, some [1, 8]⟩ ∧
      HiviewService.move overLonger = ⟨false, some [1, 8]⟩ ∧
      FileUtil.copyFileFast overLonger 0 = ⟨some 0, some [1, 8]⟩ ∧
      FileUtil.copyFile overLonger = ⟨some 0, some []⟩ ∧
      HiviewDbUtil.moveDbFileToUploadDir overLonger = ⟨false, some []⟩ ∧
      EventPublish.sendEventToSandBox overLonger true true = ⟨false, some []⟩ ∧
      EventPublish.sendEventToSandBox { overLonger with dest := none } true false = ⟨false, none⟩ ∧
      ¬ CopiesComplete overLonger true true := by
  refine ⟨by decide, by decide, by decide, by decide, by decide, by decide, by decide, ?_⟩
  intro complete
  exact absurd (complete.service (by decide)) (by decide)

namespace HiviewService

/-- What an answer of `sendfile` gets through. -/
def transferred : SendfileRet → Nat
  | .error => 0
  | .sent bytes => bytes

theorem copyLoop_unfinished_iff (inside : size ≤ source.length) (answers : List SendfileRet) (before : offset ≤ size) :
    (copyLoop source size answers offset content).ret = none ↔
      offset + (answers.map transferred).sum < size ∧ .error ∉ answers := by
  fun_induction copyLoop source size answers offset content with
  | case1 answers offset content complete => simpa using fun short => absurd short (by omega)
  | case2 offset content short => simpa using short
  | case3 offset content short rest => simp
  | case4 offset content short bytes rest part next beyond =>
    have length : part.length = _ := part_length offset inside bytes
    omega
  | case5 offset content short bytes rest part next within ih =>
    have length : part.length = min bytes (size - offset) := part_length offset inside bytes
    rw [ih (by omega), List.map_cons, List.sum_cons, transferred]
    refine and_congr (by omega) ?_
    simp

/-- One of the calls fails, or the first ones get through the whole size; the loop is not
reached where a file cannot be opened or has no size. -/
def Finishes (input : CopyInput) (answers : Nat → SendfileRet) : Prop :=
  input.openSource → input.stat → input.openDest →
    ∃ calls, answers calls = .error ∨ input.source.length ≤ ((List.range calls).map (transferred ∘ answers)).sum

theorem copyFile_returns_iff (input : CopyInput) (answers : Nat → SendfileRet) :
    (∃ calls, (copyFile { input with sendfile := (List.range calls).map answers }).ret ≠ none) ↔
      Finishes input answers := by
  unfold copyFile Finishes
  cases input.openSource <;> cases input.stat <;> cases input.openDest <;> simp [errDefault]
  have loop (calls : Nat) := @copyLoop_unfinished_iff _ (input.dest.getD []) _ _ (Nat.le_refl _)
    ((List.range calls).map answers) (Nat.zero_le input.source.length)
  simp only [loop, not_and_or, List.map_map, Nat.zero_add, Nat.not_lt, Classical.not_not, List.mem_map, List.mem_range]
  constructor
  · rintro ⟨calls, whole | ⟨call, -, failed⟩⟩
    · exact ⟨calls, .inr whole⟩
    · exact ⟨call, .inl failed⟩
  · rintro ⟨calls, failed | whole⟩
    · exact ⟨calls + 1, .inr ⟨calls, Nat.lt_succ_self _, failed⟩⟩
    · exact ⟨calls, .inl whole⟩

/-- The writer has cut the source down to its first byte behind the `fstat`. -/
def shortened (call : Nat) : SendfileRet := .sent (if call = 0 then 1 else 0)

theorem copyFile_stalls :
    ¬ ∃ calls, (copyFile { source := [1, 2], sendfile := (List.range calls).map shortened }).ret ≠ none := by
  rintro ⟨calls, returned⟩
  refine returned ((copyLoop_unfinished_iff (Nat.le_refl _) _ (Nat.zero_le _)).mpr ⟨?_, by simp [shortened]⟩)
  cases calls with
  | zero => decide
  | succ calls => simp [List.range_succ_eq_map, Function.comp_def, shortened, transferred]

end HiviewService

end Hiview.Service
