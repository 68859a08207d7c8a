import Hiview.EventPublish.PushEvent
import Hiview.Service.CompleteCopy

/-! The copies of the external logs of an event in the log directory of its application. The
room that is left is a difference of unsigned numbers. -/
namespace Hiview.EventPublish
open List Service FileUtil

/-- The files of the directory, one for each inode. -/
abbrev Folder := List (List UInt8 × List UInt8)

def getFolderSize (folder : Folder) : Nat := (folder.map (·.2.length)).sum

/-- The limit of `GetExternalLogInfo`; `minidump` is the attribute of the event configuration. -/
def maxFileSize (minidump : Bool) : EventName → Nat
  | .mainThreadJank => 10485760
  | .resourceOverlimit => 2147483648
  | _ => if minidump then 36700160 else 5242880

structure ExternalLog where
  /-- for a path under `SANDBOX_DIR`, whether its file exists -/
  inSandBox : Option Bool := none
  /-- `VerifyPathSecurity` of a path that is not empty -/
  secure : Bool := true
  desFileName : List UInt8
  copy : CopyInput
  chown : Bool := true
  removed : Bool := true

def ExternalLog.fileSize (log : ExternalLog) : Nat := if log.copy.stat then log.copy.source.length else 0

def copyExternalLog (log : ExternalLog) (folder : Folder) : Bool × Folder :=
  let dest := (folder.find? (·.1 = log.desFileName)).map (·.2)
  let others := folder.eraseP (·.1 = log.desFileName)
  let copied := copyFileFast { log.copy with dest } 0
  let written := (copied.dest.map (log.desFileName, ·)).toList ++ others
  if copied.ret = some 0 then
    if log.chown then (true, written) else (false, if log.removed then others else written)
  else (false, written)

/-- The directory, the flag `log_over_limit` and the logs that found no room. -/
structure CopiedLogs where
  folder : Folder
  logOverLimit : Bool
  leftOut : List ExternalLog

def copyLoop (limit : Nat) : List ExternalLog → Nat → Bool → Folder → CopiedLogs
  | [], _, flag, folder => ⟨folder, flag, []⟩
  | log :: rest, dirSize, flag, folder =>
    match log.inSandBox with
    | some found => copyLoop limit rest dirSize (flag || !found) folder
    | none =>
      if !log.secure then copyLoop limit rest dirSize flag folder
      else if log.fileSize ≤ (limit + 2 ^ 64 - dirSize) % 2 ^ 64 then
        let copied := if log.desFileName = [] then (false, folder) else copyExternalLog log folder
        let dirSize := if copied.1 then (dirSize + log.fileSize) % 2 ^ 64 else dirSize
        copyLoop limit rest dirSize flag copied.2
      else ⟨folder, true, log :: rest⟩

def copyExternalLogsToSandBox (limit : Nat) (logs : List ExternalLog) (folder : Folder) : CopiedLogs :=
  copyLoop limit logs (getFolderSize folder % 2 ^ 64) false folder

/-- A copy that is begun is completed, and removed if its owner cannot be set. -/
def ExternalLog.finishes (log : ExternalLog) : Bool :=
  (!log.copy.openSource || !log.copy.openDest || fastCompletes log.copy) && (log.chown || log.removed)

theorem getFolderSize_eraseP (name : List UInt8) (folder : Folder) :
    getFolderSize (folder.eraseP (·.1 = name)) + (((folder.find? (·.1 = name)).map (·.2)).getD []).length =
      getFolderSize folder := by
  induction folder with
  | nil => rfl
  | cons file rest ih =>
    by_cases same : file.1 = name
    · simp [same, getFolderSize, Nat.add_comm]
    · simp only [getFolderSize, same, decide_false, eraseP_cons, find?_cons, cond_false, map_cons, sum_cons] at ih ⊢
      omega

theorem copyFileFast_length (input : CopyInput)
    (begun : (!input.openSource || !input.openDest || fastCompletes input) = true) :
    ((copyFileFast input 0).dest.getD []).length ≤ (input.dest.getD []).length +
      if (copyFileFast input 0).ret = some 0 then if input.stat then input.source.length else 0 else 0 := by
  by_cases success : (copyFileFast input 0).ret = some 0
  · rw [copyFileFast_dest success, if_pos success]
    split
    · simp
      omega
    · simp
  · rw [copyFileFast_success_iff] at success
    cases openSource : input.openSource with
    | false => simp [copyFileFast, openSource]
    | true =>
      have openDest : input.openDest = false := by simpa [openSource, success] using begun
      simp [copyFileFast, openSource, openDest]

theorem copyExternalLog_size (finishes : log.finishes = true) (folder : Folder) :
    getFolderSize (copyExternalLog log folder).2 ≤
      getFolderSize folder + if (copyExternalLog log folder).1 then log.fileSize else 0 := by
  have erased := getFolderSize_eraseP log.desFileName folder
  obtain ⟨begun, removed⟩ := (Bool.and_eq_true _ _).mp finishes
  have length := fun dest => copyFileFast_length { log.copy with dest } begun
  simp only [copyExternalLog, ExternalLog.fileSize]
  generalize (folder.find? (·.1 = log.desFileName)).map (·.2) = dest at erased ⊢
  specialize length dest
  generalize copyFileFast { log.copy with dest } 0 = copied at length ⊢
  have written : getFolderSize ((copied.dest.map (log.desFileName, ·)).toList ++
      folder.eraseP (·.1 = log.desFileName)) =
        (copied.dest.getD []).length + getFolderSize (folder.eraseP (·.1 = log.desFileName)) := by
    cases copied.dest <;> simp [getFolderSize]
  grind

/-- What the directory held at first beyond the size that is counted stays beyond it. -/
theorem copyLoop_size (fits : getFolderSize folder ≤ beyond + dirSize) (within : dirSize ≤ limit)
    (small : limit < 2 ^ 64) (finishes : ∀ log ∈ logs, log.finishes = true) :
    getFolderSize (copyLoop limit logs dirSize flag folder).folder ≤ beyond + limit := by
  fun_induction copyLoop limit logs dirSize flag folder with
  | case1 => exact fits.trans (Nat.add_le_add_left within _)
  | case2 _ _ _ _ _ _ _ ih | case3 _ _ _ _ _ _ _ ih => exact ih fits within (forall_mem_cons.mp finishes).2
  | case4 log rest dirSize flag folder _ _ room copied counted ih =>
    obtain ⟨here, later⟩ := forall_mem_cons.mp finishes
    have grown : getFolderSize copied.2 ≤ getFolderSize folder + if copied.1 then log.fileSize else 0 := by
      unfold copied
      split
      · exact Nat.le_refl _
      · exact copyExternalLog_size here folder
    have sum : (dirSize + log.fileSize) % 2 ^ 64 = dirSize + log.fileSize := by omega
    have added : counted = dirSize + if copied.1 then log.fileSize else 0 := by
      unfold counted
      rw [sum]
      split <;> rfl
    refine ih (by omega) ?_ later
    rw [added]
    split <;> omega
  | case5 => exact fits.trans (Nat.add_le_add_left within _)

theorem copyLoop_flag (left : (copyLoop limit logs dirSize flag folder).leftOut ≠ []) :
    (copyLoop limit logs dirSize flag folder).logOverLimit = true := by
  fun_induction copyLoop limit logs dirSize flag folder with
  | case1 => exact absurd rfl left
  | case2 _ _ _ _ _ _ _ ih => exact ih left
  | case3 _ _ _ _ _ _ _ ih => exact ih left
  | case4 _ _ _ _ _ _ _ _ _ _ ih => exact ih left
  | case5 => rfl

/-- A log that is not copied whatever the room. -/
def ExternalLog.passedOver (log : ExternalLog) : Bool := log.inSandBox.isSome || !log.secure || log.desFileName = []

theorem copyLoop_passedOver (passed : ∀ log ∈ logs, log.passedOver = true) :
    (copyLoop limit logs dirSize flag folder).folder = folder := by
  fun_induction copyLoop limit logs dirSize flag folder with
  | case1 | case5 => rfl
  | case2 _ _ _ _ _ _ _ ih | case3 _ _ _ _ _ _ _ ih => exact ih (forall_mem_cons.mp passed).2
  | case4 log rest dirSize flag folder outside secure room copied counted ih =>
    obtain ⟨here, later⟩ := forall_mem_cons.mp passed
    have unnamed : log.desFileName = [] := by simpa [ExternalLog.passedOver, outside, secure] using here
    rw [ih later]
    unfold copied
    rw [if_pos unnamed]

theorem exists_newName (folder : Folder) : ∃ name ≠ [], ∀ file ∈ folder, file.1 ≠ name := by
  refine ⟨folder.flatMap (·.1) ++ [0], by simp, fun file member same => ?_⟩
  have size := (sublist_flatten_of_mem (mem_map_of_mem (f := (·.1)) member)).length_le
  rw [same, ← flatMap_def, length_append, length_singleton] at size
  omega

/-- A log of one byte. -/
def byteLog (desFileName : List UInt8) : ExternalLog :=
  { desFileName, copy := { source := [10], sendfile := [.sent 1] } }

theorem copyLoop_byteLog (named : name ≠ []) (new : ∀ file ∈ folder, file.1 ≠ name)
    (room : 1 ≤ (limit + 2 ^ 64 - dirSize) % 2 ^ 64) :
    getFolderSize (copyLoop limit [byteLog name] dirSize false folder).folder = getFolderSize folder + 1 := by
  have missing : folder.find? (·.1 = (byteLog name).desFileName) = none :=
    find?_eq_none.mpr fun file member same => new file member (of_decide_eq_true same)
  have others : folder.eraseP (·.1 = (byteLog name).desFileName) = folder :=
    eraseP_of_forall_not fun file member same => new file member (of_decide_eq_true same)
  have copied : copyExternalLog (byteLog name) folder = (true, (name, [10]) :: folder) := by
    rw [copyExternalLog, missing, others]
    rfl
  have filled : ¬ (byteLog name).desFileName = [] := named
  have fits : (byteLog name).fileSize ≤ (limit + 2 ^ 64 - dirSize) % 2 ^ 64 := room
  rw [copyLoop, show (byteLog name).inSandBox = none from rfl]
  dsimp only
  rw [if_neg (by simp [byteLog]), if_pos fits, if_neg filled, copied, copyLoop, getFolderSize, map_cons, sum_cons,
    Nat.add_comm]
  rfl

def QuotaHolds (limit : Nat) (logs : List ExternalLog) (folder : Folder) : Prop :=
  getFolderSize (copyExternalLogsToSandBox limit logs folder).folder ≤ max (getFolderSize folder) limit

/-- A directory keeps the quota for all logs that are copied to the end exactly when it is within the limit;
the room is also right when the size that is counted, which wraps around, is just the limit. -/
theorem copyExternalLogsToSandBox_quota_iff (minidump : Bool) (eventName : EventName) (folder : Folder) :
    ((∀ logs, (∀ log ∈ logs, log.finishes = true) → QuotaHolds (maxFileSize minidump eventName) logs folder) ↔
      getFolderSize folder ≤ maxFileSize minidump eventName ∨
        getFolderSize folder % 2 ^ 64 = maxFileSize minidump eventName) ∧
    ∀ logs, ((∀ log ∈ logs, log.passedOver = true) → QuotaHolds (maxFileSize minidump eventName) logs folder) ∧
      let saved := copyExternalLogsToSandBox (maxFileSize minidump eventName) logs folder
      (saved.leftOut ≠ [] → saved.logOverLimit = true) := by
  have small : maxFileSize minidump eventName < 2 ^ 64 := by
    cases minidump <;> cases eventName <;> decide
  generalize maxFileSize minidump eventName = limit at small ⊢
  have counted := Nat.mod_le (getFolderSize folder) (2 ^ 64)
  refine ⟨⟨fun holds => ?_, fun fits logs finishes => ?_⟩, fun logs => ⟨fun passed => ?_, copyLoop_flag⟩⟩
  · by_contra full
    rw [not_or, Nat.not_le] at full
    obtain ⟨name, named, new⟩ := exists_newName folder
    have grown := holds [byteLog name] (by simp [ExternalLog.finishes, byteLog, fastCompletes, transfersAll])
    rw [QuotaHolds, copyExternalLogsToSandBox, copyLoop_byteLog named new (by omega), Nat.max_eq_left full.1.le] at grown
    exact absurd grown (Nat.not_succ_le_self _)
  · have kept := @copyLoop_size folder (getFolderSize folder - getFolderSize folder % 2 ^ 64)
      (getFolderSize folder % 2 ^ 64) _ _ false (by omega) (by omega) small finishes
    rw [QuotaHolds, copyExternalLogsToSandBox]
    omega
  · rw [QuotaHolds, copyExternalLogsToSandBox, copyLoop_passedOver passed]
    exact Nat.le_max_left _ _

/-- In a directory over the limit the room wraps around, and the log is copied. -/
theorem copyExternalLogsToSandBox_overrun : ∃ logs folder,
    max (getFolderSize folder) (maxFileSize false .appCrash) <
      getFolderSize (copyExternalLogsToSandBox (maxFileSize false .appCrash) logs folder).folder := by
  obtain ⟨content, length⟩ : ∃ content : List UInt8, content.length = 5242881 :=
    ⟨replicate _ 0, length_replicate⟩
  refine ⟨[{ desFileName := [97], copy := { source := [10], sendfile := [.sent 1] } }], [([98], content)], ?_⟩
  simp [copyExternalLogsToSandBox, copyLoop, copyExternalLog, getFolderSize, maxFileSize, length, copyFileFast,
    fastLoop, ExternalLog.fileSize, FileContent.writeAt]

end Hiview.EventPublish
