import Hiview.Service.CompleteCopy
import Hiview.Service.SystemLogs

/-! Which files a call of `Copy` or `Move` reaches. The source is checked after its links
have been followed, the destination is put together from the name as it was given. -/
namespace Hiview.Service
open FilePath Bool FileSystem HiviewService List Option

namespace HiviewService
variable {calls : SystemCalls} {fs : FileSystem} {srcFilePath destFilePath : List Char} {place : Location × Name}

theorem openedDest_spec (opened : openedDest calls fs srcFilePath destFilePath = some place) :
    placeOf fs destFilePath = some place ∧ leadsOn (fs.node (place.1 ++ [place.2])) = false := by
  unfold openedDest destPlace at opened
  split at opened
  · split at opened
    · obtain ⟨found, plain⟩ := filter_eq_some_iff.mp opened
      exact ⟨found, by simpa using plain⟩
    · cases opened
  · cases opened

section
variable (calls : SystemCalls) (fs : FileSystem) (srcFilePath destFilePath : List Char)

theorem copy_accesses :
    (copy calls fs srcFilePath destFilePath).accesses = readAccess calls fs srcFilePath ++
      (openedDest calls fs srcFilePath destFilePath).toList.map fun place => .write (place.1 ++ [place.2]) := by
  unfold copy
  cases openedDest calls fs srcFilePath destFilePath with
  | none => simp
  | some place => rfl

theorem copy_ret :
    (copy calls fs srcFilePath destFilePath).ret = (copyFile (copyInput calls fs srcFilePath destFilePath)).ret := by
  unfold copy
  cases openedDest calls fs srcFilePath destFilePath <;> rfl

theorem copy_below :
    (copy calls fs srcFilePath destFilePath).fs.Below fs ∧ fs.Below (copy calls fs srcFilePath destFilePath).fs := by
  unfold copy
  cases opened : openedDest calls fs srcFilePath destFilePath with
  | none => exact ⟨.refl fs, .refl fs⟩
  | some place => exact ⟨set_below rfl, below_set (openedDest_spec opened).2⟩

end

theorem copy_placeOf (path : List Char) : placeOf
    (copy calls fs srcFilePath destFilePath).fs path = placeOf fs path := by
  obtain ⟨lower, upper⟩ := copy_below calls fs srcFilePath destFilePath
  apply Option.ext
  intro place
  exact ⟨placeOf_below lower, placeOf_below upper⟩

theorem copy_node_kept (there : (fs.node location).isSome) :
    ((copy calls fs srcFilePath destFilePath).fs.node location).isSome := by
  unfold copy
  cases openedDest calls fs srcFilePath destFilePath with
  | none => exact there
  | some place =>
    change (if location = place.1 ++ [place.2] then some _ else fs.node location).isSome = true
    split
    · rfl
    · exact there

theorem copy_opened (success : (copy calls fs srcFilePath destFilePath).ret = some 0) :
    ∃ place, openedDest calls fs srcFilePath destFilePath = some place ∧
      ((copy calls fs srcFilePath destFilePath).fs.node (place.1 ++ [place.2])).isSome := by
  rw [copy_ret] at success
  have complete := (copyFile_success_iff _).mp success
  simp only [completes, copyInput, and_eq_true] at complete
  obtain ⟨⟨⟨openSource, stat⟩, openDest⟩, _⟩ := complete
  obtain ⟨place, found⟩ := isSome_iff_exists.mp openDest
  have opened : openedDest calls fs srcFilePath destFilePath = some place := by
    rw [openedDest, openSource, stat]
    exact found
  refine ⟨place, opened, ?_⟩
  unfold copy
  rw [opened]
  rw [set_node]
  rfl

theorem removeFile_below (removed : Bool) (fs : FileSystem) (path : List Char) :
    (removeFile removed fs path).1.Below fs := by
  unfold removeFile
  cases placeOf fs path with
  | none => exact .refl fs
  | some place =>
    dsimp only
    split
    · exact set_below rfl
    · exact .refl fs

theorem removeFile_access (member : access ∈ (removeFile removed fs path).2) :
    removed = true ∧ ∃ place, placeOf fs path = some place ∧ access = .remove (place.1 ++ [place.2]) := by
  unfold removeFile at member
  cases found : placeOf fs path with
  | none => simp [found] at member
  | some place =>
    simp only [found] at member
    split at member
    · rename_i both
      exact ⟨(and_eq_true_iff.mp both).1, place, rfl, mem_singleton.mp member⟩
    · cases member

theorem removeFile_removes (found : placeOf fs path = some place) (there : (fs.node (place.1 ++ [place.2])).isSome) :
    .remove (place.1 ++ [place.2]) ∈ (removeFile true fs path).2 := by
  simp [removeFile, found, there]

/-- Everything a copy or a move can do to a file, with the `lchown` that follows. -/
inductive Reached (calls : SystemCalls) (fs : FileSystem) (isMove : Bool) (srcFilePath destFilePath : List Char) :
    Access → Prop where
  | read {access : Access} (member : access ∈ readAccess calls fs srcFilePath) :
      Reached calls fs isMove srcFilePath destFilePath access
  | write {place : Location × Name} (opened : openedDest calls fs srcFilePath destFilePath = some place) :
      Reached calls fs isMove srcFilePath destFilePath (.write (place.1 ++ [place.2]))
  | chown {place : Location × Name} (opened : openedDest calls fs srcFilePath destFilePath = some place) :
      Reached calls fs isMove srcFilePath destFilePath (.chown (place.1 ++ [place.2]))
  | removeSource {place : Location × Name} (move : isMove = true) (removed : calls.removeSource = true)
      (copied : completes (copyInput calls fs srcFilePath destFilePath) = true)
      (found : placeOf fs srcFilePath = some place) :
      Reached calls fs isMove srcFilePath destFilePath (.remove (place.1 ++ [place.2]))
  | removeDest {place : Location × Name} (move : isMove = true) (kept : calls.removeSource = false)
      (removed : calls.removeDest = true) (copied : completes (copyInput calls fs srcFilePath destFilePath) = true)
      (found : placeOf fs destFilePath = some place) :
      Reached calls fs isMove srcFilePath destFilePath (.remove (place.1 ++ [place.2]))

theorem copy_success_iff : (copy calls fs srcFilePath destFilePath).ret = some 0 ↔
    completes (copyInput calls fs srcFilePath destFilePath) = true := by
  rw [copy_ret]
  exact copyFile_success_iff _

theorem copy_reached (member : access ∈ (copy calls fs srcFilePath destFilePath).accesses) :
    Reached calls fs isMove srcFilePath destFilePath access := by
  rw [copy_accesses] at member
  obtain read | written := mem_append.mp member
  · exact .read read
  · obtain ⟨place, opened, rfl⟩ := mem_map.mp written
    exact .write (mem_toList.mp opened)

theorem moveFile_reached (member : access ∈ (moveFile calls fs srcFilePath destFilePath).accesses) :
    Reached calls fs true srcFilePath destFilePath access := by
  unfold moveFile at member
  by_cases success : (copy calls fs srcFilePath destFilePath).ret = some 0
  · have copied := copy_success_iff.mp success
    simp only [success, ne_eq, not_true_eq_false, if_false] at member
    cases removes : calls.removeSource with
    | true =>
      rw [if_pos removes] at member
      obtain before | removed := mem_append.mp member
      · exact copy_reached before
      · obtain ⟨_, place, found, rfl⟩ := removeFile_access removed
        exact .removeSource rfl removes copied ((copy_placeOf _).symm.trans found)
    | false =>
      rw [if_neg (by simp [removes])] at member
      obtain before | removed := mem_append.mp member
      · exact copy_reached before
      · obtain ⟨answer, place, found, rfl⟩ := removeFile_access removed
        exact .removeDest rfl removes answer copied ((copy_placeOf _).symm.trans found)
  · rw [if_pos success] at member
    exact copy_reached member

theorem copy_writes (opened : openedDest calls fs srcFilePath destFilePath = some place) :
    .write (place.1 ++ [place.2]) ∈ (copy calls fs srcFilePath destFilePath).accesses := by
  rw [copy_accesses, opened]
  exact mem_append_right _ (mem_singleton_self _)

theorem moveFile_writes (opened : openedDest calls fs srcFilePath destFilePath = some place) :
    .write (place.1 ++ [place.2]) ∈ (moveFile calls fs srcFilePath destFilePath).accesses := by
  unfold moveFile
  dsimp only
  split
  · exact copy_writes opened
  · split
    · exact mem_append_left _ (copy_writes opened)
    · exact mem_append_left _ (copy_writes opened)

variable (copied : completes (copyInput calls fs srcFilePath destFilePath) = true)
include copied

theorem moveFile_removesSource
    (removes : calls.removeSource = true) (real : resolve fs srcFilePath = some location)
    (found : placeOf fs srcFilePath = some place) :
    .remove (place.1 ++ [place.2]) ∈ (moveFile calls fs srcFilePath destFilePath).accesses := by
  have there := placeOf_exists real found
  have removed := removeFile_removes ((@copy_placeOf calls fs srcFilePath destFilePath _).trans found)
    (copy_node_kept there)
  simp only [moveFile, copy_success_iff.mpr copied, ne_eq, not_true_eq_false, if_false, removes, if_true]
  exact mem_append_right _ removed

theorem moveFile_removesDest
    (kept : calls.removeSource = false)
    (removes : calls.removeDest = true) (found : placeOf fs destFilePath = some place) :
    .remove (place.1 ++ [place.2]) ∈ (moveFile calls fs srcFilePath destFilePath).accesses := by
  have success := copy_success_iff.mpr copied
  obtain ⟨opened, isOpened, there⟩ := copy_opened success
  obtain rfl := some_inj.mp ((openedDest_spec isOpened).1.symm.trans found)
  have removed := removeFile_removes ((copy_placeOf _).trans found) there
  simp only [moveFile, success, ne_eq, not_true_eq_false, if_false, kept, false_eq_true, removes]
  exact mem_append_right _ removed

omit copied

theorem place_of_copied (success : (copy calls fs srcFilePath destFilePath).ret = some 0) (order : later.Below fs)
    (found : placeOf later destFilePath = some place) :
    openedDest calls fs srcFilePath destFilePath = some place := by
  obtain ⟨opened, isOpened, _⟩ := copy_opened success
  have same := (openedDest_spec isOpened).1.symm.trans (placeOf_below order found)
  rwa [some_inj.mp same] at isOpened

theorem moveFile_success (success : (moveFile calls fs srcFilePath destFilePath).ret = some 0) :
    (copy calls fs srcFilePath destFilePath).ret = some 0 ∧ (moveFile calls fs srcFilePath destFilePath).fs.Below fs := by
  unfold moveFile at success ⊢
  by_cases copied : (copy calls fs srcFilePath destFilePath).ret = some 0
  · refine ⟨copied, ?_⟩
    simp only [copied, ne_eq, not_true_eq_false, if_false] at success ⊢
    have lower := (copy_below calls fs srcFilePath destFilePath).1
    split
    · exact (removeFile_below _ _ _).trans lower
    · exact (removeFile_below _ _ _).trans lower
  · rw [if_pos copied] at success
    exact absurd success copied

end HiviewService

namespace HiviewServiceAbility
variable {env : Environment} {fs : FileSystem} {call : Call} {sourceFile fullPath : List Char}

theorem isSafePath_spec (safe : isSafePath fs basePath path = true) :
    ∃ base location, resolve fs basePath = some base ∧ resolve fs path = some location ∧
      (base = [] ∨ Inside base location) := by
  revert safe
  fun_cases isSafePath fs basePath path with
  | case1 base location isLocation isBase =>
    intro safe
    refine ⟨base, location, isBase, isLocation, ?_⟩
    by_cases root : base = []
    · exact .inl root
    · right
      simp only [includeTrailingPathDelimiter, render, if_neg root, if_neg (body_last root)] at safe
      have begins := isPrefixOf_iff_prefix.mp safe
      by_cases top : location = []
      · rw [if_pos top] at begins
        obtain ⟨name, rest, rfl⟩ := exists_cons_of_ne_nil root
        exact absurd begins.length_le (by simp [body])
      · rw [if_neg top] at begins
        exact inside_of_body begins
  | case2 => rintro ⟨⟩

structure Checked (env : Environment) (fs : FileSystem) (call : Call) (sourceFile fullPath : List Char)
    (config : ConfigInfo) (sandbox base location : Location) : Prop where
  configured : env.configInfo call.logType = some config
  inSandbox : env.sandbox = some sandbox
  source : sourceFile = config.path ++ call.logName
  full : fullPath = composeFilePath (render sandbox) call.dest call.logName
  realBase : resolve fs config.path = some base
  realSource : resolve fs sourceFile = some location
  safe : base = [] ∨ Inside base location
  dest : call.dest ≠ [] → isSafePath fs (render sandbox) (render sandbox ++ '/' :: call.dest) = true

theorem checkPaths_ok (passed : checkPaths env fs call = .ok (sourceFile, fullPath)) :
    ∃ config sandbox base location, Checked env fs call sourceFile fullPath config sandbox base location := by
  revert passed
  fun_cases checkPaths env fs call with
  | case8 _ config isConfig _ sandbox isSandbox sandboxPath sourceFile safe _ allowed =>
    intro passed
    obtain ⟨rfl, rfl⟩ := Prod.mk.inj (Except.ok.inj passed)
    rw [Bool.not_eq_true', Bool.not_eq_false] at safe
    obtain ⟨base, location, isBase, isLocation, inside⟩ := isSafePath_spec safe
    refine ⟨config, sandbox, base, location, isConfig, isSandbox, rfl, rfl, isBase, isLocation, inside, ?_⟩
    intro given
    simpa [given] using allowed
  | _ => nofun

def accepted (env : Environment) (fs : FileSystem) (call : Call) : Option (List Char × List Char) :=
  if env.hasAccessPermission then (checkPaths env fs call).toOption else none

theorem accepted_checkPaths (reached : accepted env fs call = some paths) :
    env.hasAccessPermission = true ∧ checkPaths env fs call = .ok paths := by
  unfold accepted at reached
  split at reached
  · rename_i permitted
    refine ⟨permitted, ?_⟩
    cases checked : checkPaths env fs call with
    | error ret => simp [checked, Except.toOption] at reached
    | ok found =>
      rw [checked] at reached
      rw [some_inj.mp reached]
  · cases reached

/-- What the call does once its paths are accepted. -/
def act (calls : SystemCalls) (fs : FileSystem) (isMove : Bool) (sourceFile fullPath : List Char) : Outcome :=
  if isMove then HiviewService.moveFile calls fs sourceFile fullPath else HiviewService.copy calls fs sourceFile fullPath

theorem copyOrMove_accepted (reached : accepted env fs call = some (sourceFile, fullPath)) :
    (copyOrMove env fs call).accesses =
      (act env.calls fs call.isMove sourceFile fullPath).accesses ++
        if (act env.calls fs call.isMove sourceFile fullPath).ret = some 0 then
          lchown env.calls (act env.calls fs call.isMove sourceFile fullPath).fs fullPath
        else [] := by
  obtain ⟨permitted, checked⟩ := accepted_checkPaths reached
  simp only [copyOrMove, copyOrMoveFile, permitted, checked, Bool.not_true, Bool.false_eq_true, if_false]
  change (if (act env.calls fs call.isMove sourceFile fullPath).ret = some 0 then _
    else act env.calls fs call.isMove sourceFile fullPath).accesses = _
  split
  · rfl
  · rw [append_nil]

theorem copyOrMove_refused (refused : accepted env fs call = none) : (copyOrMove env fs call).accesses = [] := by
  unfold copyOrMove copyOrMoveFile
  unfold accepted at refused
  cases permitted : env.hasAccessPermission with
  | false => rfl
  | true =>
    cases checked : checkPaths env fs call with
    | error ret => rfl
    | ok paths => simp [permitted, checked, Except.toOption] at refused

variable {access : Access}

theorem lchown_access (member : access ∈ lchown calls fs path) :
    ∃ place, placeOf fs path = some place ∧ access = .chown (place.1 ++ [place.2]) := by
  unfold lchown at member
  cases found : placeOf fs path with
  | none => simp [found] at member
  | some place =>
    simp only [found] at member
    split at member
    · exact ⟨place, rfl, mem_singleton.mp member⟩
    · cases member

theorem act_reached (member : access ∈ (act env.calls fs call.isMove sourceFile fullPath).accesses) :
    HiviewService.Reached env.calls fs call.isMove sourceFile fullPath access := by
  unfold act at member
  cases move : call.isMove with
  | true =>
    rw [if_pos move] at member
    exact moveFile_reached member
  | false =>
    rw [if_neg (by simp [move])] at member
    exact copy_reached member

theorem act_success (success : (act env.calls fs call.isMove sourceFile fullPath).ret = some 0) :
    (copy env.calls fs sourceFile fullPath).ret = some 0 ∧
      (act env.calls fs call.isMove sourceFile fullPath).fs.Below fs := by
  unfold act at success ⊢
  cases move : call.isMove with
  | true =>
    rw [if_pos move] at success
    exact moveFile_success success
  | false =>
    rw [if_neg (by simp [move])] at success
    exact ⟨success, (copy_below _ _ _ _).1⟩

theorem copyOrMove_reached (member : access ∈ (copyOrMove env fs call).accesses) :
    ∃ paths, accepted env fs call = some paths ∧
      HiviewService.Reached env.calls fs call.isMove paths.1 paths.2 access := by
  cases reached : accepted env fs call with
  | none =>
    rw [copyOrMove_refused reached] at member
    cases member
  | some paths =>
    refine ⟨paths, rfl, ?_⟩
    rw [copyOrMove_accepted reached] at member
    obtain acted | owned := mem_append.mp member
    · exact act_reached acted
    · split at owned
      · rename_i success
        obtain ⟨copied, order⟩ := act_success success
        obtain ⟨place, found, rfl⟩ := lchown_access owned
        exact .chown (place_of_copied copied order found)
      · cases owned

def InSandbox (env : Environment) (location : Location) : Prop :=
  ∃ sandbox, env.sandbox = some sandbox ∧ Inside sandbox location

/-- In the directory that the configured path leads to. -/
def InConfigured (env : Environment) (fs : FileSystem) (call : Call) (location : Location) : Prop :=
  ∃ config base, env.configInfo call.logType = some config ∧ resolve fs config.path = some base ∧ Inside base location

def Allowed (env : Environment) (fs : FileSystem) (call : Call) : Access → Prop
  | .read location => InConfigured env fs call location
  | .write location => InSandbox env location
  | .chown location => InSandbox env location
  | .remove location => InConfigured env fs call location

/-- Where the paths lead before the call. -/
structure Contained (env : Environment) (fs : FileSystem) (call : Call) : Prop where
  /-- the file to be opened as destination lies in the sandbox -/
  dest : ∀ paths place, accepted env fs call = some paths →
    HiviewService.openedDest env.calls fs paths.1 paths.2 = some place → InSandbox env (place.1 ++ [place.2])
  /-- a source that is removed lies itself in the configured directory, not only what it links to -/
  source : call.isMove = true → env.calls.removeSource = true → ∀ paths place, accepted env fs call = some paths →
    HiviewService.completes (HiviewService.copyInput env.calls fs paths.1 paths.2) = true →
    placeOf fs paths.1 = some place → InConfigured env fs call (place.1 ++ [place.2])
  /-- when the source stays, so does the copy outside the configured directory -/
  rollback : call.isMove = true → env.calls.removeSource = false → env.calls.removeDest = true →
    ∀ paths place, accepted env fs call = some paths →
    HiviewService.completes (HiviewService.copyInput env.calls fs paths.1 paths.2) = true →
    placeOf fs paths.2 = some place → InConfigured env fs call (place.1 ++ [place.2])

theorem read_inConfigured (reached : accepted env fs call = some paths)
    (member : access ∈ readAccess env.calls fs paths.1) : Allowed env fs call access := by
  obtain ⟨config, sandbox, base, location, checked⟩ := checkPaths_ok (accepted_checkPaths reached).2
  unfold readAccess sourceLocation at member
  rw [checked.realSource] at member
  cases opened : env.calls.openSource with
  | false => simp [opened] at member
  | true =>
    simp only [opened, if_true] at member
    split at member
    · cases member
    · rename_i notDir
      obtain rfl := mem_singleton.mp member
      refine ⟨config, base, checked.configured, checked.realBase, ?_⟩
      obtain rfl | inside := checked.safe
      · refine ⟨ nil_prefix, ?_⟩
        rintro rfl
        exact notDir fs.root
      · exact inside

theorem accesses_allowed_iff_contained (env : Environment) (fs : FileSystem) (call : Call) :
    (∀ access ∈ (copyOrMove env fs call).accesses, Allowed env fs call access) ↔ Contained env fs call := by
  constructor
  · intro allowed
    have acts {paths : List Char × List Char} {access : Access} (reached : accepted env fs call = some paths)
        (member : access ∈ (act env.calls fs call.isMove paths.1 paths.2).accesses) : Allowed env fs call access := by
      apply allowed
      rw [copyOrMove_accepted reached]
      exact mem_append_left _ member
    constructor
    · intro paths place reached opened
      apply @acts paths (.write (place.1 ++ [place.2])) reached
      unfold act
      split
      · exact HiviewService.moveFile_writes opened
      · exact HiviewService.copy_writes opened
    · intro move removes paths place reached copied found
      apply @acts paths (.remove (place.1 ++ [place.2])) reached
      obtain ⟨config, sandbox, base, location, checked⟩ := checkPaths_ok (accepted_checkPaths reached).2
      rw [act, if_pos move]
      exact HiviewService.moveFile_removesSource copied removes checked.realSource found
    · intro move kept removes paths place reached copied found
      apply @acts paths (.remove (place.1 ++ [place.2])) reached
      rw [act, if_pos move]
      exact HiviewService.moveFile_removesDest copied kept removes found
  · intro contained access member
    obtain ⟨paths, reached, done⟩ := copyOrMove_reached member
    cases done with
    | read member => exact read_inConfigured reached member
    | write opened | chown opened => exact contained.dest paths _ reached opened
    | removeSource move removed copied found => exact contained.source move removed paths _ reached copied found
    | removeDest move kept removed copied found => exact contained.rollback move kept removed paths _ reached copied found

def locationOf (path : String) : Location :=
  (components path.toList).filterMap fun
    | .name name => some name
    | _ => none

/-- The caller's directory `/app` holds its sandbox `/app/hiview` and a link of its own. -/
def linkedNode (location : Location) : Option Node :=
  if location = [] then some (.dir 0)
  else if body location = "/log".toList then some (.dir 0)
  else if body location = "/log/f".toList then some (.file [1])
  else if body location = "/out".toList then some (.dir 0)
  else if body location = "/app".toList then some (.dir 0)
  else if body location = "/app/hiview".toList then some (.dir 0)
  else if body location = "/app/log".toList then some (.link "/out".toList)
  else none

def linkedFiles : FileSystem where
  node := linkedNode
  root := rfl

def linkedCaller : Environment where
  configInfo _ := some ⟨"/log/".toList, false, rfl⟩
  sandbox := some (locationOf "/app/hiview")
  calls := { sendfile := [.sent 1] }

def linkedCall : Call := ⟨false, "LOG", "../log/f".toList, []⟩

theorem linkedCall_escapes :
    (copyOrMove linkedCaller linkedFiles linkedCall).accesses =
        [.read (locationOf "/log/f"), .write (locationOf "/out/f"), .chown (locationOf "/out/f")] ∧
      ¬ ∀ access ∈ (copyOrMove linkedCaller linkedFiles linkedCall).accesses,
        Allowed linkedCaller linkedFiles linkedCall access := by
  have accesses : (copyOrMove linkedCaller linkedFiles linkedCall).accesses =
      [.read (locationOf "/log/f"), .write (locationOf "/out/f"), .chown (locationOf "/out/f")] := by
    decide +kernel
  refine ⟨accesses, ?_⟩
  intro allowed
  rw [accesses] at allowed
  obtain ⟨sandbox, isSandbox, inside⟩ := allowed (.write (locationOf "/out/f")) (by simp)
  obtain rfl := Option.some_inj.mp isSandbox
  exact absurd inside (by decide +kernel)

end HiviewServiceAbility

end Hiview.Service
