import Hiview.FreezeDetector.FreezeFile
import Hiview.FreezeDetector.WatchPoint

/-! The body of the merged freeze log: one output stream takes the header or the log file of
every watch point. The stream is failed for ever once an empty buffer was given to it. -/
namespace Hiview.FreezeDetector
open Numeral (ascii)

structure OutputStream where
  text : List UInt8 := []
  failed : Bool := false

namespace OutputStream

def write (stream : OutputStream) (bytes : List UInt8) : OutputStream :=
  if stream.failed then stream else { stream with text := stream.text ++ bytes }

/-- `operator<<` of a stream buffer. -/
def writeBuffer (stream : OutputStream) (bytes : List UInt8) : OutputStream :=
  if stream.failed then stream
  else if bytes = [] then { stream with failed := true }
  else { stream with text := stream.text ++ bytes }

end OutputStream
open OutputStream (write writeBuffer)

/-- The files, and the text of an event's header, which asks the database for notes. -/
structure MergeEnv where
  fileExists : List UInt8 → Bool
  realPath : List UInt8 → Option (List UInt8)
  content : List UInt8 → Option (List UInt8)
  fileSize : List UInt8 → UInt64
  eventInfo : WatchPoint → List UInt8

def maxMergeFileSize : UInt64 := 10 * 1024 * 1024
def header : List UInt8 := ascii "*******************************************" ++ [10]
def threadStackStart : List UInt8 := [10] ++ ascii "Thread stack start:" ++ [10]
def threadStackEnd : List UInt8 := ascii "Thread stack end" ++ [10]

def pbEvents : List (List UInt8) :=
  [ascii "UI_BLOCK_3S", ascii "THREAD_BLOCK_3S", ascii "BUSSNESS_THREAD_BLOCK_3S", ascii "LIFECYCLE_HALF_TIMEOUT",
    ascii "LIFECYCLE_HALF_TIMEOUT_WARNING", ascii "SERVICE_WARNING"]

/-- The text in front of the first place of a part, and behind it. -/
def cutAt (part : List UInt8) : List UInt8 → Option (List UInt8 × List UInt8)
  | [] => none
  | char :: rest =>
    if part.isPrefixOf (char :: rest) then some ([], (char :: rest).drop part.length)
    else (cutAt part rest).map fun cut => (char :: cut.1, cut.2)

/-- The log without its thread stack, and the stack. -/
def extractThreadStack (logContent : List UInt8) : Option (List UInt8 × List UInt8) :=
  (cutAt threadStackStart logContent).bind fun start =>
    (cutAt threadStackEnd start.2).map fun cut => (start.1 ++ cut.2, cut.1)

/-- The streams, texts and flags that `InitLogBody` changes. -/
structure LogBody where
  body : OutputStream := {}
  isFileExists : Bool := true
  terminalThreadStack : List UInt8
  halfFreezeExtFile : List UInt8 := []
  mergedLogPath : List UInt8 := []

namespace Vendor
variable (env : MergeEnv)

def dumpEventInfo (body : OutputStream) (node : WatchPoint) : OutputStream := body.write (header ++ env.eventInfo node)

/-- The file that is opened, or the body of a node whose file is not. -/
def getIfStreamByFilePath (node : WatchPoint) (body : OutputStream) : Except OutputStream (List UInt8) :=
  match env.realPath node.params.logFile with
  | none => .error body
  | some realPath =>
    if EventFieldValidator.isAcceptedReadPath realPath = false then .error body
    else if env.fileSize realPath > maxMergeFileSize then .error body
    else
      match env.content realPath with
      | none => .error (dumpEventInfo env body node)
      | some content => .ok content

def writeLog (node : WatchPoint) (state : LogBody) (content : List UInt8) : LogBody :=
  let body := state.body.write header
  if pbEvents.contains node.stringId ∧ state.terminalThreadStack = [] then
    let extracted := (extractThreadStack content).getD (content, [])
    { state with body := body.write (extracted.1 ++ [10]), terminalThreadStack := extracted.2 }
  else { state with body := body.writeBuffer content }

def initLogBody : LogBody → List WatchPoint → LogBody
  | state, [] => state
  | state, node :: rest =>
    let name := node.stringId
    let half := name = ascii "THREAD_BLOCK_3S" ∨ name = ascii "LIFECYCLE_HALF_TIMEOUT"
    let state := { state with
      mergedLogPath := state.mergedLogPath ++ name ++ ascii ":" ++ node.params.externalLog ++ [10]
      halfFreezeExtFile := if half then node.params.freezeExtFile else state.halfFreezeExtFile }
    if node.params.logFile = ascii "nolog" ∨ node.params.logFile = [] then
      initLogBody { state with body := dumpEventInfo env state.body node } rest
    else if env.fileExists node.params.logFile = false then { state with isFileExists := false }
    else
      match getIfStreamByFilePath env node state.body with
      | .error body => initLogBody { state with body := body } rest
      | .ok content => initLogBody (writeLog node state content) rest

def logOf (node : WatchPoint) : Option (List UInt8) :=
  if node.params.logFile = ascii "nolog" ∨ node.params.logFile = [] then none
  else (env.realPath node.params.logFile).bind env.content

/-- The node has no log, or one that exists inside the log roots and is not too large. -/
def Readable (node : WatchPoint) : Prop :=
  (node.params.logFile = ascii "nolog" ∨ node.params.logFile = []) ∨
    ¬ (node.params.logFile = ascii "nolog" ∨ node.params.logFile = []) ∧ env.fileExists node.params.logFile = true ∧
      ∃ realPath content, env.realPath node.params.logFile = some realPath ∧
        EventFieldValidator.isAcceptedReadPath realPath = true ∧ env.fileSize realPath ≤ maxMergeFileSize ∧
        env.content realPath = some content

/-- What the body should get of a node, and the thread stack that is found by then. -/
def piece (terminalThreadStack : List UInt8) (node : WatchPoint) : List UInt8 × List UInt8 :=
  match logOf env node with
  | none => (header ++ env.eventInfo node, terminalThreadStack)
  | some content =>
    if pbEvents.contains node.stringId ∧ terminalThreadStack = [] then
      (header ++ (((extractThreadStack content).map Prod.fst).getD content ++ [10]),
        ((extractThreadStack content).map Prod.snd).getD [])
    else (header ++ content, terminalThreadStack)

def merged (terminalThreadStack : List UInt8) : List WatchPoint → List UInt8
  | [] => []
  | node :: rest => (piece env terminalThreadStack node).1 ++ merged (piece env terminalThreadStack node).2 rest

/-- An empty log goes to the stream as a buffer; that of the first PB event goes to it as a text. -/
def Stops (terminalThreadStack : List UInt8) (node : WatchPoint) : Prop :=
  logOf env node = some [] ∧ ¬ (pbEvents.contains node.stringId ∧ terminalThreadStack = [])

/-- No node but the last stops the stream. -/
def Unbroken (terminalThreadStack : List UInt8) : List WatchPoint → Prop
  | [] => True
  | node :: rest => (Stops env terminalThreadStack node → rest = []) ∧
      Unbroken (piece env terminalThreadStack node).2 rest

variable {env}

/-- A readable node adds its piece, unless the stream is failed. -/
theorem initLogBody_cons (readable : Readable env node) (state : LogBody) (rest : List WatchPoint) :
    ∃ next, initLogBody env state (node :: rest) = initLogBody env next rest ∧
      (state.body.failed = true → next.body = state.body) ∧
      (state.body.failed = false →
        next.body.text = state.body.text ++ (piece env state.terminalThreadStack node).1 ∧
        next.terminalThreadStack = (piece env state.terminalThreadStack node).2 ∧
        (next.body.failed = true ↔ Stops env state.terminalThreadStack node)) := by
  rw [initLogBody, Stops]
  rcases readable with unlogged | ⟨logged, found, realPath, content, resolved, accepted, small, opened⟩
  · have none : logOf env node = none := if_pos unlogged
    rw [if_pos unlogged]
    refine ⟨_, rfl, fun failed => if_pos failed, fun good => ?_⟩
    simp [dumpEventInfo, write, good, piece, none]
  · have log : logOf env node = some content := by rw [logOf, if_neg logged, resolved, Option.bind_some, opened]
    have ready (body : OutputStream) : getIfStreamByFilePath env node body = .ok content := by
      simp [getIfStreamByFilePath, resolved, accepted, opened, UInt64.not_lt.mpr small]
    rw [if_neg logged, if_neg (by simp [found]), ready]
    refine ⟨_, rfl, ?_⟩
    simp only [writeLog, piece, log]
    by_cases first : pbEvents.contains node.stringId = true ∧ state.terminalThreadStack = []
    · rw [if_pos first, if_pos first]
      refine ⟨fun failed => by simp [write, failed], fun good => ?_⟩
      cases extractThreadStack content <;> simp only [write, good, first] <;> simp
    · rw [if_neg first, if_neg first]
      refine ⟨fun failed => by simp [write, writeBuffer, failed], fun good => ?_⟩
      by_cases empty : content = []
      · simp only [write, writeBuffer, good, empty, first]
        simp
      · simp [write, writeBuffer, good, empty]

theorem initLogBody_failed (readable : ∀ node ∈ nodes, Readable env node) (failed : state.body.failed = true) :
    (initLogBody env state nodes).body = state.body := by
  induction nodes generalizing state with
  | nil => rfl
  | cons node rest ih =>
    obtain ⟨here, readable⟩ := List.forall_mem_cons.mp readable
    obtain ⟨next, continued, kept, -⟩ := initLogBody_cons here state rest
    rw [continued, ih readable (by rwa [kept failed]), kept failed]

theorem merged_eq_nil (complete : merged env terminalThreadStack nodes = []) : nodes = [] := by
  cases nodes with
  | nil => rfl
  | cons node rest =>
    have head := (List.append_eq_nil_iff.mp complete).1
    unfold piece at head
    split at head
    · cases head
    · split at head <;> cases head

/-- The body has every header and every log in their order exactly if no log but the last stops it. -/
theorem initLogBody_complete_iff (env : MergeEnv) (nodes : List WatchPoint) (state : LogBody)
    (good : state.body.failed = false) (readable : ∀ node ∈ nodes, Readable env node) :
    (initLogBody env state nodes).body.text = state.body.text ++ merged env state.terminalThreadStack nodes ↔
      Unbroken env state.terminalThreadStack nodes := by
  induction nodes generalizing state with
  | nil => simp [initLogBody, merged, Unbroken]
  | cons node rest ih =>
    obtain ⟨here, readable⟩ := List.forall_mem_cons.mp readable
    obtain ⟨next, continued, -, added⟩ := initLogBody_cons here state rest
    obtain ⟨text, stack, failed⟩ := added good
    rw [continued, merged, ← List.append_assoc, ← text, ← stack, Unbroken, ← failed, ← stack]
    by_cases stopped : next.body.failed = true
    · rw [initLogBody_failed readable stopped, List.self_eq_append_right]
      constructor
      · intro complete
        obtain rfl := merged_eq_nil complete
        exact ⟨fun _ => rfl, trivial⟩
      · rintro ⟨last, -⟩
        rw [last stopped]
        rfl
    · rw [ih next (Bool.not_eq_true _ ▸ stopped) readable]
      exact (and_iff_right fun failed => absurd failed stopped).symm

/-- One file, and a node without a log behind it. -/
def oneLog (content : List UInt8) : MergeEnv where
  fileExists _ := true
  realPath := some
  content _ := some content
  fileSize _ := content.length.toUInt64
  eventInfo _ := [69]

def logNode (logFile : String) : WatchPoint :=
  ⟨{ (default : WatchPointParams) with logFile := ascii logFile }, [], [], 0⟩

theorem initLogBody_complete_iff_pair :
    (initLogBody (oneLog [76]) ⟨{}, true, [], [], []⟩ [logNode "/data/log/a", logNode "nolog"]).body.text =
        header ++ [76] ++ header ++ [69] ↔
      Unbroken (oneLog [76]) [] [logNode "/data/log/a", logNode "nolog"] :=
  initLogBody_complete_iff (oneLog [76]) [logNode "/data/log/a", logNode "nolog"] ⟨{}, true, [], [], []⟩ rfl
    (by simp [Readable, oneLog, logNode]; decide)

/-- Behind an empty log the header of the next node is lost. -/
theorem initLogBody_stopped :
    (initLogBody (oneLog []) ⟨{}, true, [], [], []⟩ [logNode "/data/log/a", logNode "nolog"]).body.text = header := by
  decide

end Vendor
end Hiview.FreezeDetector
