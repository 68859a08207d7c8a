import Hiview.FreezeDetector.GenuineSender
import Hiview.FreezeDetector.RuleCluster

/-! The use count of the freeze detector, which keeps the plugin loaded: the callback counts an
event before it knows whether it will submit a task, and only the task takes the count back. -/
namespace Hiview.FreezeDetector
open EventRaw Base
open Numeral (ascii)
open Option (bind_eq_some_iff some)

/-- A submitted task; the warnings go to a queue of their own. -/
structure DetectorTask where
  watchPoint : WatchPoint
  warning : Bool
  delay : Int64

def isFreezeEvent (rules : FreezeRuleCluster) (domain stringId : List UInt8) : Bool :=
  rules.isApplicationEvent domain stringId || rules.isSystemEvent domain stringId ||
    rules.isSysWarningEvent domain stringId || rules.isAssignedEvent domain stringId .appFreezeWarning

namespace FreezeDetectorPlugin

def scheduleEventProcessing (watchPoint : WatchPoint) (freezeResultList : List FreezeResult) : DetectorTask :=
  let base : Int64 := if freezeResultList.length > 1 then 10 else 3
  let delayTime :=
    if watchPoint.params.uid = 1201 ∧ watchPoint.stringId = ascii "IPC_FULL" then 0
    else freezeResultList.foldl (fun delayTime result => if delayTime < result.window then result.window else delayTime) base
  let warning := decide (watchPoint.stringId = ascii "THREAD_BLOCK_3S" ∨ watchPoint.stringId = ascii "LIFECYCLE_HALF_TIMEOUT")
  ⟨watchPoint, warning, if warning then 60 else delayTime⟩

/-- What the callback adds to the use count, and the tasks that it submits. -/
def onEventListeningCallback (env : Environment) (rules : FreezeRuleCluster) (sorting : Sorting)
    (occurrence : Occurrence) (sysEvent : SysEvent) : Option (Int64 × List DetectorTask) := do
  let some rawData := sysEvent.rawData | return (0, [])
  let decoded ← DecodedEvent.new rawData.getData
  if decoded.isValid = false then return (0, [])
  if isFreezeEvent rules sysEvent.members.domain sysEvent.members.eventName = false then return (0, [])
  let (accepted, sysEvent) ← EventFieldValidator.validateEvent env sysEvent
  if accepted = false then return (0, [])
  let (watchPoint, _) ← makeWatchPoint occurrence sysEvent
  if watchPoint.params.logFile = [] then return (1, [])
  match rules.getResult sorting watchPoint.domain watchPoint.stringId with
  | none => return (1, [])
  | some freezeResultList => return (1, [scheduleEventProcessing watchPoint freezeResultList])

end FreezeDetectorPlugin
open FreezeDetectorPlugin (onEventListeningCallback)

structure PluginUse where
  useCount : Int64 := 0
  tasks : List DetectorTask := []

/-- An event is delivered, or a task has run `ProcessEvent` to its end. -/
inductive UseLabel where
  | deliver (occurrence : Occurrence) (sysEvent : SysEvent)
  | finish (index : Nat)

namespace PluginUse
variable (env : Environment) (rules : FreezeRuleCluster) (sorting : Sorting)

def step (use : PluginUse) : UseLabel → Option PluginUse
  | .deliver occurrence sysEvent =>
    (onEventListeningCallback env rules sorting occurrence sysEvent).map fun effect =>
      ⟨use.useCount + effect.1, use.tasks ++ effect.2⟩
  | .finish index => if index < use.tasks.length then some ⟨use.useCount - 1, use.tasks.eraseIdx index⟩ else none

/-- The event passes the checks in front of the count, as it is then. -/
def Accepted (sysEvent checked : SysEvent) : Prop :=
  ∃ rawData decoded, sysEvent.rawData = some rawData ∧ DecodedEvent.new rawData.getData = some decoded ∧
    decoded.isValid = true ∧ isFreezeEvent rules sysEvent.members.domain sysEvent.members.eventName = true ∧
    EventFieldValidator.validateEvent env sysEvent = some (true, checked)

/-- An accepted event has no log path or no rule. -/
def Leaks : UseLabel → Prop
  | .deliver occurrence sysEvent => ∃ checked watchPoint built, Accepted env rules sysEvent checked ∧
      FreezeDetectorPlugin.makeWatchPoint occurrence checked = some (watchPoint, built) ∧ (watchPoint.params.logFile = [] ∨
        rules.getResult sorting watchPoint.domain watchPoint.stringId = none)
  | .finish _ => False

def Balanced (use : PluginUse) : Prop := use.useCount = Int64.ofNat use.tasks.length

variable {env rules sorting}

/-- A task is submitted for an event that is counted, unless it leaks. -/
theorem callback_effect (called : onEventListeningCallback env rules sorting occurrence sysEvent =
      some effect) : effect = (0, []) ∨ effect = (1, []) ∧ Leaks env rules sorting (.deliver occurrence sysEvent) ∨
        ∃ task, effect = (1, [task]) := by
  unfold onEventListeningCallback at called
  simp only [Option.bind_eq_bind, Option.pure_def] at called
  split at called
  · rename_i rawData present
    obtain ⟨decoded, read, called⟩ := bind_eq_some_iff.mp called
    split at called
    · exact .inl (some.inj called).symm
    · rename_i valid
      split at called
      · exact .inl (some.inj called).symm
      · rename_i freeze
        obtain ⟨⟨accepted, checked⟩, validated, called⟩ := bind_eq_some_iff.mp called
        dsimp only at called
        split at called
        · exact .inl (some.inj called).symm
        · rename_i passed
          rw [Bool.not_eq_false] at valid freeze passed
          subst passed
          have accepted : Accepted env rules sysEvent checked := ⟨rawData, decoded, present, read, valid, freeze, validated⟩
          obtain ⟨⟨watchPoint, built⟩, made, called⟩ := bind_eq_some_iff.mp called
          dsimp only at called
          split at called
          · rename_i empty
            exact .inr (.inl ⟨(some.inj called).symm, checked, watchPoint, built, accepted, made, .inl empty⟩)
          · split at called
            · rename_i none
              exact .inr (.inl ⟨(some.inj called).symm, checked, watchPoint, built, accepted, made, .inr none⟩)
            · exact .inr (.inr ⟨_, (some.inj called).symm⟩)
  · exact .inl (some.inj called).symm

theorem callback_of_leaks (leaks : Leaks env rules sorting (.deliver occurrence sysEvent)) :
    onEventListeningCallback env rules sorting occurrence sysEvent = some (1, []) := by
  obtain ⟨checked, watchPoint, built, ⟨rawData, decoded, present, read, valid, freeze, validated⟩, made, leaks⟩ := leaks
  rcases leaks with empty | none
  · simp [onEventListeningCallback, present, read, valid, freeze, validated, made, empty]
  · simp [onEventListeningCallback, present, read, valid, freeze, validated, made, none]

theorem step_balanced_iff (balanced : Balanced use) : ¬ Leaks env rules sorting label ↔
    ∀ next, step env rules sorting use label = some next → Balanced next := by
  have more (count : Nat) : Int64.ofNat (count + 1) = Int64.ofNat count + 1 := Int64.ofNat_add _ _
  simp only [Balanced] at balanced ⊢
  cases label with
  | deliver occurrence sysEvent =>
    constructor
    · intro sound next stepped
      obtain ⟨effect, called, rfl⟩ := Option.map_eq_some_iff.mp stepped
      rcases callback_effect called with rfl | ⟨rfl, leaks⟩ | ⟨task, rfl⟩
      · simp [balanced]
      · exact absurd leaks sound
      · simp [balanced, more]
    · intro kept leaks
      have counted := kept _ (Option.map_eq_some_iff.mpr ⟨_, callback_of_leaks leaks, rfl⟩)
      rw [balanced, List.append_nil] at counted
      have one : Int64.ofNat use.tasks.length + 1 = Int64.ofNat use.tasks.length := counted
      grind
  | finish index =>
    refine iff_of_true (fun leaks => leaks) fun next stepped => ?_
    rw [step] at stepped
    split at stepped
    · rename_i inside
      cases stepped
      have one : use.tasks.length = (use.tasks.eraseIdx index).length + 1 := by
        rw [List.length_eraseIdx_of_lt inside]
        omega
      rw [balanced, one]
      simp [more]
    · cases stepped

/-- The use count is the number of outstanding tasks all along a run exactly if no delivery leaks. -/
theorem useCount_balanced_iff (env : Environment) (rules : FreezeRuleCluster) (sorting : Sorting)
    (labels : List UseLabel) :
    (∀ taken rest use, labels = taken ++ rest → Transition.run (step env rules sorting) {} taken = some use →
        use.useCount = Int64.ofNat use.tasks.length) ↔
      Transition.Guarded (step env rules sorting) (fun _ label => ¬ Leaks env rules sorting label) {} labels :=
  (Transition.guarded_iff step_balanced_iff (fun _ _ balanced => balanced) id (show Balanced {} from rfl)).symm

/-- Only one domain and string id is a freeze event, and only by a link of another rule. -/
def sampleRules : FreezeRuleCluster :=
  FreezeRuleCluster.parseTagRules [⟨ascii "ACE", ascii "JS_ERROR", [[FreezeRuleCluster.appEvent "ACE" "UI_BLOCK"]]⟩]

/-- The sample event is counted, but has no log path. -/
theorem useCount_leaked :
    (Transition.run (step sampleEnvironment sampleRules .stable) {} [.deliver ⟨1, 2⟩ sampleEvent]).map
      (fun use => (use.useCount, use.tasks.length)) = some (1, 0) := by
  decide +kernel

end PluginUse
end Hiview.FreezeDetector
