import Hiview.EventRaw.RoundTrip
import Mathlib.Data.List.Induction

/-! The deduplication of the event validator: an event is known by a hash of the first 256
bytes of its raw data, and compared with the last 25 events that were accepted. -/
namespace Hiview.EventValidator
open List

structure VerifiedEvent where
  domain : List UInt8
  eventName : List UInt8
  eventType : Int32
  rawData : List UInt8
  deriving DecidableEq

/-- Why an event is rejected, or that it is not. -/
inductive Verdict where
  | invalid
  | duplicate
  | accepted
  deriving DecidableEq

/-- The hash of some bytes, from its basis and prime. -/
def hashOf (bytes : List UInt8) : UInt64 :=
  bytes.foldl (fun hash byte => (hash ^^^ byte.toUInt64) * 0x100000001B3) 0xCBF29CE484222325

def infoLenLimit : Nat := 256

def VerifiedEvent.hashed (event : VerifiedEvent) : List UInt8 := event.rawData.take infoLenLimit

def generateHash (event : VerifiedEvent) : UInt64 := hashOf event.hashed

namespace EventVerifyUtil

def maxSize : Nat := 25

def isDuplicateEvent (eventIdList : List UInt64) (eventId : UInt64) : Bool × List UInt64 :=
  if eventId ∈ eventIdList then (true, eventIdList)
  else (false, (if eventIdList.length ≥ maxSize then eventIdList.tail else eventIdList) ++ [eventId])

variable (definedType : List UInt8 → List UInt8 → Option Int32)

def isValidSysEvent (eventIdList : List UInt64) (event : VerifiedEvent) : Verdict × List UInt64 :=
  if event.domain = [] ∨ event.eventName = [] then (.invalid, eventIdList)
  else
    match definedType event.domain event.eventName with
    | none => (.invalid, eventIdList)
    | some type =>
      if event.eventType ≠ type then (.invalid, eventIdList)
      else
        let checked := isDuplicateEvent eventIdList (generateHash event)
        (if checked.1 then .duplicate else .accepted, checked.2)

/-- The event has a valid definition. -/
def Defined (event : VerifiedEvent) : Prop :=
  event.domain ≠ [] ∧ event.eventName ≠ [] ∧ definedType event.domain event.eventName = some event.eventType

/-- The queue, with all events accepted so far. -/
structure Verified where
  eventIdList : List UInt64 := []
  accepted : List VerifiedEvent := []

def verify (verified : Verified) (event : VerifiedEvent) : Verified :=
  let result := isValidSysEvent definedType verified.eventIdList event
  ⟨result.2, if result.1 = .accepted then verified.accepted ++ [event] else verified.accepted⟩

def recent (accepted : List VerifiedEvent) : List VerifiedEvent := accepted.drop (accepted.length - maxSize)

theorem recent_append (accepted : List VerifiedEvent) (event : VerifiedEvent) :
    recent (accepted ++ [event]) =
      (if (recent accepted).length ≥ maxSize then (recent accepted).tail else recent accepted) ++ [event] := by
  simp only [recent, maxSize, length_drop, length_append, length_singleton]
  split
  · have more : accepted.length + 1 - 25 = accepted.length - 25 + 1 := by omega
    rw [more, drop_append_of_le_length (by omega), tail_drop]
  · have none : accepted.length + 1 - 25 = accepted.length - 25 := by omega
    rw [none, drop_append_of_le_length (by omega)]

variable {definedType}

theorem isValidSysEvent_defined (defined : Defined definedType event) (eventIdList : List UInt64) :
    isValidSysEvent definedType eventIdList event =
      if generateHash event ∈ eventIdList then (.duplicate, eventIdList)
      else (.accepted, (if eventIdList.length ≥ maxSize then eventIdList.tail else eventIdList) ++ [generateHash event]) := by
  obtain ⟨domain, name, type⟩ := defined
  rw [isValidSysEvent, if_neg (by simp [domain, name]), type]
  simp only [ne_eq, not_true, if_false, isDuplicateEvent]
  split <;> rfl

theorem isValidSysEvent_undefined (undefined : ¬ Defined definedType event) (eventIdList : List UInt64) :
    isValidSysEvent definedType eventIdList event = (.invalid, eventIdList) := by
  rw [isValidSysEvent]
  split
  · rfl
  · split
    · rfl
    · rename_i named _ type found
      have other : event.eventType ≠ type := fun same =>
        undefined ⟨fun empty => named (.inl empty), fun empty => named (.inr empty), same ▸ found⟩
      rw [if_pos other]

/-- The queue holds the hashes of the most recent events accepted. -/
def Queued (verified : Verified) : Prop := verified.eventIdList = (recent verified.accepted).map generateHash

theorem Queued.verify (queued : Queued verified) (event : VerifiedEvent) : Queued
    (verify definedType verified event) := by
  rw [Queued] at queued
  by_cases defined : Defined definedType event
  · rw [Queued, EventVerifyUtil.verify, isValidSysEvent_defined defined]
    split
    · exact queued
    · simp only [↓reduceIte, recent_append, map_append, queued, length_map]
      split <;> simp
  · rw [Queued, EventVerifyUtil.verify, isValidSysEvent_undefined defined]
    exact queued

theorem verified_run (events : List VerifiedEvent) :
    Queued (events.foldl (verify definedType) {}) ∧ (events.foldl (verify definedType) {}).accepted ⊆ events := by
  induction events using List.reverseRecOn with
  | nil => exact ⟨rfl, List.Subset.refl _⟩
  | append_singleton before event ih =>
    rw [foldl_append]
    refine ⟨ih.1.verify event, fun other member => ?_⟩
    simp only [foldl_cons, foldl_nil, verify] at member
    split at member
    · exact mem_append.mpr ((mem_append.mp member).imp_left fun old => ih.2 old)
    · exact mem_append_left _ (ih.2 member)

/-- If the hash tells apart what it is computed from, and that the raw data, exactly the repeated
events of the last 25 accepted are duplicates. -/
theorem duplicate_iff_repeated (definedType : List UInt8 → List UInt8 → Option Int32) (events : List VerifiedEvent)
    (event : VerifiedEvent) (defined : Defined definedType event)
    (injective : ∀ earlier ∈ events, generateHash earlier = generateHash event → earlier.hashed = event.hashed)
    (prefixApart : ∀ earlier ∈ events, earlier.hashed = event.hashed → earlier.rawData = event.rawData) :
    (isValidSysEvent definedType (events.foldl (verify definedType) {}).eventIdList event).1 = .duplicate ↔
      ∃ earlier ∈ recent (events.foldl (verify definedType) {}).accepted, earlier.rawData = event.rawData := by
  obtain ⟨queued, within⟩ := @verified_run definedType events
  have listed : generateHash event ∈ (events.foldl (verify definedType) {}).eventIdList ↔
      ∃ earlier ∈ recent (events.foldl (verify definedType) {}).accepted, earlier.rawData = event.rawData := by
    rw [queued, mem_map]
    refine exists_congr fun earlier => and_congr_right fun member => ⟨fun same => ?_, fun same => ?_⟩
    · have known := within (mem_of_mem_drop member)
      exact prefixApart earlier known (injective earlier known same)
    · rw [generateHash, generateHash, VerifiedEvent.hashed, VerifiedEvent.hashed, same]
  rw [isValidSysEvent_defined defined, ← listed]
  split <;> simp_all

open EventRaw in
/-- An event with a text that goes beyond the first 256 bytes. -/
def longEvent (last : UInt8) : VerifiedEvent := ⟨[65], [66], 1, (RawDataBuilder.run [.domain [65], .name [66],
  .type 1, .value [75] (.string (List.replicate 200 120 ++ [last]))]).block⟩

theorem duplicate_iff_repeated_same :
    (isValidSysEvent (fun _ _ => some 1) ([longEvent 120].foldl (verify fun _ _ => some 1) {}).eventIdList
      (longEvent 120)).1 = .duplicate :=
  (duplicate_iff_repeated (fun _ _ => some 1) [longEvent 120] (longEvent 120) ⟨by decide, by decide, rfl⟩
    (by simp) (by simp)).mpr ⟨longEvent 120, by decide +kernel, rfl⟩

/-- Two events that differ behind the first 256 bytes. -/
theorem different_duplicate :
    (∀ last ∈ [120, 121], ∃ decoded ∈ EventRaw.DecodedEvent.new (longEvent last).rawData,
      decoded.isValid = true ∧ decoded.event.domain = (longEvent last).domain ∧
        decoded.event.name = (longEvent last).eventName) ∧
    (longEvent 120).rawData ≠ (longEvent 121).rawData ∧
      (isValidSysEvent (fun _ _ => some 1) ([longEvent 120].foldl (verify fun _ _ => some 1) {}).eventIdList
        (longEvent 121)).1 = .duplicate := by
  decide +kernel

end EventVerifyUtil
end Hiview.EventValidator
