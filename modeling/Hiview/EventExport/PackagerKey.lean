import Hiview.EventExport.PackagerAccount
import Hiview.Lib.Text

/-! Which events share a packager, and with it the header of its files. The key of a
packager joins the versions and the user with underscores, which the versions may
contain themselves. -/
namespace Hiview.EventExport
open List Numeral

/-- The first system version goes on with an underscore and a part of the second patch version. -/
def Shifted (first second : CachedEvent) : Prop :=
  first.uid = second.uid ∧ ∃ middle,
    first.version.systemVersion = second.version.systemVersion ++ 95 :: middle ∧
    second.version.patchVersion = middle ++ 95 :: first.version.patchVersion

namespace EventWriteHandler

theorem underscore_notMem_toString (num : Int) : (95 : UInt8) ∉ Numeral.toString num := by
  have digits : (95 : UInt8) ∉ Numeral.decimal num.natAbs := by
    intro member
    have small := (Numeral.decimal_chars num.natAbs 95 member).2
    exact absurd small (by decide)
  rw [Numeral.toString]
  split
  · rw [mem_cons, not_or]
    exact ⟨by decide, digits⟩
  · exact digits

theorem toString_injective (same : toString first = toString second) :
    first = second := by
  have signs := congrArg (extract 10) same
  rw [extract_toString, extract_toString, Option.some.injEq, Prod.mk.injEq, decide_eq_decide] at signs
  omega

/-- Two keys are equal for one user and one version, or when an underscore of a version can be
taken for the one between the versions. -/
theorem getPackagerKey_eq_iff (first second : CachedEvent) :
    getPackagerKey first = getPackagerKey second ↔
      (first.version = second.version ∧ first.uid = second.uid) ∨ Shifted first second ∨ Shifted second first := by
  have parts : ∀ event : CachedEvent, getPackagerKey event =
      (event.version.systemVersion ++ 95 :: event.version.patchVersion) ++ 95 :: Numeral.toString event.uid :=
    fun event => (append_assoc event.version.systemVersion (95 :: event.version.patchVersion) _).symm
  have version : first.version = second.version ↔
      first.version.systemVersion = second.version.systemVersion ∧
        first.version.patchVersion = second.version.patchVersion := by
    cases first.version
    cases second.version
    rw [EventVersion.mk.injEq]
  have user : Numeral.toString first.uid = Numeral.toString second.uid ↔ first.uid = second.uid :=
    ⟨toString_injective, congrArg Numeral.toString⟩
  rw [parts, parts, Text.append_last_inj (underscore_notMem_toString _) (underscore_notMem_toString _),
    Text.append_sep_eq_iff, user, ← version, Shifted, Shifted, @eq_comm _ second.uid]
  constructor
  · rintro ⟨same | front | back, uid⟩
    · exact .inl ⟨same, uid⟩
    · exact .inr (.inl ⟨uid, front⟩)
    · exact .inr (.inr ⟨uid, back⟩)
  · rintro (⟨same, uid⟩ | ⟨uid, front⟩ | ⟨uid, back⟩)
    · exact ⟨.inl same, uid⟩
    · exact ⟨.inr (.inl front), uid⟩
    · exact ⟨.inr (.inr back), uid⟩

/-- A packager holds given events with its key only. -/
def Packs (given : List CachedEvent) (item : List UInt8 × ExportEventPackager) : Prop :=
  ∀ event ∈ item.2.held, event ∈ given ∧ getPackagerKey event = item.1

/-- The events of every packager and of every file in the export directory have one key. -/
structure Sorted (given : List CachedEvent) (handler : EventWriteHandler) : Prop where
  packagers : ∀ item ∈ handler.packagers, Packs given item
  exported : ∀ file ∈ handler.exported, ∃ key, ∀ event ∈ file.events, event ∈ given ∧ getPackagerKey event = key

/-- What is left of the handler after a request or a part of it. -/
def after : Except Failure EventWriteHandler → EventWriteHandler
  | .ok next => next
  | .error failure => failure.handler

/-- The handler after requests, rolled back after each one that failed. -/
def handleAll (written : Nat → Bool) (requests : List EventWriteRequest) (handler : EventWriteHandler) :
    EventWriteHandler :=
  requests.foldl (fun handler request => match handler.handleRequest written request with
    | .ok next => next
    | .error failure => failure.handler.rollback) handler

/-- The events under one header: those of a packager, and those of a file in the export directory. -/
def packages (handler : EventWriteHandler) : List (List CachedEvent) :=
  (handler.packagers.map fun item => item.2.held) ++ handler.exported.map ZipFile.events

theorem appendEvent_subset (call : Nat) (done : Bool) (packager : ExportEventPackager) (event : CachedEvent) :
    (packager.appendEvent call done event).2.held ⊆ event :: packager.held := by
  cases result : (packager.appendEvent call done event).1 with
  | true => exact (packager.appendEvent_ok call done result).subset
  | false =>
    rw [packager.appendEvent_failed call done result]
    exact fun kept member => mem_cons_of_mem _ (packager.package_subset call done member)

variable {written : Nat → Bool} {calls : Nat} {packagers : List (List UInt8 × ExportEventPackager)}

theorem mem_appendTo (member : item ∈ (appendTo written calls event packagers).2.2) :
    item ∈ packagers ∨ ∃ packager call done, (getPackagerKey event, packager) ∈ packagers ∧
      item = (getPackagerKey event, (packager.appendEvent call done event).2) := by
  fun_induction appendTo written calls event packagers with
  | case1 => cases member
  | case2 packager =>
    rcases mem_cons.mp member with changed | later
    · exact .inr ⟨packager, calls, written calls, mem_cons_self, changed⟩
    · exact .inl (mem_cons_of_mem _ later)
  | case3 _ _ _ _ _ ih =>
    rcases mem_cons.mp member with kept | later
    · exact .inl (kept ▸ mem_cons_self)
    · refine (ih later).imp (mem_cons_of_mem _) ?_
      rintro ⟨packager, call, done, inside, changed⟩
      exact ⟨packager, call, done, mem_cons_of_mem _ inside, changed⟩

theorem mem_packageFrom (member : item ∈ (packageFrom written calls packagers).2.2) :
    ∃ packager, (item.1, packager) ∈ packagers ∧ item.2.held ⊆ packager.held := by
  fun_induction packageFrom written calls packagers with
  | case1 => cases member
  | case2 calls key packager rest packaged used done later ih =>
    rcases mem_cons.mp member with rfl | inside
    · exact ⟨packager, mem_cons_self, packager.package_subset calls (written calls)⟩
    · obtain ⟨before, inside, subset⟩ := ih inside
      exact ⟨before, mem_cons_of_mem _ inside, subset⟩
  | case3 calls key packager rest =>
    rcases mem_cons.mp member with rfl | inside
    · exact ⟨packager, mem_cons_self, packager.package_subset calls (written calls)⟩
    · exact ⟨item.2, mem_cons_of_mem _ inside, List.Subset.refl _⟩

section Keep
variable {given : List CachedEvent} (written : Nat → Bool) {handler : EventWriteHandler}

section
variable (sorted : Sorted given handler)
include sorted

theorem Sorted.appendEvent {event : CachedEvent} (known : event ∈ given) (maxFileSize : Nat) :
    Sorted given (after (appendEvent written maxFileSize handler event)) := by
  have found : ∀ item ∈ getEventPackager event.uid maxFileSize (getPackagerKey event) handler.packagers, Packs given item := by
    intro item member
    rcases mem_getEventPackager member with inside | rfl
    · exact sorted.packagers item inside
    · exact fun _ held => absurd held not_mem_nil
  have appended : ∀ item ∈ (appendTo written handler.calls event
      (getEventPackager event.uid maxFileSize (getPackagerKey event) handler.packagers)).2.2, Packs given item := by
    intro item member
    rcases mem_appendTo member with inside | ⟨packager, call, done, inside, rfl⟩
    · exact found item inside
    · intro one held
      rcases mem_cons.mp (appendEvent_subset call done packager event held) with rfl | earlier
      · exact ⟨known, rfl⟩
      · exact found _ inside one earlier
  rw [EventWriteHandler.appendEvent]
  split
  · exact ⟨appended, sorted.exported⟩
  · exact ⟨appended, sorted.exported⟩

theorem Sorted.appendAll (known : events ⊆ given) (maxFileSize : Nat) :
    Sorted given (after (events.foldlM (EventWriteHandler.appendEvent written maxFileSize) handler)) := by
  induction events generalizing handler with
  | nil => exact sorted
  | cons event rest ih =>
    have first := sorted.appendEvent written (known mem_cons_self) maxFileSize
    rw [foldlM_cons]
    cases result : EventWriteHandler.appendEvent written maxFileSize handler event with
    | ok next =>
      rw [result] at first
      exact ih first fun one member => known (mem_cons_of_mem _ member)
    | error failure =>
      rw [result] at first
      exact first

theorem Sorted.packageAll : Sorted given (after (handler.packageAll written)) := by
  have packaged : ∀ item ∈ (packageFrom written handler.calls handler.packagers).2.2, Packs given item := by
    intro item member event held
    obtain ⟨packager, inside, subset⟩ := mem_packageFrom member
    exact sorted.packagers _ inside event (subset held)
  rw [EventWriteHandler.packageAll]
  split
  · exact ⟨packaged, sorted.exported⟩
  · exact ⟨packaged, sorted.exported⟩

theorem Sorted.cleared :
    ∀ item ∈ clearFiles handler.packagers, Packs given item := by
  intro item member event held
  obtain ⟨before, inside, rfl⟩ := mem_map.mp member
  have cached : event ∈ before.2.packagedEvents.events := by
    simpa [ExportEventPackager.held, ExportEventPackager.clearPackagedFiles] using held
  exact sorted.packagers before inside event (mem_append_left _ cached)

theorem Sorted.finish : Sorted given handler.finish := by
  refine ⟨sorted.cleared, fun file member => ?_⟩
  rcases mem_append.mp member with earlier | moved
  · exact sorted.exported file earlier
  · obtain ⟨item, inside, packaged⟩ := mem_flatMap.mp moved
    refine ⟨item.1, fun event held => sorted.packagers item inside event ?_⟩
    exact mem_append_right _ (mem_flatMap.mpr ⟨file, packaged, held⟩)

theorem Sorted.handleRequest (known : request.events ⊆ given) :
    Sorted given (after (handler.handleRequest written request)) := by
  have appended := sorted.appendAll written known request.maxSingleFileSize
  rw [EventWriteHandler.handleRequest]
  split
  · case h_1 failure failed =>
    rw [failed] at appended
    exact appended
  · case h_2 next done =>
    rw [done] at appended
    split
    · exact appended
    · have packaged := Sorted.packageAll written (show Sorted given next from appended)
      split
      · case h_1 failure failed =>
        rw [failed] at packaged
        exact packaged
      · case h_2 all packed =>
        rw [packed] at packaged
        exact packaged.finish

theorem Sorted.handleAll (known : ∀ request ∈ requests, request.events ⊆ given) :
    Sorted given (handleAll written requests handler) := by
  induction requests generalizing handler with
  | nil => exact sorted
  | cons request rest ih =>
    obtain ⟨first, others⟩ := forall_mem_cons.mp known
    have handled := sorted.handleRequest written first
    rw [handleAll, foldl_cons]
    cases result : handler.handleRequest written request with
    | ok next =>
      rw [result] at handled
      exact ih handled others
    | error failure =>
      rw [result] at handled
      exact ih (show Sorted given failure.handler.rollback from ⟨handled.cleared, handled.exported⟩) others

end

end Keep

def requested (requests : List EventWriteRequest) : List CachedEvent := requests.flatMap EventWriteRequest.events

theorem not_shifted_self {first second : CachedEvent} (same : first.version = second.version) :
    ¬ Shifted first second := by
  rintro ⟨-, middle, system, -⟩
  have length := congrArg List.length system
  rw [same, length_append, length_cons] at length
  omega

theorem separates_iff (events : List CachedEvent) :
    (∀ first ∈ events, ∀ second ∈ events, getPackagerKey first = getPackagerKey second →
        first.version = second.version ∧ first.uid = second.uid) ↔
      ∀ first ∈ events, ∀ second ∈ events, ¬ Shifted first second := by
  constructor
  · intro injective first known second given shifted
    have same := injective first known second given ((getPackagerKey_eq_iff first second).mpr (.inr (.inl shifted)))
    exact not_shifted_self same.1 shifted
  · intro apart first known second given same
    rcases (getPackagerKey_eq_iff first second).mp same with equal | shifted | shifted
    · exact equal
    · exact absurd shifted (apart first known second given)
    · exact absurd shifted (apart second given first known)

/-- The key tells versions and users apart exactly when no underscore of a version can be taken for
the one between the versions; then events are packaged together only if both are the same. -/
theorem packages_uniform (written : Nat → Bool) (requests : List EventWriteRequest) :
    ((∀ first ∈ requested requests, ∀ second ∈ requested requests,
        getPackagerKey first = getPackagerKey second →
          first.version = second.version ∧ first.uid = second.uid) ↔
      ∀ first ∈ requested requests, ∀ second ∈ requested requests, ¬ Shifted first second) ∧
    ((∀ first ∈ requested requests, ∀ second ∈ requested requests, ¬ Shifted first second) →
      ∀ package ∈ (handleAll written requests new).packages, ∀ first ∈ package, ∀ second ∈ package,
        first.version = second.version ∧ first.uid = second.uid) := by
  refine ⟨separates_iff (requested requests), fun apart package member first inside second other => ?_⟩
  have fresh : Sorted (requested requests) new :=
    ⟨fun _ none => absurd none not_mem_nil, fun _ none => absurd none not_mem_nil⟩
  have sorted := fresh.handleAll written fun request asked event known =>
    mem_flatMap.mpr ⟨request, asked, known⟩
  have oneKey : ∃ key, ∀ event ∈ package, event ∈ requested requests ∧ getPackagerKey event = key := by
    rcases mem_append.mp member with held | exported
    · obtain ⟨item, known, rfl⟩ := mem_map.mp held
      exact ⟨item.1, sorted.packagers item known⟩
    · obtain ⟨file, known, rfl⟩ := mem_map.mp exported
      exact sorted.exported file known
  obtain ⟨key, uniform⟩ := oneKey
  obtain ⟨known, keyed⟩ := uniform first inside
  obtain ⟨given, same⟩ := uniform second other
  exact (separates_iff (requested requests)).mpr apart first known second given (keyed.trans same.symm)

def versionedEvent (systemVersion patchVersion : String) : CachedEvent :=
  ⟨⟨Numeral.ascii systemVersion, Numeral.ascii patchVersion⟩, [], [], [], 0, 0⟩

theorem packages_uniform_apart :
    (handleAll (fun _ => true) [⟨[versionedEvent "5.0" "1", versionedEvent "5.1" "1"], false, 1⟩] new).packages =
        [[versionedEvent "5.0" "1"], [versionedEvent "5.1" "1"]] ∧
      ∀ package ∈ (handleAll (fun _ => true)
          [⟨[versionedEvent "5.0" "1", versionedEvent "5.1" "1"], false, 1⟩] new).packages,
        ∀ first ∈ package, ∀ second ∈ package, first.version = second.version ∧ first.uid = second.uid := by
  refine ⟨by decide +kernel, (packages_uniform (fun _ => true)
    [⟨[versionedEvent "5.0" "1", versionedEvent "5.1" "1"], false, 1⟩]).2 ?_⟩
  have plain : ∀ event ∈ requested [⟨[versionedEvent "5.0" "1", versionedEvent "5.1" "1"], false, 1⟩],
      (95 : UInt8) ∉ event.version.systemVersion := by decide +kernel
  rintro first known second - ⟨-, middle, system, -⟩
  refine plain first known ?_
  rw [system]
  exact mem_append_right _ mem_cons_self

/-- Two events with different versions share a packager. -/
theorem packages_shifted :
    (handleAll (fun _ => true) [⟨[versionedEvent "5.0_1" "2", versionedEvent "5.0" "1_2"], false, 1⟩] new).packages =
        [[versionedEvent "5.0_1" "2", versionedEvent "5.0" "1_2"]] ∧
      (versionedEvent "5.0_1" "2").version ≠ (versionedEvent "5.0" "1_2").version := by
  decide +kernel

end EventWriteHandler
end Hiview.EventExport
