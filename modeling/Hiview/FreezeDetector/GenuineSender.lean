import Hiview.FreezeDetector.WatchPoint

/-! What an untrusted sender can bring into a watch point. The validator and the watch
point read an event through its builder, and between the two only the texts on binders
change. -/
namespace Hiview.FreezeDetector
open Base EventFieldValidator EventRaw List
open Numeral (ascii)
open Assoc (lookup)
open BaseInfoKey (ofText)
open EventFieldValidator (asJsonStr checkFields checkIdentityField checkIdentityFields isAcceptedPath
  isSafeName validateEvent)
open Option (bind_eq_bind bind_eq_some_iff bind_some map_eq_some_iff some_inj)
open RawDataBuilder (isBaseInfo placed)

section Reading
variable {event other : Event} {key : List UInt8}

theorem getEventValue_congr (plain : ofText key = none) (same : other.getValue key = event.getValue key) :
    other.getEventValue key = event.getEventValue key := by
  simp only [Event.getEventValue, Event.parseString, Event.parseValueByKey, plain, same]

theorem getEventIntValue_congr (plain : ofText key = none)
    (same : other.getValue key = event.getValue key) : other.getEventIntValue key = event.getEventIntValue key := by
  simp only [Event.getEventIntValue, Event.parseInt64, Event.parseUint64, Event.parseDouble, Event.parseValueByKey,
    plain, same]

theorem lookup_placed (param : EncodedParam) (params : List EncodedParam) (key : List UInt8) :
    Assoc.lookup ((placed param params).map fun param => (param.key, param.value)) key =
      if param.key = key then some param.value
      else Assoc.lookup (params.map fun param => (param.key, param.value)) key := by
  fun_induction placed param params with
  | case1 =>
    rw [map_singleton, Assoc.lookup_cons]
    rfl
  | case2 first rest same =>
    rw [map_cons, map_cons, Assoc.lookup_cons, Assoc.lookup_cons, same]
    split <;> rfl
  | case3 first rest other ih =>
    rw [map_cons, map_cons, Assoc.lookup_cons, Assoc.lookup_cons, ih]
    by_cases here : first.key = key
    · rw [if_pos here, if_neg fun same => other (here.trans same.symm), if_pos here]
    · rw [if_neg here, if_neg here]

theorem getValue_appendText (builder : RawDataBuilder) (plain : isBaseInfo field = false)
    (text key : List UInt8) :
    (builder.appendValue field (.string text)).event.getValue key =
      if field = key then some (.dstring text) else builder.event.getValue key := by
  obtain ⟨param, _, rfl, value, appended⟩ := builder.appendParam_eq field (.dstring text)
  rw [RawDataBuilder.appendValue_of_plain plain, Argument.value, appended]
  change lookup ((placed param builder.allParams).map fun param => (param.key, param.value)) key = _
  rw [lookup_placed, value]
  rfl

end Reading

/-- The event reads through the builder and has the members of its sender. -/
structure ReadsBy (sysEvent : SysEvent) (builder : RawDataBuilder) (members : Members) : Prop where
  builder : sysEvent.builder = some builder
  members : sysEvent.members = members

/-- Every parameter but that of one key is the same. -/
def SameBut (field : List UInt8) (before after : RawDataBuilder) : Prop :=
  ∀ key, key ≠ field → after.event.getValue key = before.event.getValue key

section Steps
variable {sysEvent next : SysEvent} {builder : RawDataBuilder} {members : Members} {env : Environment} {passed : Bool}

theorem initBuilder_readsBy (made : sysEvent.initBuilder = some (builder, next)) :
    ReadsBy next builder sysEvent.members := by
  unfold SysEvent.initBuilder at made
  cases present : sysEvent.builder with
  | some old =>
    rw [present] at made
    obtain ⟨rfl, rfl⟩ := Prod.mk.inj (some_inj.mp made)
    exact ⟨present, rfl⟩
  | none =>
    rw [present] at made
    obtain ⟨fresh, _, same⟩ := map_eq_some_iff.mp made
    obtain ⟨rfl, rfl⟩ := Prod.mk.inj same
    exact ⟨rfl, rfl⟩

section
variable (reads : ReadsBy sysEvent builder members)
include reads

theorem ReadsBy.initBuilder :
    sysEvent.initBuilder = some (builder, sysEvent) := by
  rw [SysEvent.initBuilder, reads.builder]

theorem ReadsBy.setText (set : sysEvent.setEventCString field text = some next) :
    ReadsBy next (builder.appendValue field (.string text)) members := by
  unfold SysEvent.setEventCString at set
  rw [reads.initBuilder] at set
  obtain rfl := some_inj.mp set
  exact ⟨rfl, reads.members⟩

theorem ReadsBy.tryToUpdateRawData (updated : sysEvent.tryToUpdateRawData = some (passed, next)) :
    ∃ later, ReadsBy next later members ∧ later.event.params = builder.event.params := by
  unfold SysEvent.tryToUpdateRawData at updated
  rw [reads.initBuilder] at updated
  cases rawData : sysEvent.rawData with
  | none =>
    simp [rawData] at updated
    obtain ⟨_, rfl⟩ := updated
    exact ⟨builder, reads, rfl⟩
  | some block =>
    cases changed : sysEvent.isUpdated with
    | false =>
      simp [rawData, changed] at updated
      obtain ⟨_, rfl⟩ := updated
      exact ⟨builder, reads, rfl⟩
    | true =>
      simp only [rawData, changed, Option.isNone_some, Bool.false_eq_true, if_false, bind_eq_bind,
        bind_some, Bool.true_eq_false] at updated
      refine ⟨builder.appendLog sysEvent.log, ?_, rfl⟩
      split at updated
      · obtain ⟨_, rfl⟩ := Prod.mk.inj (some_inj.mp updated)
        exact ⟨rfl, reads.members⟩
      · obtain ⟨_, rfl⟩ := Prod.mk.inj (some_inj.mp updated)
        exact ⟨rfl, reads.members⟩

theorem ReadsBy.checkStackAndBinderPaths
    (checked : EventFieldValidator.checkStackAndBinderPaths env event sysEvent = some (passed, next)) :
    ∃ later, ReadsBy next later members := by
  unfold EventFieldValidator.checkStackAndBinderPaths at checked
  dsimp only at checked
  split at checked
  · obtain ⟨_, rfl⟩ := Prod.mk.inj (some_inj.mp checked)
    exact ⟨builder, reads⟩
  · split at checked
    · obtain ⟨_, rfl⟩ := Prod.mk.inj (some_inj.mp checked)
      exact ⟨builder, reads⟩
    · split at checked
      · obtain ⟨cleared, set, same⟩ := map_eq_some_iff.mp checked
        obtain ⟨_, rfl⟩ := Prod.mk.inj same
        exact ⟨_, reads.setText set⟩
      · obtain ⟨_, rfl⟩ := Prod.mk.inj (some_inj.mp checked)
        exact ⟨builder, reads⟩

theorem ReadsBy.checkContentFields
    (checked : EventFieldValidator.checkContentFields env event sysEvent = some (passed, next)) :
    ∃ later, ReadsBy next later members ∧ later.event.params = builder.event.params := by
  obtain ⟨⟨json, afterJson⟩, rendered, rest⟩ := bind_eq_some_iff.mp checked
  obtain ⟨⟨updated, afterUpdate⟩, update, decoded⟩ := bind_eq_some_iff.mp rendered
  obtain ⟨_, rfl⟩ := Prod.mk.inj (some_inj.mp rest)
  have same : afterUpdate = afterJson := by
    cases updated with
    | false => exact (Prod.mk.inj (some_inj.mp decoded)).2
    | true =>
      obtain ⟨_, _, rendering⟩ := bind_eq_some_iff.mp decoded
      exact (Prod.mk.inj (some_inj.mp rendering)).2
  exact same ▸ reads.tryToUpdateRawData update

end

def hicollieBinderInfo : List UInt8 := ascii "HICOLLIE_BINDER_INFO"

theorem hicollieBinderInfo_plain : ofText hicollieBinderInfo = none := by
  decide +kernel

theorem ReadsBy.stripUntrustedBinderInfo (reads : ReadsBy sysEvent builder members)
    (same : ∀ key, builder.event.getValue key = event.getValue key)
    (stripped : EventFieldValidator.stripUntrustedBinderInfo event sysEvent = some (passed, next)) :
    ∃ later, ReadsBy next later members ∧ SameBut hicollieBinderInfo builder later ∧
      later.event.getEventValue hicollieBinderInfo = [] := by
  unfold EventFieldValidator.stripUntrustedBinderInfo at stripped
  have plain := hicollieBinderInfo_plain
  split at stripped
  · obtain ⟨cleared, set, moved⟩ := Option.map_eq_some_iff.mp stripped
    obtain ⟨_, rfl⟩ := Prod.mk.inj moved
    have noBase : isBaseInfo hicollieBinderInfo = false := by
      rfl
    have values := getValue_appendText builder noBase []
    refine ⟨_, reads.setText set, ?_, ?_⟩
    · intro key different
      exact (values key).trans (if_neg different.symm)
    · have empty := (values hicollieBinderInfo).trans (if_pos rfl)
      exact congrArg (fun value => (Option.bind value Value.string?).getD []) empty
  · rename_i present
    obtain ⟨_, rfl⟩ := Prod.mk.inj (Option.some_inj.mp stripped)
    refine ⟨builder, reads, fun _ _ => rfl, ?_⟩
    exact (getEventValue_congr plain (same _)).trans (not_not.mp present)

end Steps

/-- What the checks of the fields have made sure of. -/
structure FieldsChecked (env : Environment) (members : Members) (event : Event) : Prop where
  identity : EventFieldValidator.checkIdentityFields members event = true
  numeric : EventFieldValidator.checkNumericFields event = true
  names : EventFieldValidator.checkNameFields event = true
  paths : EventFieldValidator.checkPathFields env members event = true

/-- An accepted event of an untrusted sender: the checks have passed on a builder that the
event still reads by, but for the text on binders, which is empty. -/
theorem validateEvent_untrusted (untrusted : 10000 < sysEvent.members.uid)
    (valid : validateEvent env sysEvent = some (true, accepted)) :
    ∃ checked final, FieldsChecked env sysEvent.members checked ∧ ReadsBy accepted final sysEvent.members ∧
      (∀ key, key ≠ hicollieBinderInfo → final.event.getValue key = checked.getValue key) ∧
      final.event.getEventValue hicollieBinderInfo = [] := by
  unfold validateEvent at valid
  dsimp only at valid
  split at valid
  · cases (Prod.mk.inj (some_inj.mp valid)).1
  · obtain ⟨⟨first, afterInit⟩, made, valid⟩ := bind_eq_some_iff.mp valid
    obtain ⟨⟨passed, afterPaths⟩, paths, valid⟩ := bind_eq_some_iff.mp valid
    obtain ⟨builder, reads⟩ := (initBuilder_readsBy made).checkStackAndBinderPaths paths
    split at valid
    · cases (Prod.mk.inj (some_inj.mp valid)).1
    · split at valid
      · rename_i trusted
        have most : sysEvent.members.uid ≤ 10000 := of_decide_eq_true trusted
        exact absurd untrusted (Int32.not_lt.mpr most)
      · unfold validateUntrustedEvent at valid
        rw [reads.initBuilder] at valid
        simp only [bind_eq_bind, bind_some, reads.members] at valid
        split at valid
        · cases (Prod.mk.inj (some_inj.mp valid)).1
        · rename_i fields
          simp only [Bool.or_eq_true, Bool.not_eq_true', not_or, Bool.not_eq_false] at fields
          obtain ⟨⟨⟨identity, numeric⟩, names⟩, trusted⟩ := fields
          obtain ⟨⟨content, afterContent⟩, contents, valid⟩ := bind_eq_some_iff.mp valid
          obtain ⟨later, readsLater, params⟩ := reads.checkContentFields contents
          split at valid
          · cases (Prod.mk.inj (some_inj.mp valid)).1
          · have same (key : List UInt8) : later.event.getValue key = builder.event.getValue key := by
              rw [Event.getValue, Event.getValue, params]
            obtain ⟨final, readsFinal, others, empty⟩ := readsLater.stripUntrustedBinderInfo same valid
            refine ⟨builder.event, final, ⟨identity, numeric, names, trusted⟩, readsFinal, ?_, empty⟩
            intro key different
            exact (others key different).trans (same key)

/-- Letters, digits, dots, underscores, colons and hyphens. -/
def IsNameChar (char : UInt8) : Prop :=
  (97 ≤ char ∧ char ≤ 122) ∨ (65 ≤ char ∧ char ≤ 90) ∨ (48 ≤ char ∧ char ≤ 57) ∨ char ∈ ascii "._:-"

instance : DecidablePred IsNameChar := fun char =>
  inferInstanceAs (Decidable ((97 ≤ char ∧ char ≤ 122) ∨ (65 ≤ char ∧ char ≤ 90) ∨ (48 ≤ char ∧ char ≤ 57) ∨
    char ∈ ascii "._:-"))

def IsName (text : List UInt8) : Prop := ∀ char ∈ text, IsNameChar char

/-- Nothing, or an absolute path without `..` under an allowed root. -/
def IsLogPath (path : List UInt8) : Prop :=
  path = [] ∨ (path.head? = some 47 ∧ ¬ ascii ".." <:+: path ∧
    (ascii "/data/log/" <+: path ∨ ascii "/data/service/el2/" <+: path))

/-- What a watch point says of its sender is true, and its texts are harmless. -/
structure Genuine (members : Members) (watchPoint : WatchPoint) : Prop where
  pid : watchPoint.params.pid = members.pid.toInt64
  uid : watchPoint.params.uid = members.uid.toInt64
  packageName : IsName watchPoint.params.packageName
  processName : IsName watchPoint.params.processName
  taskName : IsName watchPoint.params.taskName
  freezeExtFile : IsLogPath watchPoint.params.freezeExtFile

theorem safeNameChars_isNameChar : ∀ char ∈ safeNameChars, IsNameChar char := by
  decide +kernel

theorem isName_of_isSafeName (safe : isSafeName value = true) :
    IsName value := by
  unfold isSafeName at safe
  split at safe
  · cases safe
  · intro char member
    exact safeNameChars_isNameChar char (of_decide_eq_true (all_eq_true.mp safe char member))

theorem isLogPath_of_isAcceptedPath (safe : isAcceptedPath env path senderUid = true) :
    IsLogPath path := by
  revert safe
  fun_cases isAcceptedPath env path senderUid with
  | case1 empty => exact fun _ => .inl empty
  | case5 _ shape chars root =>
    intro _
    rw [not_or, not_not] at shape
    rw [Bool.or_eq_true, not_or] at chars
    refine .inr ⟨shape.2, ?_, ?_⟩
    · rintro ⟨before, after, split⟩
      apply chars.1
      rw [← split]
      exact Text.contains_middle before _ after
    · rw [Bool.not_eq_true', Bool.not_eq_false] at root
      obtain ⟨allowed, member, begins⟩ := any_eq_true.mp root
      have under := isPrefixOf_iff_prefix.mp begins
      obtain rfl | member := mem_cons.mp member
      · exact .inl under
      · rw [mem_singleton.mp member] at under
        exact .inr under
  | _ => nofun

section Fields
variable {env : Environment} {members : Members} {event : Event}

theorem numberOr_sender (checked : checkIdentityField event field sender = true) :
    numberOr event field sender = sender.toInt64 := by
  unfold checkIdentityField at checked
  unfold numberOr
  dsimp only at checked
  split at checked
  · rename_i given
    rw [if_pos given]
    exact of_decide_eq_true checked
  · rename_i absent
    rw [if_neg absent]

theorem checkIdentityFields_each (checked : checkIdentityFields members event = true) :
    checkIdentityField event (ascii "PID") members.pid = true ∧
      checkIdentityField event (ascii "UID") members.uid = true := by
  revert checked
  fun_cases checkIdentityFields members event with
  | case4 _ pid uid =>
    rw [Bool.not_eq_true', Bool.not_eq_false] at pid uid
    exact fun _ => ⟨pid, uid⟩
  | _ => nofun

theorem checkFields_field (checked : checkFields event fields check = true)
    (member : field ∈ fields) :
    event.getEventValue field = [] ∨ check (event.getEventValue field) = true := by
  simpa using all_eq_true.mp checked field member

theorem FieldsChecked.name (checked : FieldsChecked env members event) (member : field ∈ nameFields) :
    IsName (event.getEventValue field) := by
  obtain empty | safe := checkFields_field checked.names member
  · rw [empty]
    intro char inside
    cases inside
  · exact isName_of_isSafeName safe

theorem FieldsChecked.path (checked : FieldsChecked env members event) :
    IsLogPath (event.getEventValue (ascii "FREEZE_INFO_PATH")) := by
  obtain empty | safe := checkFields_field checked.paths (mem_singleton_self _)
  · exact .inl empty
  · exact isLogPath_of_isAcceptedPath safe

/-- The fields that a genuine watch point is about. -/
def watchedFields : List (List UInt8) :=
  [ascii "PID", ascii "UID", ascii "PACKAGE_NAME", ascii "PROCESS_NAME", ascii "TASK_NAME", ascii "FREEZE_INFO_PATH"]

theorem watchedFields_plain :
    ∀ field ∈ watchedFields, ofText field = none ∧ field ≠ hicollieBinderInfo := by
  decide +kernel

theorem FieldsChecked.genuine (checked : FieldsChecked env members event)
    (same : ∀ key, key ≠ hicollieBinderInfo → final.getValue key = event.getValue key) (occurrence : Occurrence)
    (domain stringId : List UInt8) (timestamp : UInt64) :
    Genuine members ⟨extractWatchPointParams occurrence members final, domain, stringId, timestamp⟩ := by
  have text (field : List UInt8) (watched : field ∈ watchedFields) :
      final.getEventValue field = event.getEventValue field := by
    obtain ⟨plain, other⟩ := watchedFields_plain field watched
    exact getEventValue_congr plain (same field other)
  have number (field : List UInt8) (sender : Int32) (watched : field ∈ watchedFields) :
      numberOr final field sender = numberOr event field sender := by
    obtain ⟨plain, other⟩ := watchedFields_plain field watched
    unfold numberOr
    rw [getEventIntValue_congr plain (same field other)]
  have name (field : List UInt8) (watched : field ∈ watchedFields) (member : field ∈ nameFields) :
      IsName (final.getEventValue field) := by
    rw [text field watched]
    exact checked.name member
  obtain ⟨pid, uid⟩ := checkIdentityFields_each checked.identity
  constructor
  · dsimp only [extractWatchPointParams]
    rw [number _ _ (by simp [watchedFields])]
    exact numberOr_sender pid
  · dsimp only [extractWatchPointParams]
    rw [number _ _ (by simp [watchedFields])]
    exact numberOr_sender uid
  · exact name _ (by simp [watchedFields]) (by simp [nameFields])
  · exact name _ (by simp [watchedFields]) (by simp [nameFields])
  · exact name _ (by simp [watchedFields]) (by simp [nameFields])
  · dsimp only [extractWatchPointParams]
    rw [text _ (by simp [watchedFields])]
    exact checked.path

end Fields

theorem accepted_genuine (env : Environment) (occurrence : Occurrence) (sysEvent accepted : SysEvent)
    (untrusted : 10000 < sysEvent.members.uid)
    (valid : validateEvent env sysEvent = some (true, accepted)) :
    (∃ watchPoint, FreezeDetectorPlugin.makeWatchPoint occurrence accepted = some (watchPoint, accepted) ∧
      Genuine sysEvent.members watchPoint) ∧
    ∃ report, accepted.getters (ascii "HICOLLIE_BINDER_INFO") = some (report, accepted) ∧ report.eventValue = [] := by
  obtain ⟨checked, final, fields, reads, same, empty⟩ := validateEvent_untrusted untrusted valid
  constructor
  · refine ⟨_, ?_, fields.genuine same occurrence accepted.members.domain accepted.members.eventName
      occurrence.happenTime⟩
    rw [FreezeDetectorPlugin.makeWatchPoint, reads.initBuilder, ← reads.members]
    rfl
  · refine ⟨final.event.report (ascii "HICOLLIE_BINDER_INFO"), ?_, empty⟩
    rw [SysEvent.getters, reads.initBuilder]
    rfl

/-- An application that gives its own identity, once as a number and once as a text, and a
text on binders. -/
def sampleCalls : List Setter :=
  [.domain (ascii "ACE"), .name (ascii "UI_BLOCK"), .pid 7, .uid 20000,
    .value (ascii "PID") (.signedNum (.int32 7)), .value (ascii "UID") (.string (ascii "20000")),
    .value (ascii "PACKAGE_NAME") (.string (ascii "com.app")),
    .value (ascii "HICOLLIE_BINDER_INFO") (.string (ascii "x"))]

def sampleEnvironment : Environment := ⟨fun _ => false, fun _ => none, fun _ => [], id⟩

def sampleEvent : SysEvent := SysEvent.new (RawDataBuilder.run sampleCalls).build

theorem accepted_genuine_sample :
    10000 < sampleEvent.members.uid ∧ sampleEvent.members.pid = 7 ∧
      ∃ accepted, validateEvent sampleEnvironment sampleEvent = some (true, accepted) ∧
        ∃ watchPoint, FreezeDetectorPlugin.makeWatchPoint ⟨1, 2⟩ accepted = some (watchPoint, accepted) ∧
          Genuine sampleEvent.members watchPoint := by
  have untrusted : 10000 < sampleEvent.members.uid := by decide +kernel
  have passes : (validateEvent sampleEnvironment sampleEvent).map Prod.fst = some true := by
    decide +kernel
  obtain ⟨⟨passed, accepted⟩, valid, isPassed⟩ := Option.map_eq_some_iff.mp passes
  obtain rfl : passed = true := isPassed
  refine ⟨untrusted, by decide +kernel, accepted, valid, ?_⟩
  exact (accepted_genuine sampleEnvironment ⟨1, 2⟩ sampleEvent accepted untrusted valid).1

end Hiview.FreezeDetector
