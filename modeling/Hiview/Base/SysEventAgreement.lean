import Hiview.Base.SysEvent

/-! The block, the builder and the flag of a `SysEvent` stand for one event. What
a call does to that event is said first; every call keeps the representations in
step with it, as long as the decoder can read the block a builder is made of. -/
namespace Hiview.Base
open List
open Bytes (littleEndian littleEndian_length)
open Option (bind_eq_bind bind_some getD_some)
open StringUtil (escapeChar escapeJsonStringValue)
open SysEvent (accepts getters)

open EventRaw
open RawDataBuilder (blockWith block_length bodyWith build_holds int32Bytes isBaseInfo run run_wellFormed)

section Meaning
variable (doubleText : UInt64 → List UInt8)

/-- The parameter list with a value set. -/
def assigned (event : Event) (key : List UInt8) (value : Value) : Event :=
  { event with params := Event.assign event.params key value.cut }

def Call.apply (event : Event) : Call → Event
  | .setEventValue key value appendValue =>
    assigned event key (settledValue doubleText (event.getValue key) appendValue value).value
  | .setEventCString key value => assigned event key (.dstring value)
  | .removeParam paramName => { event with params := event.params.filter (·.1 ≠ paramName) }
  | .setId id => { event with id }
  | .setLog log => { event with log }
  | .get _ | .asRawData | .asJsonStr => event

def meaning (event : Event) (calls : List Call) : Event := calls.foldl (Call.apply doubleText) event

/-- The calls that set a parameter name no base info. -/
def Call.Plain : Call → Prop
  | .setEventValue key _ _ | .setEventCString key _ => isBaseInfo key = false
  | _ => True

instance : DecidablePred Call.Plain
  | .setEventValue _ _ _ | .setEventCString _ _ => inferInstanceAs (Decidable (_ = false))
  | .removeParam _ | .setId _ | .setLog _ | .get _ | .asRawData | .asJsonStr =>
    inferInstanceAs (Decidable True)

variable {event other : Event}

theorem assign_perm (reordered : params.Perm others) (key : List UInt8) (value : Value) :
    (Event.assign params key value).Perm (Event.assign others key value) := by
  have keys := (reordered.map Prod.fst).mem_iff (a := key)
  by_cases known : key ∈ params.map Prod.fst
  · rw [Event.assign, Event.assign, if_pos known, if_pos (keys.mp known)]
    exact reordered.map _
  · rw [Event.assign, Event.assign, if_neg known, if_neg fun member => known (keys.mpr member)]
    exact reordered.append_right _

variable (same : event.Same other)
include same

theorem assigned_same (key : List UInt8) (value : Value) :
    (assigned event key value).Same (assigned other key value) :=
  ⟨same.head, assign_perm same.params key value.cut⟩

theorem same_withId (id : UInt64) : Event.Same { event with id } { other with id } :=
  ⟨congrArg (fun head : Event => { head with id }) same.head, same.params⟩

theorem same_withLog (log : UInt8) :
    Event.Same { event with log } { other with log } :=
  ⟨congrArg (fun head : Event => { head with log }) same.head, same.params⟩

end Meaning

section Builder
variable {builder : RawDataBuilder}

theorem getValue_event (builder : RawDataBuilder) (key : List UInt8) :
    (builder.getValue key).map EncodedParam.value = builder.event.getValue key := by
  rw [RawDataBuilder.getValue, Event.getValue, Assoc.lookup, RawDataBuilder.event,
    HiSysEventHeader.event, List.find?_map, Option.map_map]
  rfl

theorem appendValue_event (formed : builder.WellFormed) (plain : isBaseInfo key = false)
    (value : Argument) :
    (builder.appendValue key value).WellFormed ∧
      (builder.appendValue key value).event = assigned builder.event key value.value := by
  rw [RawDataBuilder.appendValue_of_plain plain]
  exact ⟨formed.appendParam key value.value, formed.appendParam_event key value.value⟩

theorem removeParam_event (formed : builder.WellFormed) (paramName : List UInt8) :
    (builder.removeParam paramName).event =
      { builder.event with params := builder.event.params.filter (·.1 ≠ paramName) } :=
  congrArg (fun params => ({ builder.event with params } : Event))
    (RawDataBuilder.eraseP_filter paramName formed.distinct)

end Builder

section Block

theorem overwrite_middle (back : List UInt8) (length : source.length = middle.length) :
    RawData.overwrite (front ++ middle ++ back) source front.length = front ++ source ++ back := by
  have start : (front ++ middle ++ back).take front.length = front := by
    rw [append_assoc, take_left]
  have rest : (front ++ middle ++ back).drop (front.length + source.length) = back := by
    rw [length, ← length_append, drop_left]
  rw [RawData.overwrite, start, rest]

theorem header_front (header : HiSysEventHeader) : ∃ front, front.length = posOfIdInHeader ∧
    ∀ id log, HiSysEventHeader.bytes { header with id, log } =
      front ++ littleEndian 8 id.toNat ++ [header.flags, log] := by
  refine ⟨header.domain.chars ++ header.name.chars ++ littleEndian 8 header.timestamp.toNat ++
    [header.timeZone] ++ littleEndian 4 header.uid.toNat ++
    littleEndian 4 header.pid.toNat ++ littleEndian 4 header.tid.toNat, ?_, fun id log => rfl⟩
  simp [header.domain.sized, header.name.sized, maxDomainLength, maxEventNameLength, posOfIdInHeader]

variable (builder : RawDataBuilder)

theorem block_around : ∃ front back, front.length = blockSizeOffset ∧
    ∀ header : HiSysEventHeader, header.isTraceOpened = builder.header.isTraceOpened →
      RawDataBuilder.block { builder with header } = front ++ header.bytes ++ back := by
  refine ⟨int32Bytes builder.block.length,
    (if builder.header.isTraceOpened = 1 then builder.traceInfo.bytes else []) ++
      int32Bytes builder.getParamCnt ++
      builder.allParams.flatMap fun param => Wire.param param.key param.value, ?_, ?_⟩
  · rfl
  · intro header trace
    have length : (RawDataBuilder.block { builder with header }).length = builder.block.length := by
      rw [block_length, block_length]
      simp [trace]
      rfl
    have whole : ∀ bytes, (blockWith { builder with header } bytes).length =
        4 + (bodyWith { builder with header } bytes).length := fun bytes => by
      simp [blockWith, int32Bytes]
    rw [← length, RawDataBuilder.block, whole, blockWith, append_assoc]
    simp [bodyWith, trace]
    rfl

theorem block_withId (id : UInt64) :
    RawData.overwrite builder.block (littleEndian 8 id.toNat) (blockSizeOffset + posOfIdInHeader) =
      (builder.appendId id).block := by
  obtain ⟨front, back, frontLength, around⟩ := block_around builder
  obtain ⟨before, beforeLength, header⟩ := header_front builder.header
  have written : ∀ id, (builder.appendId id).block =
      (front ++ before) ++ littleEndian 8 id.toNat ++ ([builder.header.flags, builder.header.log] ++ back) := by
    intro id
    refine (around { builder.header with id } rfl).trans ?_
    rw [header id builder.header.log]
    simp
  have length : (front ++ before).length = blockSizeOffset + posOfIdInHeader := by
    rw [length_append, frontLength, beforeLength]
  have original := written builder.header.id
  change builder.block = _ at original
  rw [original, written id, ← length]
  exact overwrite_middle _ (by rw [littleEndian_length, littleEndian_length])

theorem block_withLog (log : UInt8) : builder.block.set (blockSizeOffset + 80) log = (builder.appendLog log).block := by
  obtain ⟨front, back, frontLength, around⟩ := block_around builder
  obtain ⟨before, beforeLength, header⟩ := header_front builder.header
  have written : ∀ log, (builder.appendLog log).block =
      (front ++ before ++ littleEndian 8 builder.header.id.toNat ++ [builder.header.flags]) ++ log :: back := by
    intro log
    refine (around { builder.header with log } rfl).trans ?_
    rw [header builder.header.id log]
    simp
  have length : (front ++ before ++ littleEndian 8 builder.header.id.toNat ++ [builder.header.flags]).length =
      blockSizeOffset + 80 := by
    simp [frontLength, beforeLength, posOfIdInHeader]
  have original := written builder.header.log
  change builder.block = _ at original
  rw [original, written log, ← length, set_append_right _ _ (Nat.le_refl _), Nat.sub_self,
    set_cons_zero]

theorem headerOf_block : headerOf builder.block = builder.header := by
  obtain ⟨front, back, length, around⟩ := block_around builder
  have whole := around builder.header rfl
  have slice : (builder.block.drop blockSizeOffset).take HiSysEventHeader.size = builder.header.bytes := by
    rw [whole, ← length, append_assoc, drop_left, ← builder.header.bytes_length, take_left]
  rw [headerOf, slice]
  exact HiSysEventHeader.ofBytes_of_occurs (DecodedEvent.occurs_self _)

end Block

section Coherence
variable {doubleText : UInt64 → List UInt8} {event : Event} {state : SysEvent}

/-- The members of an event that was constructed from the block of `event`. -/
def membersOf (event : Event) : Members where
  domain := event.domain
  eventName := event.name
  eventType := Int32.ofInt event.type
  tz := event.timeZone.toUInt16.toInt16
  pid := event.pid.toInt32
  tid := event.tid.toInt32
  uid := event.uid.toInt32

theorem membersOf_header (header : HiSysEventHeader) (traceInfo : TraceInfo)
    (params : List (List UInt8 × Value)) :
    membersOf (header.event traceInfo params) = .ofHeader header := by
  have type : Int32.ofInt (header.type.toNat + 1) = Int32.ofNat header.type.toNat + 1 := by
    generalize header.type = type
    revert type
    decide
  simp [membersOf, HiSysEventHeader.event, Members.ofHeader, type]

/-- The block shows the event unless the flag says otherwise, and so does the
builder if there is one. Without a builder nothing can have been changed. -/
structure Coherent (event : Event) (state : SysEvent) : Prop where
  block : ∃ rawData shown, state.rawData = some rawData ∧ RawDataBuilder.WellFormed shown ∧
    rawData.Holds shown.block ∧ (state.isUpdated = false → shown.event.Same event)
  builder : ∀ builder, state.builder = some builder → builder.WellFormed ∧ builder.event.Same event
  unchanged : state.builder = none → state.isUpdated = false
  log : state.log = event.log
  members : state.members = membersOf event

namespace Coherent
variable {builder : RawDataBuilder}

theorem new (formed : builder.WellFormed) : Coherent builder.event (SysEvent.new builder.build) := by
  obtain ⟨rawData, built, held⟩ := build_holds formed.encoded
  have length : getValidDataMinimumByteCount ≤ rawData.getDataLength := by
    rw [RawData.getDataLength, held.getData, block_length,
      getValidDataMinimumByteCount]
    omega
  have owned : rawData.data.isSome = true := by rw [held]; rfl
  have accepted : accepts rawData = true := by
    rw [accepts, owned, decide_eq_true length, Bool.and_self]
  have kept : builder.build.filter accepts = some rawData := by
    rw [built, Option.filter_some_pos accepted]
  have header : headerOf rawData.getData = builder.header := by rw [held.getData, headerOf_block]
  simp [SysEvent.new, kept, header]
  exact ⟨⟨rawData, builder, rfl, formed, held, fun _ => .refl _⟩, by rintro _ ⟨⟩,
    fun _ => rfl, rfl, (membersOf_header _ _ _).symm⟩

section
variable (coherent : Coherent event state)
include coherent

theorem initBuilder (within : event.Within) :
    ∃ builder, state.initBuilder = some (builder, { state with builder := some builder }) ∧
      builder.WellFormed ∧ builder.event.Same event := by
  cases present : state.builder with
  | some builder =>
    have kept : { state with builder := some builder } = state := by rw [← present]
    exact ⟨builder, by rw [SysEvent.initBuilder, present, kept], coherent.builder builder present⟩
  | none =>
    obtain ⟨rawData, shown, held, formed, contents, same⟩ := coherent.block
    have same := same (coherent.unchanged present)
    obtain ⟨builder, rebuilt, rebuiltFormed, rebuiltSame⟩ :=
      formed.ofRawData (same.within.mpr within) contents
    refine ⟨builder, ?_, rebuiltFormed, rebuiltSame.trans same⟩
    rw [SysEvent.initBuilder, present, held, rebuilt]
    rfl

theorem withBuilder (formed : builder.WellFormed) (same : builder.event.Same event) :
    Coherent event { state with builder := some builder } where
  block := coherent.block
  builder := by
    rintro _ ⟨⟩
    exact ⟨formed, same⟩
  unchanged := by rintro ⟨⟩
  log := coherent.log
  members := coherent.members

theorem changed (formed : builder.WellFormed) (same : builder.event.Same { event with params }) :
    Coherent { event with params } { state with builder := some builder, isUpdated := true } where
  block := by
    obtain ⟨rawData, shown, held, shownFormed, contents, -⟩ := coherent.block
    exact ⟨rawData, shown, held, shownFormed, contents, by rintro ⟨⟩⟩
  builder := by
    rintro _ ⟨⟩
    exact ⟨formed, same⟩
  unchanged := by rintro ⟨⟩
  log := coherent.log
  members := coherent.members

/-- The block is brought up to date; a stale block has a builder, so nothing is
decoded for it. -/
theorem tryToUpdateRawData :
    ∃ next rawData shown, state.tryToUpdateRawData = some (true, next) ∧ Coherent event next ∧
      next.rawData = some rawData ∧ RawDataBuilder.WellFormed shown ∧ rawData.Holds shown.block ∧
      shown.event.Same event := by
  obtain ⟨rawData, shown, held, formed, contents, same⟩ := coherent.block
  have present : ¬ state.rawData.isNone = true := by rw [held]; exact Bool.false_ne_true
  by_cases fresh : state.isUpdated = false
  · refine ⟨state, rawData, shown, ?_, coherent, held, formed, contents, same fresh⟩
    simp only [SysEvent.tryToUpdateRawData, if_neg present, if_pos fresh]
    rfl
  · cases existing : state.builder with
    | none => exact (fresh (coherent.unchanged existing)).elim
    | some builder =>
      obtain ⟨builderFormed, builderSame⟩ := coherent.builder builder existing
      have logged : (builder.appendLog state.log).event = builder.event := by
        have log : builder.event.head.log = event.head.log := by rw [builderSame.head]
        rw [coherent.log, ← show builder.header.log = event.log from log]
        rfl
      have loggedFormed : (builder.appendLog state.log).WellFormed := builderFormed.header rfl rfl rfl
      have loggedSame : (builder.appendLog state.log).event.Same event := logged ▸ builderSame
      obtain ⟨rebuilt, built, builtHeld⟩ := build_holds loggedFormed.encoded
      have kept : Coherent event { state with
          builder := some (builder.appendLog state.log), rawData := some rebuilt, isUpdated := false } :=
        ⟨⟨rebuilt, _, rfl, loggedFormed, builtHeld, fun _ => loggedSame⟩,
          by rintro _ ⟨⟩; exact ⟨loggedFormed, loggedSame⟩, by rintro ⟨⟩,
          coherent.log, coherent.members⟩
      refine ⟨_, rebuilt, _, ?_, kept, rfl, loggedFormed, builtHeld, loggedSame⟩
      simp only [SysEvent.tryToUpdateRawData, if_neg present, if_neg fresh, SysEvent.initBuilder,
        existing, bind_eq_bind, bind_some, built]
      rfl

end

section
variable (coherent : Coherent event state)
include coherent

theorem mapped {changed : Event}
    (formed : ∀ builder : RawDataBuilder, builder.WellFormed → (change builder).WellFormed)
    (same : ∀ builder : RawDataBuilder, builder.event.Same event → (change builder).event.Same changed)
    (builder : RawDataBuilder) (present : state.builder.map change = some builder) :
    builder.WellFormed ∧ builder.event.Same changed := by
  obtain ⟨source, existing, rfl⟩ := Option.map_eq_some_iff.mp present
  obtain ⟨sourceFormed, sourceSame⟩ := coherent.builder source existing
  exact ⟨formed source sourceFormed, same source sourceSame⟩

theorem setId (id : UInt64) : Coherent { event with id } (state.setId id) where
  block := by
    obtain ⟨rawData, shown, held, formed, contents, same⟩ := coherent.block
    have inside : blockSizeOffset + posOfIdInHeader ≤ shown.block.length := by
      rw [shown.block_length, blockSizeOffset, posOfIdInHeader, HiSysEventHeader.size]
      omega
    have nonempty : littleEndian 8 id.toNat ≠ [] := fun empty => by
      have length := congrArg List.length empty
      cases length
    obtain ⟨written, update, writtenHeld⟩ := RawData.update_holds contents inside nonempty
    rw [block_withId] at writtenHeld
    refine ⟨written, shown.appendId id, ?_, formed.header rfl rfl rfl, writtenHeld, fun fresh => ?_⟩
    · simp [SysEvent.setId, held, update]
    · exact same_withId (same fresh) id
  builder := coherent.mapped (fun _ formed => formed.header rfl rfl rfl) fun _ same => same_withId same id
  unchanged := fun absent => coherent.unchanged (Option.map_eq_none_iff.mp absent)
  log := coherent.log
  members := coherent.members

theorem setLog (log : UInt8) : Coherent { event with log } (state.setLog log) where
  block := by
    obtain ⟨rawData, shown, held, formed, contents, same⟩ := coherent.block
    refine ⟨writeLog rawData log, shown.appendLog log, ?_, formed.header rfl rfl rfl, ?_, fun fresh => ?_⟩
    · simp [SysEvent.setLog, held]
    · rw [← block_withLog]
      exact congrArg (Option.map _) contents
    · exact same_withLog (same fresh) log
  builder := coherent.mapped (fun _ formed => formed.header rfl rfl rfl) fun _ same => same_withLog same log
  unchanged := fun absent => coherent.unchanged (Option.map_eq_none_iff.mp absent)
  log := rfl
  members := coherent.members

theorem step (within : event.Within) (plain : call.Plain) :
    ∃ next, state.step doubleText call = some next ∧ Coherent (call.apply doubleText event) next := by
  obtain ⟨builder, opened, formed, same⟩ := coherent.initBuilder within
  cases call with
  | setEventValue key value appendValue =>
    have param : (builder.getValue key).map EncodedParam.value = event.getValue key := by
      rw [getValue_event, same.getValue formed.event_distinct]
    obtain ⟨nextFormed, nextEvent⟩ := appendValue_event formed plain
      (settledValue doubleText (event.getValue key) appendValue value)
    refine ⟨_, ?_, coherent.changed nextFormed (nextEvent ▸ assigned_same same key _)⟩
    simp only [SysEvent.step, SysEvent.setEventValue, opened, bind_eq_bind, bind_some, param]
    rfl
  | setEventCString key value =>
    obtain ⟨nextFormed, nextEvent⟩ := appendValue_event formed plain (.string value)
    refine ⟨_, ?_, coherent.changed nextFormed (nextEvent ▸ assigned_same same key _)⟩
    simp only [SysEvent.step, SysEvent.setEventCString, opened, bind_eq_bind, bind_some]
    rfl
  | removeParam paramName =>
    refine ⟨_, ?_, coherent.changed (formed.removeParam paramName)
      (removeParam_event formed paramName ▸ ⟨same.head, same.params.filter _⟩)⟩
    simp only [SysEvent.step, SysEvent.removeParam, opened, bind_eq_bind, bind_some]
    rfl
  | setId id => exact ⟨_, rfl, coherent.setId id⟩
  | setLog log => exact ⟨_, rfl, coherent.setLog log⟩
  | get key =>
    refine ⟨_, ?_, coherent.withBuilder formed same⟩
    simp only [SysEvent.step, getters, opened, bind_eq_bind, bind_some]
    rfl
  | asRawData =>
    obtain ⟨next, rawData, shown, updated, kept, -⟩ := coherent.tryToUpdateRawData
    refine ⟨next, ?_, kept⟩
    simp only [SysEvent.step, SysEvent.asRawData, updated, bind_eq_bind, bind_some]
    rfl
  | asJsonStr =>
    obtain ⟨next, rawData, shown, updated, kept, -⟩ := coherent.tryToUpdateRawData
    exact ⟨next, by simp only [SysEvent.step, updated, Option.map_some], kept⟩

end

end Coherent
end Coherence

section Agreement

def Call.id? : Call → Option UInt64
  | .setId id => some id
  | _ => none

def Call.log? : Call → Option UInt8
  | .setLog log => some log
  | _ => none

/-- What the last call that gives one gives, or else what was there before. -/
def lastOf {α : Type} (given : Call → Option α) (before : α) (calls : List Call) : α :=
  (calls.filterMap given).getLast?.getD before

theorem lastOf_cons (given : Call → Option α) (before : α) (call : Call) (rest : List Call) :
    lastOf given before (call :: rest) = lastOf given ((given call).getD before) rest := by
  rw [lastOf, lastOf, filterMap_cons]
  cases given call with
  | none => rfl
  | some value => rw [List.getLast?_cons, getD_some, getD_some]

/-- The header that an event has after the calls: the identifier and the log flag
that were set last, and the rest as constructed. -/
def headAfter (constructed : Event) (calls : List Call) : Event :=
  { constructed.head with
    id := lastOf Call.id? constructed.id calls
    log := lastOf Call.log? constructed.log calls }

theorem meaning_head (doubleText : UInt64 → List UInt8) (constructed : Event) (calls : List Call) :
    (meaning doubleText constructed calls).head = headAfter constructed calls := by
  induction calls generalizing constructed with
  | nil => rfl
  | cons call rest ih =>
    refine (ih _).trans ?_
    rw [headAfter, headAfter, lastOf_cons, lastOf_cons]
    cases call <;> rfl

/-- What the next `AsRawData` returns decodes to the event that the getters
report at this moment, with the header the calls have left. -/
def Agrees (constructed : Event) (calls : List Call) (state : SysEvent) : Prop :=
  ∃ data next decoded, state.asRawData = some (some data, next) ∧
    DecodedEvent.new data = some decoded ∧ decoded.isValid = true ∧
    Assoc.Distinct decoded.event.params ∧
    (∀ key, ∃ after, state.getters key = some (decoded.event.report key, after)) ∧
    decoded.event.head = headAfter constructed calls ∧
    state.members = .ofHeader decoded.header

variable {doubleText : UInt64 → List UInt8} {constructed event : Event} {calls : List Call}
  {state : SysEvent}

variable (coherent : Coherent event state)
include coherent

theorem Coherent.agrees (within : event.Within)
    (head : event.head = headAfter constructed calls) : Agrees constructed calls state := by
  obtain ⟨next, rawData, shown, updated, kept, current, formed, held, same⟩ :=
    coherent.tryToUpdateRawData
  obtain ⟨builder, opened, builderFormed, builderSame⟩ := coherent.initBuilder within
  have decoding := formed.new_block (same.within.mpr within)
  have members : state.members = .ofHeader shown.decoded.header := by
    have through : membersOf shown.event.head = membersOf event.head := by rw [same.head]
    rw [coherent.members, ← membersOf_header shown.decoded.header .zero []]
    exact through.symm
  refine ⟨shown.block, next, shown.decoded, ?_, decoding, rfl, ?_, fun key => ?_, ?_, members⟩
  · simp only [SysEvent.asRawData, updated, bind_eq_bind, bind_some, if_true, current]
    exact congrArg (fun data => some (data, next)) held
  · rw [shown.decoded_event]
    exact formed.event_distinct
  · refine ⟨{ state with builder := some builder }, ?_⟩
    rw [shown.decoded_event, ← (builderSame.trans same.symm).report builderFormed.event_distinct]
    simp only [getters, opened, bind_eq_bind, bind_some]
    rfl
  · rw [shown.decoded_event, same.head, head]

theorem Coherent.within_of_agrees
    (agrees : Agrees constructed calls state) : event.Within := by
  obtain ⟨data, next, decoded, read, decoding, valid, -⟩ := agrees
  obtain ⟨updatedState, rawData, shown, updated, -, current, formed, held, same⟩ :=
    coherent.tryToUpdateRawData
  have block : data = shown.block := by
    simp only [SysEvent.asRawData, updated, bind_eq_bind, bind_some, if_true, current,
      Option.pure_def, Option.some.injEq, Prod.mk.injEq] at read
    exact Option.some.inj (read.1.symm.trans held)
  subst block
  exact same.within.mp (RawDataBuilder.within_of_valid decoding valid)

theorem Coherent.run (plain : ∀ call ∈ calls, call.Plain)
    (within : ∀ taken call rest, calls = taken ++ call :: rest →
      (meaning doubleText event taken).Within) :
    ∃ final, Transition.run (SysEvent.step doubleText) state calls = some final ∧
      Coherent (meaning doubleText event calls) final := by
  induction calls generalizing event state with
  | nil => exact ⟨state, rfl, coherent⟩
  | cons call rest ih =>
    rw [forall_mem_cons] at plain
    obtain ⟨next, stepped, kept⟩ := coherent.step (within [] call rest rfl) plain.1
    obtain ⟨final, ran, reached⟩ := ih kept plain.2 fun taken later others split =>
      within (call :: taken) later others (congrArg (call :: ·) split)
    exact ⟨final, by rw [Transition.run, stepped]; exact ran, reached⟩

omit coherent

/-- The representations agree all along a run exactly when the event stays within
what the decoder accepts all along it. -/
theorem representations_agree_iff (doubleText : UInt64 → List UInt8) (setters : List Setter)
    (plain : ∀ call ∈ calls, call.Plain) :
    (∀ taken rest, calls = taken ++ rest →
      (meaning doubleText (run setters).event taken).Within) ↔
    ∀ taken rest, calls = taken ++ rest →
      ∃ final, Transition.run (SysEvent.step doubleText)
          (SysEvent.new (run setters).build) taken = some final ∧
        Agrees (run setters).event taken final := by
  have initial := Coherent.new (run_wellFormed setters)
  have begun : ∀ taken rest, calls = taken ++ rest → ∀ call ∈ taken, call.Plain :=
    fun taken rest split call member => plain call (split ▸ mem_append_left rest member)
  constructor
  · intro within taken rest split
    obtain ⟨final, ran, reached⟩ := initial.run (begun taken rest split) fun early call later shape =>
      within early (call :: later ++ rest) (by rw [split, shape, append_assoc])
    exact ⟨final, ran, reached.agrees (within taken rest split) (meaning_head _ _ _)⟩
  · intro always taken
    -- Induction on the length: the run to `taken` needs every shorter beginning within the limits.
    induction size : taken.length using Nat.strong_induction_on generalizing taken with
    | _ length ih =>
      intro rest split
      obtain ⟨final, ran, reached⟩ := initial.run (begun taken rest split) fun early call later shape =>
        ih early.length (by rw [← size, shape, length_append, length_cons]; omega) early rfl
          (call :: later ++ rest) (by rw [split, shape, append_assoc])
      obtain ⟨same, ranTo, agrees⟩ := always taken rest split
      obtain rfl := Option.some.inj (ran.symm.trans ranTo)
      exact reached.within_of_agrees agrees

/-- A text that is set, appended to, read and removed around an update of the block. -/
def sampleCalls : List Call := [.setId 7, .setEventValue [83] (.string [34, 97]) false, .asRawData,
  .setLog 32, .setEventValue [83] (.string [98]) true, .get [83], .removeParam [75], .asJsonStr]

theorem representations_agree_iff_sampleCalls : (∀ call ∈ sampleCalls, call.Plain) ∧
    ∃ final, Transition.run (SysEvent.step fun _ => [])
        (SysEvent.new (run EventRaw.sampleCalls).build) sampleCalls = some final ∧
      Agrees (run EventRaw.sampleCalls).event sampleCalls final := by
  have plain : ∀ call ∈ sampleCalls, call.Plain := by decide
  have within : ∀ taken ∈ sampleCalls.inits,
      (meaning (fun _ => []) (run EventRaw.sampleCalls).event taken).Within := by
    decide +kernel
  have agree := (representations_agree_iff (fun _ => []) EventRaw.sampleCalls plain).mp
    fun taken rest split => within taken ((mem_inits _ _).mpr ⟨rest, split.symm⟩)
  exact ⟨plain, agree sampleCalls [] (append_nil _).symm⟩

theorem escape_length (value : List UInt8) :
    value.length ≤ (escapeJsonStringValue value).length := by
  induction value with
  | nil => exact Nat.le_refl _
  | cons char rest ih =>
    have one : 1 ≤ (escapeChar char).length := by
      unfold escapeChar
      split <;> exact Nat.le_add_left 1 _
    rw [escapeJsonStringValue, flatMap_cons, length_append, length_cons]
    rw [escapeJsonStringValue] at ih
    omega

theorem firstText_wireSize (text : List UInt8) :
    text.length < (Call.apply (fun _ => []) (run []).event
      (.setEventValue [75] (.string text) false)).wireSize := by
  have params : (Call.apply (fun _ => []) (run []).event
      (.setEventValue [75] (.string text) false)).params =
      [([75], .dstring (escapeJsonStringValue text))] := rfl
  have long := escape_length text
  have value : (escapeJsonStringValue text).length ≤
      (Wire.param [75] (.dstring (escapeJsonStringValue text))).length := by
    simp [Wire.param, Wire.value, Wire.string]
    omega
  rw [Event.wireSize, params, flatMap_singleton]
  dsimp only
  omega

/-- A text as long as the largest block. -/
def longText : List Call := [.setEventValue [75] (.string (List.replicate maxBlockSize 120)) false]

/-- The getters report the text that was set, but the decoder refuses the block
that holds it. -/
theorem long_text_disagrees : (∀ call ∈ longText, call.Plain) ∧
    ∃ final, Transition.run (SysEvent.step fun _ => [])
        (SysEvent.new (run []).build) longText = some final ∧
      ¬ Agrees (run []).event longText final := by
  have plain : ∀ call ∈ longText, call.Plain := forall_mem_singleton.mpr rfl
  have initial := Coherent.new (run_wellFormed [])
  have empty : (run []).event.Within := by decide
  obtain ⟨next, stepped, reached⟩ := initial.step empty (plain _ mem_cons_self)
  refine ⟨plain, next, by rw [longText, Transition.run, stepped]; rfl, fun agrees => ?_⟩
  have within := (reached.within_of_agrees agrees).2
  have long := firstText_wireSize (List.replicate maxBlockSize 120)
  rw [length_replicate] at long
  exact Nat.lt_irrefl _ (Nat.lt_of_lt_of_le long within)

end Agreement
end Hiview.Base
