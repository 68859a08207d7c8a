import Hiview.EventRaw.Rebuild

/-! Rebuilding a block that a builder built. The first rebuild puts the scalar
parameters in front of the arrays and clears what stands behind the terminators
of the two texts; what the block says stays, and from then on rebuilding changes
no byte. -/
namespace Hiview.EventRaw
open List

/-- The header with nothing left behind its texts. -/
def HiSysEventHeader.cleared (header : HiSysEventHeader) : HiSysEventHeader :=
  { header with domain := .ofBytes header.domain.text, name := .ofBytes header.name.text }

namespace RawDataBuilder
variable {builder : RawDataBuilder}

/-- The builders that the constructors and the append functions make; every
parameter object is appended once. -/
inductive Made : RawDataBuilder → Prop where
  | new : Made .new
  | taken {rawData : RawData} {builder : RawDataBuilder}
      (opened : ofRawData (some rawData) = some builder) : Made builder
  | called {builder : RawDataBuilder} (made : Made builder) (setter : Setter) :
      Made (builder.call setter)
  | appended {builder : RawDataBuilder} (made : Made builder) (key : List UInt8) (value : Value) :
      Made (builder.appendParam (.new key value))

theorem made_run (calls : List Setter) : Made (run calls) := by
  suffices kept : ∀ builder, Made builder → Made (calls.foldl call builder) from kept new .new
  induction calls with
  | nil => exact fun _ made => made
  | cons setter rest ih => exact fun builder made => ih _ (made.called setter)

theorem initValueParams_wellFormed (formed : builder.WellFormed) (params : List DecodedParam) :
    (builder.initValueParams params).WellFormed := by
  rw [initValueParams_eq]
  generalize params.filter _ ++ params.filter _ = order
  induction order generalizing builder with
  | nil => exact formed
  | cons param rest ih => exact ih (formed.appendParam param.key param.value)

theorem Made.wellFormed (made : Made builder) : builder.WellFormed := by
  induction made with
  | new => exact new_wellFormed
  | taken opened =>
    obtain ⟨decoded, -, rfl⟩ := Option.map_eq_some_iff.mp opened
    exact initValueParams_wellFormed (ofHead_wellFormed _ _) _
  | called made setter ih => exact ih.call setter
  | appended made key value ih => exact ih.appendParam key value

section Head

theorem appendText_zero (fits : text.length ≤ size) :
    appendText (.zero : CharArray (size + 1)) text = .ofBytes text := by
  have room : text.length ≤ size + 1 := by omega
  obtain ⟨rest, free⟩ : ∃ rest, size + 1 - text.length = rest + 1 := ⟨size - text.length, by omega⟩
  have cut : (text ++ List.replicate (size + 1) 0).take (size + 1) =
      text ++ List.replicate (size + 1 - text.length) 0 := by
    rw [take_append, take_of_length_le room, take_replicate, Nat.min_eq_left (Nat.sub_le _ _)]
  simp only [appendText, CharArray.memcpy, dif_pos room, CharArray.set, CharArray.zero,
    CharArray.ofBytes, CharArray.mk.injEq, Nat.min_eq_left fits, drop_replicate]
  rw [cut, free, replicate_succ, set_append_right _ _ (Nat.le_refl _), Nat.sub_self, set_cons_zero]

theorem ofBytes_text {array : CharArray (size + 1)} (ends : 0 ∈ array.chars) :
    (CharArray.ofBytes array.text : CharArray (size + 1)).text = array.text := by
  have fits := CharArray.text_length ends
  rw [← appendText_zero fits]
  exact CharArray.set_text .zero fits array.zero_not_mem_text

theorem closed_of_not_opened {flag : BitVec 1} (closed : flag ≠ 1) : flag = 0 := by
  apply BitVec.eq_of_toNat_eq
  have other : flag.toNat ≠ 1 := fun one => closed (BitVec.eq_of_toNat_eq one)
  change flag.toNat = 0
  omega

theorem ofHead_header {header : HiSysEventHeader} (traceInfo : TraceInfo)
    (domainEnds : 0 ∈ header.domain.chars) (nameEnds : 0 ∈ header.name.chars) :
    (ofHead header traceInfo).header = header.cleared := by
  have domain := appendText_zero (CharArray.text_length domainEnds)
  have name := appendText_zero (CharArray.text_length nameEnds)
  have type := type_taken_over header.type
  have whole (flag : BitVec 1) (same : flag = header.isTraceOpened) : HiSysEventHeader.cleared header =
      { header with
        domain := appendText .zero header.domain.text
        name := appendText .zero header.name.text
        type := BitVec.ofInt 2 ((Int32.ofNat (header.type.toNat + 1)).toInt - 1)
        isTraceOpened := flag } := by
    rw [domain, name, type, same]
    rfl
  rw [ofHead]
  split
  · rename_i opened
    exact (whole 1 opened.symm).symm
  · rename_i closed
    exact (whole 0 (closed_of_not_opened closed).symm).symm

theorem ofHead_traceInfo (header : HiSysEventHeader) (traceInfo : TraceInfo) :
    (ofHead header traceInfo).traceInfo = if header.isTraceOpened = 1 then traceInfo else .zero := by
  rw [ofHead]
  split <;> rfl

theorem cleared_cleared {header : HiSysEventHeader} (domainEnds : 0 ∈ header.domain.chars)
    (nameEnds : 0 ∈ header.name.chars) : header.cleared.cleared = header.cleared := by
  rw [HiSysEventHeader.cleared, HiSysEventHeader.cleared, ofBytes_text domainEnds, ofBytes_text nameEnds]

theorem initValueParams_head (builder : RawDataBuilder) (params : List DecodedParam) :
    (builder.initValueParams params).header = builder.header ∧
      (builder.initValueParams params).traceInfo = builder.traceInfo := by
  rw [initValueParams_eq]
  generalize params.filter _ ++ params.filter _ = order
  induction order generalizing builder with
  | nil => exact ⟨rfl, rfl⟩
  | cons param rest ih =>
    have step := ih (builder.appendParam (.new param.key param.value))
    obtain ⟨encoded, -, -, -, appended⟩ := builder.appendParam_eq param.key param.value
    rw [foldl_cons]
    rw [appended] at step ⊢
    exact step

end Head

section Fixpoint

/-- The builder that the block of another one gives. -/
def rebuilt (builder : RawDataBuilder) : RawDataBuilder := ofDecoded builder.decoded

section
variable (formed : builder.WellFormed)
include formed

theorem WellFormed.ofRawData_rebuilt (within : builder.event.Within) (held : rawData.getData = builder.block) :
    RawDataBuilder.ofRawData (some rawData) = some builder.rebuilt := by
  rw [RawDataBuilder.ofRawData, held, formed.new_block within]
  rfl

theorem WellFormed.rebuilt_event :
    builder.rebuilt.WellFormed ∧ builder.rebuilt.event =
      { builder.event with params := (regrouped builder.decodedParams).map DecodedParam.pair } := by
  obtain ⟨rebuilt, contents⟩ := ofDecoded_event formed.domainEnds formed.nameEnds
    formed.decoded_bounded formed.decoded_distinct
  rw [decoded_event] at contents
  exact ⟨rebuilt, contents⟩

theorem WellFormed.rebuilt_header : builder.rebuilt.header = builder.header.cleared :=
  (initValueParams_head _ _).1.trans (ofHead_header _ formed.domainEnds formed.nameEnds)

theorem WellFormed.rebuilt_traceInfo :
    builder.rebuilt.traceInfo = builder.traceInfo := by
  refine (initValueParams_head _ _).2.trans ((ofHead_traceInfo _ _).trans ?_)
  change (if builder.header.isTraceOpened = 1 then
    if builder.header.isTraceOpened = 1 then builder.traceInfo else .zero else .zero) = builder.traceInfo
  split
  · rfl
  · rename_i closed
    exact (formed.untraced closed).symm

end

theorem regrouped_regrouped (params : List DecodedParam) :
    regrouped (regrouped params) = regrouped params := by
  simp [regrouped, filter_append, filter_filter, Bool.and_self]

theorem block_congr {first second : RawDataBuilder} (header : first.header = second.header)
    (traceInfo : first.traceInfo = second.traceInfo)
    (params : first.event.params = second.event.params) : first.block = second.block := by
  have count : first.getParamCnt = second.getParamCnt := by
    rw [getParamCnt_event, getParamCnt_event, params]
  have wire (builder : RawDataBuilder) :
      builder.allParams.flatMap (fun param => Wire.param param.key param.value) =
        builder.event.params.flatMap fun param => Wire.param param.1 param.2 := by
    rw [event, HiSysEventHeader.event, flatMap_map]
  rw [block, block, wire first, wire second, params, blockWith, blockWith, bodyWith, bodyWith, header, traceInfo, count]

theorem decodedParams_pair (builder : RawDataBuilder) :
    builder.decodedParams.map DecodedParam.pair = builder.event.params := by
  rw [← decoded_event, DecodedEvent.event_params]
  rfl

theorem pair_injective : Function.Injective DecodedParam.pair := by
  rintro ⟨key, value⟩ ⟨otherKey, otherValue⟩ same
  cases same
  rfl

theorem WellFormed.rebuilt_twice (formed : builder.WellFormed) :
    builder.rebuilt.rebuilt.block = builder.rebuilt.block := by
  obtain ⟨once, onceEvent⟩ := formed.rebuilt_event
  obtain ⟨-, twiceEvent⟩ := once.rebuilt_event
  have order : builder.rebuilt.decodedParams = regrouped builder.decodedParams := by
    apply pair_injective.list_map
    rw [decodedParams_pair, onceEvent]
  refine block_congr ?_ once.rebuilt_traceInfo ?_
  · rw [once.rebuilt_header, formed.rebuilt_header, cleared_cleared formed.domainEnds formed.nameEnds]
  · rw [twiceEvent, order, regrouped_regrouped, onceEvent]

theorem getValue_lookup (builder : RawDataBuilder) (key : List UInt8) :
    (builder.getValue key).map (·.value) = Assoc.lookup builder.event.params key := by
  rw [getValue, Assoc.lookup, event, HiSysEventHeader.event, List.find?_map, Option.map_map]
  rfl

/-- What a rebuilt builder has in common with the one whose block it was made of:
every field of the header, with the bytes behind the two texts cleared. -/
structure Faithful (builder rebuilt : RawDataBuilder) : Prop where
  header : rebuilt.header = builder.header.cleared
  domain : rebuilt.header.domain.text = builder.header.domain.text
  name : rebuilt.header.name.text = builder.header.name.text
  traceInfo : rebuilt.traceInfo = builder.traceInfo
  values : ∀ key, (rebuilt.getValue key).map (·.value) = (builder.getValue key).map (·.value)

theorem WellFormed.rebuilt_same (formed : builder.WellFormed) :
    builder.rebuilt.event.Same builder.event := by
  have same := (ofDecoded_same formed.domainEnds formed.nameEnds formed.decoded_bounded
    formed.decoded_distinct).2
  rw [decoded_event] at same
  exact same

theorem WellFormed.rebuilt_faithful (formed : builder.WellFormed) :
    Faithful builder builder.rebuilt where
  header := formed.rebuilt_header
  domain := congrArg Event.domain formed.rebuilt_event.2
  name := congrArg Event.name formed.rebuilt_event.2
  traceInfo := formed.rebuilt_traceInfo
  values key := by
    rw [getValue_lookup, getValue_lookup]
    exact Assoc.lookup_perm formed.rebuilt_event.1.event_distinct formed.rebuilt_same.params key

/-- Decoding and building, so many times. -/
def rebuildTimes : Nat → RawData → Option RawData
  | 0, rawData => some rawData
  | times + 1, rawData => do
    let builder ← RawDataBuilder.ofRawData (some rawData)
    let next ← builder.build
    rebuildTimes times next

theorem rebuildTimes_fixed (formed : builder.WellFormed) (within : builder.event.Within)
    (fixed : builder.rebuilt.block = builder.block) (times : Nat) (held : rawData.getData = builder.block) :
    ∃ later, rebuildTimes times rawData = some later ∧ later.getData = builder.block := by
  induction times generalizing rawData with
  | zero => exact ⟨rawData, rfl, held⟩
  | succ times ih =>
    obtain ⟨next, built, nextHeld⟩ := build_holds formed.rebuilt_event.1.encoded
    obtain ⟨later, again, laterHeld⟩ := ih (nextHeld.getData.trans fixed)
    refine ⟨later, ?_, laterHeld⟩
    simp [rebuildTimes, formed.ofRawData_rebuilt within held, built, again]

/-- An array in front of a scalar, and a name written over a longer one. -/
def renamedCalls : List Setter :=
  [.name (Numeral.ascii "STARTUP"), .value (Numeral.ascii "PIDS") (.unsignedNumArray [.uint8 1]),
    .value (Numeral.ascii "PID") (.unsignedNum (.uint32 7)), .name (Numeral.ascii "STOP")]

end Fixpoint
end RawDataBuilder
end Hiview.EventRaw
