import Hiview.EventRaw.DecodedBlock
import Hiview.EventRaw.RoundTrip
import Hiview.Lib.Assoc

/-! `RawDataBuilder(std::shared_ptr<RawData>)`: a builder that takes over the
event of a block. The scalar parameters are appended before the arrays, so the
order of the parameters is lost; what each key stands for is not. -/
namespace Hiview.EventRaw
open List

namespace RawDataBuilder

def getValue (builder : RawDataBuilder) (key : List UInt8) : Option EncodedParam :=
  builder.allParams.find? (·.key = key)

/-- One pass over the decoded parameters; the handlers of a pass cover either the
four scalar types or the four array types. -/
def initParams (isArray : Bool) (builder : RawDataBuilder) (params : List DecodedParam) :
    RawDataBuilder :=
  params.foldl (fun builder param =>
    if param.value.isArray == isArray then builder.appendParam (.new param.key param.value)
    else builder) builder

def initArrayValueParams : RawDataBuilder → List DecodedParam → RawDataBuilder := initParams true

def initValueParams (builder : RawDataBuilder) (params : List DecodedParam) : RawDataBuilder :=
  initArrayValueParams (initParams false builder params) params

/-- The appends of the constructor in front of the parameters. -/
def ofHead (header : HiSysEventHeader) (traceInfo : TraceInfo) : RawDataBuilder :=
  let builder := (((((((((new.appendDomain header.domain.text).appendName header.name.text).appendType
    (Int32.ofNat (header.type.toNat + 1))).appendTimeStamp header.timestamp).appendTimeZone
    header.timeZone).appendLog header.log).appendUid header.uid).appendPid header.pid).appendTid
    header.tid).appendId header.id
  if header.isTraceOpened = 1 then
    builder.appendTraceInfo traceInfo.traceId traceInfo.spanId traceInfo.pSpanId traceInfo.traceFlag
  else builder

def ofDecoded (event : DecodedEvent) : RawDataBuilder :=
  (ofHead event.header event.traceInfo).initValueParams event.allParams

/-- A null pointer gives an empty builder; an event that cannot be decoded gives
what was decoded of it. -/
def ofRawData : Option RawData → Option RawDataBuilder
  | none => some new
  | some rawData => (DecodedEvent.new rawData.getData).map ofDecoded

end RawDataBuilder

def Event.head (event : Event) : Event := { event with params := [] }

/-- One event up to the order of its parameters. -/
structure Event.Same (event other : Event) : Prop where
  head : event.head = other.head
  params : event.params.Perm other.params

/-- The size of the block that the event is encoded to. -/
def Event.wireSize (event : Event) : Nat :=
  4 + HiSysEventHeader.size + (if event.trace.isSome then TraceInfo.size else 0) + 4 +
    (event.params.flatMap fun param => Wire.param param.1 param.2).length

/-- What the decoder accepts: not too many parameters, not too large a block. -/
def Event.Within (event : Event) : Prop :=
  event.params.length ≤ maxParamCnt ∧ event.wireSize ≤ maxBlockSize

instance : DecidablePred Event.Within := fun _ => inferInstanceAs (Decidable (_ ∧ _))

namespace Event.Same
variable {first second third : Event}

theorem refl (event : Event) : event.Same event := ⟨rfl, .refl _⟩

theorem symm (same : first.Same second) : second.Same first := ⟨same.head.symm, same.params.symm⟩

theorem trans (front : first.Same second) (back : second.Same third) : first.Same third :=
  ⟨front.head.trans back.head, front.params.trans back.params⟩

theorem wireSize (same : first.Same second) : first.wireSize = second.wireSize := by
  have trace : first.head.trace = second.head.trace := by rw [same.head]
  change first.trace = second.trace at trace
  have params := (same.params.flatMap_right fun param => Wire.param param.1 param.2).length_eq
  rw [Event.wireSize, Event.wireSize, trace, params]

theorem within (same : first.Same second) : first.Within ↔ second.Within := by
  rw [Event.Within, Event.Within, same.wireSize, same.params.length_eq]

end Event.Same

section Terminators

theorem CharArray.zero_not_mem_text (array : CharArray size) : 0 ∉ array.text := by
  intro member
  have nonzero := mem_takeWhile_imp member
  simp at nonzero

theorem CharArray.text_length {array : CharArray (size + 1)} (ends : 0 ∈ array.chars) :
    array.text.length ≤ size := by
  have shorter : array.text.length ≠ array.chars.length := by
    intro full
    have whole := ( takeWhile_prefix (l := array.chars) (· ≠ 0)).eq_of_length full
    exact array.zero_not_mem_text (by rw [CharArray.text, whole]; exact ends)
  have bound := ( takeWhile_prefix (l := array.chars) (· ≠ 0)).length_le
  have sized := array.sized
  simp only [CharArray.text] at shorter ⊢
  omega

theorem RawDataBuilder.appendText_ends (member : CharArray (size + 1)) (text : List UInt8) :
    0 ∈ (appendText member text).chars := by
  have inside : min text.length size < (member.memcpy text).chars.length := by
    rw [(member.memcpy text).sized]
    omega
  exact mem_iff_getElem.mpr ⟨min text.length size, by simpa [appendText, CharArray.set] using inside,
    by simp [appendText, CharArray.set]⟩

/-- What every builder keeps, whatever is appended: a sound parameter list and
texts that end inside their member. -/
structure RawDataBuilder.WellFormed (builder : RawDataBuilder) : Prop extends builder.Sound where
  domainEnds : 0 ∈ builder.header.domain.chars
  nameEnds : 0 ∈ builder.header.name.chars

namespace RawDataBuilder
variable {builder : RawDataBuilder}

theorem new_wellFormed : new.WellFormed :=
  ⟨new_sound, by simp [new, HiSysEventHeader.zero, CharArray.zero],
    by simp [new, HiSysEventHeader.zero, CharArray.zero]⟩

section
variable (formed : builder.WellFormed)
include formed

theorem WellFormed.appendDomain (domain : List UInt8) : (builder.appendDomain domain).WellFormed :=
  ⟨formed.toSound.header rfl, appendText_ends _ _, formed.nameEnds⟩

theorem WellFormed.appendName (name : List UInt8) : (builder.appendName name).WellFormed :=
  ⟨formed.toSound.header rfl, formed.domainEnds, appendText_ends _ _⟩

theorem WellFormed.header {header : HiSysEventHeader} (domain : header.domain = builder.header.domain)
    (name : header.name = builder.header.name) (trace : header.isTraceOpened = builder.header.isTraceOpened) :
    WellFormed { builder with header } :=
  ⟨formed.toSound.header trace, domain ▸ formed.domainEnds, name ▸ formed.nameEnds⟩

theorem WellFormed.traced (traceInfo : TraceInfo) :
    WellFormed { builder with header.isTraceOpened := 1, traceInfo } :=
  ⟨formed.toSound.traced rfl, formed.domainEnds, formed.nameEnds⟩

theorem WellFormed.removeParam (paramName : List UInt8) :
    (builder.removeParam paramName).WellFormed :=
  ⟨formed.toSound.removeParam paramName, formed.domainEnds, formed.nameEnds⟩

end

theorem appendParam_header (builder : RawDataBuilder) (param : EncodedParam) :
    (builder.appendParam param).header = builder.header := by
  rw [appendParam]
  split <;> rfl

variable (formed : builder.WellFormed)
include formed

theorem WellFormed.appendParam (key : List UInt8) (value : Value) :
    (builder.appendParam (.new key value)).WellFormed :=
  ⟨formed.toSound.appendParam key value, by rw [appendParam_header]; exact formed.domainEnds,
    by rw [appendParam_header]; exact formed.nameEnds⟩

theorem WellFormed.appendBaseInfoValue (key : BaseInfoKey)
    (val : Argument) : (builder.appendBaseInfoValue key val).WellFormed := by
  unfold RawDataBuilder.appendBaseInfoValue
  split
  · exact formed.appendDomain _
  · exact formed.appendName _
  all_goals first
    | exact formed
    | exact formed.header rfl rfl rfl
    | exact formed.traced _

theorem WellFormed.call (setter : Setter) :
    (builder.call setter).WellFormed := by
  cases setter with
  | domain text => exact formed.appendDomain text
  | name text => exact formed.appendName text
  | value key val =>
    simp only [RawDataBuilder.call, appendValue]
    split
    · exact formed.appendBaseInfoValue _ val
    · exact formed.appendParam key val.value
  | remove paramName => exact formed.removeParam paramName
  | traceId | spanId | pSpanId | traceFlag | traceInfo => exact formed.traced _
  | _ => exact formed.header rfl rfl rfl

omit formed

theorem run_wellFormed (calls : List Setter) : (run calls).WellFormed := by
  suffices kept : ∀ builder : RawDataBuilder, builder.WellFormed →
      (calls.foldl call builder).WellFormed from kept new new_wellFormed
  induction calls with
  | nil => exact fun _ formed => formed
  | cons setter rest ih => exact fun builder formed => ih _ (formed.call setter)

end RawDataBuilder
end Terminators

section Rebuilding

theorem Value.cut_of_bounded {value : Value} (bounded : value.Bounded) : value.cut = value := by
  cases value <;> first
    | rfl
    | exact congrArg _ (take_of_length_le bounded)

variable {params : List (List UInt8 × Value)}

theorem Event.assign_of_fresh (fresh : key ∉ params.map Prod.fst) (value : Value) :
    Event.assign params key value = params ++ [(key, value)] := by
  rw [Event.assign, if_neg fresh]

theorem Event.mem_assign (member : param ∈ Event.assign params key value) :
    param ∈ params ∨ param = (key, value) := by
  rw [Event.assign] at member
  split at member
  · obtain ⟨old, present, rfl⟩ := mem_map.mp member
    split
    · exact .inr rfl
    · exact .inl present
  · rcases mem_append.mp member with present | added
    · exact .inl present
    · exact .inr (mem_singleton.mp added)

def DecodedParam.pair (param : DecodedParam) : List UInt8 × Value := (param.key, param.value)

open DecodedParam (pair)

theorem DecodedEvent.event_params (event : DecodedEvent) :
    event.event.params = event.allParams.map pair := rfl

namespace RawDataBuilder
variable {builder : RawDataBuilder}

variable (formed : builder.WellFormed)
include formed

theorem WellFormed.event_distinct :
    Assoc.Distinct builder.event.params := by
  have distinct := formed.distinct
  rw [Assoc.Distinct, event, HiSysEventHeader.event, map_map]
  exact distinct

theorem WellFormed.appendParam_event (key : List UInt8)
    (value : Value) : (builder.appendParam (.new key value)).event =
      { builder.event with params := Event.assign builder.event.params key value.cut } := by
  obtain ⟨param, -, rfl, valueEq, appended⟩ := builder.appendParam_eq key value
  have placing := placed_assign param formed.distinct
  rw [valueEq] at placing
  rw [appended]
  exact congrArg (fun params => ({ builder.event with params } : Event)) placing

/-- Parameters under new and distinct keys go last, in their order. -/
theorem WellFormed.foldl_appendParam {params : List DecodedParam}
    (bounded : ∀ param ∈ params, param.value.Bounded)
    (distinct : Assoc.Distinct (builder.event.params ++ params.map pair)) :
    (params.foldl (fun builder param => builder.appendParam (.new param.key param.value))
        builder).WellFormed ∧
      (params.foldl (fun builder param => builder.appendParam (.new param.key param.value))
        builder).event =
        { builder.event with params := builder.event.params ++ params.map pair } := by
  induction params generalizing builder with
  | nil => exact ⟨formed, by rw [map_nil, append_nil]; rfl⟩
  | cons param rest ih =>
    rw [forall_mem_cons] at bounded
    have fresh : param.key ∉ builder.event.params.map Prod.fst := by
      rw [Assoc.Distinct, map_append, map_cons, map_cons] at distinct
      exact fun member => (nodup_append.mp distinct).2.2 _ member _ mem_cons_self rfl
    have appended := formed.appendParam_event param.key param.value
    rw [Event.assign_of_fresh fresh, Value.cut_of_bounded bounded.1] at appended
    have grown : (builder.appendParam (.new param.key param.value)).event.params ++
        rest.map pair = builder.event.params ++ (param :: rest).map pair := by
      rw [appended]
      simp [pair]
    obtain ⟨final, contents⟩ :=
      ih (formed.appendParam param.key param.value) bounded.2 (grown ▸ distinct)
    refine ⟨final, ?_⟩
    rw [foldl_cons, contents, grown, appended]

omit formed

section
variable (builder : RawDataBuilder) (params : List DecodedParam)

theorem initValueParams_eq :
    builder.initValueParams params =
      (params.filter (·.value.isArray == false) ++ params.filter (·.value.isArray == true)).foldl
        (fun builder param => builder.appendParam (.new param.key param.value)) builder := by
  rw [foldl_append, foldl_filter, foldl_filter]
  rfl

theorem scalars_arrays_perm :
    (params.filter (·.value.isArray == false) ++ params.filter (·.value.isArray == true)).Perm params := by
  have complement : (fun param : DecodedParam => param.value.isArray == true) =
      fun param => !(param.value.isArray == false) := by
    funext param
    cases param.value.isArray <;> rfl
  rw [complement]
  exact filter_append_perm _ params

theorem type_taken_over (type : BitVec 2) :
    BitVec.ofInt 2 ((Int32.ofNat (type.toNat + 1)).toInt - 1) = type := by
  rw [Int32.toInt_ofNat_of_lt (by omega), Nat.cast_add, Nat.cast_one, Int.add_sub_cancel,
    BitVec.ofInt_natCast, BitVec.ofNat_toNat, BitVec.setWidth_eq]

theorem ofHead_wellFormed (header : HiSysEventHeader) (traceInfo : TraceInfo) :
    (ofHead header traceInfo).WellFormed := by
  have texts := (new_wellFormed.appendDomain header.domain.text).appendName header.name.text
  have opened : ∀ builder : RawDataBuilder, builder.WellFormed → (builder.appendTraceInfo
      traceInfo.traceId traceInfo.spanId traceInfo.pSpanId traceInfo.traceFlag).WellFormed :=
    fun _ formed => formed.traced _
  rw [ofHead]
  split
  · exact opened _ (texts.header rfl rfl rfl)
  · exact texts.header rfl rfl rfl

theorem ofHead_event {header : HiSysEventHeader} (traceInfo : TraceInfo)
    (domainEnds : 0 ∈ header.domain.chars) (nameEnds : 0 ∈ header.name.chars) :
    (ofHead header traceInfo).event = header.event traceInfo [] := by
  have domain := CharArray.set_text .zero (CharArray.text_length domainEnds)
    header.domain.zero_not_mem_text
  have name := CharArray.set_text .zero (CharArray.text_length nameEnds)
    header.name.zero_not_mem_text
  have type := congrArg (fun type : BitVec 2 => (type.toNat : Int) + 1) (type_taken_over header.type)
  rw [ofHead]
  split
  · rename_i traced
    simp only [event, HiSysEventHeader.event, if_pos traced, Event.mk.injEq]
    exact ⟨domain, name, type, rfl, rfl, rfl, rfl, rfl, rfl, rfl, rfl, rfl⟩
  · rename_i closed
    simp only [event, HiSysEventHeader.event, if_neg closed, Event.mk.injEq]
    exact ⟨domain, name, type, rfl, rfl, rfl, rfl, rfl, rfl, rfl, rfl, rfl⟩

/-- The parameters in the order in which the two passes append them. -/
def regrouped (params : List DecodedParam) : List DecodedParam :=
  params.filter (·.value.isArray == false) ++ params.filter (·.value.isArray == true)

theorem ofDecoded_event {decoded : DecodedEvent} (domainEnds : 0 ∈ decoded.header.domain.chars)
    (nameEnds : 0 ∈ decoded.header.name.chars)
    (bounded : ∀ param ∈ decoded.allParams, param.value.Bounded)
    (distinct : Assoc.Distinct decoded.event.params) :
    (ofDecoded decoded).WellFormed ∧ (ofDecoded decoded).event =
      { decoded.event with params := (regrouped decoded.allParams).map pair } := by
  have reordered := scalars_arrays_perm decoded.allParams
  have head := ofHead_event decoded.traceInfo domainEnds nameEnds
  have empty : (ofHead decoded.header decoded.traceInfo).event.params = [] := by rw [head]; rfl
  obtain ⟨formed, contents⟩ := (ofHead_wellFormed decoded.header decoded.traceInfo).foldl_appendParam
    (fun param member => bounded param (reordered.mem_iff.mp member))
    (by
      rw [empty, nil_append]
      exact distinct.perm (reordered.map pair).symm)
  rw [ofDecoded, initValueParams_eq]
  refine ⟨formed, ?_⟩
  rw [contents, head]
  rfl

theorem ofDecoded_same {decoded : DecodedEvent} (domainEnds : 0 ∈ decoded.header.domain.chars) (nameEnds : 0 ∈ decoded.header.name.chars)
    (bounded : ∀ param ∈ decoded.allParams, param.value.Bounded) (distinct : Assoc.Distinct decoded.event.params) :
    (ofDecoded decoded).WellFormed ∧ (ofDecoded decoded).event.Same decoded.event := by
  obtain ⟨formed, contents⟩ := ofDecoded_event domainEnds nameEnds bounded distinct
  refine ⟨formed, ?_⟩
  rw [contents]
  exact ⟨rfl, (scalars_arrays_perm decoded.allParams).map pair⟩

theorem block_length_event :
    builder.block.length = builder.event.wireSize := by
  have params : DecodedEvent.wires builder.decodedParams =
      builder.event.params.flatMap fun param => Wire.param param.1 param.2 := by
    rw [← decoded_event, DecodedEvent.event_params, flatMap_map]
    rfl
  have traced : builder.event.trace.isSome = true ↔ builder.header.isTraceOpened = 1 := by
    simp only [event, HiSysEventHeader.event]
    split <;> simp_all
  rw [block_length, params, Event.wireSize]
  simp only [traced]

theorem getParamCnt_event :
    builder.getParamCnt = builder.event.params.length := (length_map _).symm

end

theorem WellFormed.new_block (formed : builder.WellFormed) (within : builder.event.Within) :
    DecodedEvent.new builder.block = some builder.decoded := by
  refine DecodedEvent.new_block formed.encoded ?_ ?_
  · rw [getParamCnt_event]
    exact within.1
  · rw [block_length_event]
    exact within.2

theorem within_of_valid {decoded : DecodedEvent} (opened : DecodedEvent.new builder.block = some decoded)
    (valid : decoded.isValid = true) : builder.event.Within := by
  have small := (DecodedEvent.layout_of_valid opened valid).small
  have few := DecodedEvent.few_of_valid small opened valid
  rw [getParamCnt_event] at few
  rw [block_length_event] at small
  exact ⟨few, small⟩

theorem WellFormed.decoded_bounded (formed : builder.WellFormed) :
    ∀ param ∈ builder.decoded.allParams, param.value.Bounded :=
  forall_mem_map.mpr fun source present => (formed.encoded source present).bounded

theorem WellFormed.decoded_distinct (formed : builder.WellFormed) :
    Assoc.Distinct builder.decoded.event.params := by
  rw [decoded_event]
  exact formed.event_distinct

theorem WellFormed.ofRawData (formed : builder.WellFormed) (within : builder.event.Within)
    (held : rawData.Holds builder.block) :
    ∃ rebuilt, RawDataBuilder.ofRawData (some rawData) = some rebuilt ∧ rebuilt.WellFormed ∧
      rebuilt.event.Same builder.event := by
  obtain ⟨rebuilt, same⟩ := ofDecoded_same formed.domainEnds formed.nameEnds
    formed.decoded_bounded formed.decoded_distinct
  rw [decoded_event] at same
  rw [RawDataBuilder.ofRawData, held.getData, formed.new_block within]
  exact ⟨_, rfl, rebuilt, same⟩

end RawDataBuilder
end Rebuilding
end Hiview.EventRaw
