import Hiview.EventRaw.Rebuild

/-! `AppendValue(std::shared_ptr<EncodedParam>)`: the builder keeps an object that
its caller may hand over again. `Encode()` writes behind what the buffer of the
object holds, so an object that was encoded twice takes two wire forms into the
block, and the block announces it as one parameter. -/
namespace Hiview.EventRaw
open List
open DecodedEvent (wires)

/-- The object after a number of calls of `Encode()`. -/
def EncodedParam.encodedTimes (key : List UInt8) (value : Value) : Nat → EncodedParam
  | 0 => .new key value
  | times + 1 => (encodedTimes key value times).encode.getD (encodedTimes key value times)

/-- A call on the builder, or `AppendValue` of an object with the number of its
encodings so far. When an object of the list is encoded by its owner or by another
builder, the list is as if the object had been appended here again. -/
inductive BuilderCall where
  | setter (call : Setter)
  | object (before : Nat) (key : List UInt8) (value : Value)

def BuilderCall.Admissible : BuilderCall → Prop
  | .setter call => call.Admissible
  | .object .. => True

instance : DecidablePred BuilderCall.Admissible
  | .setter call => inferInstanceAs (Decidable call.Admissible)
  | .object .. => inferInstanceAs (Decidable True)

/-- How often the object under each key was encoded. -/
def BuilderCall.encodings (times : List UInt8 → Nat) : BuilderCall → List UInt8 → Nat
  | .setter (.value key _) =>
    if RawDataBuilder.isBaseInfo key then times else Function.update times key 1
  | .setter _ => times
  | .object before key _ => Function.update times key (before + 1)

def encodings (calls : List BuilderCall) : List UInt8 → Nat :=
  calls.foldl BuilderCall.encodings fun _ => 1

namespace RawDataBuilder

def perform (builder : RawDataBuilder) : BuilderCall → RawDataBuilder
  | .setter setter => builder.call setter
  | .object before key value => builder.appendParam (.encodedTimes key value before)

def performAll (builder : RawDataBuilder) (calls : List BuilderCall) : RawDataBuilder :=
  calls.foldl perform builder

end RawDataBuilder

namespace Event

def perform (event : Event) : BuilderCall → Event
  | .setter setter => event.call setter
  | .object _ key value => { event with params := assign event.params key value.cut }

def performAll (event : Event) (calls : List BuilderCall) : Event := calls.foldl perform event

/-- The size of the block when each parameter stands in it as often as it was encoded. -/
def builtSize (event : Event) (times : List UInt8 → Nat) : Nat :=
  4 + HiSysEventHeader.size + (if event.trace.isSome then TraceInfo.size else 0) + 4 +
    (event.params.flatMap fun param =>
      (List.replicate (times param.1) (Wire.param param.1 param.2)).flatten).length

end Event

section Copies
variable {α : Type} {items : List α} {count : α → Nat}

def copies (count : α → Nat) (items : List α) : List α :=
  items.flatMap fun item => List.replicate (count item) item

theorem copies_of_once (once : ∀ item ∈ items, count item = 1) : copies count items = items := by
  induction items with
  | nil => rfl
  | cons item rest ih =>
    rw [forall_mem_cons] at once
    have others : copies count rest = rest := ih once.2
    rw [copies] at others
    rw [copies, flatMap_cons, once.1, others]
    rfl

theorem mem_of_mem_copies (member : item ∈ copies count items) : item ∈ items := by
  obtain ⟨source, present, inside⟩ := mem_flatMap.mp member
  rw [eq_of_mem_replicate inside]
  exact present

variable (positive : ∀ item ∈ items, 0 < count item)
include positive

theorem length_le_copies : items.length ≤ (copies count items).length := by
  induction items with
  | nil => exact Nat.le_refl _
  | cons item rest ih =>
    rw [forall_mem_cons] at positive
    have others : rest.length ≤ (copies count rest).length := ih positive.2
    rw [copies] at others
    rw [copies, flatMap_cons, length_append, length_replicate, length_cons]
    omega

theorem once_of_copies_length (same : (copies count items).length ≤ items.length) :
    ∀ item ∈ items, count item = 1 := by
  induction items with
  | nil => exact fun _ member => absurd member not_mem_nil
  | cons item rest ih =>
    rw [forall_mem_cons] at positive
    have others := length_le_copies positive.2
    rw [copies, flatMap_cons, length_append, length_replicate, length_cons] at same
    rw [copies] at others
    rw [forall_mem_cons]
    refine ⟨by omega, ih positive.2 ?_⟩
    rw [copies]
    omega

/-- The last item may be there more than once. -/
theorem take_copies (once : ∀ item ∈ items.dropLast, count item = 1) :
    (copies count items).take items.length = items := by
  rcases eq_nil_or_concat' items with rfl | ⟨front, last, rfl⟩
  · rfl
  · rw [dropLast_concat] at once
    have own := positive last (mem_append_right _ mem_cons_self)
    have front := copies_of_once once
    rw [copies] at front
    rw [copies, flatMap_append, front, length_append, take_length_add_append, flatMap_singleton,
      take_replicate, length_singleton, Nat.min_eq_left own]
    rfl

/-- An earlier item that is there twice keeps the last one out. -/
theorem mem_front_of_take_copies (twice : ¬ ∀ item ∈ items.dropLast, count item = 1)
    (member : item ∈ (copies count items).take items.length) : item ∈ items.dropLast := by
  rcases eq_nil_or_concat' items with rfl | ⟨front, last, rfl⟩
  · exact absurd member not_mem_nil
  · rw [dropLast_concat] at twice ⊢
    have long : front.length < (copies count front).length := Nat.lt_of_not_le fun short =>
      twice (once_of_copies_length (fun item inside => positive item (mem_append_left _ inside)) short)
    have split : copies count (front ++ [last]) = copies count front ++ copies count [last] :=
      flatMap_append
    rw [split, length_append, length_singleton, take_append_of_le_length long] at member
    exact mem_of_mem_copies (mem_of_mem_take member)

end Copies

namespace EncodedParam
variable {param : EncodedParam} {times : Nat}

/-- A parameter whose buffer holds its wire form a number of times. -/
structure Repeated (param : EncodedParam) (times : Nat) : Prop where
  done : param.hasEncoded = true
  positive : 0 < times
  held : param.rawData.Holds (List.replicate times (Wire.param param.key param.value)).flatten
  bounded : param.value.Bounded

theorem Encoded.repeated (encoded : param.Encoded) : param.Repeated 1 :=
  ⟨encoded.done, Nat.one_pos, by simpa using encoded.held, encoded.bounded⟩

theorem encode_repeated (held : param.rawData.Holds
      (List.replicate times (Wire.param param.key param.value)).flatten) (bounded : param.value.Bounded) :
    ∃ next, param.encode = some next ∧ next.key = param.key ∧ next.value = param.value ∧
      next.Repeated (times + 1) := by
  obtain ⟨data, step, result⟩ := encode_holds held
  refine ⟨_, step, rfl, rfl, rfl, Nat.succ_pos times, ?_, bounded⟩
  rw [replicate_succ', flatten_append, flatten_singleton]
  exact result

theorem encodedTimes_holds (key : List UInt8) (value : Value) (times : Nat) :
    (encodedTimes key value times).key = key ∧ (encodedTimes key value times).value = value.cut ∧
      (encodedTimes key value times).rawData.Holds
        (List.replicate times (Wire.param (encodedTimes key value times).key
          (encodedTimes key value times).value)).flatten := by
  induction times with
  | zero => exact ⟨rfl, rfl, RawData.new_holds⟩
  | succ times ih =>
    obtain ⟨keyEq, valueEq, held⟩ := ih
    obtain ⟨next, step, nextKey, nextValue, repeated⟩ := encode_repeated held (valueEq ▸ value.cut_bounded)
    rw [encodedTimes, step, Option.getD_some]
    exact ⟨nextKey.trans keyEq, nextValue.trans valueEq, repeated.held⟩

/-- The parameter as an object that is encoded for the first time. -/
def fresh (param : EncodedParam) : EncodedParam := (new param.key param.value).encode.getD param

theorem fresh_encoded (param : EncodedParam) :
    param.fresh.Encoded ∧ param.fresh.key = param.key ∧ param.fresh.value = param.value.cut := by
  obtain ⟨first, step, encoded, keyEq, valueEq⟩ := encode_new param.key param.value
  rw [fresh, step, Option.getD_some]
  exact ⟨encoded, keyEq, valueEq⟩

theorem fresh_of_encode {key : List UInt8} {value : Value} {first : EncodedParam}
    (step : (new key value).encode = some first) (keyEq : param.key = key)
    (valueEq : param.value = value.cut) : param.fresh = first := by
  have same : new key value.cut = new key value := by
    rw [new, Value.cut_of_bounded value.cut_bounded, new]
  rw [fresh, keyEq, valueEq, same, step, Option.getD_some]

end EncodedParam
open EncodedParam (encode_repeated encodedTimes_holds fresh_encoded)

namespace RawDataBuilder
variable {builder : RawDataBuilder} {times : List UInt8 → Nat}

/-- The builder whose parameters were all encoded once. -/
def fresh (builder : RawDataBuilder) : RawDataBuilder :=
  { builder with allParams := builder.allParams.map EncodedParam.fresh }

def performOnce (builder : RawDataBuilder) : BuilderCall → RawDataBuilder
  | .setter setter => builder.call setter
  | .object _ key value => builder.appendParam (.new key value)

section Fresh
variable {params : List EncodedParam}

theorem placed_fresh (param : EncodedParam) (params : List EncodedParam) :
    (placed param params).map EncodedParam.fresh = placed param.fresh (params.map EncodedParam.fresh) := by
  induction params with
  | nil => rfl
  | cons first rest ih =>
    simp only [placed, map_cons, (fresh_encoded _).2.1]
    split
    · rfl
    · rw [map_cons, ih]

theorem eraseP_fresh (paramName : List UInt8) (params : List EncodedParam) :
    (params.eraseP (·.key = paramName)).map EncodedParam.fresh =
      (params.map EncodedParam.fresh).eraseP (·.key = paramName) := by
  rw [eraseP_map]
  congr 1
  refine congrArg (fun test => eraseP test params) (funext fun param => ?_)
  simp only [Function.comp_apply, (fresh_encoded param).2.1]

/-- An object is appended as it would be the first time, but for its bytes. -/
theorem appendParam_fresh (builder : RawDataBuilder) (before : Nat) (key : List UInt8) (value : Value) :
    (builder.appendParam (.encodedTimes key value before)).fresh =
      builder.fresh.appendParam (.new key value) := by
  obtain ⟨keyEq, valueEq, held⟩ := encodedTimes_holds key value before
  obtain ⟨next, step, nextKey, nextValue, -⟩ :=
    encode_repeated held (valueEq ▸ value.cut_bounded)
  obtain ⟨first, firstStep, -⟩ := EncodedParam.encode_new key value
  have same := EncodedParam.fresh_of_encode firstStep (nextKey.trans keyEq) (nextValue.trans valueEq)
  simp only [appendParam, step, firstStep, fresh, placed_fresh, same]

theorem appendBaseInfoValue_fresh (builder : RawDataBuilder) (base : BaseInfoKey) (val : Argument) :
    (builder.appendBaseInfoValue base val).fresh = builder.fresh.appendBaseInfoValue base val := by
  unfold appendBaseInfoValue
  split <;> rfl

theorem call_fresh (builder : RawDataBuilder) (setter : Setter) :
    (builder.call setter).fresh = builder.fresh.call setter := by
  cases setter with
  | value key val =>
    simp only [call, appendValue]
    split
    · exact appendBaseInfoValue_fresh builder _ val
    · exact appendParam_fresh builder 0 key val.value
  | remove paramName =>
    simp only [call, removeParam, fresh, eraseP_fresh]
  | _ => rfl

theorem perform_fresh (builder : RawDataBuilder) (call : BuilderCall) :
    (builder.perform call).fresh = builder.fresh.performOnce call := by
  cases call with
  | setter setter => exact call_fresh builder setter
  | object before key value => exact appendParam_fresh builder before key value

end Fresh
/-- The parameters as the block has them: each as often as it was encoded. -/
def copied (builder : RawDataBuilder) (times : List UInt8 → Nat) : List DecodedParam :=
  copies (fun param => times param.key) builder.decodedParams

def copiesBytes (builder : RawDataBuilder) (times : List UInt8 → Nat) : List UInt8 :=
  wires (builder.copied times)

theorem blockWith_size (builder : RawDataBuilder) (times : List UInt8 → Nat) :
    (builder.blockWith (builder.copiesBytes times)).length = builder.event.builtSize times := by
  have params : builder.copiesBytes times = builder.event.params.flatMap fun param =>
      (List.replicate (times param.1) (Wire.param param.1 param.2)).flatten := by
    rw [copiesBytes, wires, copied, copies, decodedParams, event, HiSysEventHeader.event, flatMap_map, flatMap_map,
      flatMap_assoc]
    exact flatMap_congr fun param _ => flatMap_replicate
  have traced : builder.event.trace.isSome = true ↔ builder.header.isTraceOpened = 1 := by
    simp only [event, HiSysEventHeader.event]
    split <;> simp_all
  rw [builder.blockWith_length, headed, Event.builtSize, params]
  simp only [traced]

/-- What the calls keep: but for the bytes of repeated objects a well-formed builder. -/
structure Kept (builder : RawDataBuilder) (times : List UInt8 → Nat) : Prop where
  formed : builder.fresh.WellFormed
  repeated : ∀ param ∈ builder.allParams, param.Repeated (times param.key)

theorem fresh_keys (builder : RawDataBuilder) :
    builder.fresh.allParams.map EncodedParam.key = builder.allParams.map EncodedParam.key := by
  rw [fresh, map_map]
  exact map_congr_left fun param _ => (fresh_encoded param).2.1

theorem WellFormed.kept (formed : builder.WellFormed) : builder.Kept fun _ => 1 where
  formed := {
    encoded := forall_mem_map.mpr fun param _ => (fresh_encoded param).1
    distinct := by rw [fresh_keys]; exact formed.distinct
    untraced := formed.untraced
    domainEnds := formed.domainEnds
    nameEnds := formed.nameEnds }
  repeated param member := (formed.encoded param member).repeated

theorem WellFormed.performOnce (formed : builder.WellFormed) (call : BuilderCall) :
    (builder.performOnce call).WellFormed := by
  cases call with
  | setter call => exact formed.call call
  | object before key value => exact formed.appendParam key value

theorem placed_mem_distinct {params : List EncodedParam} (distinct : (params.map EncodedParam.key).Nodup)
    (member : other ∈ placed param params) : other = param ∨ other ∈ params ∧ other.key ≠ param.key := by
  induction params with
  | nil => exact .inl (mem_singleton.mp member)
  | cons first rest ih =>
    obtain ⟨absent, distinct⟩ := nodup_cons.mp distinct
    rw [placed] at member
    split at member
    · rename_i same
      refine (mem_cons.mp member).imp_right fun later => ⟨mem_cons_of_mem first later, fun equal => ?_⟩
      exact absent (mem_map.mpr ⟨other, later, equal.trans same.symm⟩)
    · rename_i differs
      rcases mem_cons.mp member with rfl | later
      · exact .inr ⟨mem_cons_self, differs⟩
      · exact (ih distinct later).imp_right fun found => ⟨mem_cons_of_mem first found.1, found.2⟩

namespace Kept
variable (kept : builder.Kept times)
include kept

theorem distinct : (builder.allParams.map EncodedParam.key).Nodup := by
  rw [← fresh_keys]
  exact kept.formed.distinct

theorem decodedParams_fresh : builder.fresh.decodedParams = builder.decodedParams := by
  rw [decodedParams, fresh, map_map]
  refine map_congr_left fun param member => ?_
  obtain ⟨-, keyEq, valueEq⟩ := fresh_encoded param
  simp only [Function.comp_apply, keyEq, valueEq,
    Value.cut_of_bounded (kept.repeated param member).bounded]

theorem event_fresh : builder.fresh.event = builder.event := by
  have params := congrArg (map fun param : DecodedParam => (param.key, param.value)) kept.decodedParams_fresh
  rw [decodedParams, decodedParams, map_map, map_map] at params
  exact congrArg (builder.header.event builder.traceInfo) params

theorem appendParam_repeated (before : Nat) (key : List UInt8) (value : Value) :
    ∀ param ∈ (builder.appendParam (.encodedTimes key value before)).allParams,
      param.Repeated (Function.update times key (before + 1) param.key) := by
  obtain ⟨keyEq, valueEq, held⟩ := encodedTimes_holds key value before
  obtain ⟨next, step, nextKey, -, repeated⟩ :=
    encode_repeated held (valueEq ▸ value.cut_bounded)
  rw [keyEq] at nextKey
  simp only [appendParam, step]
  intro param member
  rcases placed_mem_distinct kept.distinct member with rfl | ⟨earlier, differs⟩
  · rw [nextKey, Function.update_self]
    exact repeated
  · rw [nextKey] at differs
    rw [Function.update_of_ne differs]
    exact kept.repeated param earlier

theorem call_repeated (setter : Setter) : ∀ param ∈ (builder.call setter).allParams,
    param.Repeated ((BuilderCall.setter setter).encodings times param.key) := by
  cases setter with
  | value key val =>
    cases found : BaseInfoKey.ofText key with
    | none =>
      have plain : isBaseInfo key = false := by
        rw [isBaseInfo, found, Option.isSome_none]
      rw [call, appendValue_of_plain plain, BuilderCall.encodings, plain]
      exact kept.appendParam_repeated 0 key val.value
    | some base =>
      have named : isBaseInfo key = true := by
        rw [isBaseInfo, found, Option.isSome_some]
      have same : (builder.call (.value key val)).allParams = builder.allParams := by
        simp only [call, appendValue, found]
        unfold appendBaseInfoValue
        split <;> rfl
      rw [same, BuilderCall.encodings, if_pos named]
      exact kept.repeated
  | remove paramName => exact fun param member => kept.repeated param (mem_of_mem_eraseP member)
  | _ => exact kept.repeated

theorem perform (call : BuilderCall) : (builder.perform call).Kept (call.encodings times) where
  formed := by
    rw [perform_fresh]
    exact kept.formed.performOnce call
  repeated := by
    cases call with
    | setter setter => exact kept.call_repeated setter
    | object before key value => exact kept.appendParam_repeated before key value

/-- However often an object was encoded, the call means what it says. -/
theorem perform_event {call : BuilderCall} (admissible : call.Admissible) :
    (builder.perform call).event = builder.event.perform call := by
  rw [← (kept.perform call).event_fresh, perform_fresh, ← kept.event_fresh]
  cases call with
  | setter setter => exact kept.formed.toSound.call_event admissible
  | object before key value => exact kept.formed.appendParam_event key value

theorem performAll (calls : List BuilderCall) :
    (builder.performAll calls).Kept (calls.foldl BuilderCall.encodings times) := by
  induction calls generalizing builder times with
  | nil => exact kept
  | cons call rest ih => exact ih (kept.perform call)

theorem performAll_event {calls : List BuilderCall} (admissible : ∀ call ∈ calls, call.Admissible) :
    (builder.performAll calls).event = builder.event.performAll calls := by
  induction calls generalizing builder times with
  | nil => rfl
  | cons call rest ih =>
    rw [forall_mem_cons] at admissible
    have rest := ih (kept.perform call) admissible.2
    rw [kept.perform_event admissible.1] at rest
    exact rest

theorem positive : ∀ param ∈ builder.decodedParams, 0 < times param.key :=
  forall_mem_map.mpr fun param member => (kept.repeated param member).positive

theorem build_copies : ∃ rawData, builder.build = some rawData ∧
    rawData.Holds (builder.blockWith (builder.copiesBytes times)) := by
  obtain ⟨rawData, built, held⟩ := @build_blockWith builder
    (fun param => (List.replicate (times param.key) (Wire.param param.key param.value)).flatten)
    fun param member => by
      have own := kept.repeated param member
      rw [EncodedParam.getRawData, if_pos own.done]
      exact own.held
  refine ⟨rawData, built, ?_⟩
  have same : builder.copiesBytes times = builder.allParams.flatMap fun param =>
      (List.replicate (times param.key) (Wire.param param.key param.value)).flatten := by
    rw [copiesBytes, wires, copied, copies, decodedParams, flatMap_map, flatMap_assoc]
    refine flatMap_congr fun param _ => ?_
    rw [flatMap_replicate]
  rw [same]
  exact held

/-- The decoder takes as many of the copies as the builder has parameters. -/
theorem new_copies (few : builder.getParamCnt ≤ maxParamCnt)
    (small : (builder.blockWith (builder.copiesBytes times)).length ≤ maxBlockSize) :
    ∃ decoded, DecodedEvent.new (builder.blockWith (builder.copiesBytes times)) = some decoded ∧
      decoded.isValid = true ∧ decoded.header = builder.header ∧
      decoded.traceInfo = builder.decoded.traceInfo ∧
      decoded.allParams = (builder.copied times).take builder.getParamCnt ∧
      decoded.pos = (builder.blockWith (builder.copiesBytes times)).length -
        (wires ((builder.copied times).drop builder.getParamCnt)).length := by
  have enough : builder.getParamCnt ≤ (builder.copied times).length :=
    (length_map _).symm.le.trans (length_le_copies kept.positive)
  have split : builder.copiesBytes times =
      wires ((builder.copied times).take builder.getParamCnt) ++
        wires ((builder.copied times).drop builder.getParamCnt) := by
    simp only [copiesBytes, wires, ← flatMap_append, take_append_drop]
  have bounded : ∀ param ∈ (builder.copied times).take builder.getParamCnt, param.value.Bounded := by
    intro param member
    obtain ⟨source, present, rfl⟩ := mem_map.mp (mem_of_mem_copies (mem_of_mem_take member))
    exact (kept.repeated source present).bounded
  exact ⟨_, DecodedEvent.new_leading split bounded (length_take_of_le enough) few small,
    rfl, rfl, rfl, rfl, rfl⟩

/-- When no key is missing, only the object of the last one can have been encoded twice. -/
theorem once_of_keys (keys : ∀ param ∈ builder.decodedParams,
      param.key ∈ ((builder.copied times).take builder.getParamCnt).map DecodedParam.key) :
    ∀ param ∈ builder.decodedParams.dropLast, times param.key = 1 := by
  by_contra twice
  obtain empty | ⟨front, last, split⟩ := eq_nil_or_concat' builder.decodedParams
  · refine twice ?_
    rw [empty]
    exact fun _ member => absurd member not_mem_nil
  · have count : builder.getParamCnt = builder.decodedParams.length := (length_map _).symm
    have distinct : (builder.decodedParams.map DecodedParam.key).Nodup := by
      rw [decodedParams, map_map]
      exact kept.distinct
    obtain ⟨other, taken, same⟩ := mem_map.mp (keys last (by simp [split]))
    rw [count] at taken
    have early := mem_front_of_take_copies kept.positive twice taken
    rw [split, dropLast_concat] at early
    rw [split, map_append] at distinct
    exact (nodup_append.mp distinct).2.2 _ (mem_map_of_mem early) _ mem_cons_self same

end Kept
end RawDataBuilder

namespace DecodedEvent
open RawDataBuilder (Kept)
variable {builder : RawDataBuilder} {times : List UInt8 → Nat}

theorem wires_eq_nil {params : List DecodedParam}
    (empty : (wires params).length = 0) : params = [] := by
  have bound := paramCnt_le_wire params
  exact length_eq_zero_iff.mp (by omega)

/-- The whole block is read, and the event is the builder's, exactly when every
object in the list was encoded once. -/
theorem new_copies_iff (kept : builder.Kept times) (few : builder.getParamCnt ≤ maxParamCnt)
    (small : (builder.blockWith (builder.copiesBytes times)).length ≤ maxBlockSize) :
    ∃ decoded, new (builder.blockWith (builder.copiesBytes times)) = some decoded ∧
      decoded.isValid = true ∧ decoded.header = builder.header ∧
      (decoded.pos = (builder.blockWith (builder.copiesBytes times)).length ∧
        decoded.event = builder.event ↔ ∀ param ∈ builder.event.params, times param.1 = 1) := by
  have count : builder.decodedParams.length = builder.getParamCnt := length_map _
  have params : (∀ param ∈ builder.event.params, times param.1 = 1) ↔
      ∀ param ∈ builder.decodedParams, times param.key = 1 := by
    simp only [RawDataBuilder.event, HiSysEventHeader.event, RawDataBuilder.decodedParams, forall_mem_map]
  obtain ⟨decoded, opened, valid, header, trace, read, pos⟩ := kept.new_copies few small
  refine ⟨decoded, opened, valid, header, ?_⟩
  rw [params]
  constructor
  · rintro ⟨whole, -⟩
    have length := builder.blockWith_length (builder.copiesBytes times)
    have nothing := @wires_eq_nil ((builder.copied times).drop builder.getParamCnt) (by omega)
    refine once_of_copies_length kept.positive ?_
    rw [count]
    exact drop_eq_nil_iff.mp nothing
  · intro once
    have all : builder.copied times = builder.decodedParams := copies_of_once once
    rw [all, ← count, drop_length, wires, flatMap_nil, length_nil, Nat.sub_zero] at pos
    rw [all, ← count, take_length] at read
    refine ⟨pos, ?_⟩
    rw [← builder.decoded_event, event, header, trace, read]
    rfl

/-- The wire format is lossless, within the decoder's limits, exactly for builders
whose objects were encoded once. -/
theorem new_of_build_iff {calls : List BuilderCall} (admissible : ∀ call ∈ calls, call.Admissible)
    (few : (RawDataBuilder.new.performAll calls).getParamCnt ≤ maxParamCnt)
    (small : ∀ rawData ∈ (RawDataBuilder.new.performAll calls).build, rawData.getDataLength ≤ maxBlockSize) :
    ∃ rawData decoded, (RawDataBuilder.new.performAll calls).build = some rawData ∧
      new rawData.getData = some decoded ∧
      (decoded.isValid = true ∧ decoded.pos = rawData.getDataLength ∧
        decoded.header = (RawDataBuilder.new.performAll calls).header ∧
        decoded.event = Event.new.performAll calls ↔
        ∀ param ∈ (Event.new.performAll calls).params, encodings calls param.1 = 1) := by
  have start := RawDataBuilder.new_wellFormed.kept
  have kept := start.performAll calls
  obtain ⟨rawData, built, held⟩ := kept.build_copies
  have fits := small rawData built
  rw [RawData.getDataLength, held.getData] at fits
  obtain ⟨decoded, opened, valid, header, exactly⟩ := new_copies_iff kept few fits
  have meant : (RawDataBuilder.new.performAll calls).event = Event.new.performAll calls :=
    start.performAll_event admissible
  rw [meant, ← held.getData] at exactly
  rw [← held.getData] at opened
  refine ⟨rawData, decoded, built, opened, ?_⟩
  rw [RawData.getDataLength]
  exact ⟨fun found => exactly.mp ⟨found.2.1, found.2.2.2⟩, fun once =>
    ⟨valid, (exactly.mpr once).1, header, (exactly.mpr once).2⟩⟩

/-- One object twice and a parameter behind it. -/
def twiceCalls : List BuilderCall := [.object 0 [75] (.dstring [118]), .object 1 [75] (.dstring [118]),
  .setter (.value [76] (.unsignedNum (.uint8 1)))]

/-- The object is read as two parameters, and the one behind it is lost. -/
theorem new_of_twiceCalls :
    (Event.new.performAll twiceCalls).params = [([75], .dstring [118]), ([76], .unsignedVarint 1)] ∧
    ∃ rawData decoded, (RawDataBuilder.new.performAll twiceCalls).build = some rawData ∧
      new rawData.getData = some decoded ∧ decoded.isValid = true ∧ decoded.pos ≠ rawData.getDataLength ∧
      decoded.event.params = [([75], .dstring [118]), ([75], .dstring [118])] := by
  have found : ∃ rawData ∈ (RawDataBuilder.new.performAll twiceCalls).build,
      ∃ decoded ∈ new rawData.getData, decoded.isValid = true ∧ decoded.pos ≠ rawData.getDataLength ∧
      decoded.event.params = [([75], .dstring [118]), ([75], .dstring [118])] := by
    decide +kernel
  obtain ⟨rawData, built, decoded, opened, read⟩ := found
  exact ⟨by decide, rawData, decoded, built, opened, read⟩

/-- A traced event whose first parameter is overwritten by an object of another type. -/
def objectCalls : List BuilderCall := [.setter (.domain [65]), .setter (.name [66, 67]), .setter (.type 3),
  .setter (.timeStamp 5), .setter (.traceFlag 1),
  .setter (.value [75] (.unsignedNum (.uint64 2305843009213693952))),
  .setter (.value [83] (.string [120, 0, 121])), .object 0 [75] (.signedVarintArray [1, -7])]

theorem new_of_objectCalls :
    ∃ rawData decoded, (RawDataBuilder.new.performAll objectCalls).build = some rawData ∧
      new rawData.getData = some decoded ∧ decoded.isValid = true ∧
      decoded.pos = rawData.getDataLength ∧
      decoded.header = (RawDataBuilder.new.performAll objectCalls).header ∧
      decoded.event = Event.new.performAll objectCalls := by
  obtain ⟨rawData, decoded, built, opened, exactly⟩ :=
    @new_of_build_iff objectCalls (by decide) (by decide +kernel) (by decide +kernel)
  exact ⟨rawData, decoded, built, opened, exactly.mpr (by decide +kernel)⟩

end DecodedEvent
end Hiview.EventRaw
