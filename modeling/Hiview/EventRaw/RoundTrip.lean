import Hiview.EventRaw.Builder
import Hiview.EventRaw.DecodedEvent
import Mathlib.Data.List.TakeWhile

/-! What a sequence of builder calls means, independently of buffers and wire
bytes, and that `Build` followed by `DecodedEvent` yields exactly that. -/
namespace Hiview.EventRaw
open List

inductive Setter where
  | domain (domain : List UInt8) | name (name : List UInt8) | type (eventType : Int32)
  | timeStamp (timestamp : UInt64) | timeZone (timeZone : UInt8)
  | timeZoneStr (timeZone : List UInt8)
  | uid (uid : UInt32) | pid (pid : UInt32) | tid (tid : UInt32) | log (log : UInt8)
  | id (id : UInt64) | idStr (id : List UInt8)
  | traceId (traceId : UInt64) | spanId (spanId : UInt32) | pSpanId (pSpanId : UInt32)
  | traceFlag (traceFlag : UInt8)
  | traceInfo (traceId : UInt64) (spanId pSpanId : UInt32) (traceFlag : UInt8)
  | value (key : List UInt8) (val : Argument) | remove (paramName : List UInt8)

def RawDataBuilder.call (builder : RawDataBuilder) : Setter → RawDataBuilder
  | .domain domain => builder.appendDomain domain
  | .name name => builder.appendName name
  | .type eventType => builder.appendType eventType
  | .timeStamp timestamp => builder.appendTimeStamp timestamp
  | .timeZone timeZone => builder.appendTimeZone timeZone
  | .timeZoneStr timeZone => builder.appendTimeZoneStr timeZone
  | .uid uid => builder.appendUid uid
  | .pid pid => builder.appendPid pid
  | .tid tid => builder.appendTid tid
  | .log log => builder.appendLog log
  | .id id => builder.appendId id
  | .idStr id => builder.appendIdStr id
  | .traceId traceId => builder.appendTraceId traceId
  | .spanId spanId => builder.appendSpanId spanId
  | .pSpanId pSpanId => builder.appendPSpanId pSpanId
  | .traceFlag traceFlag => builder.appendTraceFlag traceFlag
  | .traceInfo traceId spanId pSpanId traceFlag =>
    builder.appendTraceInfo traceId spanId pSpanId traceFlag
  | .value key val => builder.appendValue key val
  | .remove paramName => builder.removeParam paramName

def RawDataBuilder.run (calls : List Setter) : RawDataBuilder := calls.foldl call new

/-- Texts that fit their member, types that fit two bits, and no base info
under a parameter's name. -/
def Setter.Admissible : Setter → Prop
  | .domain text => text.length ≤ maxDomainLength ∧ 0 ∉ text
  | .name text => text.length ≤ maxEventNameLength ∧ 0 ∉ text
  | .type eventType => 1 ≤ eventType.toInt ∧ eventType.toInt ≤ 4
  | .value key _ => RawDataBuilder.isBaseInfo key = false
  | _ => True

instance : DecidablePred Setter.Admissible
  | .domain _ | .name _ | .type _ => inferInstanceAs (Decidable (_ ∧ _))
  | .value _ _ => inferInstanceAs (Decidable (_ = false))
  | .timeStamp _ | .timeZone _ | .timeZoneStr _ | .uid _ | .pid _ | .tid _ | .log _ | .id _
  | .idStr _ | .traceId _ | .spanId _ | .pSpanId _ | .traceFlag _ | .traceInfo .. | .remove _ =>
    inferInstanceAs (Decidable True)

/-- An event as its producer means it. -/
structure Event where
  domain : List UInt8
  name : List UInt8
  type : Int
  timestamp : UInt64
  timeZone : UInt8
  uid : UInt32
  pid : UInt32
  tid : UInt32
  id : UInt64
  log : UInt8
  trace : Option TraceInfo
  params : List (List UInt8 × Value)
  deriving DecidableEq

namespace Event

def new : Event := ⟨[], [], 1, 0, 0, 0, 0, 0, 0, 0, none, []⟩

def withTrace (event : Event) (update : TraceInfo → TraceInfo) : Event :=
  { event with trace := some (update (event.trace.getD .zero)) }

/-- A key keeps its place when its value is given again. -/
def assign (params : List (List UInt8 × Value)) (key : List UInt8) (value : Value) :
    List (List UInt8 × Value) :=
  if key ∈ params.map Prod.fst then
    params.map fun param => if param.1 = key then (key, value) else param
  else params ++ [(key, value)]

def call (event : Event) : Setter → Event
  | .domain domain => { event with domain }
  | .name name => { event with name }
  | .type eventType => { event with type := eventType.toInt }
  | .timeStamp timestamp => { event with timestamp }
  | .timeZone timeZone => { event with timeZone }
  | .timeZoneStr timeZone => { event with timeZone := UInt8.ofNat (parseTimeZone timeZone) }
  | .uid uid => { event with uid }
  | .pid pid => { event with pid }
  | .tid tid => { event with tid }
  | .log log => { event with log }
  | .id id => { event with id }
  | .idStr id =>
    { event with id := UInt64.ofNat (Numeral.toUnsigned 64 (Numeral.extract 10 id)) }
  | .traceId traceId => event.withTrace ({ · with traceId })
  | .spanId spanId => event.withTrace ({ · with spanId })
  | .pSpanId pSpanId => event.withTrace ({ · with pSpanId })
  | .traceFlag traceFlag => event.withTrace ({ · with traceFlag })
  | .traceInfo traceId spanId pSpanId traceFlag =>
    event.withTrace fun _ => ⟨traceFlag, traceId, spanId, pSpanId⟩
  | .value key val => { event with params := assign event.params key val.value.cut }
  | .remove paramName => { event with params := event.params.filter (·.1 ≠ paramName) }

def run (calls : List Setter) : Event := calls.foldl call new

end Event

/-- The event that a header, a trace record and a parameter list stand for. -/
def HiSysEventHeader.event (header : HiSysEventHeader) (traceInfo : TraceInfo)
    (params : List (List UInt8 × Value)) : Event where
  domain := header.domain.text
  name := header.name.text
  type := header.type.toNat + 1
  timestamp := header.timestamp
  timeZone := header.timeZone
  uid := header.uid
  pid := header.pid
  tid := header.tid
  id := header.id
  log := header.log
  trace := if header.isTraceOpened = 1 then some traceInfo else none
  params := params

def RawDataBuilder.event (builder : RawDataBuilder) : Event :=
  builder.header.event builder.traceInfo (builder.allParams.map fun param => (param.key, param.value))

theorem appendBaseInfoValue_params (builder : RawDataBuilder) (base : BaseInfoKey) (val : Argument) :
    (builder.appendBaseInfoValue base val).event.params = builder.event.params := by
  unfold RawDataBuilder.appendBaseInfoValue
  split <;> rfl

def DecodedEvent.event (decoded : DecodedEvent) : Event :=
  decoded.header.event decoded.traceInfo (decoded.allParams.map fun param => (param.key, param.value))

section Simulation

theorem takeWhile_ended {front rest : List UInt8} :
    (front ++ 0 :: rest).takeWhile (· ≠ 0) = front.takeWhile (· ≠ 0) := by
  induction front with
  | nil => rfl
  | cons char front ih =>
    rw [cons_append, takeWhile_cons, takeWhile_cons, ih]

/-- What a member holds after a text was appended to it. -/
theorem RawDataBuilder.appendText_text (member : CharArray (size + 1)) (text : List UInt8) :
    (appendText member text).text =
      if text.length ≤ size + 1 then (text.take size).takeWhile (· ≠ 0) else [] := by
  rw [appendText, CharArray.memcpy, CharArray.text, CharArray.set]
  by_cases fits : text.length ≤ size + 1
  · rw [dif_pos fits, if_pos fits]
    dsimp only
    rcases Nat.lt_or_eq_of_le fits with short | full
    · have inside : text.length ≤ size := Nat.le_of_lt_succ short
      have rest : 0 < (member.chars.drop text.length).length := by
        rw [length_drop, member.sized]
        omega
      obtain ⟨char, tail, split⟩ := exists_cons_of_length_pos rest
      rw [Nat.min_eq_left inside, split, set_append_right _ _ (Nat.le_refl _), Nat.sub_self,
        set_cons_zero, takeWhile_ended, take_of_length_le inside]
    · obtain ⟨front, last, rfl⟩ : ∃ front last, text = front ++ [last] :=
        ⟨_, _, (dropLast_append_getLast (ne_nil_of_length_pos (by omega))).symm⟩
      rw [length_append, length_singleton, Nat.add_right_cancel_iff] at full
      have none : member.chars.drop (front ++ [last]).length = [] := by
        refine drop_eq_nil_of_le ?_
        rw [member.sized, length_append, length_singleton, full]
      have place : min (front ++ [last]).length size = front.length := by
        rw [length_append, length_singleton, full]
        omega
      rw [none, append_nil, place, set_append_right _ _ (Nat.le_refl _), Nat.sub_self,
        set_cons_zero, takeWhile_ended, take_left' full]
  · rw [dif_neg fits, if_neg fits]
    dsimp only [CharArray.zero]
    rw [set_replicate_self, replicate_succ, takeWhile_cons_of_neg (by decide)]

theorem CharArray.set_text (member : CharArray (size + 1)) {text : List UInt8} (fits : text.length ≤ size)
    (clean : 0 ∉ text) : (RawDataBuilder.appendText member text).text = text := by
  rw [RawDataBuilder.appendText_text, if_pos (Nat.le_succ_of_le fits), take_of_length_le fits]
  exact takeWhile_eq_self_iff.mpr (CharArray.nonzero_of_clean clean)

theorem type_of_admissible {eventType : Int32} (low : 1 ≤ eventType.toInt)
    (high : eventType.toInt ≤ 4) :
    ((BitVec.ofInt 2 (eventType.toInt - 1)).toNat : Int) + 1 = eventType.toInt := by
  rw [BitVec.toNat_ofInt]
  omega

/-- What the builder keeps between calls: encoded parameters, under distinct
keys. A trace record is zero until a trace setter opens it. -/
structure RawDataBuilder.Sound (builder : RawDataBuilder) : Prop where
  encoded : builder.Encoded
  distinct : (builder.allParams.map EncodedParam.key).Nodup
  untraced : builder.header.isTraceOpened ≠ 1 → builder.traceInfo = .zero

namespace RawDataBuilder
variable {builder : RawDataBuilder}

theorem placed_keys (param : EncodedParam) (params : List EncodedParam) :
    (placed param params).map EncodedParam.key =
      if param.key ∈ params.map EncodedParam.key then params.map EncodedParam.key
      else params.map EncodedParam.key ++ [param.key] := by
  induction params with
  | nil => simp [placed]
  | cons first rest ih =>
    simp [placed]
    by_cases same : first.key = param.key
    · simp [same]
    · have other : ¬ param.key = first.key := fun equal => same equal.symm
      simp [if_neg same, ih, other]
      split <;> rfl

variable {params : List EncodedParam}

theorem placed_mem (member : other ∈ placed param params) : other = param ∨ other ∈ params := by
  fun_induction placed param params with
  | case1 => exact .inl (mem_singleton.mp member)
  | case2 first => exact (mem_cons.mp member).imp_right (mem_cons_of_mem first)
  | case3 first rest _ ih =>
    rcases mem_cons.mp member with same | later
    · exact .inr (same ▸ mem_cons_self)
    · exact (ih later).imp_right (mem_cons_of_mem first)

theorem placed_assign (param : EncodedParam) (distinct : (params.map EncodedParam.key).Nodup) :
    (placed param params).map (fun param => (param.key, param.value)) =
      Event.assign (params.map fun param => (param.key, param.value)) param.key param.value := by
  induction params with
  | nil => simp [placed, Event.assign]
  | cons first rest ih =>
    obtain ⟨fresh, distinctRest⟩ := nodup_cons.mp distinct
    have ih := ih distinctRest
    simp [placed]
    by_cases same : first.key = param.key
    · have absent : ∀ other ∈ rest, ¬ other.key = param.key := fun other member equal =>
        fresh (mem_map.mpr ⟨other, member, equal.trans same.symm⟩)
      simpa [Event.assign, same] using fun other member equal => (absent other member equal).elim
    · have differs : ¬ param.key = first.key := fun equal => same equal.symm
      simp [if_neg same, ih, Event.assign, differs]
      split <;> simp

theorem new_sound : new.Sound := ⟨fun _ member => (nomatch member), nodup_nil, fun _ => rfl⟩

theorem Sound.header (sound : builder.Sound) {header : HiSysEventHeader}
    (same : header.isTraceOpened = builder.header.isTraceOpened) :
    Sound { builder with header } :=
  ⟨sound.encoded, sound.distinct, fun closed => sound.untraced (same ▸ closed)⟩

theorem Sound.traced (sound : builder.Sound) {header : HiSysEventHeader} {traceInfo : TraceInfo}
    (opened : header.isTraceOpened = 1) : Sound { builder with header, traceInfo } :=
  ⟨sound.encoded, sound.distinct, fun closed => (closed opened).elim⟩

theorem appendParam_eq (builder : RawDataBuilder) (key : List UInt8) (value : Value) :
    ∃ param : EncodedParam, param.Encoded ∧ param.key = key ∧ param.value = value.cut ∧
      builder.appendParam (.new key value) =
        { builder with allParams := placed param builder.allParams } := by
  obtain ⟨param, encode, encoded, keyEq, valueEq⟩ := EncodedParam.encode_new key value
  exact ⟨param, encoded, keyEq, valueEq, by simp [appendParam, encode]⟩

theorem ofText_of_plain (plain : isBaseInfo key = false) : BaseInfoKey.ofText key = none := by
  simpa only [isBaseInfo, Option.isSome_eq_false_iff, Option.isNone_iff_eq_none] using plain

theorem appendValue_of_plain (plain : isBaseInfo key = false) (val : Argument) :
    builder.appendValue key val = builder.appendParam (.new key val.value) := by
  simp [appendValue, ofText_of_plain plain]

section
variable (sound : builder.Sound)
include sound

theorem Sound.removeParam (paramName : List UInt8) : (builder.removeParam paramName).Sound where
  encoded param member := sound.encoded param (mem_of_mem_eraseP member)
  distinct := sound.distinct.sublist (List.Sublist.map _ (eraseP_sublist))
  untraced := sound.untraced

theorem Sound.appendParam (key : List UInt8) (value : Value) :
    (builder.appendParam (.new key value)).Sound := by
  obtain ⟨param, encoded, keyEq, valueEq, appended⟩ := builder.appendParam_eq key value
  rw [appended]
  refine ⟨?_, ?_, sound.untraced⟩
  · intro other member
    rcases placed_mem member with rfl | earlier
    · exact encoded
    · exact sound.encoded other earlier
  · rw [placed_keys]
    split
    · exact sound.distinct
    · rename_i fresh
      exact nodup_append.mpr ⟨sound.distinct, by simp, by
        intro first earlier second last equal
        rw [mem_singleton.mp last] at equal
        exact fresh (equal ▸ earlier)⟩

theorem Sound.call (admissible : setter.Admissible) :
    (builder.call setter).Sound := by
  cases setter with
  | value key val =>
    rw [RawDataBuilder.call, appendValue_of_plain admissible]
    exact sound.appendParam key val.value
  | remove paramName => exact sound.removeParam paramName
  | traceId | spanId | pSpanId | traceFlag | traceInfo => exact sound.traced rfl
  | _ => exact sound.header rfl

theorem Sound.trace_getD :
    builder.event.trace.getD .zero = builder.traceInfo := by
  simp [event, HiSysEventHeader.event]
  split
  · rfl
  · rename_i closed
    exact (sound.untraced closed).symm

theorem Sound.withTrace (update : TraceInfo → TraceInfo) :
    RawDataBuilder.event { builder with
      header.isTraceOpened := 1, traceInfo := update builder.traceInfo } =
      builder.event.withTrace update := by
  rw [Event.withTrace, sound.trace_getD]
  rfl

end

theorem eraseP_filter (paramName : List UInt8) (distinct : (params.map EncodedParam.key).Nodup) :
    (params.eraseP (·.key = paramName)).map (fun param => (param.key, param.value)) =
      (params.map fun param => (param.key, param.value)).filter (·.1 ≠ paramName) := by
  induction params with
  | nil => rfl
  | cons first rest ih =>
    obtain ⟨fresh, distinctRest⟩ := nodup_cons.mp distinct
    by_cases same : first.key = paramName
    · have absent : ∀ other ∈ rest, ¬ other.key = paramName := fun other member equal =>
        fresh (mem_map.mpr ⟨other, member, equal.trans same.symm⟩)
      have kept : (rest.map fun param => (param.key, param.value)).filter (·.1 ≠ paramName) =
          rest.map fun param => (param.key, param.value) := by
        simpa [filter_eq_self] using absent
      rw [eraseP_cons_of_pos (by simpa using same), map_cons,
        filter_cons_of_neg (by simpa using same), kept]
    · rw [eraseP_cons_of_neg (by simpa using same), map_cons, map_cons,
        filter_cons_of_pos (by simpa using same), ih distinctRest]

/-- One call on the builder is the call on the event it stands for. -/
theorem Sound.call_event (sound : builder.Sound) {setter : Setter}
    (admissible : setter.Admissible) :
    (builder.call setter).event = builder.event.call setter := by
  cases setter with
  | domain text =>
    have held := CharArray.set_text builder.header.domain admissible.1 admissible.2
    exact congrArg (fun domain => ({ builder.event with domain } : Event)) held
  | name text =>
    have held := CharArray.set_text builder.header.name admissible.1 admissible.2
    exact congrArg (fun name => ({ builder.event with name } : Event)) held
  | type eventType =>
    have held := type_of_admissible admissible.1 admissible.2
    exact congrArg (fun type => ({ builder.event with type } : Event)) held
  | value key val =>
    obtain ⟨param, -, rfl, valueEq, appended⟩ := builder.appendParam_eq key val.value
    rw [RawDataBuilder.call, appendValue_of_plain admissible, appended]
    have placing := placed_assign param sound.distinct
    rw [valueEq] at placing
    exact congrArg (fun params => ({ builder.event with params } : Event)) placing
  | remove paramName =>
    exact congrArg (fun params => ({ builder.event with params } : Event))
      (eraseP_filter paramName sound.distinct)
  | traceId traceId => exact sound.withTrace ({ · with traceId })
  | spanId spanId => exact sound.withTrace ({ · with spanId })
  | pSpanId pSpanId => exact sound.withTrace ({ · with pSpanId })
  | traceFlag traceFlag => exact sound.withTrace ({ · with traceFlag })
  | traceInfo traceId spanId pSpanId traceFlag =>
    exact sound.withTrace fun _ => ⟨traceFlag, traceId, spanId, pSpanId⟩
  | _ => rfl

theorem run_simulates (admissible : ∀ setter ∈ calls, setter.Admissible) :
    (run calls).Sound ∧ (run calls).event = Event.run calls := by
  suffices step : ∀ builder : RawDataBuilder, builder.Sound →
      (calls.foldl call builder).Sound ∧
        (calls.foldl call builder).event = calls.foldl Event.call builder.event from
    step new new_sound
  induction calls with
  | nil => exact fun builder sound => ⟨sound, rfl⟩
  | cons setter rest ih =>
    intro builder sound
    have first := admissible setter mem_cons_self
    rw [foldl_cons, foldl_cons, ← sound.call_event first]
    exact ih (fun other member => admissible other (mem_cons_of_mem setter member)) _
      (sound.call first)
end RawDataBuilder
end Simulation

section Decoding
variable {builder : RawDataBuilder}

section
variable (builder : RawDataBuilder)

def RawDataBuilder.decodedParams : List DecodedParam :=
  builder.allParams.map fun param => ⟨param.key, param.value⟩

theorem DecodedEvent.new_eq_parse (split : block = Bytes.littleEndian 4 block.length ++ rest)
    (large : getValidDataMinimumByteCount ≤ block.length) (small : block.length ≤ maxBlockSize) :
    new block = parse { invalid with rawData := block } ∧
      overlay block 0 4 = some (Bytes.littleEndian 4 block.length) := by
  have front : Bytes.Occurs block 0 (Bytes.littleEndian 4 block.length) := ⟨rest, split.symm⟩
  have word := overlay_of_occurs front (Nat.zero_le _)
  rw [Bytes.littleEndian_length] at word
  have size := sizeOfInt32_word (show block.length < 2 ^ 31 by rw [maxBlockSize] at small; omega)
  have nonempty : ¬ block.length < 4 := by
    rw [getValidDataMinimumByteCount] at large
    omega
  have accepted : ¬ (block.length ≠ block.length ∨ block.length < getValidDataMinimumByteCount ∨
      block.length > maxBlockSize) := by omega
  refine ⟨?_, word⟩
  simp only [new, if_neg nonempty, word, size, if_neg accepted, Option.bind_eq_bind,
    Option.bind_some]

def RawDataBuilder.headed (bytes : List UInt8) : DecodedEvent where
  rawData := builder.blockWith bytes
  pos := 4 + HiSysEventHeader.size + if builder.header.isTraceOpened = 1 then TraceInfo.size else 0
  header := builder.header
  traceInfo := if builder.header.isTraceOpened = 1 then builder.traceInfo else .zero
  isValid := true
  allParams := []

theorem RawDataBuilder.blockWith_length (bytes : List UInt8) :
    (builder.blockWith bytes).length = (builder.headed bytes).pos + 4 + bytes.length := by
  rw [blockWith, bodyWith, headed]
  simp only [length_append, HiSysEventHeader.bytes_length, int32Bytes, Bytes.littleEndian_length]
  split <;> simp <;> omega

theorem RawDataBuilder.block_eq : builder.block = builder.blockWith (DecodedEvent.wires builder.decodedParams) := by
  rw [DecodedEvent.wires, decodedParams, flatMap_map]
  rfl

theorem RawDataBuilder.block_length : builder.block.length = 4 + HiSysEventHeader.size +
    (if builder.header.isTraceOpened = 1 then TraceInfo.size else 0) + 4 +
    (DecodedEvent.wires builder.decodedParams).length := by
  rw [block_eq, blockWith_length]
  rfl

/-- The event that the decoder reports for the builder's block. -/
def RawDataBuilder.decoded : DecodedEvent where
  rawData := builder.block
  pos := builder.block.length
  header := builder.header
  traceInfo := if builder.header.isTraceOpened = 1 then builder.traceInfo else .zero
  isValid := true
  allParams := builder.decodedParams

theorem RawDataBuilder.decoded_event : builder.decoded.event = builder.event := by
  simp only [decoded, DecodedEvent.event, event, decodedParams, HiSysEventHeader.event, map_map,
    Event.mk.injEq, true_and]
  exact ⟨by split <;> rfl, rfl⟩

end

variable {bytes : List UInt8}

/-- The header is read whatever stands behind the number of parameters. -/
theorem DecodedEvent.new_headed (small : (builder.blockWith bytes).length ≤ maxBlockSize) :
    new (builder.blockWith bytes) =
        (builder.headed bytes).parseCustomizedParams (builder.blockWith bytes).length ∧
      (builder.headed bytes).At (builder.blockWith bytes) (builder.headed bytes).pos ∧
      Bytes.Occurs (builder.blockWith bytes) (builder.headed bytes).pos
        (Bytes.littleEndian 4 builder.getParamCnt ++ bytes) := by
  have length := builder.blockWith_length bytes
  have place : (builder.headed bytes).pos = 4 + HiSysEventHeader.size +
    if builder.header.isTraceOpened = 1 then TraceInfo.size else 0 := rfl
  have large : getValidDataMinimumByteCount ≤ (builder.blockWith bytes).length := by
    rw [getValidDataMinimumByteCount]
    omega
  have split : builder.blockWith bytes =
      Bytes.littleEndian 4 (builder.blockWith bytes).length ++ builder.bodyWith bytes := by
    have whole : (builder.blockWith bytes).length = 4 + (builder.bodyWith bytes).length := by
      rw [RawDataBuilder.blockWith, length_append, RawDataBuilder.int32Bytes, Bytes.littleEndian_length]
    rw [whole]
    rfl
  obtain ⟨opened, word⟩ := new_eq_parse split large small
  have size := sizeOfInt32_word
    (show (builder.blockWith bytes).length < 2 ^ 31 by rw [maxBlockSize] at small; omega)
  have bodyHere : Bytes.Occurs (builder.blockWith bytes) 4 (builder.bodyWith bytes) := by
    have here := Bytes.occurs_of_split (split.trans (append_nil _).symm)
    rwa [Bytes.littleEndian_length] at here
  rw [RawDataBuilder.bodyWith, append_assoc] at bodyHere
  obtain ⟨headHere, paramsHere⟩ := Bytes.occurs_append.mp bodyHere
  have headLength : (builder.header.bytes ++
      if builder.header.isTraceOpened = 1 then builder.traceInfo.bytes else []).length =
      HiSysEventHeader.size + if builder.header.isTraceOpened = 1 then TraceInfo.size else 0 := by
    split <;> simp
  have inside := headHere.bound (by omega)
  rw [headLength, ← Nat.add_assoc] at paramsHere inside
  have start : At ⟨builder.blockWith bytes, 4, .zero, .zero, true, []⟩ (builder.blockWith bytes) 4 :=
    ⟨rfl, rfl, by omega⟩
  have header := parseHeader_reads start headHere
  refine ⟨?_, ⟨rfl, rfl, inside⟩, paramsHere⟩
  rw [opened, parse]
  simp [invalid, word, size, header]
  rfl

/-- As many parameters are read as the block announces; what is left over is not
looked at. -/
theorem DecodedEvent.new_leading {params : List DecodedParam} {rest : List UInt8}
    (split : bytes = wires params ++ rest)
    (bounded : ∀ param ∈ params, param.value.Bounded) (count : params.length = builder.getParamCnt)
    (few : builder.getParamCnt ≤ maxParamCnt) (small : (builder.blockWith bytes).length ≤ maxBlockSize) :
    new (builder.blockWith bytes) = some { builder.headed bytes with
      pos := (builder.blockWith bytes).length - rest.length
      allParams := params } := by
  have length := builder.blockWith_length bytes
  have parts := congrArg List.length split
  have addressable : (builder.blockWith bytes).length < 2 ^ 64 := by rw [maxBlockSize] at small; omega
  obtain ⟨opened, start, here⟩ := new_headed small
  obtain ⟨paramsHere, -⟩ : Bytes.Occurs (builder.blockWith bytes) (builder.headed bytes).pos
      (Bytes.littleEndian 4 params.length ++ wires params) ∧ _ := by
    rw [split, ← append_assoc, ← count] at here
    rw [split]
    exact Bytes.occurs_append.mp here
  rw [length_append] at parts
  rw [opened, parseCustomizedParams_reads bounded (by omega) addressable start paramsHere]
  simp only [RawDataBuilder.headed, nil_append, Option.some.injEq, DecodedEvent.mk.injEq,
    true_and, and_true] at length ⊢
  omega

theorem DecodedEvent.new_block (encoded : builder.Encoded)
    (few : builder.getParamCnt ≤ maxParamCnt) (small : builder.block.length ≤ maxBlockSize) :
    new builder.block = some builder.decoded := by
  have bounded : ∀ param ∈ builder.decodedParams, param.value.Bounded :=
    forall_mem_map.mpr fun source present => (encoded source present).bounded
  rw [RawDataBuilder.decoded, builder.block_eq] at *
  exact new_leading (append_nil _).symm bounded (length_map _) few small

theorem DecodedEvent.paramCnt_le_wire (params : List DecodedParam) : params.length ≤ (wires params).length := by
  induction params with
  | nil => exact Nat.le_refl _
  | cons param rest ih =>
    have nonempty : 0 < (Wire.param param.key param.value).length := by
      rw [Wire.param, length_append, length_cons]
      omega
    rw [wires, flatMap_cons, length_append, length_cons, ← wires]
    omega

theorem DecodedEvent.new_of_many (small : (builder.blockWith bytes).length ≤ maxBlockSize)
    (many : builder.getParamCnt > maxParamCnt) (enough : builder.getParamCnt ≤ bytes.length) :
    new (builder.blockWith bytes) = some { builder.headed bytes with isValid := false } := by
  have length := builder.blockWith_length bytes
  have limit : maxBlockSize = 393216 := rfl
  obtain ⟨opened, start, here⟩ := new_headed small
  obtain ⟨countHere, -⟩ := Bytes.occurs_append.mp here
  have bound := countHere.bound start.inside
  have word := overlay_of_occurs countHere start.inside
  rw [Bytes.littleEndian_length] at bound word
  have size := sizeOfInt32_word (show builder.getParamCnt < 2 ^ 31 by omega)
  have source : (builder.headed bytes).rawData = builder.blockWith bytes := rfl
  simp [opened, parseCustomizedParams, source, word, size, if_pos many]

theorem DecodedEvent.few_of_valid (small : builder.block.length ≤ maxBlockSize)
    (opened : new builder.block = some decoded) (valid : decoded.isValid = true) :
    builder.getParamCnt ≤ maxParamCnt := by
  refine Nat.le_of_not_lt fun many => ?_
  have enough : builder.getParamCnt ≤ (wires builder.decodedParams).length :=
    (length_map _).symm.le.trans (paramCnt_le_wire builder.decodedParams)
  rw [builder.block_eq] at small opened
  rw [new_of_many small many enough] at opened
  cases opened
  cases valid

/-- A traced event whose first parameter is overwritten by one of another type. -/
def sampleCalls : List Setter := [.domain [65], .name [66, 67], .type 3, .timeStamp 5, .traceFlag 1,
  .value [75] (.unsignedNum (.uint64 2305843009213693952)), .value [83] (.string [120, 0, 121]),
  .value [75] (.signedNumArray [.bool true, .int32 (-7)])]

end Decoding
end Hiview.EventRaw
