import Hiview.EventRaw.JsonFeed
import Hiview.EventRaw.SharedParams

/-! The text of a decoded event, parsed again. The base info members make the head
of a builder and the others its parameters; a builder that the decoder refuses, or
one with a parameter under a base info key, does not come back. -/
namespace Hiview.EventRaw
open DecodedEvent List Numeral
open JsonParser (parse)
open RawDataBuilder (appendBaseInfoValue appendIdStr appendValue appendValue_of_plain hexNum isBaseInfo new
  new_wellFormed ofHead ofHead_event ofHead_wellFormed)
open Value (reparsed)

open JsonParser (appendMember ReadableMember TakenMember)

inductive Value.ReadAs : Value → Value → Prop
  | same (value : Value) : ReadAs value value
  | nonneg {num : Int64} (sign : 0 ≤ num.toInt) :
    ReadAs (.signedVarint num) (.unsignedVarint num.toUInt64)
  | nonnegs {nums : List Int64} (signs : ∀ num ∈ nums, 0 ≤ num.toInt) :
    ReadAs (.signedVarintArray nums) (.unsignedVarintArray (nums.map Int64.toUInt64))

/-- The same head and, key by key in the same order, the same values. -/
structure Event.ReadAs (event other : Event) : Prop where
  head : other.head = event.head
  params : List.Forall₂ (fun param read => read.1 = param.1 ∧ param.2.ReadAs read.2) event.params
    other.params

def sevenBit (text : List UInt8) : Prop := ∀ char ∈ text, char < 128

instance : DecidablePred sevenBit := fun text => List.decidableBAll (fun char => char < 128) text

/-- Seven-bit text without quotation marks and backslashes. -/
structure PlainText (text : List UInt8) : Prop where
  ascii : sevenBit text
  unquoted : 34 ∉ text
  unescaped : 92 ∉ text

instance : DecidablePred PlainText := fun text =>
  decidable_of_iff (sevenBit text ∧ 34 ∉ text ∧ 92 ∉ text)
    ⟨fun all => ⟨all.1, all.2.1, all.2.2⟩, fun plain => ⟨plain.ascii, plain.unquoted, plain.unescaped⟩⟩

structure Event.PlainJson (event : Event) : Prop where
  domain : PlainText event.domain
  name : PlainText event.name
  timeZone : event.timeZone.toNat < allTimeZones.length
  named : ∀ param ∈ event.params, param.1 ≠ []
  keys : ∀ param ∈ event.params, PlainText param.1
  values : ∀ param ∈ event.params, param.2.Readable
  texts : ∀ param ∈ event.params, ∀ text, param.2 = .dstring text → sevenBit text

section Values

theorem reparsed_readAs (value : Value) : value.ReadAs value.reparsed.value := by
  cases value with
  | signedVarint num =>
    rw [reparsed]
    split
    · exact .same _
    · rename_i nonneg
      exact .nonneg (Int.not_lt.mp nonneg)
  | unsignedVarintArray nums =>
    have same : (Value.unsignedVarintArray nums).reparsed.value = .unsignedVarintArray nums := by
      simp [reparsed, Argument.value, UnsignedNum.toUInt64, Function.comp_def]
    rw [same]
    exact .same _
  | signedVarintArray nums =>
    rw [reparsed]
    split
    · have same : (Argument.signedNumArray (nums.map .int64)).value = .signedVarintArray nums := by
        simp [Argument.value, SignedNum.toInt64, Function.comp_def]
      rw [same]
      exact .same _
    · rename_i nonneg
      have same : (Argument.unsignedNumArray (nums.map fun num => .uint64 num.toUInt64)).value =
          .unsignedVarintArray (nums.map Int64.toUInt64) := by
        simp [Argument.value, UnsignedNum.toUInt64, Function.comp_def]
      rw [same]
      refine .nonnegs fun num member => Int.not_lt.mp fun below => nonneg ?_
      exact any_eq_true.mpr ⟨num, member, decide_eq_true below⟩
  | floatingArray nums =>
    have same : (Value.floatingArray nums).reparsed.value = .floatingArray nums := by
      simp [reparsed, Argument.value, FloatingNum.toDouble, Function.comp_def]
    rw [same]
    exact .same _
  | unsignedVarint num => exact .same _
  | dstring text => exact .same _
  | floating num => exact .same _
  | dstringArray texts => exact .same _

theorem reparsed_bounded {value : Value} (bounded : value.Bounded) :
    value.reparsed.value.Bounded := by
  have read := reparsed_readAs value
  generalize value.reparsed.value = other at read
  cases read with
  | same => exact bounded
  | nonneg sign => trivial
  | nonnegs signs =>
    change (List.map _ _).length ≤ _
    rw [length_map]
    exact bounded

end Values

section BaseInfo

variable (base : BaseInfoKey)

theorem BaseInfoKey.ofText_text : ofText base.text = some base := by
  cases base <;> decide

theorem appendMember_base (builder : RawDataBuilder) (base : BaseInfoKey) (value : Value) :
    appendMember builder (base.text, value) = builder.appendBaseInfoValue base value.reparsed := by
  rw [appendMember, appendValue, base.ofText_text]

theorem takeWhile_take (inside : UInt8 → Bool) (text : List UInt8) (count : Nat) :
    (text.take count).takeWhile inside = (text.takeWhile inside).take count := by
  induction text generalizing count with
  | nil => simp
  | cons char rest ih =>
    cases count with
    | zero => simp
    | succ count =>
      rw [take_succ_cons, takeWhile_cons, takeWhile_cons]
      split
      · rw [ih, take_succ_cons]
      · simp

theorem endedText_eq (ends : 0 ∈ array.chars) : endedText array = array.text := by
  have short := CharArray.text_length ends
  rw [endedText, takeWhile_take]
  exact take_of_length_le short

theorem reparsed_small {num : Nat} (small : num < 2 ^ 63) :
    (Value.signedVarint (Int64.ofNat num)).reparsed = .unsignedNum (.uint64 (UInt64.ofNat num)) := by
  have value : (Int64.ofNat num).toInt = num := Int64.toInt_ofNat_of_lt small
  rw [reparsed, if_neg (by omega)]
  rfl

theorem type_reparsed : ∀ type : BitVec 2, (UInt64.ofNat (type.toNat + 1)).toUInt32.toInt32 =
    Int32.ofNat (type.toNat + 1) := by
  decide

theorem parseTimeZone_text : ∀ index < 38, parseTimeZone (allTimeZones.getD index
    (allTimeZones.getD defaultTzPos [])) = index := by
  decide +kernel

theorem timeZone_reparsed (inside : timeZone.toNat < allTimeZones.length) :
    UInt8.ofNat (parseTimeZone (timeZoneText timeZone)) = timeZone := by
  rw [timeZoneText, parseTimeZone_text _ inside, UInt8.ofNat_toNat]

theorem id_reparsed (id : UInt64) : UInt64.ofNat (toUnsigned 64
    (extract 10 (transUInt64ToFixedLengthStr id))) = id := by
  have small := id.toNat_lt
  have padded : ∃ count, transUInt64ToFixedLengthStr id =
      List.replicate count 48 ++ decimal id.toNat := by
    rw [transUInt64ToFixedLengthStr]
    split
    · exact ⟨0, rfl⟩
    · exact ⟨_, rfl⟩
  obtain ⟨count, text⟩ := padded
  rw [text, extract_padded, toUnsigned, if_neg (by omega), if_neg Bool.false_ne_true,
    UInt64.ofNat_toNat]

theorem hexNum_text (small : num < 2 ^ width) :
    hexNum width (transNumToHexStr num) = num := by
  rw [hexNum, transNumToHexStr, extract_hexadecimal, toUnsigned,
    if_neg (by omega), if_neg Bool.false_ne_true]

variable {event : DecodedEvent}

/-- The members in front of the trace make the head without it. -/
theorem appendBaseInfo_foldl (domainEnds : 0 ∈ event.header.domain.chars)
    (nameEnds : 0 ∈ event.header.name.chars)
    (timeZone : event.header.timeZone.toNat < allTimeZones.length) :
    event.appendBaseInfo.foldl appendMember .new =
      ofHead event.header event.traceInfo := by
  have type := @reparsed_small (event.header.type.toNat + 1) (by omega)
  have flag := @reparsed_small event.traceInfo.traceFlag.toNat
    (by have := event.traceInfo.traceFlag.toNat_lt; omega)
  have flagByte : (UInt64.ofNat event.traceInfo.traceFlag.toNat).toUInt8 = event.traceInfo.traceFlag := by
    have small := event.traceInfo.traceFlag.toNat_lt
    rw [← UInt8.toNat_inj, UInt64.toNat_toUInt8, UInt64.toNat_ofNat']
    omega
  rw [appendBaseInfo, foldl_append, endedText_eq domainEnds, endedText_eq nameEnds]
  simp only [foldl_cons, foldl_nil, appendMember_base, type]
  simp only [reparsed, appendBaseInfoValue, UnsignedNum.toUInt64,
    RawDataBuilder.appendTimeZoneStr, appendIdStr, timeZone_reparsed timeZone,
    id_reparsed, type_reparsed, UInt32.toUInt32_toUInt64, UInt8.toUInt8_toUInt64]
  rw [ofHead]
  split
  · simp only [appendTraceInfo, foldl_cons, foldl_nil, appendMember_base, flag]
    simp only [reparsed, appendBaseInfoValue, UnsignedNum.toUInt64, flagByte,
      hexNum_text event.traceInfo.traceId.toNat_lt, hexNum_text event.traceInfo.spanId.toNat_lt,
      hexNum_text event.traceInfo.pSpanId.toNat_lt, UInt64.ofNat_toNat, UInt32.ofNat_toNat]
    rfl
  · rfl

theorem timeZone_plain : ∀ index < 38, 34 ∉ allTimeZones.getD index
    (allTimeZones.getD defaultTzPos []) ∧ 92 ∉ allTimeZones.getD index
    (allTimeZones.getD defaultTzPos []) := by
  decide +kernel

theorem numChars_plain {text : List UInt8} (digits : ∀ char ∈ text, isNumChar char = true) :
    34 ∉ text ∧ 92 ∉ text :=
  ⟨fun member => absurd (digits 34 member) (by decide),
    fun member => absurd (digits 92 member) (by decide)⟩

theorem id_plain (id : UInt64) :
    34 ∉ transUInt64ToFixedLengthStr id ∧ 92 ∉ transUInt64ToFixedLengthStr id := by
  have digits := decimal_numChars id.toNat
  refine numChars_plain fun char member => ?_
  rw [transUInt64ToFixedLengthStr] at member
  split at member
  · exact digits char member
  · rw [mem_append] at member
    obtain zero | digit := member
    · rw [eq_of_mem_replicate zero]
      decide
    · exact digits char digit

theorem hexFigure_readable : ∀ value < 16, hexFigure value ≠ 34 ∧
    hexFigure value ≠ 92 := by
  decide

theorem hex_plain (num : Nat) : 34 ∉ transNumToHexStr num ∧ 92 ∉ transNumToHexStr num := by
  rw [transNumToHexStr, hexadecimal]
  split
  · decide
  · have small : ∀ value ∈ (Nat.digits 16 num).reverse, value < 16 := fun value member =>
      Nat.digits_lt_base (by decide) (mem_reverse.mp member)
    have figures : ∀ char ∈ (Nat.digits 16 num).reverse.map hexFigure, char ≠ 34 ∧ char ≠ 92 :=
      forall_mem_map.mpr fun value inside => hexFigure_readable value (small value inside)
    exact ⟨fun member => (figures _ member).1 rfl, fun member => (figures _ member).2 rfl⟩

theorem BaseInfoKey.text_plain : base.text ≠ [] ∧ 34 ∉ base.text := by
  cases base <;> decide

theorem readable_base (readable : value.Readable) :
    ReadableMember (base.text, value) :=
  ⟨base.text_plain.1, base.text_plain.2, readable⟩

theorem appendTraceInfo_readable (event : DecodedEvent) :
    ∀ member ∈ event.appendTraceInfo, ReadableMember member := by
  rw [appendTraceInfo]
  simp
  exact ⟨readable_base _ trivial, readable_base _ (hex_plain _), readable_base _ (hex_plain _),
    readable_base _ (hex_plain _)⟩

theorem appendBaseInfo_readable (domain : 34 ∉ endedText event.header.domain ∧
      92 ∉ endedText event.header.domain)
    (name : 34 ∉ endedText event.header.name ∧
      92 ∉ endedText event.header.name)
    (timeZone : event.header.timeZone.toNat < allTimeZones.length) :
    ∀ member ∈ event.appendBaseInfo, ReadableMember member := by
  have trace : ∀ member ∈ (if event.header.isTraceOpened = 1 then event.appendTraceInfo else []),
      ReadableMember member := by
    split
    · exact appendTraceInfo_readable event
    · simp
  rw [appendBaseInfo, forall_mem_append]
  refine ⟨?_, trace⟩
  simp
  exact ⟨readable_base _ domain, readable_base _ name, readable_base _ trivial, readable_base _ trivial,
    readable_base _ (timeZone_plain _ timeZone), readable_base _ trivial, readable_base _ trivial,
    readable_base _ trivial, readable_base _ trivial, readable_base _ (id_plain _)⟩

theorem appendBaseInfo_ne_nil (event : DecodedEvent) : event.appendBaseInfo ≠ [] := by
  exact cons_ne_nil _ _

end BaseInfo
section Params
variable {builder : RawDataBuilder} {event : DecodedEvent}

/-- A member as the parameter that the parser makes of it. -/
def rereadParam (member : List UInt8 × Value) : DecodedParam := ⟨member.1, member.2.reparsed.value⟩

theorem foldl_appendMember_plain {members : List (List UInt8 × Value)}
    (plain : ∀ member ∈ members, isBaseInfo member.1 = false) :
    members.foldl appendMember builder = (members.map rereadParam).foldl
      (fun builder param => builder.appendParam (.new param.key param.value)) builder := by
  induction members generalizing builder with
  | nil => rfl
  | cons member rest ih =>
    rw [forall_mem_cons] at plain
    have first : appendMember builder member =
        builder.appendParam (.new member.1 member.2.reparsed.value) :=
      appendValue_of_plain plain.1 _
    rw [foldl_cons, map_cons, foldl_cons, first]
    exact ih plain.2

/-- No parameter under a base info key. -/
def Event.Unreserved (event : Event) : Prop :=
  ∀ param ∈ event.params, RawDataBuilder.isBaseInfo param.1 = false

/-- A parameter that the parser adds has the key of a member that is no base info. -/
theorem appendMember_params (formed : builder.WellFormed) (member : List UInt8 × Value) :
    (appendMember builder member).WellFormed ∧
      ∀ param ∈ (appendMember builder member).event.params,
        param ∈ builder.event.params ∨ param.1 = member.1 ∧ isBaseInfo param.1 = false := by
  refine ⟨formed.call (.value member.1 member.2.reparsed), ?_⟩
  intro param inside
  cases base : BaseInfoKey.ofText member.1 with
  | some key =>
    have appended : appendMember builder member =
        builder.appendBaseInfoValue key member.2.reparsed := by
      rw [appendMember, appendValue, base]
    rw [appended, appendBaseInfoValue_params] at inside
    exact .inl inside
  | none =>
    have plain : isBaseInfo member.1 = false := by
      rw [isBaseInfo, base]
      rfl
    have appended : appendMember builder member =
        builder.appendParam (.new member.1 member.2.reparsed.value) :=
      appendValue_of_plain plain _
    rw [appended, formed.appendParam_event] at inside
    obtain present | rfl := Event.mem_assign inside
    · exact .inl present
    · exact .inr ⟨rfl, plain⟩

theorem foldl_appendMember_params (formed : builder.WellFormed) {members : List (List UInt8 × Value)}
    (inside : param ∈ (members.foldl appendMember builder).event.params) :
    param ∈ builder.event.params ∨ param.1 ∈ members.map Prod.fst ∧ isBaseInfo param.1 = false := by
  induction members generalizing builder with
  | nil => exact .inl inside
  | cons member rest ih =>
    obtain ⟨next, added⟩ := appendMember_params formed member
    rcases ih next inside with present | ⟨later, plain⟩
    · obtain early | ⟨own, plain⟩ := added param present
      · exact .inl early
      · exact .inr ⟨by rw [own]; exact mem_cons_self, plain⟩
    · exact .inr ⟨mem_cons_of_mem _ later, plain⟩

theorem ofHead_params (header : HiSysEventHeader) (traceInfo : TraceInfo) :
    (ofHead header traceInfo).event.params = [] := by
  rw [ofHead]
  split <;> rfl

theorem parse_asJsonStr (toDouble : List UInt8 → UInt64 → UInt64)
    (printDouble : UInt64 → List UInt8) (domainEnds : 0 ∈ event.header.domain.chars)
    (nameEnds : 0 ∈ event.header.name.chars)
    (domain : 34 ∉ event.header.domain.text ∧ 92 ∉ event.header.domain.text)
    (name : 34 ∉ event.header.name.text ∧ 92 ∉ event.header.name.text)
    (timeZone : event.header.timeZone.toNat < allTimeZones.length)
    (params : ∀ param ∈ event.event.params, TakenMember toDouble printDouble param) :
    parse toDouble (event.asJsonStr printDouble) =
      event.event.params.foldl appendMember
        (ofHead event.header event.traceInfo) := by
  have base := appendBaseInfo_readable ((endedText_eq domainEnds).symm ▸ domain)
    ((endedText_eq nameEnds).symm ▸ name) timeZone
  have taken : ∀ member ∈ event.appendBaseInfo ++ event.allParams.map DecodedParam.pair,
      TakenMember toDouble printDouble member :=
    forall_mem_append.mpr ⟨fun member inside => (base member inside).takenMember printDouble, params⟩
  have nonempty : event.appendBaseInfo ++ event.allParams.map DecodedParam.pair ≠ [] := by
    rw [Ne, append_eq_nil_iff]
    exact fun both => appendBaseInfo_ne_nil event both.1
  rw [asJsonStr, JsonParser.parse_members printDouble nonempty taken,
    foldl_append, appendBaseInfo_foldl domainEnds nameEnds timeZone]
  rfl

end Params

section RoundTrip
variable {builder : RawDataBuilder} (toDouble : List UInt8 → UInt64 → UInt64)
  (printDouble : UInt64 → List UInt8)

theorem asJsonStr_congr {event other : DecodedEvent} (header : event.header = other.header)
    (trace : event.traceInfo = other.traceInfo) (params : event.allParams = other.allParams) :
    event.asJsonStr printDouble = other.asJsonStr printDouble := by
  rw [asJsonStr, asJsonStr, appendBaseInfo, appendBaseInfo, appendTraceInfo, appendTraceInfo, header, trace,
    params]

/-- The events whose text is taken over, member by member. -/
structure Event.TakenJson (event : Event) : Prop where
  domain : 34 ∉ event.domain ∧ 92 ∉ event.domain
  name : 34 ∉ event.name ∧ 92 ∉ event.name
  timeZone : event.timeZone.toNat < allTimeZones.length
  params : ∀ param ∈ event.params, TakenMember toDouble printDouble param

theorem Event.PlainJson.takenJson {event : Event} (plain : event.PlainJson) :
    event.TakenJson toDouble printDouble where
  domain := ⟨plain.domain.unquoted, plain.domain.unescaped⟩
  name := ⟨plain.name.unquoted, plain.name.unescaped⟩
  timeZone := plain.timeZone
  params param member := ReadableMember.takenMember printDouble
    ⟨plain.named param member, (plain.keys param member).unquoted, plain.values param member⟩

theorem Event.ReadAs.keys {event other : Event} (read : event.ReadAs other) :
    other.params.map Prod.fst = event.params.map Prod.fst := by
  have pairs := read.params
  generalize event.params = params at pairs
  generalize other.params = found at pairs
  induction pairs with
  | nil => rfl
  | cons pair _ ih => rw [map_cons, map_cons, ih, pair.1]

section
variable (formed : builder.WellFormed) (taken : builder.event.TakenJson toDouble printDouble)
include formed taken

/-- Within the limits of the decoder the text takes over the head and, one after
the other, the parameters. -/
theorem parse_decoded :
    parse toDouble (builder.decoded.asJsonStr printDouble) =
      builder.event.params.foldl appendMember
        (ofHead builder.decoded.header builder.decoded.traceInfo) := by
  have same := builder.decoded_event
  have params := taken.params
  rw [← same] at params ⊢
  exact parse_asJsonStr toDouble printDouble formed.domainEnds formed.nameEnds taken.domain
    taken.name taken.timeZone params

theorem parse_decoded_readAs (unreserved : builder.event.Unreserved) :
    builder.event.ReadAs
      (parse toDouble (builder.decoded.asJsonStr printDouble)).event := by
  have head : (ofHead builder.decoded.header builder.decoded.traceInfo).event.head =
      builder.event.head := by
    have whole : (ofHead builder.decoded.header builder.decoded.traceInfo).event =
        builder.decoded.header.event builder.decoded.traceInfo [] :=
      ofHead_event builder.decoded.traceInfo formed.domainEnds formed.nameEnds
    rw [← builder.decoded_event, whole]
    rfl
  have empty := ofHead_params builder.decoded.header builder.decoded.traceInfo
  have keys : (builder.event.params.map rereadParam).map (DecodedParam.key) =
      builder.event.params.map Prod.fst := by
    rw [map_map]
    rfl
  have bounded : ∀ param ∈ builder.event.params.map rereadParam, param.value.Bounded := by
    rw [forall_mem_map]
    exact forall_mem_map.mpr fun source present => reparsed_bounded (formed.encoded source present).bounded
  have distinct : Assoc.Distinct
      ((ofHead builder.decoded.header builder.decoded.traceInfo).event.params ++
        (builder.event.params.map rereadParam).map DecodedParam.pair) := by
    have own := formed.event_distinct
    rw [Assoc.Distinct] at own ⊢
    rw [empty, nil_append, map_map]
    rw [← keys] at own
    exact own
  obtain ⟨-, contents⟩ := (ofHead_wellFormed builder.decoded.header
    builder.decoded.traceInfo).foldl_appendParam bounded distinct
  rw [parse_decoded toDouble printDouble formed taken, foldl_appendMember_plain unreserved,
    contents, empty, nil_append]
  constructor
  · exact head
  · rw [map_map, forall₂_map_right_iff, forall₂_same]
    exact fun param member => ⟨rfl, reparsed_readAs param.2⟩

end

/-- An event comes back only if its keys are in the decoded event and none of them
belongs to a base info. -/
theorem keys_of_readAs {event : Event} {decoded : DecodedEvent}
    (domainEnds : 0 ∈ decoded.header.domain.chars) (nameEnds : 0 ∈ decoded.header.name.chars)
    (taken : decoded.event.TakenJson toDouble printDouble)
    (read : event.ReadAs (parse toDouble (decoded.asJsonStr printDouble)).event) :
    ∀ param ∈ event.params, param.1 ∈ decoded.event.params.map Prod.fst ∧ isBaseInfo param.1 = false := by
  have text := parse_asJsonStr toDouble printDouble domainEnds nameEnds taken.domain taken.name
    taken.timeZone taken.params
  have keys := read.keys
  rw [text] at keys
  intro param member
  have present : param.1 ∈ event.params.map Prod.fst := mem_map_of_mem member
  rw [← keys] at present
  obtain ⟨found, inside, same⟩ := mem_map.mp present
  rw [← same]
  obtain early | late := foldl_appendMember_params (ofHead_wellFormed _ _) inside
  · rw [ofHead_params] at early
    exact absurd early not_mem_nil
  · exact late

theorem new_of_large (large : maxBlockSize < data.length) :
    DecodedEvent.new data = some .invalid := by
  have limit : maxBlockSize = 393216 := rfl
  have refused : ∀ size : Nat, size ≠ data.length ∨ size < getValidDataMinimumByteCount ∨
      size > maxBlockSize := by
    omega
  rw [DecodedEvent.new, if_neg (by omega), overlay_eq (show 0 + 4 ≤ data.length by omega)]
  simp [if_pos (refused _)]

theorem taken_of_header {decoded : DecodedEvent} (header : decoded.header = builder.header)
    (taken : builder.event.TakenJson toDouble printDouble)
    (params : ∀ param ∈ decoded.event.params, TakenMember toDouble printDouble param) :
    decoded.event.TakenJson toDouble printDouble := by
  obtain ⟨domain, name, timeZone, -⟩ := taken
  refine ⟨?_, ?_, ?_, params⟩ <;> simp only [DecodedEvent.event, HiSysEventHeader.event, header]
  · exact domain
  · exact name
  · exact timeZone

section Kept
variable {times : List UInt8 → Nat} (kept : builder.Kept times)
include kept

/-- Beyond its limits the decoder reports no parameter. -/
theorem new_copies_of_outside (outside : ¬ (builder.event.params.length ≤ maxParamCnt ∧
      builder.event.builtSize times ≤ maxBlockSize)) :
    ∃ decoded, new (builder.blockWith (builder.copiesBytes times)) = some decoded ∧
      decoded.allParams = [] ∧ (decoded.header = .zero ∨ decoded.header = builder.header) := by
  rw [← builder.blockWith_size, ← builder.getParamCnt_event] at outside
  by_cases small : (builder.blockWith (builder.copiesBytes times)).length ≤ maxBlockSize
  · have count : builder.decodedParams.length = builder.getParamCnt := length_map _
    have enough := (length_le_copies kept.positive).trans (paramCnt_le_wire _)
    rw [count] at enough
    exact ⟨_, new_of_many small (Nat.lt_of_not_le fun few => outside ⟨few, small⟩) enough, rfl, .inr rfl⟩
  · exact ⟨.invalid, new_of_large (Nat.lt_of_not_le small), rfl, .inl rfl⟩

theorem not_readAs_of_outside (taken : builder.event.TakenJson toDouble printDouble)
    (outside : ¬ (builder.event.params.length ≤ maxParamCnt ∧
      builder.event.builtSize times ≤ maxBlockSize)) :
    ∃ decoded, new (builder.blockWith (builder.copiesBytes times)) = some decoded ∧
      ¬ builder.event.ReadAs (parse toDouble (decoded.asJsonStr printDouble)).event := by
  obtain ⟨decoded, opened, empty, header⟩ := new_copies_of_outside kept outside
  refine ⟨decoded, opened, fun read => outside ?_⟩
  have params : decoded.event.params = [] := by
    rw [event_params, empty, map_nil]
  have none : ∀ param ∈ decoded.event.params, TakenMember toDouble printDouble param := by
    rw [params]
    exact fun param member => absurd member not_mem_nil
  have keys : ∀ param ∈ builder.event.params, param.1 ∈ decoded.event.params.map Prod.fst ∧
      isBaseInfo param.1 = false := by
    obtain zero | same := header
    · have head : decoded.event.TakenJson toDouble printDouble := by
        refine ⟨?_, ?_, ?_, none⟩ <;> simp only [DecodedEvent.event, HiSysEventHeader.event, zero] <;> decide
      exact keys_of_readAs toDouble printDouble (by rw [zero]; decide) (by rw [zero]; decide) head read
    · exact keys_of_readAs toDouble printDouble (by rw [same]; exact kept.formed.domainEnds)
        (by rw [same]; exact kept.formed.nameEnds) (taken_of_header toDouble printDouble same taken none) read
  have nothing : builder.event.params = [] := eq_nil_iff_forall_not_mem.mpr fun param member => by
    have found := (keys param member).1
    rw [params] at found
    exact absurd found not_mem_nil
  rw [Event.builtSize, nothing, flatMap_nil]
  split <;> decide

theorem readAs_copies_iff (taken : builder.event.TakenJson toDouble printDouble)
    (few : builder.event.params.length ≤ maxParamCnt) (small : builder.event.builtSize times ≤ maxBlockSize) :
    ∃ decoded, new (builder.blockWith (builder.copiesBytes times)) = some decoded ∧
      (builder.event.ReadAs (parse toDouble (decoded.asJsonStr printDouble)).event ↔
        builder.event.Unreserved ∧ ∀ param ∈ builder.event.params.dropLast, times param.1 = 1) := by
  have count : builder.decodedParams.length = builder.getParamCnt := length_map _
  have pairs : builder.event.params = builder.decodedParams.map DecodedParam.pair := by
    rw [← builder.decoded_event]
    rfl
  have once : (∀ param ∈ builder.event.params.dropLast, times param.1 = 1) ↔
      ∀ param ∈ builder.decodedParams.dropLast, times param.key = 1 := by
    rw [pairs, ← map_dropLast, forall_mem_map]
    rfl
  rw [← builder.getParamCnt_event] at few
  rw [← builder.blockWith_size] at small
  obtain ⟨decoded, opened, -, header, trace, found, -⟩ := kept.new_copies few small
  refine ⟨decoded, opened, ?_⟩
  rw [once]
  constructor
  · intro read
    have inside : ∀ param ∈ decoded.event.params, TakenMember toDouble printDouble param := by
      rw [event_params, found]
      refine forall_mem_map.mpr fun param member => taken.params _ ?_
      rw [pairs]
      exact mem_map_of_mem (mem_of_mem_copies (mem_of_mem_take member))
    have keys := keys_of_readAs toDouble printDouble (by rw [header]; exact kept.formed.domainEnds)
      (by rw [header]; exact kept.formed.nameEnds) (taken_of_header toDouble printDouble header taken inside) read
    refine ⟨fun param member => (keys param member).2, kept.once_of_keys fun param member => ?_⟩
    have present := (keys param.pair (by rw [pairs]; exact mem_map_of_mem member)).1
    rw [event_params, found, map_map] at present
    exact present
  · rintro ⟨unreserved, once⟩
    have all := take_copies kept.positive once
    rw [count] at all
    have read := parse_decoded_readAs toDouble printDouble kept.formed (by rw [kept.event_fresh]; exact taken)
      (by rw [kept.event_fresh]; exact unreserved)
    rw [kept.event_fresh] at read
    rw [@asJsonStr_congr printDouble decoded builder.fresh.decoded header trace
      (found.trans (all.trans kept.decodedParams_fresh.symm))]
    exact read

/-- What becomes of the text of any builder's event. -/
theorem asJsonStr_readAs_iff (plain : builder.event.PlainJson) :
    ∃ rawData decoded, builder.build = some rawData ∧ new rawData.getData = some decoded ∧
      (builder.event.ReadAs (parse toDouble (decoded.asJsonStr printDouble)).event ↔
        (builder.event.params.length ≤ maxParamCnt ∧ builder.event.builtSize times ≤ maxBlockSize) ∧
        builder.event.Unreserved ∧ ∀ param ∈ builder.event.params.dropLast, times param.1 = 1) := by
  have taken := plain.takenJson toDouble printDouble
  obtain ⟨rawData, built, held⟩ := kept.build_copies
  by_cases within : builder.event.params.length ≤ maxParamCnt ∧ builder.event.builtSize times ≤ maxBlockSize
  · obtain ⟨decoded, opened, exactly⟩ := readAs_copies_iff toDouble printDouble kept taken within.1 within.2
    refine ⟨rawData, decoded, built, by rw [held.getData]; exact opened, ?_⟩
    rw [exactly, and_iff_right within]
  · obtain ⟨decoded, opened, unread⟩ := not_readAs_of_outside toDouble printDouble kept taken within
    refine ⟨rawData, decoded, built, by rw [held.getData]; exact opened, ?_⟩
    exact iff_of_false unread fun all => within all.1

end Kept

/-- The text of a builder's event is parsed to the same event exactly when the
decoder accepts the block, no parameter has the key of a base info, and no object
but the last was encoded twice. -/
theorem parse_asJsonStr_iff (formed : builder.WellFormed) (calls : List BuilderCall)
    (plain : (builder.performAll calls).event.PlainJson) :
    ∃ rawData decoded, (builder.performAll calls).build = some rawData ∧
      new rawData.getData = some decoded ∧
      ((builder.performAll calls).event.ReadAs
        (JsonParser.parse toDouble (decoded.asJsonStr printDouble)).event ↔
        ((builder.performAll calls).event.params.length ≤ maxParamCnt ∧
          (builder.performAll calls).event.builtSize (encodings calls) ≤ maxBlockSize) ∧
        (builder.performAll calls).event.Unreserved ∧
        ∀ param ∈ (builder.performAll calls).event.params.dropLast, encodings calls param.1 = 1) :=
  asJsonStr_readAs_iff toDouble printDouble (formed.kept.performAll calls) plain

theorem oneParam_event (key : List UInt8) {value : Value} (bounded : value.Bounded) :
    ((new.appendDomain [68]).appendParam (.new key value)).event =
      { (new.appendDomain [68]).event with params := [(key, value)] } := by
  have appended := (new_wellFormed.appendDomain [68]).appendParam_event key value
  rw [Value.cut_of_bounded bounded] at appended
  exact appended

theorem oneParam_head : PlainText (new.appendDomain [68]).event.domain ∧
    PlainText (new.appendDomain [68]).event.name ∧
    (new.appendDomain [68]).event.timeZone.toNat < allTimeZones.length :=
  ⟨by decide, by decide, by decide⟩

/-- A plain event that does not come back. -/
def Misread (calls : List BuilderCall) : Prop :=
  (RawDataBuilder.new.performAll calls).event.PlainJson ∧
  ∃ rawData decoded, (RawDataBuilder.new.performAll calls).build = some rawData ∧
    DecodedEvent.new rawData.getData = some decoded ∧
    ¬ (RawDataBuilder.new.performAll calls).event.ReadAs
      (JsonParser.parse (fun _ val => val) (decoded.asJsonStr fun _ => [])).event

def textEvent (texts : List (List UInt8 × List UInt8)) : Event :=
  { Event.new with domain := [68], params := texts.map fun text => (text.1, .dstring text.2) }

section
variable {calls : List BuilderCall} {texts : List (List UInt8 × List UInt8)}

theorem textEvent_plain (named : ∀ text ∈ texts, text.1 ≠ [])
    (plain : ∀ text ∈ texts, PlainText text.1 ∧ PlainText text.2) : (textEvent texts).PlainJson where
  domain := oneParam_head.1
  name := oneParam_head.2.1
  timeZone := oneParam_head.2.2
  named := forall_mem_map.mpr named
  keys := forall_mem_map.mpr fun text member => (plain text member).1
  values := forall_mem_map.mpr fun text member => ⟨(plain text member).2.unquoted, (plain text member).2.unescaped⟩
  texts := forall_mem_map.mpr fun text member => by
    rintro _ ⟨⟩
    exact (plain text member).2.ascii

variable (admissible : ∀ call ∈ calls, call.Admissible) (meant : Event.new.performAll calls = textEvent texts)
include admissible meant

theorem performAll_textEvent : (RawDataBuilder.new.performAll calls).event = textEvent texts :=
  (new_wellFormed.kept.performAll_event admissible).trans meant

theorem misread_of_texts (plain : (textEvent texts).PlainJson)
    (lost : ¬ (((textEvent texts).params.length ≤ maxParamCnt ∧
        (textEvent texts).builtSize (encodings calls) ≤ maxBlockSize) ∧
      (textEvent texts).Unreserved ∧ ∀ param ∈ (textEvent texts).params.dropLast, encodings calls param.1 = 1)) :
    Misread calls := by
  rw [← performAll_textEvent admissible meant] at plain lost
  obtain ⟨rawData, decoded, built, opened, exactly⟩ := asJsonStr_readAs_iff (fun _ val => val) (fun _ => [])
    (new_wellFormed.kept.performAll calls) plain
  exact ⟨plain, rawData, decoded, built, opened, fun read => lost (exactly.mp read)⟩

end

/-- A parameter under the key of the domain replaces the domain, and the parameter
behind an object that was appended twice is lost. -/
theorem reserved_and_twice_misread :
    Misread [.setter (.domain [68]), .object 0 BaseInfoKey.domain.text (.dstring [88])] ∧
    Misread [.setter (.domain [68]), .object 0 [75] (.dstring [118]), .object 1 [75] (.dstring [118]),
      .object 0 [76] (.dstring [119])] := by
  constructor
  · refine @misread_of_texts _ [(BaseInfoKey.domain.text, [88])] (by decide) rfl
      (textEvent_plain (by decide) (by decide)) fun all => ?_
    exact absurd (all.2.1 _ mem_cons_self) (by decide)
  · refine @misread_of_texts _ [([75], [118]), ([76], [119])] (by decide) rfl
      (textEvent_plain (by decide) (by decide)) fun all => ?_
    exact absurd (all.2.2 _ mem_cons_self) (by decide)

theorem parse_asJsonStr_text : ∃ rawData decoded,
    (RawDataBuilder.new.performAll [.setter (.domain [68]), .object 0 [75] (.dstring [118])]).build =
      some rawData ∧ DecodedEvent.new rawData.getData = some decoded ∧
    (RawDataBuilder.new.performAll [.setter (.domain [68]), .object 0 [75] (.dstring [118])]).event.ReadAs
      (JsonParser.parse (fun _ val => val) (decoded.asJsonStr fun _ => [])).event := by
  have meant := @performAll_textEvent [.setter (.domain [68]), .object 0 [75] (.dstring [118])] [([75], [118])]
    (by decide) rfl
  obtain ⟨rawData, decoded, built, opened, exactly⟩ := parse_asJsonStr_iff (fun _ val => val) (fun _ => [])
    new_wellFormed [.setter (.domain [68]), .object 0 [75] (.dstring [118])]
    (by rw [meant]; exact textEvent_plain (by decide) (by decide))
  refine ⟨rawData, decoded, built, opened, exactly.mpr ?_⟩
  rw [meant]
  exact ⟨by decide, forall_mem_singleton.mpr (by decide), by decide⟩

end RoundTrip
end Hiview.EventRaw
