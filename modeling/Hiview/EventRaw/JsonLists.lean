import Hiview.EventRaw.JsonCalls
import Hiview.EventRaw.JsonRoundTrip

/-! Lists of texts in the text of an event. Inside an item a comma ends the item
as a quotation mark does, so an item with a comma is taken apart and the parser
stands inside a text where the list has ended. -/
namespace Hiview.EventRaw
open List
open JsonText (appendArrayValue appendValue quoted valueText)

open JsonParser (ReadableMember)

namespace JsonParser
variable {toDouble : List UInt8 → UInt64 → UInt64} {lastValue : JsonStatus} {key : List UInt8}
  {values : List (List UInt8)} {builder : RawDataBuilder}

/-- An item that comes through: no quotation mark, no backslash and no comma. -/
structure PlainItem (item : List UInt8) : Prop where
  unquoted : 34 ∉ item
  unescaped : 92 ∉ item
  undivided : 44 ∉ item

variable {text : List UInt8}

theorem feed_itemText (plain : PlainItem text) :
    feed toDouble
        ⟨.stringItemParse, .stringItemParse, .stringItemParse, key, [], values, builder⟩ text =
      ⟨.stringItemParse, .stringItemParse, .stringItemParse, key, text, values, builder⟩ := by
  refine feed_collects toDouble
    (fun held => ⟨.stringItemParse, .stringItemParse, .stringItemParse, key, held, values, builder⟩)
    (fun char => char ≠ 34 ∧ char ≠ 44 ∧ char ≠ 92) ?_ (fun char member => ?_) []
  · rintro held char ⟨quote, comma, backslash⟩
    simp [step, statusTabs, if_neg quote, if_neg comma, if_neg backslash, handle, handleStatusStringItemParse,
      handleText]
  · exact ⟨fun same => plain.unquoted (same ▸ member), fun same => plain.undivided (same ▸ member),
      fun same => plain.unescaped (same ▸ member)⟩

theorem feed_quotedItem (plain : PlainItem text) :
    feed toDouble ⟨.arrayParse, .arrayParse, lastValue, key, [], values, builder⟩
        (quoted text) =
      ⟨.arrayParse, .arrayParse, .stringItemParse, key, [], values ++ [text], builder⟩ := by
  rw [quoted, feed_cons]
  have opened : step toDouble ⟨.arrayParse, .arrayParse, lastValue, key, [], values, builder⟩ 34 =
      ⟨.stringItemParse, .stringItemParse, .stringItemParse, key, [], values, builder⟩ := rfl
  rw [opened, feed_append, feed_itemText plain]
  rfl

variable {items : List (List UInt8)}

theorem feed_texts (nonempty : items ≠ []) (plain : ∀ item ∈ items, PlainItem item) :
    feed toDouble ⟨.valueParse, .valueParse, lastValue, key, [], [], builder⟩
        (appendArrayValue (items.map quoted)) =
      ⟨.run, .run, .stringItemParse, key, [], items, builder⟩ := by
  rw [appendArrayValue, flatMap_map]
  refine feed_list toDouble quoted nonempty (fun item member lastValue values => ?_) lastValue
  rw [feed_append, feed_append, feed_quotedItem (plain item member)]
  exact ⟨rfl, rfl⟩

theorem takenMember_texts {printDouble : UInt64 → List UInt8} (named : key ≠ []) (unquoted : 34 ∉ key)
    (nonempty : items ≠ []) (plain : ∀ item ∈ items, PlainItem item) :
    TakenMember toDouble printDouble (key, .dstringArray items) := by
  refine ⟨unquoted, fun lastValue builder => ?_⟩
  rw [valueText, feed_texts nonempty plain]
  refine ⟨.inl ⟨rfl, rfl⟩, ?_⟩
  rw [appendValueToBuilder, if_neg named]
  rfl

section Commas

/-- The statuses from the colon of a member to the end of its list. -/
def Collecting : JsonStatus → Prop
  | .valueParse | .arrayParse | .stringItemParse | .doubleItemParse | .intItemParse => True
  | _ => False

/-- What has been collected for a list has no comma. -/
structure Divided (parser : JsonParser) : Prop where
  unescaped : parser.lastStatus ≠ .escapeCharItemParse
  values : ∀ item ∈ parser.values, 44 ∉ item
  value : Collecting parser.lastStatus → 44 ∉ parser.value

variable {status : JsonStatus} {char : UInt8}

theorem comma_ends (unescaped : status ≠ .escapeCharItemParse)
    (item : statusTabs status char ∈ [.stringItemParse, .doubleItemParse, .intItemParse]) : char ≠ 44 := by
  rintro rfl
  cases status with
  | escapeCharItemParse => exact (unescaped rfl).elim
  | _ => exact absurd item (by decide)

theorem collecting_of_next (unescaped : status ≠ .escapeCharItemParse) (next : Collecting (statusTabs status char))
    (other : statusTabs status char ≠ .valueParse) :
    Collecting status := by
  cases status with
  | valueParse | arrayParse | stringItemParse | doubleItemParse | intItemParse => trivial
  | escapeCharItemParse => exact (unescaped rfl).elim
  | run =>
    by_cases colon : char = 58
    · subst colon
      exact (other rfl).elim
    · rw [statusTabs, if_neg colon] at next
      repeat' split at next
      all_goals exact next.elim
  | _ =>
    rw [statusTabs] at next
    repeat' split at next
    all_goals exact next.elim

variable {parser : JsonParser}

variable (divided : Divided parser)
include divided

theorem Divided.takeItem :
    (∀ item ∈ parser.takeItem.values, 44 ∉ item) ∧
      (Collecting parser.lastStatus → 44 ∉ parser.takeItem.value) := by
  unfold JsonParser.takeItem
  split
  · rename_i item
    have collected : Collecting parser.lastStatus := by
      obtain string | double | int := item
      · rw [string]
        trivial
      · rw [double]
        trivial
      · rw [int]
        trivial
    exact ⟨forall_mem_append.mpr ⟨divided.values, forall_mem_singleton.mpr (divided.value collected)⟩,
      fun _ => not_mem_nil⟩
  · exact ⟨divided.values, divided.value⟩

theorem Divided.clearValues :
    Divided parser.clearValues := by
  unfold JsonParser.clearValues
  split
  · exact ⟨divided.unescaped, fun _ member => absurd member not_mem_nil, divided.value⟩
  · exact divided

theorem Divided.step_values (settled : parser.lastStatus = parser.status) (char : UInt8) :
    (∀ item ∈ (step toDouble parser char).values, 44 ∉ item) ∧
      (Collecting (statusTabs parser.status char) → 44 ∉ (step toDouble parser char).value) := by
  obtain ⟨status, lastStatus, lastValue, key, value, values, builder⟩ := parser
  obtain rfl : lastStatus = status := settled
  have ends := @comma_ends lastStatus char divided.unescaped
  have entered := @collecting_of_next lastStatus char divided.unescaped
  have renamed (next : JsonStatus) : Divided ⟨next, lastStatus, lastValue, key, value, values, builder⟩ :=
    ⟨divided.unescaped, divided.values, divided.value⟩
  have joined (collected : Collecting lastStatus) (other : char ≠ 44) : 44 ∉ value ++ [char] := by
    rw [mem_append, mem_singleton, not_or]
    exact ⟨divided.value collected, fun same => other same.symm⟩
  simp [step]
  cases next : statusTabs lastStatus char with
  | none => exact ⟨divided.values, False.elim⟩
  | keyParse =>
    dsimp only [handle, handleStatusKeyParse]
    split <;> exact ⟨divided.values, False.elim⟩
  | run =>
    have taken := (renamed .run).takeItem.1
    dsimp only [handle, handleStatusRun]
    refine ⟨?_, False.elim⟩
    repeat' split
    all_goals exact taken
  | valueParse =>
    have cleared : Divided ⟨.valueParse, lastStatus, lastValue, key, [], values, builder⟩ :=
      ⟨divided.unescaped, divided.values, fun _ => not_mem_nil⟩
    refine ⟨cleared.clearValues.takeItem.1, fun _ => ?_⟩
    dsimp only [handle, handleStatusValueParse, JsonParser.clearValues, JsonParser.takeItem]
    repeat' split
    all_goals exact not_mem_nil
  | arrayParse =>
    rw [next] at entered
    have taken := (renamed .arrayParse).clearValues.takeItem
    refine ⟨taken.1, fun collected => taken.2 ?_⟩
    have kept : (JsonParser.clearValues ⟨.arrayParse, lastStatus, lastValue, key, value, values,
        builder⟩).lastStatus = lastStatus := by
      unfold JsonParser.clearValues
      split <;> rfl
    rw [kept]
    exact entered collected (by decide)
  | stringParse =>
    dsimp only [handle, handleStatusStringParse, handleText]
    split <;> exact ⟨divided.values, False.elim⟩
  | stringItemParse =>
    rw [next] at entered ends
    dsimp only [handle, handleStatusStringItemParse, handleText]
    split
    · exact ⟨divided.values, fun _ => not_mem_nil⟩
    · exact ⟨divided.values, fun collected => joined (entered collected (by decide)) (ends (by decide))⟩
  | doubleItemParse | intItemParse =>
    rw [next] at entered ends
    exact ⟨divided.values, fun collected => joined (entered collected (by decide)) (ends (by decide))⟩
  | _ => exact ⟨divided.values, False.elim⟩

omit divided

theorem backslash_of_escape (next : statusTabs status char = .escapeCharItemParse) : char = 92 := by
  cases status
  all_goals
    rw [statusTabs] at next
    repeat' split at next
    all_goals first
      | assumption
      | cases next

theorem Divided.step (divided : Divided parser) (settled : parser.lastStatus = parser.status) (plain : char ≠ 92) :
    Divided (JsonParser.step toDouble parser char) := by
  obtain ⟨values, value⟩ := @Divided.step_values toDouble parser divided settled char
  rw [← @step_lastStatus toDouble parser char] at value
  refine ⟨?_, values, value⟩
  rw [step_lastStatus]
  exact fun escape => plain (backslash_of_escape escape)

theorem new_divided : Divided new :=
  ⟨by decide, fun _ member => absurd member not_mem_nil, False.elim⟩

theorem stringArray_call_divided (unescaped : 92 ∉ text) :
    ∀ call ∈ calls toDouble new text, ∀ values, call.2 = .stringArray values →
      ∀ item ∈ values, 44 ∉ item := by
  refine @calls_all toDouble (fun parser => parser.lastStatus = parser.status ∧ Divided parser)
    (fun char => char ≠ 92) _ ?_ ?_ text (fun char member same => unescaped (same ▸ member)) new
    ⟨rfl, new_divided⟩
  · rintro parser char ⟨settled, divided⟩ plain
    exact ⟨rfl, divided.step settled plain⟩
  · rintro parser ⟨-, divided⟩ call member values list
    obtain ⟨-, rfl⟩ := (pendingCall_texts member).2 values list
    exact divided.values

end Commas

section Builders

theorem appendCall_params (formed : builder.WellFormed) (call : List UInt8 × Argument) :
    ∀ param ∈ (appendCall builder call).event.params,
      param ∈ builder.event.params ∨ param = (call.1, call.2.value.cut) := by
  intro param member
  rw [appendCall, RawDataBuilder.appendValue] at member
  cases base : BaseInfoKey.ofText call.1 with
  | some known =>
    rw [base] at member
    rw [appendBaseInfoValue_params] at member
    exact .inl member
  | none =>
    rw [base] at member
    rw [formed.appendParam_event] at member
    exact Event.mem_assign member

theorem foldl_calls_params (formed : builder.WellFormed) (made : List (List UInt8 × Argument)) :
    (made.foldl appendCall builder).WellFormed ∧
      ∀ param ∈ (made.foldl appendCall builder).event.params,
        param ∈ builder.event.params ∨ ∃ call ∈ made, param = (call.1, call.2.value.cut) := by
  induction made generalizing builder with
  | nil => exact ⟨formed, fun param member => .inl member⟩
  | cons call rest ih =>
    obtain ⟨later, params⟩ := ih (formed.call (.value call.1 call.2))
    refine ⟨later, fun param member => ?_⟩
    obtain earlier | ⟨other, inside, same⟩ := params param member
    · obtain present | added := appendCall_params formed call param earlier
      · exact .inl present
      · exact .inr ⟨call, mem_cons_self, added⟩
    · exact .inr ⟨other, mem_cons_of_mem call inside, same⟩

theorem stringArray_of_cut {argument : Argument} (list : argument.value.cut = .dstringArray items) :
    ∃ values, argument = .stringArray values ∧ items = values.take maxArraySize := by
  cases argument with
  | stringArray values => exact ⟨values, rfl, (Value.dstringArray.inj list).symm⟩
  | _ => cases list

theorem parse_divided (unescaped : 92 ∉ text) :
    ∀ param ∈ (parse toDouble text).event.params, ∀ items, param.2 = .dstringArray items →
      ∀ item ∈ items, 44 ∉ item := by
  intro param member items list
  rw [parse_calls] at member
  obtain present | ⟨call, made, rfl⟩ :=
    (foldl_calls_params RawDataBuilder.new_wellFormed _).2 param member
  · cases present
  · obtain ⟨values, argument, rfl⟩ := stringArray_of_cut list
    exact fun item inside => stringArray_call_divided unescaped call made values argument item
      (mem_of_mem_take inside)

end Builders
end JsonParser

/-- Texts without quotation marks and backslashes, integers, arrays of integers and
lists of such texts. -/
def Value.Listable : Value → Prop
  | .dstringArray items => items ≠ [] ∧ ∀ item ∈ items, PlainText item
  | value => value.Readable

/-- The events of the members that lists stand among. -/
structure Event.ListJson (event : Event) : Prop where
  domain : PlainText event.domain
  name : PlainText event.name
  timeZone : event.timeZone.toNat < allTimeZones.length
  named : ∀ param ∈ event.params, param.1 ≠ []
  keys : ∀ param ∈ event.params, PlainText param.1
  values : ∀ param ∈ event.params, param.2.Listable
  texts : ∀ param ∈ event.params, ∀ text, param.2 = .dstring text → sevenBit text

def Event.Undivided (event : Event) : Prop :=
  ∀ param ∈ event.params, ∀ items, param.2 = .dstringArray items → ∀ item ∈ items, 44 ∉ item

/-- Every list comes back with its items, and every member behind it with its value. -/
def Event.ListsKept (event other : Event) : Prop :=
  ∀ before key items after, event.params = before ++ (key, .dstringArray items) :: after →
    Assoc.lookup other.params key = some (.dstringArray items) ∧
      ∀ param ∈ after, ∃ value, Assoc.lookup other.params param.1 = some value ∧ param.2.ReadAs value

section Unescaped
variable (printDouble : UInt64 → List UInt8)

theorem intText_unescaped (number : JsonParser.IntText text) : 92 ∉ text := by
  obtain ⟨char, rest, rfl, first, digits⟩ := number
  rw [mem_cons, not_or]
  refine ⟨?_, (numChars_plain digits).2⟩
  rintro rfl
  revert first
  decide

theorem quoted_unescaped (unescaped : 92 ∉ text) : 92 ∉ quoted text := by
  simp [quoted, unescaped]

theorem appendArrayValue_unescaped (unescaped : ∀ item ∈ items, 92 ∉ item) :
    92 ∉ appendArrayValue items := by
  rw [appendArrayValue, mem_cons, mem_append, mem_singleton]
  rintro (bracket | inside | bracket)
  · cases bracket
  · obtain ⟨item, member, char⟩ := mem_flatMap.mp (mem_of_mem_dropLast inside)
    rcases mem_append.mp char with own | comma
    · exact unescaped item member own
    · cases mem_singleton.mp comma
  · cases bracket

theorem valueText_unescaped {value : Value} (listable : value.Listable) :
    92 ∉ valueText printDouble value := by
  cases value with
  | unsignedVarint num => exact intText_unescaped (intText_decimal _)
  | signedVarint num => exact intText_unescaped (intText_toString _)
  | dstring text => exact quoted_unescaped listable.2
  | unsignedVarintArray nums =>
    refine appendArrayValue_unescaped ?_
    rw [forall_mem_map]
    exact fun num _ => intText_unescaped (intText_decimal _)
  | signedVarintArray nums =>
    refine appendArrayValue_unescaped ?_
    rw [forall_mem_map]
    exact fun num _ => intText_unescaped (intText_toString _)
  | dstringArray items =>
    refine appendArrayValue_unescaped ?_
    rw [forall_mem_map]
    exact fun item member => quoted_unescaped (listable.2 item member).unescaped
  | floating _ => exact listable.elim
  | floatingArray _ => exact listable.elim

theorem members_unescaped {members : List (List UInt8 × Value)}
    (keys : ∀ member ∈ members, 92 ∉ member.1) (values : ∀ member ∈ members, member.2.Listable) :
    92 ∉ (123 :: members.flatMap (appendValue printDouble)).dropLast ++ [125] := by
  have whole : 92 ∉ 123 :: members.flatMap (appendValue printDouble) := by
    rw [mem_cons, mem_flatMap]
    rintro (brace | ⟨member, inside, char⟩)
    · cases brace
    · have key := quoted_unescaped (keys member inside)
      have value := valueText_unescaped printDouble (values member inside)
      simp only [appendValue, JsonText.memberText, mem_append, mem_cons,
        not_mem_nil, or_false] at char
      obtain (own | colon | text) | comma := char
      · exact key own
      · cases colon
      · exact value text
      · cases comma
  rw [mem_append, mem_singleton]
  rintro (inside | brace)
  · exact whole (mem_of_mem_dropLast inside)
  · cases brace

theorem listable_of_readable {value : Value} (readable : value.Readable) : value.Listable := by
  cases value with
  | dstringArray items => exact readable.elim
  | _ => exact readable

theorem BaseInfoKey.text_unescaped (base : BaseInfoKey) : 92 ∉ base.text := by
  cases base <;> decide

theorem appendBaseInfo_keys (event : DecodedEvent) : ∀ member ∈ event.appendBaseInfo, 92 ∉ member.1 := by
  have trace : ∀ member ∈ (if event.header.isTraceOpened = 1 then event.appendTraceInfo else []),
      92 ∉ member.1 := by
    split
    · simp [DecodedEvent.appendTraceInfo, BaseInfoKey.text_unescaped]
    · simp
  rw [DecodedEvent.appendBaseInfo, forall_mem_append]
  refine ⟨?_, trace⟩
  simp [BaseInfoKey.text_unescaped]

end Unescaped

section Kept
variable {builder : RawDataBuilder} (toDouble : List UInt8 → UInt64 → UInt64)
  (printDouble : UInt64 → List UInt8)

theorem asJsonStr_unescaped (formed : builder.WellFormed) (listed : builder.event.ListJson) :
    92 ∉ builder.decoded.asJsonStr printDouble := by
  have base := @appendBaseInfo_readable builder.decoded
    ((endedText_eq formed.domainEnds).symm ▸ ⟨listed.domain.unquoted, listed.domain.unescaped⟩)
    ((endedText_eq formed.nameEnds).symm ▸ ⟨listed.name.unquoted, listed.name.unescaped⟩) listed.timeZone
  have params : builder.decoded.allParams.map DecodedParam.pair = builder.event.params := by
    rw [← builder.decoded_event]
    rfl
  rw [DecodedEvent.asJsonStr, params]
  refine members_unescaped printDouble ?_ ?_
  · rw [forall_mem_append]
    exact ⟨appendBaseInfo_keys _, fun param member => (listed.keys param member).unescaped⟩
  · rw [forall_mem_append]
    exact ⟨fun member inside => listable_of_readable (base member inside).value, listed.values⟩

theorem Event.ListJson.takenJson {event : Event} (listed : event.ListJson) (undivided : event.Undivided) :
    event.TakenJson toDouble printDouble where
  domain := ⟨listed.domain.unquoted, listed.domain.unescaped⟩
  name := ⟨listed.name.unquoted, listed.name.unescaped⟩
  timeZone := listed.timeZone
  params param member := by
    have named := listed.named param member
    have unquoted := (listed.keys param member).unquoted
    have listable := listed.values param member
    have whole := undivided param member
    obtain ⟨key, value⟩ := param
    cases value with
    | dstringArray items =>
      exact JsonParser.takenMember_texts named unquoted listable.1 fun item inside =>
        ⟨(listable.2 item inside).unquoted, (listable.2 item inside).unescaped, whole items rfl item inside⟩
    | _ => exact ReadableMember.takenMember printDouble ⟨named, unquoted, listable⟩

theorem Value.ReadAs.of_list {value : Value} (read : (Value.dstringArray items).ReadAs value) :
    value = .dstringArray items := by
  cases read
  rfl

theorem Event.ReadAs.lookup {event other : Event} (read : event.ReadAs other)
    (distinct : Assoc.Distinct event.params) {param : List UInt8 × Value} (member : param ∈ event.params) :
    ∃ value, Assoc.lookup other.params param.1 = some value ∧ param.2.ReadAs value := by
  have otherDistinct : Assoc.Distinct other.params := by
    rw [Assoc.Distinct, read.keys]
    exact distinct
  have found : ∃ pair ∈ other.params, pair.1 = param.1 ∧ param.2.ReadAs pair.2 := by
    have pairs := read.params
    generalize event.params = params at pairs member
    generalize other.params = others at pairs
    induction pairs with
    | nil => cases member
    | cons pair _ ih =>
      rcases mem_cons.mp member with rfl | later
      · exact ⟨_, mem_cons_self, pair⟩
      · obtain ⟨pairOf, inside, same⟩ := ih later
        exact ⟨pairOf, mem_cons_of_mem _ inside, same⟩
  obtain ⟨⟨key, value⟩, inside, rfl, same⟩ := found
  exact ⟨value, (Assoc.lookup_eq_some otherDistinct).mpr inside, same⟩

theorem lists_kept_of_undivided (formed : builder.WellFormed) (listed : builder.event.ListJson)
    (unreserved : builder.event.Unreserved) (undivided : builder.event.Undivided) :
    builder.event.ListsKept
      (JsonParser.parse toDouble (builder.decoded.asJsonStr printDouble)).event := by
  have read := parse_decoded_readAs toDouble printDouble formed
    (listed.takenJson toDouble printDouble undivided) unreserved
  intro before key items after parts
  have own : (key, Value.dstringArray items) ∈ builder.event.params := by
    rw [parts]
    exact mem_append_right _ mem_cons_self
  obtain ⟨value, found, same⟩ := read.lookup formed.event_distinct own
  rw [same.of_list] at found
  refine ⟨found, fun param member => read.lookup formed.event_distinct ?_⟩
  rw [parts]
  exact mem_append_right _ (mem_cons_of_mem _ member)

theorem undivided_of_lists_kept (formed : builder.WellFormed) (listed : builder.event.ListJson)
    (kept : builder.event.ListsKept
      (JsonParser.parse toDouble (builder.decoded.asJsonStr printDouble)).event) :
    builder.event.Undivided := by
  rintro ⟨key, value⟩ member items rfl
  obtain ⟨before, after, parts⟩ := append_of_mem member
  have found := (kept before key items after parts).1
  obtain ⟨⟨foundKey, foundValue⟩, first, rfl⟩ := Option.map_eq_some_iff.mp found
  exact JsonParser.parse_divided (asJsonStr_unescaped printDouble formed listed) _
    (mem_of_find?_eq_some first) items rfl

/-- An event of one list under the key `K`. -/
def oneList (items : List (List UInt8)) : RawDataBuilder :=
  (RawDataBuilder.new.appendDomain [68]).appendParam (.new [75] (.dstringArray items))

theorem oneList_wellFormed (items : List (List UInt8)) : (oneList items).WellFormed :=
  (RawDataBuilder.new_wellFormed.appendDomain [68]).appendParam [75] (.dstringArray items)

theorem oneList_event (few : items.length ≤ maxArraySize) :
    (oneList items).event =
      { (RawDataBuilder.new.appendDomain [68]).event with params := [([75], .dstringArray items)] } :=
  @oneParam_event [75] (.dstringArray items) few

theorem oneList_listJson (few : items.length ≤ maxArraySize) (nonempty : items ≠ [])
    (plain : ∀ item ∈ items, PlainText item) : (oneList items).event.ListJson := by
  obtain ⟨domain, name, timeZone⟩ := oneParam_head
  have named : ([75] : List UInt8) ≠ [] := by decide
  have key : PlainText [75] := ⟨by decide, by decide, by decide⟩
  rw [oneList_event few]
  refine ⟨domain, name, timeZone, ?_, ?_, ?_, ?_⟩
  · exact forall_mem_singleton.mpr named
  · exact forall_mem_singleton.mpr key
  · exact forall_mem_singleton.mpr ⟨nonempty, plain⟩
  · refine forall_mem_singleton.mpr ?_
    rintro text ⟨⟩

end Kept
end Hiview.EventRaw
