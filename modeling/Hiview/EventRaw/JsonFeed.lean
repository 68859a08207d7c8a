import Hiview.EventRaw.JsonParser
import Hiview.EventRaw.JsonText

/-! The parser on the text of one event. Between members it stands in the run
status with at most one value pending; a member makes the pending value part of
the builder and leaves its own value pending. -/
namespace Hiview.EventRaw.JsonParser
open JsonText List

variable (toDouble : List UInt8 → UInt64 → UInt64)

def feed (parser : JsonParser) (text : List UInt8) : JsonParser := text.foldl (step toDouble) parser

variable (parser : JsonParser)

theorem feed_nil : feed toDouble parser [] = parser := rfl

theorem feed_cons (char : UInt8) (text : List UInt8) :
    feed toDouble parser (char :: text) =
      feed toDouble (step toDouble parser char) text := rfl

theorem feed_append (first second : List UInt8) :
    feed toDouble parser (first ++ second) =
      feed toDouble (feed toDouble parser first) second := foldl_append

variable {lastValue : JsonStatus} {key value : List UInt8} {values : List (List UInt8)}
  {builder : RawDataBuilder}

variable {text : List UInt8}

theorem feed_collects (state : List UInt8 → JsonParser) (inside : UInt8 → Prop)
    (each : ∀ held char, inside char → step toDouble (state held) char = state (held ++ [char]))
    (all : ∀ char ∈ text, inside char) (held : List UInt8) :
    feed toDouble (state held) text = state (held ++ text) := by
  induction text generalizing held with
  | nil => rw [feed_nil, append_nil]
  | cons char rest ih =>
    rw [forall_mem_cons] at all
    rw [feed_cons, each held char all.1, ih all.2, append_assoc, singleton_append]

theorem feed_key (clean : 34 ∉ text) :
    feed toDouble ⟨.keyParse, .keyParse, lastValue, [], value, values, builder⟩ text =
      ⟨.keyParse, .keyParse, lastValue, text, value, values, builder⟩ := by
  refine feed_collects toDouble
    (fun held => ⟨.keyParse, .keyParse, lastValue, held, value, values, builder⟩)
    (fun char => char ≠ 34) ?_ (fun char member same => clean (same ▸ member)) []
  intro held char other
  simp [step, statusTabs, if_neg other, handle, handleStatusKeyParse]

theorem feed_text (unquoted : 34 ∉ text) (unescaped : 92 ∉ text) :
    feed toDouble ⟨.stringParse, .stringParse, .stringParse, key, [], values, builder⟩ text =
      ⟨.stringParse, .stringParse, .stringParse, key, text, values, builder⟩ := by
  refine feed_collects toDouble
    (fun held => ⟨.stringParse, .stringParse, .stringParse, key, held, values, builder⟩)
    (fun char => char ≠ 34 ∧ char ≠ 92) ?_
    (fun char member => ⟨fun same => unquoted (same ▸ member), fun same => unescaped (same ▸ member)⟩) []
  rintro held char ⟨other, plain⟩
  simp [step, statusTabs, if_neg other, if_neg plain, handle, handleStatusStringParse, handleText]

theorem feed_digits {status : JsonStatus} (number : status = .intParse ∨ status = .intItemParse)
    (digits : ∀ char ∈ text, isNumChar char = true) (held : List UInt8) :
    feed toDouble ⟨status, status, status, key, held, values, builder⟩ text =
      ⟨status, status, status, key, held ++ text, values, builder⟩ := by
  refine feed_collects toDouble (fun held => ⟨status, status, status, key, held, values, builder⟩)
    (fun char => isNumChar char = true) ?_ digits held
  intro held char digit
  rcases number with rfl | rfl <;> simp [step, statusTabs, if_pos digit, handle, handleStatusValueAppend]

/-- The text of an integer: a digit or a sign, then digits. -/
def IntText (text : List UInt8) : Prop :=
  ∃ char rest, text = char :: rest ∧ (isNumChar char = true ∨ char = 45) ∧
    ∀ other ∈ rest, isNumChar other = true

theorem not_special (first : isNumChar char = true ∨ char = 45) :
    char ≠ 34 ∧ char ≠ 46 ∧ char ≠ 91 ∧ char ≠ 93 := by
  refine ⟨?_, ?_, ?_, ?_⟩
  all_goals
    rintro rfl
    revert first
    decide

theorem starts_number (first : isNumChar char = true ∨ char = 45) :
    (isNumChar char || decide (char = 45)) = true := by
  rwa [Bool.or_eq_true, decide_eq_true_eq]

theorem step_member :
    step toDouble ⟨.run, .run, lastValue, key, value, values, builder⟩ 34 =
      ⟨.keyParse, .keyParse, lastValue, [], value, values, appendValueToBuilder toDouble
        ⟨.keyParse, .run, lastValue, key, value, values, builder⟩⟩ := rfl

theorem feed_member (clean : 34 ∉ text) :
    feed toDouble ⟨.run, .run, lastValue, key, value, values, builder⟩
        (quoted text ++ [58]) =
      ⟨.valueParse, .valueParse, lastValue, text, [], [], appendValueToBuilder toDouble
        ⟨.keyParse, .run, lastValue, key, value, values, builder⟩⟩ := by
  rw [quoted, cons_append, feed_cons]
  rw [step_member, append_assoc, feed_append, feed_key toDouble clean]
  rfl

theorem feed_quoted (unquoted : 34 ∉ text) (unescaped : 92 ∉ text) :
    feed toDouble ⟨.valueParse, .valueParse, lastValue, key, [], [], builder⟩
        (quoted text) =
      ⟨.run, .run, .stringParse, key, text, [], builder⟩ := by
  rw [quoted, feed_cons]
  have opened : step toDouble ⟨.valueParse, .valueParse, lastValue, key, [], [], builder⟩ 34 =
      ⟨.stringParse, .stringParse, .stringParse, key, [], [], builder⟩ := rfl
  rw [opened, feed_append, feed_text toDouble unquoted unescaped]
  rfl

theorem feed_int (number : IntText text) :
    feed toDouble ⟨.valueParse, .valueParse, lastValue, key, [], [], builder⟩ text =
      ⟨.intParse, .intParse, .intParse, key, text, [], builder⟩ := by
  obtain ⟨char, rest, rfl, first, digits⟩ := number
  obtain ⟨quote, point, bracket, -⟩ := not_special first
  have moved : step toDouble ⟨.valueParse, .valueParse, lastValue, key, [], [], builder⟩ char =
      ⟨.intParse, .intParse, .intParse, key, [char], [], builder⟩ := by
    simp only [step, statusTabs, if_neg quote, if_neg point, if_neg bracket, if_pos (starts_number first), handle,
      handleStatusValueAppend, nil_append]
  rw [feed_cons, moved, feed_digits toDouble (.inl rfl) digits, singleton_append]

theorem feed_item (number : IntText text) :
    feed toDouble ⟨.arrayParse, .arrayParse, lastValue, key, [], values, builder⟩ text =
      ⟨.intItemParse, .intItemParse, .intItemParse, key, text, values, builder⟩ := by
  obtain ⟨char, rest, rfl, first, digits⟩ := number
  obtain ⟨quote, point, -, bracket⟩ := not_special first
  have moved : step toDouble ⟨.arrayParse, .arrayParse, lastValue, key, [], values, builder⟩ char =
      ⟨.intItemParse, .intItemParse, .intItemParse, key, [char], values, builder⟩ := by
    simp only [step, statusTabs, if_neg quote, if_neg point, if_neg bracket, if_pos (starts_number first), handle,
      handleStatusValueAppend, nil_append]
  rw [feed_cons, moved, feed_digits toDouble (.inr rfl) digits, singleton_append]

theorem commas_dropLast (text : α → List UInt8) (front : List α) (last : α) :
    ((front ++ [last]).flatMap fun item => text item ++ [44]).dropLast =
      (front.flatMap fun item => text item ++ [44]) ++ text last := by
  rw [flatMap_append, flatMap_singleton, ← append_assoc, dropLast_concat]

/-- A list whose items are each taken up to the comma or the bracket behind them. -/
theorem feed_list (text : List UInt8 → List UInt8) (nonempty : items ≠ [])
    (taken : ∀ item ∈ items, ∀ lastValue values,
      feed toDouble ⟨.arrayParse, .arrayParse, lastValue, key, [], values, builder⟩ (text item ++ [44]) =
          ⟨.arrayParse, .arrayParse, kind, key, [], values ++ [item], builder⟩ ∧
        feed toDouble ⟨.arrayParse, .arrayParse, lastValue, key, [], values, builder⟩ (text item ++ [93]) =
          ⟨.run, .run, kind, key, [], values ++ [item], builder⟩) (lastValue : JsonStatus) :
    feed toDouble ⟨.arrayParse, .arrayParse, lastValue, key, [], values, builder⟩
        ((items.flatMap fun item => text item ++ [44]).dropLast ++ [93]) =
      ⟨.run, .run, kind, key, [], values ++ items, builder⟩ := by
  induction items generalizing lastValue values with
  | nil => exact (nonempty rfl).elim
  | cons item rest ih =>
    rw [forall_mem_cons] at taken
    rw [flatMap_cons]
    by_cases last : rest = []
    · rw [last, flatMap_nil, append_nil, dropLast_concat]
      exact (taken.1 lastValue values).2
    · obtain ⟨next, others, rfl⟩ := exists_cons_of_ne_nil last
      rw [dropLast_append_of_ne_nil (by simp), append_assoc, feed_append, (taken.1 lastValue values).1,
        ih last taken.2 kind, append_assoc, singleton_append]

theorem feed_array (nonempty : items ≠ []) (numbers : ∀ item ∈ items, IntText item) :
    feed toDouble ⟨.valueParse, .valueParse, lastValue, key, [], [], builder⟩
        (appendArrayValue items) =
      ⟨.run, .run, .intItemParse, key, [], items, builder⟩ := by
  refine feed_list toDouble (fun item => item) nonempty (fun item member lastValue values => ?_) lastValue
  rw [feed_append, feed_append, feed_item toDouble (numbers item member)]
  exact ⟨rfl, rfl⟩

end Hiview.EventRaw.JsonParser

namespace Hiview.EventRaw

open Numeral (decimal decimal_chars isSpace minus_notMem_decimal)

theorem isNumChar_of_code (low : 48 ≤ char.toNat) (high : char.toNat ≤ 57) :
    isNumChar char = true := by
  rw [isNumChar, Bool.and_eq_true, decide_eq_true_eq, decide_eq_true_eq]
  exact ⟨UInt8.le_iff_toNat_le.mpr low, UInt8.le_iff_toNat_le.mpr high⟩

theorem decimal_numChars (num : Nat) : ∀ char ∈ decimal num, isNumChar char = true :=
  fun char member => isNumChar_of_code (decimal_chars num char member).1
    (decimal_chars num char member).2

theorem intText_decimal (num : Nat) : JsonParser.IntText (decimal num) := by
  obtain ⟨char, rest, text, -⟩ := Numeral.decimal_cons num
  have digits := decimal_numChars num
  rw [text, List.forall_mem_cons] at digits
  exact ⟨char, rest, text, .inl digits.1, digits.2⟩

theorem intText_toString (num : Int) : JsonParser.IntText (Numeral.toString num) := by
  rw [Numeral.toString]
  split
  · exact ⟨45, _, rfl, .inr rfl, decimal_numChars _⟩
  · exact intText_decimal _

theorem toString_natCast (num : Nat) : Numeral.toString (num : Int) = decimal num := by
  rw [Numeral.toString, if_neg (by omega), Int.natAbs_natCast]

theorem minus_mem_toString (num : Int) : 45 ∈ Numeral.toString num ↔ num < 0 := by
  rw [Numeral.toString]
  split
  · rename_i negative
    exact ⟨fun _ => negative, fun _ => List.mem_cons_self⟩
  · rename_i nonneg
    exact ⟨fun member => (minus_notMem_decimal _ member).elim, fun negative => (nonneg negative).elim⟩

theorem point_not_mem (number : JsonParser.IntText text) : 46 ∉ text := by
  obtain ⟨char, rest, rfl, first, digits⟩ := number
  rw [List.mem_cons, not_or]
  refine ⟨?_, fun member => absurd (digits 46 member) (by decide)⟩
  exact fun same => (JsonParser.not_special first).2.1 same.symm

theorem intText_not_space (number : JsonParser.IntText text) :
    text.all isSpace = false ∧ text ≠ [] := by
  obtain ⟨char, rest, rfl, first, digits⟩ := number
  refine ⟨?_, List.cons_ne_nil _ _⟩
  have solid : isSpace char = false := by
    obtain digit | rfl := first
    · rw [isNumChar, Bool.and_eq_true, decide_eq_true_eq, decide_eq_true_eq,
        UInt8.le_iff_toNat_le, UInt8.le_iff_toNat_le] at digit
      exact Numeral.isSpace_of_large digit.1
    · decide
  rw [List.all_cons, solid, Bool.false_and]

theorem transToUInt64_decimal (num held : UInt64) :
    JsonParser.transToUInt64 (decimal num.toNat) held = num := by
  have small := num.toNat_lt
  rw [JsonParser.transToUInt64, (intText_not_space (intText_decimal _)).1, if_neg Bool.false_ne_true,
    ← toString_natCast, Numeral.extract_toString, Int.natAbs_natCast,
    decide_eq_false (by omega), Numeral.toUnsigned, if_neg (by omega), if_neg Bool.false_ne_true,
    UInt64.ofNat_toNat]

theorem transToInt64_toString (num held : Int64) :
    JsonParser.transToInt64 (Numeral.toString num.toInt) held = num := by
  have low := num.le_toInt
  have high := num.toInt_lt
  rw [JsonParser.transToInt64, (intText_not_space (intText_toString _)).1, if_neg Bool.false_ne_true,
    Numeral.extract_toString, Numeral.toSigned]
  have same : (if decide (num.toInt < 0) = true then -(num.toInt.natAbs : Int)
      else (num.toInt.natAbs : Int)) = num.toInt := by
    split
    · rename_i negative
      rw [decide_eq_true_eq] at negative
      omega
    · rename_i nonneg
      rw [decide_eq_true_eq] at nonneg
      omega
  rw [same, Int.min_eq_left (by omega), Int.max_eq_right (by omega), Int64.ofInt_toInt]

theorem transEach_map {trans : List UInt8 → α → α} {text : β → List UInt8} (value : β → α)
    (each : ∀ item held, trans (text item) held = value item) (items : List β) (held : α) :
    JsonParser.transEach trans held (items.map text) = items.map value := by
  induction items generalizing held with
  | nil => rfl
  | cons item rest ih => rw [List.map_cons, JsonParser.transEach, each, ih, List.map_cons]

/-- Texts without quotation marks and backslashes, integers and arrays of them. -/
def Value.Readable : Value → Prop
  | .dstring val => 34 ∉ val ∧ 92 ∉ val
  | .unsignedVarint _ | .signedVarint _ => True
  | .unsignedVarintArray vals => vals ≠ []
  | .signedVarintArray vals => vals ≠ []
  | .floating _ | .floatingArray _ | .dstringArray _ => False

/-- What the parser makes of the text of a value: a number without a sign is unsigned. -/
def Value.reparsed : Value → Argument
  | .unsignedVarint val => .unsignedNum (.uint64 val)
  | .signedVarint val =>
    if val.toInt < 0 then .signedNum (.int64 val) else .unsignedNum (.uint64 val.toUInt64)
  | .dstring val => .string val
  | .unsignedVarintArray vals => .unsignedNumArray (vals.map .uint64)
  | .signedVarintArray vals =>
    if vals.any (·.toInt < 0) then .signedNumArray (vals.map .int64)
    else .unsignedNumArray (vals.map fun val => .uint64 val.toUInt64)
  | .floating val => .floatingNum (.double val)
  | .floatingArray vals => .floatingNumArray (vals.map .double)
  | .dstringArray vals => .stringArray vals

theorem toString_of_nonneg {num : Int64} (nonneg : ¬ num.toInt < 0) :
    Numeral.toString num.toInt = decimal num.toUInt64.toNat := by
  rw [← Numeral.toNat_toUInt64 (Int.not_lt.mp nonneg), toString_natCast]

namespace JsonParser
variable (toDouble : List UInt8 → UInt64 → UInt64) (builder : RawDataBuilder) (key : List UInt8)

theorem builderAppendIntValue_decimal (num : UInt64) :
    builderAppendIntValue builder key (decimal num.toNat) =
      builder.appendValue key (.unsignedNum (.uint64 num)) := by
  rw [builderAppendIntValue, if_neg (intText_not_space (intText_decimal _)).2,
    if_neg (minus_notMem_decimal _), transToUInt64_decimal]

theorem builderAppendIntValue_toString (num : Int64) :
    builderAppendIntValue builder key (Numeral.toString num.toInt) =
      builder.appendValue key (Value.signedVarint num).reparsed := by
  by_cases negative : num.toInt < 0
  · rw [builderAppendIntValue, if_neg (intText_not_space (intText_toString _)).2,
      if_pos ((minus_mem_toString _).mpr negative), transToInt64_toString, Value.reparsed,
      if_pos negative]
  · rw [toString_of_nonneg negative, builderAppendIntValue_decimal, Value.reparsed, if_neg negative]

theorem any_mem_map_false {text : α → List UInt8} (absent : ∀ item, char ∉ text item) (items : List α) :
    (items.map text).any (char ∈ ·) = false := by
  rw [List.any_map, List.any_eq_false]
  exact fun item _ => by simpa using absent item

theorem builderAppendIntArrayValue_decimals (nums : List UInt64) :
    builderAppendIntArrayValue toDouble builder key (nums.map fun num => decimal num.toNat) =
      builder.appendValue key (.unsignedNumArray (nums.map .uint64)) := by
  rw [builderAppendIntArrayValue, any_mem_map_false fun num => point_not_mem (intText_decimal _),
    any_mem_map_false fun num => minus_notMem_decimal _, if_neg Bool.false_ne_true, if_neg Bool.false_ne_true,
    transEach_map (fun num : UInt64 => num) transToUInt64_decimal, List.map_id']

theorem builderAppendIntArrayValue_toStrings (nums : List Int64) :
    builderAppendIntArrayValue toDouble builder key (nums.map fun num => Numeral.toString num.toInt) =
      builder.appendValue key (Value.signedVarintArray nums).reparsed := by
  by_cases negative : nums.any (·.toInt < 0) = true
  · have minus : (nums.map fun num => Numeral.toString num.toInt).any (45 ∈ ·) = true := by
      rw [List.any_map, ← negative]
      exact congrArg nums.any (funext fun num => decide_eq_decide.mpr (minus_mem_toString _))
    have whole : (nums.map fun num => Numeral.toString num.toInt).filter (· ≠ []) =
        nums.map fun num => Numeral.toString num.toInt := by
      rw [List.filter_eq_self, List.forall_mem_map]
      exact fun num _ => decide_eq_true (intText_not_space (intText_toString _)).2
    rw [builderAppendIntArrayValue, any_mem_map_false fun num => point_not_mem (intText_toString _), minus,
      if_neg Bool.false_ne_true, if_pos rfl, whole, transEach_map (fun num : Int64 => num) transToInt64_toString,
      List.map_id', Value.reparsed, if_pos negative]
  · have texts : (nums.map fun num => Numeral.toString num.toInt) =
        (nums.map Int64.toUInt64).map fun num => decimal num.toNat := by
      rw [List.map_map]
      refine List.map_congr_left fun num member => toString_of_nonneg fun below => negative ?_
      exact List.any_eq_true.mpr ⟨num, member, decide_eq_true below⟩
    rw [texts, builderAppendIntArrayValue_decimals, Value.reparsed, if_neg negative, List.map_map]
    rfl

end JsonParser

namespace JsonParser
variable (toDouble : List UInt8 → UInt64 → UInt64) (printDouble : UInt64 → List UInt8)

/-- Behind a value: what is pending makes `result` of the builder. -/
structure Pending (parser : JsonParser) (result : RawDataBuilder) : Prop where
  ended : (parser.status = .run ∧ parser.lastStatus = .run) ∨
    (parser.status = .intParse ∧ parser.lastStatus = .intParse)
  appended : parser.appendValueToBuilder toDouble = result

/-- Between members. -/
structure Standing (parser : JsonParser) (result : RawDataBuilder) : Prop where
  running : parser.status = .run
  settled : parser.lastStatus = .run
  appended : parser.appendValueToBuilder toDouble = result

variable {toDouble} {parser : JsonParser} {result : RawDataBuilder}

theorem Pending.comma (pending : Pending toDouble parser result) :
    Standing toDouble (step toDouble parser 44) result := by
  obtain ⟨status, last, lastValue, key, value, values, builder⟩ := parser
  obtain ⟨⟨rfl, rfl⟩ | ⟨rfl, rfl⟩, appended⟩ := pending
  · exact ⟨rfl, rfl, appended⟩
  · exact ⟨rfl, rfl, appended⟩

theorem Pending.brace (pending : Pending toDouble parser result) :
    (step toDouble parser 125).builder = result := by
  obtain ⟨status, last, lastValue, key, value, values, builder⟩ := parser
  obtain ⟨⟨rfl, rfl⟩ | ⟨rfl, rfl⟩, appended⟩ := pending
  · exact appended
  · exact appended

theorem feed_value {lastValue : JsonStatus} {key : List UInt8} {builder : RawDataBuilder}
    {value : Value} (named : key ≠ []) (readable : value.Readable) :
    Pending toDouble (feed toDouble ⟨.valueParse, .valueParse, lastValue, key, [], [], builder⟩
        (JsonText.valueText printDouble value))
      (builder.appendValue key value.reparsed) := by
  have numbers {α : Type} {text : α → List UInt8} (nums : List α) (each : ∀ num, IntText (text num)) :
      ∀ item ∈ nums.map text, IntText item := List.forall_mem_map.mpr fun num _ => each num
  cases value with
  | unsignedVarint num =>
    rw [JsonText.valueText, feed_int toDouble (intText_decimal _)]
    refine ⟨.inr ⟨rfl, rfl⟩, ?_⟩
    rw [appendValueToBuilder, if_neg named]
    exact builderAppendIntValue_decimal builder key num
  | signedVarint num =>
    rw [JsonText.valueText, feed_int toDouble (intText_toString _)]
    refine ⟨.inr ⟨rfl, rfl⟩, ?_⟩
    rw [appendValueToBuilder, if_neg named]
    exact builderAppendIntValue_toString builder key num
  | dstring text =>
    rw [JsonText.valueText, feed_quoted toDouble readable.1 readable.2]
    refine ⟨.inl ⟨rfl, rfl⟩, ?_⟩
    rw [appendValueToBuilder, if_neg named]
    rfl
  | unsignedVarintArray nums =>
    rw [JsonText.valueText, feed_array toDouble (List.map_eq_nil_iff.not.mpr readable)
      (numbers nums fun _ => intText_decimal _)]
    refine ⟨.inl ⟨rfl, rfl⟩, ?_⟩
    rw [appendValueToBuilder, if_neg named]
    exact builderAppendIntArrayValue_decimals toDouble builder key nums
  | signedVarintArray nums =>
    rw [JsonText.valueText, feed_array toDouble (List.map_eq_nil_iff.not.mpr readable)
      (numbers nums fun _ => intText_toString _)]
    refine ⟨.inl ⟨rfl, rfl⟩, ?_⟩
    rw [appendValueToBuilder, if_neg named]
    exact builderAppendIntArrayValue_toStrings toDouble builder key nums
  | floating _ | floatingArray _ | dstringArray _ => exact readable.elim

/-- A member that is read back: a key that is not empty and a readable value. -/
structure ReadableMember (member : List UInt8 × Value) : Prop where
  named : member.1 ≠ []
  unquoted : 34 ∉ member.1
  value : member.2.Readable

variable (toDouble) in
/-- A member whose text leaves nothing but its own value pending. -/
structure TakenMember (member : List UInt8 × Value) : Prop where
  unquoted : 34 ∉ member.1
  taken : ∀ lastValue builder, Pending toDouble (feed toDouble
      ⟨.valueParse, .valueParse, lastValue, member.1, [], [], builder⟩
      (JsonText.valueText printDouble member.2))
    (builder.appendValue member.1 member.2.reparsed)

theorem ReadableMember.takenMember (readable : ReadableMember member) :
    TakenMember toDouble printDouble member :=
  ⟨readable.unquoted, fun _ _ => feed_value printDouble readable.named readable.value⟩

def appendMember (builder : RawDataBuilder) (member : List UInt8 × Value) : RawDataBuilder :=
  builder.appendValue member.1 member.2.reparsed

theorem Standing.member {member : List UInt8 × Value} (standing : Standing toDouble parser result)
    (taken : TakenMember toDouble printDouble member) :
    Pending toDouble (feed toDouble parser (JsonText.memberText printDouble member))
      (appendMember result member) := by
  obtain ⟨status, last, lastValue, key, value, values, builder⟩ := parser
  obtain ⟨rfl, rfl, appended⟩ := standing
  have split : JsonText.memberText printDouble member =
      (JsonText.quoted member.1 ++ [58]) ++ JsonText.valueText printDouble member.2 := by
    rw [JsonText.memberText, List.append_assoc, List.singleton_append]
  rw [split, feed_append, feed_member toDouble taken.unquoted, ← appended]
  exact taken.taken _ _

theorem Standing.members {members : List (List UInt8 × Value)}
    (standing : Standing toDouble parser result)
    (taken : ∀ member ∈ members, TakenMember toDouble printDouble member) :
    Standing toDouble (feed toDouble parser
        (members.flatMap (JsonText.appendValue printDouble)))
      (members.foldl appendMember result) := by
  induction members generalizing parser result with
  | nil => exact standing
  | cons member rest ih =>
    rw [List.forall_mem_cons] at taken
    have first := (standing.member printDouble taken.1).comma
    have split : (member :: rest).flatMap (JsonText.appendValue printDouble) =
        (JsonText.memberText printDouble member ++ [44]) ++
          rest.flatMap (JsonText.appendValue printDouble) := by
      rw [List.flatMap_cons, JsonText.appendValue]
    rw [split, feed_append, feed_append]
    exact ih first taken.2

theorem parse_members {members : List (List UInt8 × Value)} (nonempty : members ≠ [])
    (taken : ∀ member ∈ members, TakenMember toDouble printDouble member) :
    parse toDouble
        ((123 :: members.flatMap (JsonText.appendValue printDouble)).dropLast ++ [125]) =
      members.foldl appendMember .new := by
  obtain ⟨front, last, rfl⟩ : ∃ front last, members = front ++ [last] :=
    ⟨_, _, (List.dropLast_append_getLast nonempty).symm⟩
  have fronts : ∀ member ∈ front, TakenMember toDouble printDouble member :=
    fun member inside => taken member (List.mem_append_left _ inside)
  have final : TakenMember toDouble printDouble last :=
    taken last (List.mem_append_right _ List.mem_cons_self)
  have start : Standing toDouble (step toDouble new 123) .new := ⟨rfl, rfl, rfl⟩
  have pending := (start.members printDouble fronts).member printDouble final
  have tail : (front ++ [last]).flatMap (JsonText.appendValue printDouble) ≠ [] := by simp [JsonText.appendValue]
  have dropped : ((front ++ [last]).flatMap (JsonText.appendValue printDouble)).dropLast =
      front.flatMap (JsonText.appendValue printDouble) ++ JsonText.memberText printDouble last :=
    commas_dropLast (JsonText.memberText printDouble) front last
  rw [List.dropLast_cons_of_ne_nil tail, dropped, List.foldl_append]
  change (feed toDouble (step toDouble new 123) (_ ++ [125])).builder = _
  rw [feed_append, feed_append]
  exact pending.brace

end JsonParser
end Hiview.EventRaw
