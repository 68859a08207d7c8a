import Hiview.Base.StringUtil
import Hiview.EventRaw.JsonCalls

/-! Escaped texts in an object. The status behind a backslash is left by any
character but another backslash, so an escaped backslash takes the next character
in as well: inside a text that does no harm, at its end it takes the closing
quotation mark. -/
namespace Hiview.EventRaw.JsonParser
open List hiding tail

open StringUtil (escapeChar escapeJsonStringValue unescapeJsonStringValue unescapeFrom unescapedChar)

variable {toDouble : List UInt8 → UInt64 → UInt64}

section Escaped
variable {key held value : List UInt8} {values : List (List UInt8)} {builder : RawDataBuilder}

/-- Inside a text, in one of the two statuses there. -/
def within (status : JsonStatus) (key held : List UInt8) (values : List (List UInt8))
    (builder : RawDataBuilder) : JsonParser :=
  ⟨status, status, status, key, held, values, builder⟩

def behind (char : UInt8) : JsonStatus := if char = 92 then .escapeCharParse else .stringParse

theorem reads_escapeChar {status : JsonStatus}
    (inside : status = .stringParse ∨ status = .escapeCharParse) (char : UInt8) :
    Reads toDouble (within status key held values builder) (escapeChar char)
      (within (behind char) key (held ++ escapeChar char) values builder) := by
  have joined (second : UInt8) : held ++ [92, second] = (held ++ [92]) ++ [second] := by
    rw [append_assoc, singleton_append]
  unfold escapeChar
  split
  case h_8 backslash quote _ _ _ _ _ =>
    have plain : behind char = .stringParse := if_neg backslash
    rw [plain]
    rcases inside with rfl | rfl
    · have next : statusTabs .stringParse char = .stringParse := by
        rw [statusTabs, if_neg quote, if_neg backslash]
      refine ⟨?_, ?_⟩ <;>
        simp [feed, calls, stepCalls, step, within, next, handle, handleStatusStringParse, handleText]
    · have next : statusTabs .escapeCharParse char = .stringParse := if_neg backslash
      refine ⟨?_, ?_⟩ <;>
        simp [feed, calls, stepCalls, step, within, next, handle, handleStatusStringParse, handleText]
  all_goals
    rw [joined]
    rcases inside with rfl | rfl
    · exact ⟨rfl, rfl⟩
    · exact ⟨rfl, rfl⟩

/-- The status at the end of an escaped text. -/
def ending (status : JsonStatus) (text : List UInt8) : JsonStatus := (text.getLast?.map behind).getD status

theorem ending_cons (status : JsonStatus) (char : UInt8) (rest : List UInt8) :
    ending status (char :: rest) = ending (behind char) rest := by
  rw [ending, ending, List.getLast?_cons]
  cases rest.getLast? <;> rfl

theorem reads_escaped {status : JsonStatus}
    (inside : status = .stringParse ∨ status = .escapeCharParse) (text : List UInt8) :
    Reads toDouble (within status key held values builder) (escapeJsonStringValue text)
      (within (ending status text) key (held ++ escapeJsonStringValue text) values builder) := by
  induction text generalizing status held with
  | nil => exact ⟨by rw [escapeJsonStringValue, flatMap_nil, append_nil]; rfl, rfl⟩
  | cons char rest ih =>
    have next : behind char = .stringParse ∨ behind char = .escapeCharParse := by
      unfold behind
      split
      · exact .inr rfl
      · exact .inl rfl
    have first : escapeJsonStringValue (char :: rest) = escapeChar char ++ escapeJsonStringValue rest :=
      flatMap_cons
    have later := @ih (held ++ escapeChar char) _ next
    rw [first, ending_cons, ← append_assoc]
    exact (reads_escapeChar inside char).append later

variable {text : List UInt8}

theorem calls_key {lastValue : JsonStatus} (clean : 34 ∉ text) :
    calls toDouble ⟨.keyParse, .keyParse, lastValue, held, value, values, builder⟩ text = [] := by
  induction text generalizing held with
  | nil => rfl
  | cons char rest ih =>
    rw [mem_cons, not_or] at clean
    have stays : statusTabs .keyParse char = .keyParse := if_neg (Ne.symm clean.1)
    have moved : step toDouble ⟨.keyParse, .keyParse, lastValue, held, value, values, builder⟩ char =
        ⟨.keyParse, .keyParse, lastValue, held ++ [char], value, values, builder⟩ := by
      simp only [step, stays, handle, handleStatusKeyParse, if_true]
    rw [calls, stepCalls, stays, moved, ih clean.2]
    rfl

theorem calls_member {lastValue : JsonStatus} (clean : 34 ∉ text) :
    calls toDouble ⟨.run, .run, lastValue, key, value, values, builder⟩
        (JsonText.quoted text ++ [58]) =
      pendingCall toDouble ⟨.run, .run, lastValue, key, value, values, builder⟩ := by
  rw [JsonText.quoted, cons_append, append_assoc, calls]
  rw [step_member, calls_append, calls_key clean, feed_key toDouble clean, nil_append]
  exact append_nil _

end Escaped

/-- A member with an escaped text, and what stands around it. -/
def escapedText (front key text tail : List UInt8) : List UInt8 :=
  front ++ ((JsonText.quoted key ++ [58]) ++ (JsonText.quoted (escapeJsonStringValue text) ++ tail))

/-- The end of the object, or the key of another member and anything behind it. -/
inductive Following : List UInt8 → Prop where
  | last : Following [125]
  | member {key : List UInt8} (unquoted : 34 ∉ key) (rest : List UInt8) :
      Following (44 :: ((JsonText.quoted key ++ [58]) ++ rest))

/-- What is appended for a text between its neighbours, which take part alike when
the text is empty. -/
def ReadsBack (toDouble : List UInt8 → UInt64 → UInt64) (front key text tail : List UInt8) : Prop :=
  ∃ before value after, unescapeJsonStringValue value = text ∧
    calls toDouble new (escapedText front key text tail) =
      before ++ (key, .string value) :: after ∧
    calls toDouble new (escapedText front key [] tail) = before ++ (key, .string []) :: after

section Neighbours
variable {front key tail : List UInt8}

/-- Behind a value that is not a list of texts the following members are read from a
state without it. -/
theorem Following.calls_pending (following : Following tail) (key : List UInt8) :
    ∃ after, ∀ lastValue value values builder, lastValue ≠ .stringItemParse →
      JsonParser.calls toDouble ⟨.run, .run, lastValue, key, value, values, builder⟩ tail =
        pendingCall toDouble ⟨.run, .run, lastValue, key, value, values, builder⟩ ++ after := by
  cases following with
  | last =>
    refine ⟨[], fun lastValue value values builder _ => ?_⟩
    rfl
  | @member next unquoted rest =>
    refine ⟨JsonParser.calls toDouble
      ⟨.valueParse, .valueParse, .none, next, [], [], .new⟩ rest,
      fun lastValue value values builder other => ?_⟩
    have comma : step toDouble ⟨.run, .run, lastValue, key, value, values, builder⟩ 44 =
      ⟨.run, .run, lastValue, key, value, values, builder⟩ := rfl
    rw [JsonParser.calls, comma, calls_append, calls_member unquoted, feed_member toDouble unquoted,
      calls_lastValue (.inl rfl) other (by decide : JsonStatus.none ≠ .stringItemParse)]
    exact congrArg (pendingCall toDouble
      ⟨.run, .run, lastValue, key, value, values, builder⟩ ++ ·) (calls_withBuilder
        ⟨.valueParse, .valueParse, .none, next, [], [], .new⟩ _ rest)

theorem Following.calls (following : Following tail) (named : key ≠ []) :
    ∃ after, ∀ value builder, JsonParser.calls toDouble
        ⟨.run, .run, .stringParse, key, value, [], builder⟩ tail = (key, .string value) :: after := by
  obtain ⟨after, pending⟩ := @Following.calls_pending toDouble tail following key
  refine ⟨after, fun value builder => ?_⟩
  have appended : pendingCall toDouble ⟨.run, .run, .stringParse, key, value, [], builder⟩ =
      [(key, .string value)] := if_neg named
  rw [pending .stringParse value [] builder (by decide), appended, singleton_append]

theorem feed_settled (text : List UInt8) {parser : JsonParser} (settled : parser.lastStatus = parser.status) :
    (feed toDouble parser text).lastStatus = (feed toDouble parser text).status := by
  induction text generalizing parser with
  | nil => exact settled
  | cons char rest ih => exact ih rfl

/-- A text that does not end with a backslash is left by its quotation mark. -/
theorem calls_escapedText (running : (feed toDouble new front).status = .run) (named : key ≠ [])
    (unquoted : 34 ∉ key) (following : Following tail) :
    ∃ before after, ∀ text : List UInt8, text.getLast? ≠ some 92 →
      calls toDouble new (escapedText front key text tail) =
        before ++ (key, .string (escapeJsonStringValue text)) :: after := by
  obtain ⟨after, tailCalls⟩ := @Following.calls toDouble key tail following named
  have settled : (feed toDouble new front).lastStatus = .run :=
    (feed_settled front rfl).trans running
  obtain ⟨status, lastStatus, lastValue, oldKey, oldValue, oldValues, builder, reached⟩ :
      ∃ status lastStatus lastValue oldKey oldValue oldValues builder, feed toDouble new front =
        ⟨status, lastStatus, lastValue, oldKey, oldValue, oldValues, builder⟩ :=
    ⟨_, _, _, _, _, _, _, rfl⟩
  rw [reached] at running settled
  subst running settled
  refine ⟨calls toDouble new front ++ pendingCall toDouble
    ⟨.run, .run, lastValue, oldKey, oldValue, oldValues, builder⟩, after, fun text ends => ?_⟩
  have closed : ending .stringParse text = .stringParse := by
    rw [ending]
    cases last : text.getLast? with
    | none => rfl
    | some char =>
      exact if_neg fun backslash => ends (last.trans (congrArg some backslash))
  rw [escapedText, calls_append, reached, calls_append, calls_member unquoted,
    feed_member toDouble unquoted, append_assoc]
  generalize appendValueToBuilder toDouble _ = appended
  have opened : Reads toDouble ⟨.valueParse, .valueParse, lastValue, key, [], [], appended⟩ [34]
      (within .stringParse key [] [] appended) := ⟨rfl, rfl⟩
  have inside := @reads_escaped toDouble key [] [] appended .stringParse (.inl rfl) text
  rw [closed, nil_append] at inside
  have left : Reads toDouble (within .stringParse key (escapeJsonStringValue text) [] appended) [34]
      ⟨.run, .run, .stringParse, key, escapeJsonStringValue text, [], appended⟩ := ⟨rfl, rfl⟩
  have read := opened.cons (inside.append left)
  rw [JsonText.quoted, read.calls_append, tailCalls]

end Neighbours

section Backslash

/-- A text that has been left does not end with a backslash. -/
structure Left (parser : JsonParser) : Prop where
  inside : parser.lastStatus = .stringParse → parser.lastValueParseStatus = .stringParse
  value : parser.lastValueParseStatus = .stringParse → parser.value.getLast? ≠ some 92

theorem not_backslash_of_stringParse {status : JsonStatus} {char : UInt8}
    (next : statusTabs status char = .stringParse) : char ≠ 92 := by
  rintro rfl
  cases status <;> exact absurd next (by decide)

theorem getLast?_nil_ne : ([] : List UInt8).getLast? ≠ some 92 := by decide

variable {parser : JsonParser}

theorem Left.takeItem (left : Left parser) : Left parser.takeItem := by
  unfold JsonParser.takeItem
  split
  · exact ⟨left.inside, fun _ => getLast?_nil_ne⟩
  · exact left

/-- What a step leaves under the status of a text has been left. -/
theorem Left.step_value (left : Left parser) (char : UInt8) :
    (step toDouble parser char).lastValueParseStatus = .stringParse →
      (step toDouble parser char).value.getLast? ≠ some 92 := by
  have other := @not_backslash_of_stringParse parser.status char
  obtain ⟨status, lastStatus, lastValue, key, value, values, builder⟩ := parser
  simp only [step]
  cases next : statusTabs status char with
  | none => exact left.value
  | keyParse =>
    dsimp only [handle, handleStatusKeyParse]
    split
    · exact left.value
    · exact left.value
  | run =>
    have taken : Left (JsonParser.takeItem ⟨.run, lastStatus, lastValue, key, value, values, builder⟩) :=
      Left.takeItem ⟨left.inside, left.value⟩
    dsimp only [handle, handleStatusRun]
    split
    · rename_i closing
      exact fun _ => taken.value (taken.inside closing)
    · split
      · intro same
        cases same
      · exact taken.value
  | valueParse =>
    dsimp only [handle, handleStatusValueParse, clearValues, JsonParser.takeItem]
    repeat' split
    all_goals exact fun _ => getLast?_nil_ne
  | arrayParse =>
    dsimp only [handle, handleStatusArrayParse, clearValues, JsonParser.takeItem]
    repeat' split
    all_goals first
      | exact fun _ => getLast?_nil_ne
      | exact left.value
  | stringParse =>
    dsimp only [handle, handleStatusStringParse, handleText]
    split
    · exact fun _ => getLast?_nil_ne
    · intro _ last
      rw [List.getLast?_concat, Option.some.injEq] at last
      exact other next last
  | stringItemParse =>
    dsimp only [handle, handleStatusStringItemParse, handleText]
    split
    · intro same
      cases same
    · intro same
      cases same
  | _ =>
    intro same
    cases same

theorem Left.step (left : Left parser) (char : UInt8) : Left (JsonParser.step toDouble parser char) := by
  refine ⟨fun inside => ?_, left.step_value char⟩
  rw [step_lastStatus] at inside
  obtain ⟨status, lastStatus, lastValue, key, value, values, builder⟩ := parser
  simp only [JsonParser.step, inside, handle, handleStatusStringParse, handleText]
  split <;> rfl

theorem new_left : Left new := by
  constructor
  · intro same
    cases same
  · intro same
    cases same

theorem string_call_left {key value : List UInt8} (made : (key, .string value) ∈ calls toDouble new text) :
    value.getLast? ≠ some 92 := by
  have good := @calls_all toDouble Left (fun _ => True)
    (fun call => ∀ value, call.2 = .string value → value.getLast? ≠ some 92)
    (fun _ char left _ => left.step char) ?_ text (fun _ _ => trivial) new new_left
  · exact good _ made value rfl
  · intro parser left call member value string
    obtain ⟨status, rfl⟩ := (pendingCall_texts member).1 value string
    exact left.value status

theorem unescapedChar_backslash {char : UInt8} (backslash : unescapedChar char = 92) : char = 92 := by
  unfold unescapedChar at backslash
  split at backslash
  all_goals first
    | exact backslash
    | cases backslash

theorem unescapeFrom_eq_nil {value : List UInt8} (empty : unescapeFrom false value = []) :
    value = [] ∨ value = [92] := by
  cases value with
  | nil => exact .inl rfl
  | cons char rest =>
    rw [unescapeFrom] at empty
    split at empty
    · rename_i backslash
      cases rest with
      | nil => exact .inr (congrArg (· :: []) backslash)
      | cons next tail => cases empty
    · cases empty

theorem backslash_of_unescaped {escaped : Bool} {value : List UInt8}
    (last : (unescapeFrom escaped value).getLast? = some 92) : value.getLast? = some 92 := by
  induction value generalizing escaped with
  | nil =>
    cases escaped <;> cases last
  | cons char rest ih =>
    have behind (first : UInt8) (same : first = 92 → char = 92)
        (ends : (first :: unescapeFrom false rest).getLast? = some 92) :
        (char :: rest).getLast? = some 92 := by
      rw [List.getLast?_cons] at ends ⊢
      cases tail : (unescapeFrom false rest).getLast? with
      | some final =>
        rw [tail, Option.getD_some, Option.some.injEq] at ends
        rw [ih (tail.trans (congrArg some ends)), Option.getD_some]
      | none =>
        rw [tail, Option.getD_none, Option.some.injEq] at ends
        obtain rfl | rfl := unescapeFrom_eq_nil (List.getLast?_eq_none_iff.mp tail)
        · exact congrArg some (same ends)
        · rfl
    cases escaped with
    | true => exact behind _ unescapedChar_backslash last
    | false =>
      rw [unescapeFrom] at last
      split at last
      · rw [List.getLast?_cons, ih last, Option.getD_some]
      · exact behind char id last

theorem not_readsBack_of_backslash {front key text tail : List UInt8} (last : text.getLast? = some 92) :
    ¬ ReadsBack toDouble front key text tail := by
  rintro ⟨before, value, after, rfl, made, -⟩
  have member : (key, Argument.string value) ∈
      calls toDouble new (escapedText front key (unescapeJsonStringValue value) tail) := by
    rw [made]
    exact mem_append_right _ mem_cons_self
  exact string_call_left member (backslash_of_unescaped last)

end Backslash

/-- An escaped text is read back, and its neighbours are as they would be without
it, exactly when it does not end with a backslash. -/
theorem escaped_readsBack_iff {front key text tail : List UInt8}
    (running : (feed toDouble new front).status = .run) (named : key ≠ []) (unquoted : 34 ∉ key)
    (following : Following tail) :
    ReadsBack toDouble front key text tail ↔ text.getLast? ≠ some 92 := by
  constructor
  · exact fun read last => not_readsBack_of_backslash last read
  · intro ends
    obtain ⟨before, after, made⟩ :=
      @calls_escapedText toDouble front key tail running named unquoted following
    exact ⟨before, escapeJsonStringValue text, after, StringUtil.unescape_escape text, made text ends,
      made [] (by decide)⟩

/-- The integer member `"L":1` and the end of the object. -/
def integerTail : List UInt8 := 44 :: ((JsonText.quoted [76] ++ [58]) ++ [49, 125])

/-- A quotation mark and a backslash in front of a letter. -/
theorem escaped_readsBack_inside : ReadsBack (fun _ val => val) [123] [75] [34, 92, 97] integerTail :=
  (escaped_readsBack_iff rfl (by decide) (by decide) (.member (by decide) [49, 125])).mpr (by decide)

/-- A text that is one backslash takes the quotation mark and the comma behind it
in, and the next member is lost. -/
theorem backslash_not_readsBack :
    calls (fun _ val => val) new (escapedText [123] [75] [92] integerTail) =
        [([75], .string [92, 92, 34, 44])] ∧
      calls (fun _ val => val) new (escapedText [123] [75] [] integerTail) =
        [([75], .string []), ([76], .unsignedNum (.uint64 1))] ∧
      ¬ ReadsBack (fun _ val => val) [123] [75] [92] integerTail :=
  ⟨by decide +kernel, by decide +kernel, not_readsBack_of_backslash rfl⟩

end Hiview.EventRaw.JsonParser
