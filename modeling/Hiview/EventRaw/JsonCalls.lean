import Hiview.EventRaw.JsonFeed

/-! The parser as the values it gives to its builder. A step appends at most the
pending value, and nothing of a step depends on what the builder holds, so a text
is a list of calls of `AppendValue`. -/
namespace Hiview.EventRaw.JsonParser
open List

/-- A call of `AppendValue` with a key and an argument. -/
def appendCall (builder : RawDataBuilder) (call : List UInt8 × Argument) : RawDataBuilder :=
  builder.appendValue call.1 call.2

section Calls
variable (toDouble : List UInt8 → UInt64 → UInt64)

def intArgument (value : List UInt8) : Argument :=
  if 45 ∈ value then .signedNum (.int64 (transToInt64 value 0))
  else .unsignedNum (.uint64 (transToUInt64 value 0))

def floatingArrayArgument (values : List (List UInt8)) : Argument :=
  .floatingNumArray ((transEach toDouble 0 values).map .double)

def intArrayArgument (values : List (List UInt8)) : Argument :=
  if values.any (46 ∈ ·) then floatingArrayArgument toDouble values
  else if values.any (45 ∈ ·) then
    .signedNumArray ((transEach transToInt64 0 (values.filter (· ≠ []))).map .int64)
  else .unsignedNumArray ((transEach transToUInt64 0 values).map .uint64)

/-- What `AppendValueToBuilder` appends, if anything. -/
def pendingCall (parser : JsonParser) : List (List UInt8 × Argument) :=
  if parser.key = [] then []
  else match parser.lastValueParseStatus with
    | .stringParse => [(parser.key, .string parser.value)]
    | .intParse => if parser.value = [] then [] else [(parser.key, intArgument parser.value)]
    | .doubleParse => [(parser.key, .floatingNum (.double (toDouble parser.value 0)))]
    | .stringItemParse => [(parser.key, .stringArray parser.values)]
    | .intItemParse => [(parser.key, intArrayArgument toDouble parser.values)]
    | .doubleItemParse => [(parser.key, floatingArrayArgument toDouble parser.values)]
    | _ => []

/-- The value is appended at the end of an object and where a key opens. -/
def stepCalls (parser : JsonParser) (charactor : UInt8) : List (List UInt8 × Argument) :=
  match statusTabs parser.status charactor with
  | .none => pendingCall toDouble parser
  | .keyParse => if parser.lastStatus = .keyParse then [] else pendingCall toDouble parser
  | _ => []

def calls : JsonParser → List UInt8 → List (List UInt8 × Argument)
  | _, [] => []
  | parser, charactor :: rest =>
    stepCalls toDouble parser charactor ++ calls (step toDouble parser charactor) rest

variable {toDouble} {parser : JsonParser}

theorem appendValueToBuilder_calls (parser : JsonParser) :
    parser.appendValueToBuilder toDouble =
      (pendingCall toDouble parser).foldl appendCall parser.builder := by
  obtain ⟨status, lastStatus, lastValue, key, value, values, builder⟩ := parser
  by_cases empty : key = []
  · simp only [appendValueToBuilder, pendingCall, if_pos empty, foldl_nil]
  simp only [appendValueToBuilder, pendingCall, if_neg empty]
  cases lastValue with
  | intParse =>
    dsimp only [builderAppendIntValue, intArgument]
    repeat' split
    all_goals rfl
  | intItemParse =>
    dsimp only [builderAppendIntArrayValue, intArrayArgument]
    repeat' split
    all_goals rfl
  | _ => rfl

/-- Texts and lists of texts are appended as they have been collected. -/
def AsCollected (parser : JsonParser) (argument : Argument) : Prop :=
  (∀ value, argument = .string value → parser.lastValueParseStatus = .stringParse ∧ value = parser.value) ∧
    ∀ values, argument = .stringArray values →
      parser.lastValueParseStatus = .stringItemParse ∧ values = parser.values

theorem pendingCall_texts (pending : call ∈ pendingCall toDouble parser) : AsCollected parser call.2 := by
  have number {argument : Argument} (single : call ∈ [(parser.key, argument)])
      (noText : ∀ value, argument ≠ .string value) (noList : ∀ values, argument ≠ .stringArray values) :
      AsCollected parser call.2 := by
    rw [mem_singleton.mp single]
    exact ⟨fun value same => (noText value same).elim, fun values same => (noList values same).elim⟩
  unfold pendingCall at pending
  split at pending
  · cases pending
  split at pending
  · rename_i last
    rw [mem_singleton.mp pending]
    refine ⟨?_, ?_⟩
    · rintro value ⟨⟩
      exact ⟨last, rfl⟩
    · rintro values ⟨⟩
  · split at pending
    · cases pending
    · refine number pending ?_ ?_
      all_goals
        unfold intArgument
        intro other
        split <;> rintro ⟨⟩
  · refine number pending ?_ ?_ <;> rintro other ⟨⟩
  · rename_i last
    rw [mem_singleton.mp pending]
    refine ⟨?_, ?_⟩
    · rintro value ⟨⟩
    · rintro values ⟨⟩
      exact ⟨last, rfl⟩
  · refine number pending ?_ ?_
    all_goals
      unfold intArrayArgument floatingArrayArgument
      intro other
      split
      · rintro ⟨⟩
      · split <;> rintro ⟨⟩
  · refine number pending ?_ ?_ <;> rintro other ⟨⟩
  · cases pending

section
variable (parser : JsonParser)

theorem takeItem_status : parser.takeItem.status = parser.status := by
  rw [takeItem]
  split <;> rfl

theorem clearValues_status : parser.clearValues.status = parser.status := by
  rw [clearValues]
  split <;> rfl

variable (charactor : UInt8)

theorem handle_status :
    (handle toDouble parser charactor).status = parser.status := by
  unfold handle
  split
  · rfl
  · unfold handleStatusKeyParse
    split <;> rfl
  · unfold handleStatusRun
    have taken := parser.takeItem_status
    dsimp only
    split
    · exact taken
    · split <;> exact taken
  · rw [handleStatusValueParse, takeItem_status, clearValues_status]
  · rw [handleStatusArrayParse, takeItem_status, clearValues_status]
  · dsimp only [handleStatusStringParse, handleText]
    split <;> rfl
  · dsimp only [handleStatusStringItemParse, handleText]
    split <;> rfl
  all_goals rfl

theorem step_lastStatus :
    (step toDouble parser charactor).lastStatus = statusTabs parser.status charactor :=
  handle_status { parser with status := statusTabs parser.status charactor } charactor

theorem step_withBuilder (builder : RawDataBuilder) (charactor : UInt8) :
    step toDouble { parser with builder } charactor =
      { step toDouble parser charactor with
        builder := (stepCalls toDouble parser charactor).foldl appendCall builder } := by
  obtain ⟨status, lastStatus, lastValue, key, value, values, old⟩ := parser
  simp only [step, stepCalls]
  cases statusTabs status charactor with
  | none =>
    dsimp only [handle, handleStatusNone]
    rw [appendValueToBuilder_calls]
    rfl
  | keyParse =>
    dsimp only [handle, handleStatusKeyParse]
    split
    · rfl
    · rw [appendValueToBuilder_calls]
      rfl
  | run =>
    dsimp only [handle, handleStatusRun, takeItem]
    repeat' split
    all_goals rfl
  | valueParse =>
    dsimp only [handle, handleStatusValueParse, clearValues, takeItem]
    repeat' split
    all_goals rfl
  | arrayParse =>
    dsimp only [handle, handleStatusArrayParse, clearValues, takeItem]
    repeat' split
    all_goals rfl
  | stringParse =>
    dsimp only [handle, handleStatusStringParse, handleText]
    split <;> rfl
  | stringItemParse =>
    dsimp only [handle, handleStatusStringItemParse, handleText]
    split <;> rfl
  | _ => rfl

theorem step_builder :
    (step toDouble parser charactor).builder =
      (stepCalls toDouble parser charactor).foldl appendCall parser.builder :=
  congrArg JsonParser.builder (step_withBuilder parser parser.builder charactor)

theorem feed_builder (text : List UInt8) :
    (feed toDouble parser text).builder =
      (calls toDouble parser text).foldl appendCall parser.builder := by
  induction text generalizing parser with
  | nil => rfl
  | cons char rest ih => rw [feed_cons, ih, step_builder, calls, foldl_append]

theorem parse_calls (jsonStr : List UInt8) :
    parse toDouble jsonStr = (calls toDouble new jsonStr).foldl appendCall .new :=
  feed_builder new jsonStr

theorem calls_append (first second : List UInt8) :
    calls toDouble parser (first ++ second) =
      calls toDouble parser first ++ calls toDouble (feed toDouble parser first) second := by
  induction first generalizing parser with
  | nil => rfl
  | cons char rest ih =>
    rw [cons_append, calls, calls, ih, feed_cons, append_assoc]

end

/-- A condition that every step keeps, and under which a pending call is good,
makes all calls good. -/
theorem calls_all {kept : JsonParser → Prop} {inside : UInt8 → Prop}
    {good : List UInt8 × Argument → Prop}
    (each : ∀ parser char, kept parser → inside char → kept (step toDouble parser char))
    (pending : ∀ parser, kept parser → ∀ call ∈ pendingCall toDouble parser, good call)
    {text : List UInt8} (all : ∀ char ∈ text, inside char) {parser : JsonParser} (start : kept parser) :
    ∀ call ∈ calls toDouble parser text, good call := by
  induction text generalizing parser with
  | nil => exact fun _ member => absurd member not_mem_nil
  | cons char rest ih =>
    rw [forall_mem_cons] at all
    rw [calls, forall_mem_append]
    refine ⟨?_, ih all.2 (each parser char start all.1)⟩
    have none : ∀ call ∈ ([] : List (List UInt8 × Argument)), good call :=
      fun _ member => absurd member not_mem_nil
    rw [stepCalls]
    split
    · exact pending parser start
    · split
      · exact none
      · exact pending parser start
    · exact none

theorem calls_withBuilder (parser : JsonParser) (builder : RawDataBuilder) (text : List UInt8) :
    calls toDouble { parser with builder } text = calls toDouble parser text := by
  induction text generalizing parser builder with
  | nil => rfl
  | cons char rest ih =>
    rw [calls, calls, step_withBuilder, ih]
    rfl

section Reads
variable (toDouble)

/-- A text leads from one state to the other and appends nothing. -/
structure Reads (parser : JsonParser) (text : List UInt8) (next : JsonParser) : Prop where
  fed : feed toDouble parser text = next
  silent : calls toDouble parser text = []

variable {toDouble} {next last : JsonParser}

theorem Reads.append (begun : Reads toDouble parser first next) (ended : Reads toDouble next second last) :
    Reads toDouble parser (first ++ second) last := by
  refine ⟨?_, ?_⟩
  · rw [feed_append, begun.fed, ended.fed]
  · rw [calls_append, begun.fed, begun.silent, ended.silent, append_nil]

theorem Reads.cons {char : UInt8} {rest : List UInt8} (begun : Reads toDouble parser [char] next)
    (ended : Reads toDouble next rest last) :
    Reads toDouble parser (char :: rest) last :=
  begun.append ended

theorem Reads.calls_append (begun : Reads toDouble parser first next) (second : List UInt8) :
    calls toDouble parser (first ++ second) = calls toDouble next second := by
  rw [JsonParser.calls_append, begun.fed, begun.silent, nil_append]

end Reads

def Awaits (status : JsonStatus) : Prop := status = .valueParse ∨ status = .arrayParse

theorem Awaits.next {status : JsonStatus} (awaits : Awaits status) (char : UInt8) :
    statusTabs status char ≠ .none ∧ statusTabs status char ≠ .keyParse ∧
      (statusTabs status char = .run → status = .arrayParse) := by
  rcases awaits with rfl | rfl
  all_goals
    all_goals
      simp only [statusTabs]
      repeat' split
      all_goals simp

/-- The kind of the value before does not count there, but that an empty array takes
over the kind of a list of texts. -/
theorem calls_lastValue {status first second : JsonStatus} {key value : List UInt8}
    {values : List (List UInt8)} {builder : RawDataBuilder} (awaits : Awaits status)
    (one : first ≠ .stringItemParse) (two : second ≠ .stringItemParse) (text : List UInt8) :
    calls toDouble ⟨status, status, first, key, value, values, builder⟩ text =
      calls toDouble ⟨status, status, second, key, value, values, builder⟩ text := by
  induction text generalizing status value values with
  | nil => rfl
  | cons char rest ih =>
    obtain ⟨inside, noKey, closing⟩ := awaits.next char
    simp only [calls, stepCalls, step]
    cases next : statusTabs status char with
    | none => exact absurd next inside
    | keyParse => exact absurd next noKey
    | run =>
      obtain rfl := closing next
      have left (last : JsonStatus) (other : last ≠ .stringItemParse) :
          handleStatusRun ⟨.run, .arrayParse, last, key, value, values, builder⟩ =
            ⟨.run, .arrayParse, .intItemParse, key, value, values, builder⟩ := if_pos ⟨rfl, other⟩
      dsimp only [handle]
      rw [left first one, left second two]
    | valueParse =>
      dsimp only [handle, handleStatusValueParse, clearValues, takeItem]
      repeat' split
      all_goals exact ih (.inl rfl)
    | arrayParse =>
      dsimp only [handle, handleStatusArrayParse, clearValues, takeItem]
      repeat' split
      all_goals exact ih (.inr rfl)
    | _ => rfl

end Calls
end Hiview.EventRaw.JsonParser
