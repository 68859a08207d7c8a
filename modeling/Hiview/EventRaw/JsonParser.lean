import Hiview.EventRaw.Builder

/-! `RawDataBuilderJsonParser`: a table from a status and a character to the next
status, and a handler for each status that is entered. A value is appended to the
builder when the next key opens or the text ends. The double that a stream extracts
from characters is a parameter. -/
namespace Hiview.EventRaw

open Numeral (isSpace)

inductive JsonStatus where
  | none | run | keyParse | valueParse | stringParse | doubleParse | intParse | arrayParse
  | stringItemParse | doubleItemParse | intItemParse | escapeCharParse | escapeCharItemParse
  deriving DecidableEq

def isNumChar (char : UInt8) : Bool := 48 ≤ char && char ≤ 57

/-- `statusTabs_`, as the `Init` functions fill it. -/
def statusTabs : JsonStatus → UInt8 → JsonStatus
  | .none, char => if char = 123 then .run else .none
  | .run, char =>
    if char = 34 then .keyParse else if char = 58 then .valueParse
    else if char = 125 then .none else .run
  | .keyParse, char => if char = 34 then .run else .keyParse
  | .valueParse, char =>
    if char = 34 then .stringParse else if char = 46 then .doubleParse
    else if char = 91 then .arrayParse
    else if isNumChar char || char = 45 then .intParse else .valueParse
  | .stringParse, char =>
    if char = 34 then .run else if char = 92 then .escapeCharParse else .stringParse
  | .doubleParse, char =>
    if isNumChar char || char = 43 || char = 101 then .doubleParse
    else if char = 44 then .run else .none
  | .intParse, char =>
    if isNumChar char then .intParse else if char = 46 then .doubleParse
    else if char = 44 then .run else .none
  | .arrayParse, char =>
    if char = 34 then .stringItemParse else if char = 46 then .doubleItemParse
    else if char = 93 then .run
    else if isNumChar char || char = 45 then .intItemParse else .arrayParse
  | .stringItemParse, char =>
    if char = 34 then .arrayParse else if char = 44 then .arrayParse
    else if char = 92 then .escapeCharItemParse else .stringItemParse
  | .doubleItemParse, char =>
    if isNumChar char || char = 43 || char = 101 then .doubleItemParse
    else if char = 44 then .arrayParse else if char = 93 then .run else .none
  | .intItemParse, char =>
    if isNumChar char then .intItemParse else if char = 44 then .arrayParse
    else if char = 93 then .run else if char = 46 then .doubleItemParse else .none
  | .escapeCharParse, char => if char = 92 then .escapeCharParse else .stringParse
  | .escapeCharItemParse, char => if char = 92 then .escapeCharItemParse else .stringItemParse

structure JsonParser where
  status : JsonStatus
  lastStatus : JsonStatus
  lastValueParseStatus : JsonStatus
  key : List UInt8
  value : List UInt8
  values : List (List UInt8)
  builder : RawDataBuilder

namespace JsonParser

def new : JsonParser := ⟨.none, .none, .none, [], [], [], .new⟩

/-- `TransStrToType` of an unsigned variable. Nothing is stored when there is
nothing but space. -/
def transToUInt64 (text : List UInt8) (val : UInt64) : UInt64 :=
  if text.all isSpace then val else UInt64.ofNat (Numeral.toUnsigned 64 (Numeral.extract 10 text))

def transToInt64 (text : List UInt8) (val : Int64) : Int64 :=
  if text.all isSpace then val else Int64.ofInt (Numeral.toSigned 64 (Numeral.extract 10 text))

/-- One variable takes all values in turn. -/
def transEach {α : Type} (trans : List UInt8 → α → α) : α → List (List UInt8) → List α
  | _, [] => []
  | val, text :: rest => trans text val :: transEach trans (trans text val) rest

section Doubles
variable (toDouble : List UInt8 → UInt64 → UInt64)

def builderAppendIntValue (builder : RawDataBuilder) (key value : List UInt8) : RawDataBuilder :=
  if value = [] then builder
  else if 45 ∈ value then builder.appendValue key (.signedNum (.int64 (transToInt64 value 0)))
  else builder.appendValue key (.unsignedNum (.uint64 (transToUInt64 value 0)))

def builderAppendFloatingValue (builder : RawDataBuilder) (key value : List UInt8) : RawDataBuilder :=
  builder.appendValue key (.floatingNum (.double (toDouble value 0)))

def builderAppendFloatingArrayValue (builder : RawDataBuilder) (key : List UInt8)
    (values : List (List UInt8)) : RawDataBuilder :=
  builder.appendValue key (.floatingNumArray ((transEach toDouble 0 values).map .double))

def builderAppendIntArrayValue (builder : RawDataBuilder) (key : List UInt8)
    (values : List (List UInt8)) : RawDataBuilder :=
  if values.any (46 ∈ ·) then builderAppendFloatingArrayValue toDouble builder key values
  else if values.any (45 ∈ ·) then
    builder.appendValue key (.signedNumArray
      ((transEach transToInt64 0 (values.filter (· ≠ []))).map .int64))
  else builder.appendValue key (.unsignedNumArray ((transEach transToUInt64 0 values).map .uint64))

variable (parser : JsonParser)

def appendValueToBuilder : RawDataBuilder :=
  if parser.key = [] then parser.builder
  else match parser.lastValueParseStatus with
    | .stringParse => parser.builder.appendValue parser.key (.string parser.value)
    | .intParse => builderAppendIntValue parser.builder parser.key parser.value
    | .doubleParse => builderAppendFloatingValue toDouble parser.builder parser.key parser.value
    | .stringItemParse => parser.builder.appendValue parser.key (.stringArray parser.values)
    | .intItemParse => builderAppendIntArrayValue toDouble parser.builder parser.key parser.values
    | .doubleItemParse =>
      builderAppendFloatingArrayValue toDouble parser.builder parser.key parser.values
    | _ => parser.builder

/-- An item that has just ended joins the list. -/
def takeItem : JsonParser :=
  if parser.lastStatus = .stringItemParse ∨ parser.lastStatus = .doubleItemParse ∨
      parser.lastStatus = .intItemParse then
    { parser with values := parser.values ++ [parser.value], value := [] }
  else parser

def handleStatusNone : JsonParser :=
  { parser with builder := parser.appendValueToBuilder toDouble }

variable (charactor : UInt8)

def handleStatusKeyParse : JsonParser :=
  if parser.lastStatus = .keyParse then { parser with key := parser.key ++ [charactor] }
  else { parser with builder := parser.appendValueToBuilder toDouble, key := [] }

def handleStatusRun : JsonParser :=
  let parser := parser.takeItem
  if parser.lastStatus = .stringParse then { parser with lastValueParseStatus := .stringParse }
  else if parser.lastStatus = .arrayParse ∧ parser.lastValueParseStatus ≠ .stringItemParse then
    { parser with lastValueParseStatus := .intItemParse }
  else parser

def clearValues : JsonParser :=
  if parser.lastStatus = .run then { parser with values := [] } else parser

def handleStatusValueParse : JsonParser :=
  ({ parser with value := [] } : JsonParser).clearValues.takeItem

def handleStatusArrayParse : JsonParser := parser.clearValues.takeItem

/-- The opening quotation mark clears the value; `inner` and `escape` are the
statuses inside the text. -/
def handleText (inner escape : JsonStatus) (parser : JsonParser) (charactor : UInt8) : JsonParser :=
  let parser := { parser with lastValueParseStatus := parser.status }
  if parser.lastStatus ≠ inner ∧ parser.lastStatus ≠ escape then { parser with value := [] }
  else { parser with value := parser.value ++ [charactor] }

def handleStatusStringParse : JsonParser → UInt8 → JsonParser :=
  handleText .stringParse .escapeCharParse

def handleStatusStringItemParse : JsonParser → UInt8 → JsonParser :=
  handleText .stringItemParse .escapeCharItemParse

def handleStatusValueAppend : JsonParser :=
  { parser with value := parser.value ++ [charactor], lastValueParseStatus := parser.status }

def handle : JsonParser :=
  match parser.status with
  | .none => parser.handleStatusNone toDouble
  | .keyParse => parser.handleStatusKeyParse toDouble charactor
  | .run => parser.handleStatusRun
  | .valueParse => parser.handleStatusValueParse
  | .arrayParse => parser.handleStatusArrayParse
  | .stringParse => parser.handleStatusStringParse charactor
  | .stringItemParse => parser.handleStatusStringItemParse charactor
  | .doubleParse | .intParse | .doubleItemParse | .intItemParse | .escapeCharParse
  | .escapeCharItemParse => parser.handleStatusValueAppend charactor

/-- One round of the loop of `Parse`. -/
def step : JsonParser :=
  let handled := handle toDouble { parser with status := statusTabs parser.status charactor }
    charactor
  { handled with lastStatus := handled.status }

def parse (jsonStr : List UInt8) : RawDataBuilder := (jsonStr.foldl (step toDouble) new).builder

end Doubles
end JsonParser
end Hiview.EventRaw
