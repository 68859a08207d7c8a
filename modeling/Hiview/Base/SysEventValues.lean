import Hiview.Base.SysEventAgreement
import Hiview.EventRaw.DecoderSafety

/-! What `GetEventValue` returns for texts that were set, on every `SysEvent`. A text set under
a key of the base info goes into the header and is not what is appended to. -/
namespace Hiview.Base
open EventRaw Option RawDataBuilder
open StringUtil (escapeJsonStringValue unescapeJsonStringValue unescape_escape)

namespace SysEvent

variable (event : SysEvent)

theorem initBuilder_total : ∃ opened, event.initBuilder = some opened := by
  unfold initBuilder
  cases event.builder with
  | some builder => exact ⟨_, rfl⟩
  | none =>
    cases held : event.rawData with
    | none => exact ⟨_, rfl⟩
    | some rawData =>
      obtain ⟨decoded, opened, -⟩ := EventRaw.DecodedEvent.new_safe rawData.getData
      dsimp only [EventRaw.RawDataBuilder.ofRawData]
      rw [opened]
      exact ⟨_, rfl⟩

theorem getters_total (key : List UInt8) : ∃ result, event.getters key = some result := by
  obtain ⟨⟨builder, next⟩, opened⟩ := initBuilder_total event
  rw [getters, opened]
  exact ⟨_, rfl⟩

theorem asRawData_total : ∃ result, event.asRawData = some result := by
  have updated : ∃ result, event.tryToUpdateRawData = some result := by
    obtain ⟨⟨builder, next⟩, opened⟩ := initBuilder_total event
    unfold tryToUpdateRawData
    rw [opened]
    dsimp only [bind_eq_bind, bind_some, pure_def]
    split
    · exact ⟨_, rfl⟩
    · split
      · exact ⟨_, rfl⟩
      · split <;> exact ⟨_, rfl⟩
  obtain ⟨⟨flag, next⟩, done⟩ := updated
  rw [asRawData, done]
  exact ⟨_, rfl⟩

end SysEvent

theorem find_placed (param : EncodedParam) (params : List EncodedParam) :
    (placed param params).find? (·.key = param.key) = some param := by
  induction params with
  | nil => simp [placed]
  | cons first rest ih =>
    rw [placed]
    split
    · exact List.find?_cons_of_pos (decide_eq_true rfl)
    · case isFalse other => rw [List.find?_cons_of_neg (by simpa using other), ih]

theorem getValue_appendParam (builder : RawDataBuilder) (key : List UInt8) (value : Value) :
    ((builder.appendParam (.new key value)).getValue key).map EncodedParam.value = some value.cut := by
  obtain ⟨param, -, rfl, content, appended⟩ := appendParam_eq builder key value
  rw [appended, getValue, find_placed, map_some, content]

section Text
variable {key : List UInt8} (plain : RawDataBuilder.isBaseInfo key = false)
include plain

theorem getValue_appendText (builder : RawDataBuilder) (text : List UInt8) :
    ((builder.appendValue key (.string text)).getValue key).map EncodedParam.value = some (.dstring text) := by
  rw [appendValue_of_plain plain]
  exact getValue_appendParam builder key (.dstring text)

theorem getEventValue_appendText (builder : RawDataBuilder) (text : List UInt8) :
    (builder.appendValue key (.string text)).event.getEventValue key = text := by
  have missing := ofText_of_plain plain
  have known := (getValue_event (builder.appendValue key (.string text)) key).symm.trans
    (getValue_appendText plain builder text)
  rw [Event.getEventValue, Event.parseString, Event.parseValueByKey, missing]
  simp [known, Value.string?]

end Text

/-- What a header gives back of a text that is set under a key of the base info. -/
def headerText (base : BaseInfoKey) (text : List UInt8) : List UInt8 :=
  ((RawDataBuilder.new.appendBaseInfoValue base (.string text)).event.baseInfoString base).getD []

theorem baseInfoString_appendText (builder : RawDataBuilder) (base : BaseInfoKey) (text : List UInt8) :
    ((builder.appendBaseInfoValue base (.string text)).event.baseInfoString base).getD [] = headerText base text := by
  cases base with
  | domain | name => exact (appendText_text _ _).trans (appendText_text _ _).symm
  | _ => rfl

/-- The text of the parameter under a key, which is not looked for in the header. -/
def paramText (doubleText : UInt64 → List UInt8) (param : Option Value) : List UInt8 :=
  (param.bind (asString doubleText)).elim [] unescapeJsonStringValue

theorem settledValue_appended (doubleText : UInt64 → List UInt8) (param : Option Value) (text : List UInt8) :
    settledValue doubleText param true (.string text) =
      .string (escapeJsonStringValue (paramText doubleText param ++ text)) := by
  rw [settledValue, if_pos rfl, paramText]
  cases param.bind (asString doubleText) <;> rfl

/-- Under a key of the base info the second text, behind that of a parameter with this key, must be kept by
the header as the two texts. -/
def HeaderKeeps (doubleText : UInt64 → List UInt8) (event : SysEvent) (key first second : List UInt8) : Prop :=
  ∀ base builder opened, BaseInfoKey.ofText key = some base → event.initBuilder = some (builder, opened) →
    unescapeJsonStringValue (headerText base (escapeJsonStringValue
      (paramText doubleText (builder.event.getValue key) ++ second))) = first ++ second

end Hiview.Base
