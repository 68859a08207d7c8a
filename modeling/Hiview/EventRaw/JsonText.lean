import Hiview.EventRaw.ParseValue

/-! `DecodedEvent::AsJsonStr`. What a stream prints of a double is a parameter. -/
namespace Hiview.EventRaw

/-- An identifier with leading zeros up to the largest length. -/
def transUInt64ToFixedLengthStr (src : UInt64) : List UInt8 :=
  let text := Numeral.decimal src.toNat
  if text.length ≥ 20 then text else List.replicate (20 - text.length) 48 ++ text

namespace JsonText

def quoted (text : List UInt8) : List UInt8 := 34 :: (text ++ [34])

/-- Every item is followed by a comma, the last of which the bracket overwrites. -/
def appendArrayValue (items : List (List UInt8)) : List UInt8 :=
  91 :: ((items.flatMap fun item => item ++ [44]).dropLast ++ [93])

section Value
variable (printDouble : UInt64 → List UInt8)

def valueText : Value → List UInt8
  | .unsignedVarint val => Numeral.decimal val.toNat
  | .signedVarint val => Numeral.toString val.toInt
  | .floating val => printDouble val
  | .dstring val => quoted val
  | .unsignedVarintArray vals => appendArrayValue (vals.map fun val => Numeral.decimal val.toNat)
  | .signedVarintArray vals => appendArrayValue (vals.map fun val => Numeral.toString val.toInt)
  | .floatingArray vals => appendArrayValue (vals.map printDouble)
  | .dstringArray vals => appendArrayValue (vals.map quoted)

/-- A key and its value, without the comma behind them. -/
def memberText (member : List UInt8 × Value) : List UInt8 :=
  quoted member.1 ++ 58 :: valueText printDouble member.2

def appendValue (member : List UInt8 × Value) : List UInt8 := memberText printDouble member ++ [44]

end Value
end JsonText

namespace DecodedEvent

/-- The member is copied without its last byte and then ended. -/
def endedText {size : Nat} (array : CharArray (size + 1)) : List UInt8 :=
  (array.chars.take size).takeWhile (· ≠ 0)

def appendTraceInfo (event : DecodedEvent) : List (List UInt8 × Value) :=
  [(BaseInfoKey.traceFlag.text, .signedVarint (Int64.ofNat event.traceInfo.traceFlag.toNat)),
    (BaseInfoKey.traceId.text, .dstring (transNumToHexStr event.traceInfo.traceId.toNat)),
    (BaseInfoKey.spanId.text, .dstring (transNumToHexStr event.traceInfo.spanId.toNat)),
    (BaseInfoKey.parentSpanId.text, .dstring (transNumToHexStr event.traceInfo.pSpanId.toNat))]

/-- The members of `AppendBaseInfo`, in their order. -/
def appendBaseInfo (event : DecodedEvent) : List (List UInt8 × Value) :=
  [(BaseInfoKey.domain.text, .dstring (endedText event.header.domain)),
    (BaseInfoKey.name.text, .dstring (endedText event.header.name)),
    (BaseInfoKey.type.text, .signedVarint (Int64.ofNat (event.header.type.toNat + 1))),
    (BaseInfoKey.timeStamp.text, .unsignedVarint event.header.timestamp),
    (BaseInfoKey.timeZone.text, .dstring (timeZoneText event.header.timeZone)),
    (BaseInfoKey.pid.text, .unsignedVarint event.header.pid.toUInt64),
    (BaseInfoKey.tid.text, .unsignedVarint event.header.tid.toUInt64),
    (BaseInfoKey.uid.text, .unsignedVarint event.header.uid.toUInt64),
    (BaseInfoKey.log.text, .unsignedVarint event.header.log.toUInt64),
    (BaseInfoKey.id.text, .dstring (transUInt64ToFixedLengthStr event.header.id))] ++
  if event.header.isTraceOpened = 1 then event.appendTraceInfo else []

/-- The comma behind the last member is overwritten. -/
def asJsonStr (printDouble : UInt64 → List UInt8) (event : DecodedEvent) : List UInt8 :=
  (123 :: (event.appendBaseInfo ++ event.allParams.map DecodedParam.pair).flatMap
    (JsonText.appendValue printDouble)).dropLast ++ [125]

end DecodedEvent
end Hiview.EventRaw
