import Hiview.EventRaw.Rebuild
import Hiview.EventStore.DocWritten

/-! `ContentReader::ReadRawData` for the current format: the block of an event put
together again from its content, with the domain and the name in front and the
tag, the level and the sequence as parameters behind. -/
namespace Hiview.EventStore
open Bytes
open List hiding count length tail

open EventRaw
open Numeral (ascii)
open HiSysEventHeader (ofBytes size)
open DecodedEvent (countPos wires)

/-- What the reader knows of the event beside its content. -/
structure EventInfo where
  domain : CharArray (maxDomainLength + 1)
  name : CharArray (maxEventNameLength + 1)
  level : List UInt8
  tag : List UInt8
  seq : Int64

namespace ContentReader

/-- `RawData(size_t)`. -/
def emptyRawData (dataLen : Nat) : RawData := ⟨some [], dataLen, by rintro _ ⟨⟩; exact Nat.zero_le _⟩

/-- `HIVIEW_BLOCK_SIZE + sizeof(HiSysEventHeader)`, and the trace record if there is one. -/
def paramCntPos (data : List UInt8) : Nat :=
  let header := ofBytes ((data.drop hiviewBlockSize).take size)
  hiviewBlockSize + size + if header.isTraceOpened = 1 then TraceInfo.size else 0

section
variable (rawData : RawData)

def updateParamCnt (addParamCnt : Nat) : Option RawData :=
  let pos := paramCntPos rawData.getData
  let paramCnt := Bytes.value ((rawData.getData.drop pos).take 4) + addParamCnt
  rawData.update (littleEndian 4 paramCnt) pos

def updateRealSize : Option RawData :=
  rawData.update (littleEndian 4 rawData.getDataLength) 0

def appendDomainAndName (info : EventInfo) : Option RawData := do
  let rawData ← rawData.append info.domain.chars
  rawData.append info.name.chars

/-- The content header without the sequence, then the rest without the checksum. -/
def appendContentData (content : List UInt8) : Option RawData := do
  let contentHeader := (content.drop hiviewBlockSize).take contentHeaderSize
  let rawData ← rawData.append (contentHeader.drop seqSize)
  let contentPos := hiviewBlockSize + contentHeaderSize
  rawData.append ((content.drop contentPos).take (content.length - contentPos - crcSize))

/-- The buffer of a parameter that is made only to be copied. -/
def appendParam (key : List UInt8) (value : Value) : Option RawData :=
  rawData.append (EncodedParam.new key value).getRawData.getData

def appendTag (tag : List UInt8) : Option RawData :=
  if tag = [] then none else appendParam rawData (ascii "tag_") (.dstring tag)

def appendLevel (level : List UInt8) : Option RawData :=
  appendParam rawData (ascii "level_") (.dstring level)

def appendSeq (seq : Int64) : Option RawData :=
  appendParam rawData (ascii "seq_") (.signedVarint seq)

/-- The number of parameters to be added, for which a tag may be missing. -/
def addParamCnt (info : EventInfo) : Nat :=
  if (appendTag rawData info.tag).isSome then 2 + 1 else 2

end

def appendExtraInfo (rawData : RawData) (info : EventInfo) : Option RawData := do
  let count := addParamCnt rawData info
  let rawData ← appendLevel ((appendTag rawData info.tag).getD rawData) info.level
  let rawData ← appendSeq rawData info.seq
  let rawData ← updateParamCnt rawData count
  updateRealSize rawData

/-- The room that is asked for: `expandSize` is for the sequence, tag and level. -/
def eventSize (contentSize : Nat) : Nat :=
  contentSize - contentHeaderSize + contentHeaderSize - seqSize + 17 + 33 + 128

def readRawData (info : EventInfo) (content : List UInt8) : Option RawData := do
  let size := eventSize content.length
  if size > maxNewSize then none
  let rawData ← (emptyRawData size).append (littleEndian 4 size)
  let rawData ← appendDomainAndName rawData info
  let rawData ← appendContentData rawData content
  appendExtraInfo rawData info

end ContentReader

def EventInfo.extraParams (info : EventInfo) : List DecodedParam :=
  (if info.tag = [] then [] else [⟨ascii "tag_", .dstring info.tag⟩]) ++
    [⟨ascii "level_", .dstring info.level⟩, ⟨ascii "seq_", .signedVarint info.seq⟩]

def EventInfo.extraWire (info : EventInfo) : List UInt8 :=
  wires info.extraParams

namespace ContentReader

theorem appendParam_holds (held : rawData.Holds bytes) (key : List UInt8) (value : Value) (bounded : value.Bounded) :
    ∃ result, appendParam rawData key value = some result ∧
      result.Holds (bytes ++ Wire.param key value) := by
  obtain ⟨param, encode, encoded, keyEq, valueEq⟩ := EncodedParam.encode_new key value
  have buffer : (EncodedParam.new key value).getRawData = param.rawData := by
    rw [EncodedParam.getRawData, encode]
    rfl
  have contents : param.rawData.getData = Wire.param key value := by
    rw [encoded.held.getData, keyEq, valueEq, Value.cut_of_bounded bounded]
  rw [appendParam, buffer, contents]
  exact RawData.append_holds held _

/-- The appends of `AppendExtraInfo`, with the count that goes with them. -/
theorem appendExtra_holds (held : rawData.Holds bytes) (info : EventInfo) :
    addParamCnt rawData info = info.extraParams.length ∧
      ∃ leveled numbered,
        appendLevel ((appendTag rawData info.tag).getD rawData) info.level = some leveled ∧
        appendSeq leveled info.seq = some numbered ∧ numbered.Holds (bytes ++ info.extraWire) := by
  have finish : ∀ {start : RawData} {front : List UInt8}, start.Holds front →
      ∃ leveled numbered, appendLevel start info.level = some leveled ∧
        appendSeq leveled info.seq = some numbered ∧
        numbered.Holds (front ++ Wire.param (ascii "level_") (.dstring info.level) ++
          Wire.param (ascii "seq_") (.signedVarint info.seq)) := by
    intro start front startHeld
    obtain ⟨leveled, level, leveledHeld⟩ :=
      appendParam_holds startHeld (ascii "level_") (.dstring info.level) trivial
    obtain ⟨numbered, seq, numberedHeld⟩ :=
      appendParam_holds leveledHeld (ascii "seq_") (.signedVarint info.seq) trivial
    exact ⟨leveled, numbered, level, seq, numberedHeld⟩
  rw [addParamCnt, EventInfo.extraWire, wires, EventInfo.extraParams]
  by_cases untagged : info.tag = []
  · rw [appendTag, if_pos untagged, if_pos untagged]
    refine ⟨rfl, ?_⟩
    obtain ⟨leveled, numbered, level, seq, numberedHeld⟩ := finish held
    refine ⟨leveled, numbered, level, seq, ?_⟩
    simpa only [nil_append, flatMap_cons, flatMap_nil, append_nil, append_assoc] using numberedHeld
  · obtain ⟨tagged, tag, taggedHeld⟩ :=
      appendParam_holds held (ascii "tag_") (.dstring info.tag) trivial
    rw [appendTag, if_neg untagged, if_neg untagged, tag]
    refine ⟨rfl, ?_⟩
    obtain ⟨leveled, numbered, level, seq, numberedHeld⟩ := finish taggedHeld
    refine ⟨leveled, numbered, level, seq, ?_⟩
    simpa only [singleton_append, flatMap_cons, flatMap_nil, append_nil,
      append_assoc] using numberedHeld

theorem appendContentData_holds (held : rawData.Holds bytes) (event : DocEvent) :
    ∃ result, appendContentData rawData event.content = some result ∧
      result.Holds (bytes ++ event.rawData.drop rawDataOffset) := by
  have headed := event.headed
  have size := event.content_length
  have start : event.content.drop 12 = event.rawData.drop 54 ++ littleEndian 4 0 := by
    rw [DocEvent.content, append_assoc]
    exact drop_left' (by simp)
  have rest : event.content.drop 43 = event.rawData.drop 85 ++ littleEndian 4 0 := by
    rw [show 43 = 12 + 31 from rfl, ← drop_drop, start,
      drop_append_of_le_length (by rw [length_drop]; omega), drop_drop]
  have header : ((event.content.drop 4).take 39).drop 8 = (event.rawData.drop 54).take 31 := by
    rw [drop_take, drop_drop, start, take_append_of_le_length (by rw [length_drop]; omega)]
  have body : (event.content.drop 43).take (event.content.length - 43 - 4) = event.rawData.drop 85 := by
    have length : event.content.length - 43 - 4 = (event.rawData.drop 85).length := by
      rw [size, DocEvent.contentSize, length_drop, rawDataOffset, hiviewBlockSize, seqSize, crcSize]
      omega
    rw [length, rest, take_left]
  obtain ⟨headerData, headerAppended, headerHeld⟩ :=
    RawData.append_holds held ((event.rawData.drop 54).take 31)
  obtain ⟨result, appended, resultHeld⟩ := RawData.append_holds headerHeld (event.rawData.drop 85)
  refine ⟨result, ?_, ?_⟩
  · simp [appendContentData, hiviewBlockSize, contentHeaderSize, seqSize, crcSize, header, Nat.reduceAdd, body,
    headerAppended, appended]
  · have whole : (event.rawData.drop 54).take 31 ++ event.rawData.drop 85 = event.rawData.drop 54 := by
      rw [show 85 = 54 + 31 from rfl, ← drop_drop, take_append_drop]
    rw [append_assoc, whole] at resultHeld
    exact resultHeld

/-- The buffer before its count and its size are set right. -/
def unpatched (info : EventInfo) (event : DocEvent) : List UInt8 :=
  littleEndian 4 (eventSize event.contentSize) ++ info.domain.chars ++ info.name.chars ++
    event.rawData.drop rawDataOffset ++ info.extraWire

def counted (info : EventInfo) (event : DocEvent) : List UInt8 :=
  let pos := paramCntPos (unpatched info event)
  RawData.overwrite (unpatched info event) (Bytes.littleEndian 4
    (Bytes.value (((unpatched info event).drop pos).take 4) + info.extraParams.length)) pos

def patched (info : EventInfo) (event : DocEvent) : List UInt8 :=
  RawData.overwrite (counted info event)
    (littleEndian 4 (counted info event).length) 0

theorem readRawData_holds (small : event.rawData.length ≤ maxBlockSize)
    (inside : paramCntPos (unpatched info event) ≤ (unpatched info event).length) :
    ∃ rawData, readRawData info event.content = some rawData ∧
      rawData.Holds (patched info event) := by
  have accepted : ¬ eventSize event.content.length > maxNewSize := by
    have limit : maxBlockSize = 393216 := rfl
    rw [event.content_length, eventSize, DocEvent.contentSize, rawDataOffset, hiviewBlockSize, seqSize,
      crcSize, contentHeaderSize, maxNewSize]
    omega
  have fresh : (emptyRawData (eventSize event.content.length)).Holds [] := rfl
  obtain ⟨sized, sizeAppended, sizedHeld⟩ :=
    RawData.append_holds fresh (littleEndian 4 (eventSize event.content.length))
  obtain ⟨owned, domainAppended, ownedHeld⟩ := RawData.append_holds sizedHeld info.domain.chars
  obtain ⟨named, nameAppended, namedHeld⟩ := RawData.append_holds ownedHeld info.name.chars
  obtain ⟨filled, contentAppended, filledHeld⟩ := appendContentData_holds namedHeld event
  obtain ⟨count, leveled, numbered, levelAppended, seqAppended, numberedHeld⟩ :=
    appendExtra_holds filledHeld info
  rw [nil_append, event.content_length] at numberedHeld
  change numbered.Holds (unpatched info event) at numberedHeld
  have nonempty : ∀ value, littleEndian 4 value ≠ [] := by
    rintro value ⟨⟩
  obtain ⟨recounted, updated, recountedHeld⟩ := RawData.update_holds numberedHeld inside
    (nonempty (value (((unpatched info event).drop
      (paramCntPos (unpatched info event))).take 4) + info.extraParams.length))
  change recounted.Holds (counted info event) at recountedHeld
  obtain ⟨result, finished, resultHeld⟩ := RawData.update_holds recountedHeld (Nat.zero_le _)
    (nonempty (counted info event).length)
  refine ⟨result, ?_, resultHeld⟩
  simp [readRawData, if_neg accepted, sizeAppended, appendDomainAndName, domainAppended, nameAppended,
    contentAppended, appendExtraInfo, count, levelAppended, seqAppended, updateParamCnt, numberedHeld.getData,
    updated, updateRealSize, RawData.getDataLength, recountedHeld.getData, finished]

section Patched
variable {info : EventInfo} {event : DocEvent}

theorem unpatched_drop (low : rawDataOffset ≤ pos) (high : pos ≤ event.rawData.length) :
    (unpatched info event).drop pos = event.rawData.drop pos ++ info.extraWire := by
  have front : (littleEndian 4 (eventSize event.contentSize) ++ info.domain.chars ++
      info.name.chars).length = rawDataOffset := by
    simp [info.domain.sized, info.name.sized, rawDataOffset, hiviewBlockSize, maxDomainLength,
      maxEventNameLength]
  obtain ⟨offset, rfl⟩ := Nat.exists_eq_add_of_le low
  rw [unpatched, append_assoc, ← drop_drop, drop_left' front,
    drop_append_of_le_length (by rw [length_drop]; omega), drop_drop]

theorem unpatched_length :
    (unpatched info event).length = event.rawData.length + info.extraWire.length := by
  have headed := event.headed
  simp [unpatched, littleEndian_length, info.domain.sized, info.name.sized, length_drop, rawDataOffset,
    hiviewBlockSize, maxDomainLength, maxEventNameLength]
  omega

theorem unpatched_header : ((unpatched info event).drop 4).take size =
    info.domain.chars ++ info.name.chars ++ (event.rawData.drop rawDataOffset).take 31 := by
  have headed := event.headed
  have front : (info.domain.chars ++ info.name.chars).length = 50 := by
    simp [info.domain.sized, info.name.sized, maxDomainLength, maxEventNameLength]
  have start : (unpatched info event).drop 4 = info.domain.chars ++ info.name.chars ++
      (event.rawData.drop rawDataOffset ++ info.extraWire) := by
    simp only [unpatched, append_assoc]
    exact drop_left' (littleEndian_length _ _)
  rw [start, size, take_append, front, take_of_length_le (by omega),
    take_append_of_le_length (by rw [length_drop, rawDataOffset, hiviewBlockSize]; omega)]

theorem unpatched_ofBytes :
    ofBytes (((unpatched info event).drop 4).take size) =
      { ofBytes ((event.rawData.drop 4).take size) with
        domain := info.domain, name := info.name } := by
  have front : (info.domain.chars ++ info.name.chars).length = 50 := by
    simp [info.domain.sized, info.name.sized, maxDomainLength, maxEventNameLength]
  have tail : (((unpatched info event).drop 4).take size).drop 50 =
      ((event.rawData.drop 4).take size).drop 50 := by
    rw [unpatched_header, drop_left' front, drop_take, drop_drop]
    rfl
  rw [HiSysEventHeader.ofBytes_of_tail tail, unpatched_header]
  have domainSized : info.domain.chars.length = 17 := info.domain.sized
  have nameSized : info.name.chars.length = 33 := info.name.sized
  rw [append_assoc, take_left' domainSized, drop_left' domainSized,
    take_left' nameSized, CharArray.ofBytes_chars, CharArray.ofBytes_chars]

theorem paramCntPos_unpatched : paramCntPos (unpatched info event) = countPos
    (ofBytes ((event.rawData.drop 4).take size)) := by
  rw [paramCntPos, hiviewBlockSize, unpatched_ofBytes]
  rfl

variable {decoded : DecodedEvent}

section
variable (layout : DecodedEvent.Layout event.rawData decoded)
include layout

theorem paramCntPos_of_layout :
    paramCntPos (unpatched info event) = countPos decoded.header := by
  rw [paramCntPos_unpatched, layout.header]

theorem counted_eq :
    counted info event = RawData.overwrite (unpatched info event) (littleEndian 4
      (Bytes.value ((event.rawData.drop (countPos decoded.header)).take 4) +
        info.extraParams.length)) (countPos decoded.header) := by
  have room := layout.room
  have low : rawDataOffset ≤ countPos decoded.header := by
    rw [countPos, rawDataOffset, hiviewBlockSize, size]
    omega
  rw [counted, paramCntPos_of_layout layout, unpatched_drop low (by omega),
    take_append_of_le_length (by rw [length_drop]; omega)]

theorem counted_length :
    (counted info event).length = event.rawData.length + info.extraWire.length := by
  have room := layout.room
  rw [counted_eq layout, RawData.overwrite_length, unpatched_length]
  rw [unpatched_length, littleEndian_length]
  omega

theorem patched_length :
    (patched info event).length = event.rawData.length + info.extraWire.length := by
  have room := layout.room
  rw [patched, RawData.overwrite_length, counted_length layout]
  rw [counted_length layout, littleEndian_length]
  omega

theorem patched_size :
    ((patched info event).drop 0).take 4 =
      littleEndian 4 (event.rawData.length + info.extraWire.length) := by
  have slice := RawData.overwrite_at (littleEndian 4 (counted info event).length)
    (Nat.zero_le (counted info event).length)
  rw [littleEndian_length] at slice
  rw [patched, slice, counted_length layout]

theorem countPos_inside : countPos decoded.header ≤ (unpatched info event).length := by
  have room := layout.room
  rw [unpatched_length]
  omega

theorem patched_drop (low : 4 ≤ start) :
    (patched info event).drop start = (RawData.overwrite (unpatched info event) (littleEndian 4
      (Bytes.value ((event.rawData.drop (countPos decoded.header)).take 4) +
        info.extraParams.length)) (countPos decoded.header)).drop start := by
  rw [patched, RawData.overwrite_after (Nat.zero_le _) (by rw [littleEndian_length]; omega), counted_eq layout]

theorem patched_slice (low : 4 ≤ start) (high : start + count ≤ countPos decoded.header) :
    ((patched info event).drop start).take count = ((unpatched info event).drop start).take count := by
  rw [patched_drop layout low, RawData.overwrite_before (countPos_inside layout) high]

theorem patched_count :
    ((patched info event).drop (countPos decoded.header)).take 4 =
      littleEndian 4 (Bytes.value ((event.rawData.drop
        (countPos decoded.header)).take 4) + info.extraParams.length) := by
  have low : 4 ≤ countPos decoded.header := by
    rw [countPos]
    omega
  have inside : _ ≤ (unpatched info event).length := countPos_inside layout
  rw [patched_drop layout low]
  refine Eq.trans ?_ (RawData.overwrite_at _ inside)
  rw [littleEndian_length]

theorem patched_params (low : countPos decoded.header + 4 ≤ pos) (high : pos ≤ event.rawData.length) :
    (patched info event).drop pos = event.rawData.drop pos ++ info.extraWire := by
  have behind : rawDataOffset ≤ pos := by
    rw [countPos, size] at low
    rw [rawDataOffset, hiviewBlockSize]
    omega
  rw [patched_drop layout (by omega), RawData.overwrite_after (countPos_inside layout)
    low, unpatched_drop behind high]

end

end Patched

end ContentReader
end Hiview.EventStore
