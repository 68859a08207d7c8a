import Hiview.EventStore.ContentReader

/-! An event that has been written is put together again by the reader. The block
is the old one with the parameters added behind it, so what the decoder makes of
it depends on its two limits and on what stood behind the last parameter. -/
namespace Hiview.EventStore
open List hiding after count length
open ContentReader (paramCntPos patched patched_length patched_params patched_size patched_slice readRawData
  unpatched)
open SysEventDocWriter (getContentSize tagChars write write_empty)

open EventRaw
open Numeral (ascii)

/-- `info_` of a reader at a content: the domain, the name and the level are those
of the path, the tag is that of the document and the sequence that of the content. -/
def SysEventDocReader.eventInfo (domain name level : List UInt8) (document : DocHeader)
    (content : List UInt8) : EventInfo where
  domain := CharArray.zero.memcpy domain
  name := CharArray.zero.memcpy name
  level := level
  tag := document.tag.text
  seq := (UInt64.ofNat (Bytes.value ((content.drop hiviewBlockSize).take seqSize))).toInt64

namespace DocEvent

variable (event : DocEvent) (env : Environment) (decoded : DecodedEvent) (level : List UInt8)

/-- What the reader of the event's document knows at its content. -/
def info :
    EventInfo :=
  SysEventDocReader.eventInfo decoded.header.domain.text decoded.header.name.text level
    (SysEventDocWriter.docHeader env event) event.content

def tagText : List UInt8 := event.tag.takeWhile (· ≠ 0)

/-- The parameters that are added when the event is read. -/
def addedParams : List DecodedParam :=
  (if event.tagText = [] then [] else [⟨ascii "tag_", .dstring event.tagText⟩]) ++
    [⟨ascii "level_", .dstring level⟩, ⟨ascii "seq_", .signedVarint event.eventSeq⟩]

def addedWire : List UInt8 := DecodedEvent.wires (event.addedParams level)

/-- The content is read back as the event with the parameters added. -/
def ReadsBack : Prop :=
  ∃ rawData rebuilt, ContentReader.readRawData (event.info env decoded level) event.content =
      some rawData ∧
    DecodedEvent.new rawData.getData = some rebuilt ∧ rebuilt.isValid = true ∧
    rebuilt.event.head = decoded.event.head ∧
    rebuilt.allParams = decoded.allParams ++ event.addedParams level

/-- There is room for the added parameters, and what stands behind the last
parameter of the event, if anything, does not come between. -/
structure LeavesRoom : Prop where
  few : decoded.allParams.length + (event.addedParams level).length ≤ maxParamCnt
  small : event.rawData.length + (event.addedWire level).length ≤ maxBlockSize
  next : ∃ wire, DecodedEvent.Encodes wire (event.addedParams level) ∧
    wire <+: event.rawData.drop decoded.pos ++ event.addedWire level

end DocEvent

theorem EventInfo.extraParams_bounded (info : EventInfo) :
    ∀ param ∈ info.extraParams, param.value.Bounded := by
  rw [EventInfo.extraParams]
  split <;> simp [Value.Bounded]

section Info
variable {event : DocEvent} {env : Environment} {decoded : DecodedEvent} {level : List UInt8}

theorem tagChars_text (short : tag.length ≤ 16) :
    (tagChars tag).text = tag.takeWhile (· ≠ 0) := by
  have bound := ( takeWhile_prefix (l := tag) (· ≠ 0)).length_le
  have fits : (tag.takeWhile (· ≠ 0)).length < maxTagLen := by
    rw [maxTagLen]
    omega
  have plain : ∀ char ∈ tag.takeWhile (· ≠ 0), decide (char ≠ 0) = true := by
    intro char member
    have nonzero := mem_takeWhile_imp member
    exact nonzero
  have split : (tag.takeWhile (· ≠ 0) ++ List.replicate maxTagLen 0).take maxTagLen =
      tag.takeWhile (· ≠ 0) ++ List.replicate (maxTagLen - (tag.takeWhile (· ≠ 0)).length) 0 := by
    rw [take_append, take_of_length_le (by omega), take_replicate, Nat.min_eq_left (Nat.sub_le _ _)]
  obtain ⟨rest, eq⟩ := Nat.exists_eq_succ_of_ne_zero
    (show maxTagLen - (tag.takeWhile (· ≠ 0)).length ≠ 0 by omega)
  rw [tagChars, if_pos fits, CharArray.text, CharArray.ofBytes]
  dsimp only
  rw [split, takeWhile_append_of_pos plain, eq, replicate_succ,
    takeWhile_cons_of_neg (by decide), append_nil]

theorem content_seq (event : DocEvent) :
    (UInt64.ofNat (Bytes.value ((event.content.drop hiviewBlockSize).take seqSize))).toInt64 =
      event.eventSeq := by
  have here : Bytes.Occurs event.content 4 (Bytes.littleEndian 8 event.eventSeq.toUInt64.toNat) := by
    exact prefix_append _ _
  rw [hiviewBlockSize, seqSize, word64_slice here]
  rfl

theorem info_extraParams (short : event.tag.length ≤ 16) :
    (event.info env decoded level).extraParams = event.addedParams level := by
  have tag : (event.info env decoded level).tag = event.tagText := tagChars_text short
  have seq : (event.info env decoded level).seq = event.eventSeq := content_seq event
  have same : (event.info env decoded level).level = level := rfl
  rw [EventInfo.extraParams, tag, seq, same, DocEvent.addedParams]

theorem info_extraWire (short : event.tag.length ≤ 16) :
    (event.info env decoded level).extraWire = event.addedWire level := by
  rw [EventInfo.extraWire, info_extraParams short, DocEvent.addedWire]

end Info

section Rebuilt
open DecodedEvent (Layout countPos sizeAt sizeOfInt32 paramDecoded)
variable {event : DocEvent} {info : EventInfo} {decoded : DecodedEvent}

section
variable (layout : Layout event.rawData decoded)
include layout

theorem layout_count :
    decoded.allParams.length ≤ maxParamCnt ∧
      Bytes.value ((event.rawData.drop (countPos decoded.header)).take 4) =
        decoded.allParams.length := by
  have few := layout.few
  have length := Reader.repeated_length layout.params
  have limit : maxParamCnt = 138 := rfl
  rw [sizeAt, sizeOfInt32] at few length
  split at few
  · rename_i small
    rw [if_pos small] at length
    exact ⟨by omega, length.symm⟩
  · omega

theorem sizeAt_patched :
    sizeAt (patched info event) (countPos decoded.header) =
      decoded.allParams.length + info.extraParams.length := by
  obtain ⟨few, count⟩ := layout_count layout
  have limit : maxParamCnt = 138 := rfl
  have extras : info.extraParams.length ≤ 3 := by
    rw [EventInfo.extraParams]
    split
    · exact Nat.le_succ 2
    · exact Nat.le_refl 3
  rw [sizeAt, ContentReader.patched_count layout, count, DecodedEvent.sizeOfInt32_word (by omega)]

theorem layout_wire :
    ∃ wire, Bytes.Occurs event.rawData (countPos decoded.header + 4) wire ∧
      decoded.pos = countPos decoded.header + 4 + wire.length ∧ decoded.pos ≤ event.rawData.length ∧
      (paramDecoded.repeated decoded.allParams.length).Reads wire decoded.allParams := by
  have small := layout.small
  have limit : maxBlockSize = 393216 := rfl
  have length := Reader.repeated_length layout.params
  obtain ⟨wire, here, last, reads⟩ := (DecodedEvent.paramDecoded_local.repeated _) layout.room
    (by omega) layout.params
  rw [← length] at reads
  exact ⟨wire, here, last, by rw [last]; exact here.bound layout.room, reads⟩

theorem patched_read (addressable : (patched info event).length < 2 ^ 64) :
    paramDecoded.repeated decoded.allParams.length (patched info event)
      (patched info event).length (countPos decoded.header + 4) =
        .done decoded.pos decoded.allParams := by
  obtain ⟨wire, here, last, -, reads⟩ := layout_wire layout
  have room := layout.room
  have length : (patched info event).length =
      event.rawData.length + info.extraWire.length := patched_length layout
  have occurs : Bytes.Occurs (patched info event) (countPos decoded.header + 4) wire := by
    rw [Bytes.Occurs, patched_params layout (Nat.le_refl _) room]
    exact here.trans (prefix_append _ _)
  rw [last]
  exact reads _ _ occurs (by omega) addressable

theorem patched_header :
    HiSysEventHeader.ofBytes (((patched info event).drop 4).take HiSysEventHeader.size) =
      { decoded.header with domain := info.domain, name := info.name } := by
  have inside : 4 + HiSysEventHeader.size ≤ countPos decoded.header := by
    rw [countPos]
    omega
  rw [patched_slice layout (Nat.le_refl 4) inside, ContentReader.unpatched_ofBytes, ← layout.header]

theorem patched_traceInfo (traced : decoded.header.isTraceOpened = 1) :
    ((patched info event).drop (4 + HiSysEventHeader.size)).take TraceInfo.size =
      (event.rawData.drop (4 + HiSysEventHeader.size)).take TraceInfo.size := by
  have room := layout.room
  have place : countPos decoded.header = 4 + HiSysEventHeader.size + TraceInfo.size := by
    rw [countPos, if_pos traced]
  rw [patched_slice layout (by omega) (Nat.le_of_eq place.symm),
    ContentReader.unpatched_drop (by rw [rawDataOffset, hiviewBlockSize, HiSysEventHeader.size]; omega)
      (by omega),
    take_append_of_le_length (by rw [length_drop]; omega)]

end

theorem patched_sizes (info : EventInfo) (layout : Layout event.rawData decoded) :
    (patched info event).length = event.rawData.length + info.extraWire.length ∧
      sizeAt (patched info event) (countPos decoded.header) = decoded.allParams.length + info.extraParams.length :=
  ⟨patched_length layout, sizeAt_patched layout⟩

variable (layout : Layout event.rawData decoded)
include layout

/-- The decoder's result for the new block, when the added parameters are read
from `wire`. -/
theorem patched_layout
    (few : decoded.allParams.length + info.extraParams.length ≤ maxParamCnt)
    (small : event.rawData.length + info.extraWire.length ≤ maxBlockSize)
    (encodes : DecodedEvent.Encodes wire info.extraParams)
    (next : wire <+: event.rawData.drop decoded.pos ++ info.extraWire) :
    Layout (patched info event) {
      rawData := patched info event
      pos := decoded.pos + wire.length
      header := { decoded.header with domain := info.domain, name := info.name }
      traceInfo := decoded.traceInfo
      isValid := true
      allParams := decoded.allParams ++ info.extraParams } := by
  have limit : maxBlockSize = 393216 := rfl
  obtain ⟨length, count⟩ := patched_sizes info layout
  obtain ⟨own, -, last, inside, -⟩ := layout_wire layout
  have occurs : Bytes.Occurs (patched info event) decoded.pos wire := by
    rw [Bytes.Occurs, patched_params layout (by omega) inside]
    exact next
  refine ⟨rfl, rfl, ?_, by rw [length]; exact small, (patched_header layout).symm, ?_, ?_, ?_, ?_⟩
  · rw [sizeAt, patched_size layout, DecodedEvent.sizeOfInt32_word (by omega), length]
  · rw [layout.traceInfo]
    split
    · rename_i traced
      rw [patched_traceInfo layout traced]
    · rfl
  · change countPos decoded.header + 4 ≤ _
    omega
  · change sizeAt _ (countPos decoded.header) ≤ _
    rw [count]
    exact few
  · change paramDecoded.repeated (sizeAt _ (countPos decoded.header)) _ _
      (countPos decoded.header + 4) = _
    rw [count]
    exact Reader.repeated_add.mpr ⟨decoded.pos, decoded.allParams, info.extraParams,
      patched_read layout (by omega), encodes _ _ occurs (by omega) (by omega), rfl⟩

/-- Conversely the new block is read so only when there is room. -/
theorem room_of_patched
    (again : Layout (patched info event) rebuilt)
    (params : rebuilt.allParams = decoded.allParams ++ info.extraParams) :
    decoded.allParams.length + info.extraParams.length ≤ maxParamCnt ∧
      event.rawData.length + info.extraWire.length ≤ maxBlockSize ∧
      ∃ wire, DecodedEvent.Encodes wire info.extraParams ∧
        wire <+: event.rawData.drop decoded.pos ++ info.extraWire := by
  have limit : maxBlockSize = 393216 := rfl
  obtain ⟨length, count⟩ := patched_sizes info layout
  have place : countPos rebuilt.header = countPos decoded.header := by
    rw [again.header, patched_header layout]
    rfl
  have few := again.few
  have small := again.small
  have read := again.params
  rw [place, count] at few read
  obtain ⟨middle, vals, others, front, back, all⟩ := Reader.repeated_add.mp read
  rw [patched_read layout (by omega)] at front
  cases front
  rw [params, append_cancel_left_eq] at all
  subst all
  obtain ⟨own, -, last, inside, -⟩ := layout_wire layout
  obtain ⟨wire, here, -, reads⟩ := (DecodedEvent.paramDecoded_local.repeated _)
    (show decoded.pos ≤ (patched info event).length by omega) (by omega) back
  rw [Bytes.Occurs, patched_params layout (by omega) inside] at here
  exact ⟨few, by omega, wire, reads, here⟩

end Rebuilt

section ReadsBack
open DecodedEvent (Layout)
variable {event : DocEvent} {env : Environment} {decoded : DecodedEvent} {level : List UInt8}

theorem memcpy_text_text (array : CharArray size) :
    ((CharArray.zero : CharArray size).memcpy array.text).text = array.text := by
  have bound := ( takeWhile_prefix (l := array.chars) (· ≠ 0)).length_le
  rw [array.sized] at bound
  exact CharArray.memcpy_text bound array.zero_not_mem_text

theorem readRawData_info (env : Environment) (level : List UInt8)
    (layout : Layout event.rawData decoded) :
    ∃ rawData, readRawData (event.info env decoded level) event.content = some rawData ∧
      rawData.getData = patched (event.info env decoded level) event := by
  have room := layout.room
  have inside : paramCntPos (unpatched (event.info env decoded level) event) ≤
      (unpatched (event.info env decoded level) event).length := by
    rw [ContentReader.paramCntPos_of_layout layout, ContentReader.unpatched_length]
    omega
  obtain ⟨rawData, read, held⟩ := ContentReader.readRawData_holds layout.small inside
  exact ⟨rawData, read, held.getData⟩

theorem readsBack_iff_leavesRoom (layout : Layout event.rawData decoded)
    (short : event.tag.length ≤ 16) :
    event.ReadsBack env decoded level ↔ event.LeavesRoom decoded level := by
  have params : (event.info env decoded level).extraParams = event.addedParams level :=
    info_extraParams short
  have wires : (event.info env decoded level).extraWire = event.addedWire level :=
    info_extraWire short
  obtain ⟨rawData, read, data⟩ := readRawData_info env level layout
  constructor
  · rintro ⟨found, rebuilt, readAgain, opened, valid, -, all⟩
    obtain rfl := Option.some.inj (read.symm.trans readAgain)
    rw [data] at opened
    rw [← params] at all
    have again := DecodedEvent.layout_of_valid opened valid
    obtain ⟨few, small, next⟩ := room_of_patched layout again all
    rw [params] at few next
    rw [wires] at small next
    exact ⟨few, small, next⟩
  · rintro ⟨few, small, wire, encodes, next⟩
    rw [← params] at few encodes
    rw [← wires] at small next
    have again := patched_layout layout few small encodes next
    refine ⟨rawData, _, read, by rw [data]; exact again.new_eq, rfl, ?_, by rw [← params]⟩
    have domain := memcpy_text_text decoded.header.domain
    have name := memcpy_text_text decoded.header.name
    simp [DecodedEvent.event, HiSysEventHeader.event, Event.head, Event.mk.injEq]
    exact ⟨domain, name⟩

theorem SysEventDocWriter.writePage_appends
    (written : writePage headerSize fileSize pageSize file event =
      (.success, after)) : ∃ front, after = front ++ event.content := by
  rw [writePage] at written
  split at written
  · split at written
    · exact ⟨_, (congrArg Prod.snd written).symm⟩
    · rename_i refused _
      exact (refused (congrArg Prod.fst written)).elim
  · exact ⟨_, (congrArg Prod.snd written).symm⟩

theorem SysEventDocWriter.write_appends
    (written : write env file (some event) = (.success, after)) :
    ∃ front, after = front ++ event.content := by
  obtain ⟨-, -, ⟨-, first⟩ | ⟨-, next⟩⟩ := write_cases written
  · exact ⟨_, (writeFirst_success first).2⟩
  · simp only [writeNext] at next
    split at next
    · cases next
    · split at next
      · split at next
        · cases next
        · exact writePage_appends next
      · rename_i refused _
        exact (refused (congrArg Prod.fst next)).elim

variable {data : List UInt8}

theorem layout_sized (layout : Layout data decoded) : Bytes.value (data.take hiviewBlockSize) = data.length := by
  have sized := layout.sized
  have small := layout.small
  have limit : maxBlockSize = 393216 := rfl
  rw [DecodedEvent.sizeAt, DecodedEvent.sizeOfInt32, drop_zero] at sized
  split at sized
  · exact sized
  · omega

theorem layout_headed (layout : Layout data decoded) : 85 ≤ data.length := by
  have room := layout.room
  rw [DecodedEvent.countPos, HiSysEventHeader.size] at room
  omega

/-- A valid event as the store takes it. -/
def DocEvent.ofLayout {data : List UInt8} (layout : Layout data decoded) (seq : Int64)
    (tag : List UInt8) : DocEvent :=
  ⟨data, seq, tag, layout_sized layout, layout_headed layout⟩

variable (layout : Layout data decoded) (seq : Int64)

theorem DocEvent.ofLayout_rawData (tag : List UInt8) :
    (DocEvent.ofLayout layout seq tag).rawData = data := rfl

theorem DocEvent.ofLayout_untagged (level : List UInt8) :
    (DocEvent.ofLayout layout seq []).addedParams level =
      [⟨ascii "level_", .dstring level⟩, ⟨ascii "seq_", .signedVarint seq⟩] := rfl

theorem DocEvent.addedParams_bounded (event : DocEvent) (level : List UInt8) :
    ∀ param ∈ event.addedParams level, param.value.Bounded :=
  EventInfo.extraParams_bounded ⟨.zero, .zero, level, event.tagText, event.eventSeq⟩

theorem leavesRoom_of_end (few : decoded.allParams.length + (event.addedParams level).length ≤ maxParamCnt)
    (small : event.rawData.length + (event.addedWire level).length ≤ maxBlockSize)
    (ends : event.rawData.length ≤ decoded.pos) : event.LeavesRoom decoded level := by
  refine ⟨few, small, event.addedWire level,
    DecodedEvent.encodes_wire (event.addedParams_bounded level), ?_⟩
  rw [drop_of_length_le ends]
  exact prefix_refl _

def textCalls (count : Nat) : List Setter :=
  [.domain [68], .name [78], .value [75] (.string (List.replicate count 120))]

theorem textCalls_event (count : Nat) :
    (RawDataBuilder.run (textCalls count)).event = Event.run (textCalls count) := by
  refine (RawDataBuilder.run_simulates ?_).2
  intro setter member
  simp only [textCalls, mem_cons, not_mem_nil, or_false] at member
  obtain rfl | rfl | rfl := member
  · exact ⟨by decide, by decide⟩
  · exact ⟨by decide, by decide⟩
  · exact show RawDataBuilder.isBaseInfo [75] = false by decide

theorem textCalls_wireSize (count : Nat) : (RawDataBuilder.run (textCalls count)).event.wireSize =
    92 + ((Wire.varint .lengthDelimited (UInt64.ofNat count)).length + count) := by
  have params : (Event.run (textCalls count)).params =
      [([75], .dstring (List.replicate count 120))] := rfl
  have trace : (Event.run (textCalls count)).trace = none := rfl
  have key : (Wire.string [75]).length = 2 := by decide
  rw [textCalls_event, Event.wireSize, params, trace, flatMap_singleton]
  simp [Wire.param, Wire.value, key]
  rw [Wire.string, length_append, length_replicate, HiSysEventHeader.size]
  omega

section
variable (small : 92 + ((Wire.varint .lengthDelimited (UInt64.ofNat count)).length + count) ≤ maxBlockSize)
include small

theorem textCalls_within : (RawDataBuilder.run (textCalls count)).event.Within :=
  ⟨by rw [textCalls_event]; exact show 1 ≤ maxParamCnt by decide,
    by rw [textCalls_wireSize]; exact small⟩

theorem textCalls_layout :
    Layout (RawDataBuilder.run (textCalls count)).block (RawDataBuilder.run (textCalls count)).decoded :=
  DecodedEvent.layout_of_valid
    ((RawDataBuilder.run_wellFormed (textCalls count)).new_block (textCalls_within small)) rfl

end

theorem write_valid (tag : List UInt8) :
    ∃ after, write .plain [] (some (.ofLayout layout seq tag)) =
      (.success, after) := by
  have small := layout.small
  have headed := layout_headed layout
  have limit : maxBlockSize = 393216 := rfl
  have accepted : getContentSize (.ofLayout layout seq tag) = .success := by
    rw [getContentSize, if_neg]
    change ¬ (data.length < 4 + 17 + 33 ∨ data.length > 386 * 1024)
    omega
  exact ⟨_, write_empty (castInt_of_lt (show 0 < 2 ^ 31 by decide)) (by decide) accepted⟩

theorem fullText_small :
    92 + ((Wire.varint .lengthDelimited (UInt64.ofNat 393121)).length + 393121) ≤ maxBlockSize := by
  decide

theorem shortText_small :
    92 + ((Wire.varint .lengthDelimited (UInt64.ofNat 1)).length + 1) ≤ maxBlockSize := by
  decide

theorem textCalls_length (count : Nat) : (RawDataBuilder.run (textCalls count)).block.length =
    92 + ((Wire.varint .lengthDelimited (UInt64.ofNat count)).length + count) := by
  rw [RawDataBuilder.block_length_event, textCalls_wireSize]

theorem minor_addedWire : ((DocEvent.ofLayout layout 0 []).addedWire (ascii "MINOR")).length = 21 := by
  rw [DocEvent.addedWire, DocEvent.ofLayout_untagged]
  decide

end ReadsBack
end Hiview.EventStore
