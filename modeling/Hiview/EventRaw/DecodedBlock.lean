import Hiview.EventRaw.DecodedEvent

/-! What a block must look like for `DecodedEvent` to report it as valid. Nothing
is assumed of the encoder: the readers are shown to depend only on the bytes that
they consume, whatever encoding those are. -/
namespace Hiview.EventRaw
open Bytes (occurs_nil)
open Option (bind_eq_bind bind_eq_some_iff bind_some)
open Reader (andThen byte_of_done done_of_andThen local_byte local_fail local_pure pure)
open HiSysEventHeader (size)

section Locality

theorem nonTagBytesDecoded_local (rounds : Nat) (val : UInt64) (offset : UInt32) :
    (nonTagBytesDecoded rounds val offset).Local := by
  induction rounds generalizing val offset with
  | zero => exact local_fail
  | succ rounds ih =>
    rw [nonTagBytesDecoded_succ]
    refine local_byte.andThen fun byte => ?_
    by_cases more : byte &&& 128 ≠ 0
    · simp only [if_pos more]
      exact ih _ _
    · simp only [if_neg more]
      exact local_pure _

/-- What was read in some number of rounds is read in any number that suffices. -/
theorem nonTagBytesDecoded_rounds (enough : maxLen - pos ≤ more)
    (read : nonTagBytesDecoded rounds val offset block maxLen pos = .done past found) :
    nonTagBytesDecoded more val offset block maxLen pos = .done past found := by
  induction rounds generalizing more val offset pos with
  | zero => cases read
  | succ rounds ih =>
    rw [nonTagBytesDecoded_succ] at read
    obtain ⟨middle, byte, first, rest⟩ := done_of_andThen read
    obtain ⟨before, -, rfl⟩ := byte_of_done first
    obtain ⟨fewer, rfl⟩ := Nat.exists_eq_add_of_le' (show 1 ≤ more by omega)
    simp only [nonTagBytesDecoded_succ, andThen, first]
    split at rest
    · rw [if_pos ‹_›]
      exact ih (by omega) rest
    · rw [if_neg ‹_›]
      exact rest

theorem unsignedVarintDecoded_local : unsignedVarintDecoded.Local := by
  rw [unsignedVarintDecoded_eq]
  refine local_byte.andThen fun byte => ?_
  by_cases more : byte &&& 32 ≠ 0
  · simp only [if_pos more]
    intro block pos next val inside addressable read
    obtain ⟨bytes, here, rfl, reads⟩ := nonTagBytesDecoded_local _ _ _ inside addressable read
    refine ⟨bytes, here, rfl, fun other start otherHere otherInside otherAddressable => ?_⟩
    exact nonTagBytesDecoded_rounds (by omega) (reads other start otherHere otherInside otherAddressable)
  · simp only [if_neg more]
    exact local_pure _

theorem signedVarintDecoded_local : signedVarintDecoded.Local :=
  unsignedVarintDecoded_local.andThen fun uval => local_pure (unzigzag uval)

theorem valueTypeDecoded_local : valueTypeDecoded.Local := by
  rw [valueTypeDecoded_eq]
  exact local_byte.andThen fun byte => local_pure _

theorem copied_local (count : Nat) : (copied count).Local := by
  intro block pos next val inside addressable read
  simp only [copied] at read
  split at read
  · cases read
    have length : ((block.drop pos).take count).length = count := by
      rw [List.length_take, List.length_drop]
      omega
    refine ⟨(block.drop pos).take count, List.take_prefix _ _, by rw [length], ?_⟩
    have reads := copied_reads ((block.drop pos).take count)
    rwa [length] at reads
  · cases read

theorem converted_local {width : Nat} {convert : List UInt8 → UInt64} (inside : pos ≤ block.length)
    (addressable : block.length < 2 ^ 64)
    (read : (copied width).andThen (fun bytes => pure (convert bytes)) block block.length pos =
      .done next val) :
    ∃ bytes, Bytes.Occurs block pos bytes ∧ next = pos + bytes.length ∧ bytes.length = width ∧
      ((copied width).andThen fun bytes => pure (convert bytes)).Reads bytes val := by
  have located := (copied_local width).andThen fun bytes => local_pure (convert bytes)
  obtain ⟨bytes, here, last, reads⟩ := located inside addressable read
  obtain ⟨middle, found, first, ⟨⟩⟩ := done_of_andThen read
  simp only [copied] at first
  split at first
  · cases first
    exact ⟨bytes, here, last, by omega, reads⟩
  · cases first

theorem floatingNumberDecoded_local : floatingNumberDecoded.Local := by
  refine unsignedVarintDecoded_local.andThen fun valByteCnt => ?_
  intro block pos next val inside addressable read
  dsimp only at read
  have again {other bytes : List UInt8} {start : Nat} (here : Bytes.Occurs other start bytes)
      (otherInside : start ≤ other.length) (otherAddressable : other.length < 2 ^ 64)
      (length : bytes.length = valByteCnt.toNat) : ¬ (start + valByteCnt.toNat) % 2 ^ 64 > other.length := by
    have bound := here.bound otherInside
    omega
  split at read
  · cases read
  · split_ifs at read with four eight
    all_goals
      obtain ⟨bytes, here, rfl, length, reads⟩ := converted_local inside addressable read
      refine ⟨bytes, here, rfl, ?_⟩
      intro other start otherHere otherInside otherAddressable
      have room := again otherHere otherInside otherAddressable
        (by first | rw [length, four]; rfl | rw [length, eight]; rfl)
      simp only [if_neg room]
      first | rw [if_pos four] | rw [if_neg four, if_pos eight]
      exact reads other start otherHere otherInside otherAddressable

theorem stringValueDecoded_local : stringValueDecoded.Local := by
  refine unsignedVarintDecoded_local.andThen fun valByteCnt => ?_
  intro block pos next val inside addressable read
  dsimp only at read
  split at read
  · cases read
  · split at read
    · rename_i empty
      cases read
      refine ⟨[], occurs_nil _ _, rfl, ?_⟩
      intro other start _ otherInside otherAddressable
      have count : valByteCnt.toNat = 0 := by rw [empty]; rfl
      have room : ¬ (valByteCnt.toNat > other.length ∨
          (start + valByteCnt.toNat) % 2 ^ 64 > other.length) := by omega
      simp only [if_neg room, if_pos empty, List.length_nil, Nat.add_zero]
    · rename_i nonempty
      obtain ⟨bytes, here, rfl, reads⟩ := copied_local _ inside addressable read
      have length : bytes.length = valByteCnt.toNat := by
        simp only [copied] at read
        split at read
        · simp only [Read.done.injEq] at read
          omega
        · cases read
      refine ⟨bytes, here, rfl, ?_⟩
      intro other start otherHere otherInside otherAddressable
      have bound := otherHere.bound otherInside
      have room : ¬ (valByteCnt.toNat > other.length ∨
          (start + valByteCnt.toNat) % 2 ^ 64 > other.length) := by
        omega
      simp only [if_neg room, if_neg nonempty]
      exact reads other start otherHere otherInside otherAddressable

theorem arrayDecoded_local (each : decoded.Local) : (arrayDecoded decoded).Local := by
  refine unsignedVarintDecoded_local.andThen fun size => ?_
  split
  · exact local_fail
  · exact each.repeated _

variable (created : decodeValue type = some reader)
include created

/-- What holds of the readers of the four kinds, of their arrays and of converted readers holds of every value's. -/
theorem decodeValue_rule {P : ∀ {α : Type}, Reader α → Prop}
    (converted : ∀ {α : Type} {decoded : Reader α} (make : α → Value), P decoded → P (decoded.andThen (pure ∘ make)))
    (array : ∀ {α : Type} {decoded : Reader α}, P decoded → P (arrayDecoded decoded)) (text : P stringValueDecoded)
    (floating : P floatingNumberDecoded) (unsigned : P unsignedVarintDecoded) (signed : P signedVarintDecoded) :
    P reader := by
  unfold decodeValue at created
  dsimp only at created
  repeat' split at created
  all_goals cases created
  · exact converted _ (array text)
  · exact converted _ text
  · exact converted _ (array floating)
  · exact converted _ floating
  · exact converted _ (array unsigned)
  · exact converted _ unsigned
  · exact converted _ (array signed)
  · exact converted _ signed

theorem decodeValue_local : reader.Local :=
  decodeValue_rule (P := Reader.Local) created (fun make found => found.andThen fun val => local_pure (make val))
    arrayDecoded_local stringValueDecoded_local floatingNumberDecoded_local unsignedVarintDecoded_local
    signedVarintDecoded_local

end Locality

namespace DecodedEvent

theorem paramDecoded_local : paramDecoded.Local := by
  have head : paramHead.Local := stringValueDecoded_local.andThen fun key =>
    valueTypeDecoded_local.andThen fun type => local_pure (key, type)
  refine head.andThen fun found => ?_
  split
  · exact local_fail
  · rename_i reader created
    exact (decodeValue_local created).andThen fun value => local_pure _

theorem done_of_parseParams (parsed : parseParams maxLen count event = some final) (valid : final.isValid = true) :
    ∃ next params,
      paramDecoded.repeated count event.rawData maxLen event.pos = .done next params ∧
        final = { event with pos := next, allParams := event.allParams ++ params } := by
  fun_induction parseParams maxLen count event with
  | case1 =>
    cases parsed
    exact ⟨final.pos, [], rfl, by rw [List.append_nil]⟩
  | case7 count event between key type head reader created middle value valueRead ih =>
    obtain ⟨next, params, read, rfl⟩ := ih parsed
    have first : paramDecoded event.rawData maxLen event.pos = .done middle ⟨key, value⟩ := by
      simp [paramDecoded, Reader.andThen, head, created, valueRead, Reader.pure]
    refine ⟨next, ⟨key, value⟩ :: params, ?_, ?_⟩
    · simp [Reader.repeated, Reader.andThen, first, Reader.pure, read]
    · simp
  | case2 | case5 => cases parsed
  | _ =>
    cases parsed
    cases valid

/-- Where the parameter count stands behind a header. -/
def countPos (header : HiSysEventHeader) : Nat :=
  4 + HiSysEventHeader.size + if header.isTraceOpened = 1 then TraceInfo.size else 0

/-- The `int32_t` at a position, as a `size_t`. -/
def sizeAt (data : List UInt8) (pos : Nat) : Nat := sizeOfInt32 (Bytes.value ((data.drop pos).take 4))

/-- The parts of a block that is decoded without a refusal. -/
structure Layout (data : List UInt8) (decoded : DecodedEvent) : Prop where
  source : decoded.rawData = data
  valid : decoded.isValid = true
  sized : sizeAt data 0 = data.length
  small : data.length ≤ maxBlockSize
  header : decoded.header = .ofBytes ((data.drop 4).take HiSysEventHeader.size)
  traceInfo : decoded.traceInfo =
    if decoded.header.isTraceOpened = 1 then
      .ofBytes ((data.drop (4 + HiSysEventHeader.size)).take TraceInfo.size) else .zero
  room : countPos decoded.header + 4 ≤ data.length
  few : sizeAt data (countPos decoded.header) ≤ maxParamCnt
  params : paramDecoded.repeated (sizeAt data (countPos decoded.header)) data data.length
    (countPos decoded.header + 4) = .done decoded.pos decoded.allParams

variable {data : List UInt8}

variable {decoded : DecodedEvent}

theorem Layout.new_eq (layout : Layout data decoded) : new data = some decoded := by
  obtain ⟨source, valid, sized, small, header, traceInfo, room, few, params⟩ := layout
  obtain ⟨rawData, last, decodedHeader, trace, isValid, allParams⟩ := decoded
  dsimp only at source valid header traceInfo room few params
  subst source valid
  have bound : 4 + size + 4 ≤ rawData.length := by
    rw [countPos] at room
    omega
  have front := overlay_eq (show 0 + 4 ≤ rawData.length by omega)
  have nonempty : ¬ rawData.length < 4 := by omega
  have accepted : ¬ (rawData.length ≠ rawData.length ∨
      rawData.length < getValidDataMinimumByteCount ∨ rawData.length > maxBlockSize) := by
    rw [getValidDataMinimumByteCount]
    omega
  have headed := @parseHeader_eq ⟨rawData, 4, .zero, .zero, true, []⟩ _ header.symm
    (Nat.le_of_add_right_le room)
  rw [sizeAt] at sized few params
  rw [← traceInfo] at headed
  simp only [new, parse, if_neg nonempty, front, sized, if_neg accepted, bind_eq_bind,
    bind_some, invalid, Nat.zero_add, headed]
  change parseCustomizedParams ⟨rawData, countPos decodedHeader, decodedHeader, trace, true, []⟩ _ = _
  simp only [parseCustomizedParams, if_neg (Nat.not_lt.mpr room), overlay_eq room, bind_eq_bind, bind_some,
    if_neg (Nat.not_lt.mpr few)]
  exact parseParams_of_done params

theorem overlay_inv {pos count : Nat} (found : overlay data pos count = some bytes) :
    pos + count ≤ data.length ∧ bytes = (data.drop pos).take count := by
  rw [overlay] at found
  split at found
  · rename_i inside
    exact ⟨inside, (Option.some.inj found).symm⟩
  · cases found

theorem parseHeader_inv {event next : DecodedEvent} (parsed : event.parseHeader maxLen = some next)
    (valid : next.isValid = true) :
    ∃ header traceInfo pos, next = { event with header, traceInfo, pos } ∧
      header = .ofBytes ((event.rawData.drop event.pos).take size) ∧
      traceInfo = (if header.isTraceOpened = 1 then
        .ofBytes ((event.rawData.drop (event.pos + size)).take TraceInfo.size)
        else event.traceInfo) ∧
      pos = event.pos + size +
        if header.isTraceOpened = 1 then TraceInfo.size else 0 := by
  have refused : ∀ header pos, some { event with header, pos, isValid := false } ≠ some next := by
    rintro header pos ⟨⟩
    cases valid
  rw [parseHeader] at parsed
  split at parsed
  · exact (refused _ _ parsed).elim
  · obtain ⟨record, found, rest⟩ := bind_eq_some_iff.mp parsed
    obtain ⟨-, rfl⟩ := overlay_inv found
    dsimp only at rest
    split at rest
    · rename_i traced
      split at rest
      · exact (refused _ _ rest).elim
      · obtain ⟨traceRecord, traceFound, returned⟩ := bind_eq_some_iff.mp rest
        obtain ⟨-, rfl⟩ := overlay_inv traceFound
        cases returned
        exact ⟨_, _, _, rfl, rfl, (if_pos traced).symm, by rw [if_pos traced]⟩
    · rename_i closed
      cases rest
      exact ⟨_, _, _, rfl, rfl, (if_neg closed).symm, by rw [if_neg closed]; rfl⟩

theorem parseCustomizedParams_inv {event final : DecodedEvent}
    (parsed : event.parseCustomizedParams maxLen = some final) (valid : final.isValid = true) :
    event.pos + 4 ≤ event.rawData.length ∧ sizeAt event.rawData event.pos ≤ maxParamCnt ∧
      ∃ next params, paramDecoded.repeated (sizeAt event.rawData event.pos) event.rawData maxLen
          (event.pos + 4) = .done next params ∧
        final = { event with pos := next, allParams := event.allParams ++ params } := by
  have refused : some { event with isValid := false } ≠ some final := by
    rintro ⟨⟩
    cases valid
  rw [parseCustomizedParams] at parsed
  split at parsed
  · exact (refused parsed).elim
  · obtain ⟨word, found, rest⟩ := bind_eq_some_iff.mp parsed
    obtain ⟨inside, rfl⟩ := overlay_inv found
    dsimp only at rest
    split at rest
    · exact (refused rest).elim
    · rename_i few
      obtain ⟨next, params, read, rfl⟩ := done_of_parseParams rest valid
      exact ⟨inside, Nat.le_of_not_lt few, next, params, read, rfl⟩

theorem layout_of_valid (opened : new data = some decoded) (valid : decoded.isValid = true) : Layout data decoded := by
  have refused : some invalid ≠ some decoded := by
    rintro ⟨⟩
    cases valid
  rw [new] at opened
  split at opened
  · exact (refused opened).elim
  · obtain ⟨word, found, rest⟩ := bind_eq_some_iff.mp opened
    obtain ⟨-, rfl⟩ := overlay_inv found
    dsimp only at rest
    split at rest
    · exact (refused rest).elim
    · have sized : sizeAt data 0 = data.length := by
        rw [sizeAt]
        omega
      have sizedWord : sizeOfInt32 (Bytes.value ((data.drop 0).take 4)) = data.length := sized
      obtain ⟨again, foundAgain, parsed⟩ := bind_eq_some_iff.mp rest
      obtain ⟨-, rfl⟩ := overlay_inv foundAgain
      simp only [sizedWord, Nat.zero_add] at parsed
      obtain ⟨headed, header, params⟩ := bind_eq_some_iff.mp parsed
      obtain ⟨room, few, next, all, read, rfl⟩ := parseCustomizedParams_inv params valid
      obtain ⟨record, trace, pos, rfl, rfl, rfl, rfl⟩ := parseHeader_inv header valid
      exact ⟨rfl, valid, sized, by omega, rfl, rfl, room, few, read⟩

/-- The bytes up to the position where decoding ended. -/
def getRawData (decoded : DecodedEvent) : RawData := .ofData (decoded.rawData.take decoded.pos)

theorem Layout.pos_bounds (layout : Layout data decoded) : 4 ≤ decoded.pos ∧ decoded.pos ≤ data.length := by
  have small := layout.small
  rw [maxBlockSize] at small
  obtain ⟨bytes, here, last, -⟩ := paramDecoded_local.repeated _ layout.room (by omega) layout.params
  have bound := here.bound layout.room
  omega

/-- What is taken out of a decoded event can be decoded again exactly if nothing was left
behind its last parameter. -/
theorem getRawData_again_iff {data : List UInt8} {decoded : DecodedEvent} (opened : new data = some decoded)
    (valid : decoded.isValid = true) :
    (∃ again, new decoded.getRawData.getData = some again ∧ again.isValid = true ∧
        again.header = decoded.header ∧ again.traceInfo = decoded.traceInfo ∧
        again.allParams = decoded.allParams) ↔ decoded.pos = data.length := by
  have layout := layout_of_valid opened valid
  obtain ⟨low, high⟩ := layout.pos_bounds
  rw [getRawData, (RawData.ofData_holds _).getData, layout.source]
  constructor
  · rintro ⟨again, reopened, revalid, -⟩
    have sized := (layout_of_valid reopened revalid).sized
    have same : sizeAt (data.take decoded.pos) 0 = sizeAt data 0 := by
      rw [sizeAt, sizeAt, List.drop_zero, List.drop_zero, List.take_take, Nat.min_eq_left low]
    rw [same, layout.sized, List.length_take, Nat.min_eq_left high] at sized
    exact sized.symm
  · intro whole
    rw [whole, List.take_length]
    exact ⟨decoded, opened, valid, rfl, rfl, rfl⟩

/-- A header of zeros, no parameters, and some bytes behind. -/
def bareBlock (behind : List UInt8) : List UInt8 :=
  Bytes.littleEndian 4 (HiSysEventHeader.size + 8 + behind.length) ++
    (List.replicate (HiSysEventHeader.size + 4) 0 ++ behind)

theorem getRawData_again_bare : ∃ decoded, new (bareBlock []) = some decoded ∧ decoded.isValid = true ∧
    ∃ again, new decoded.getRawData.getData = some again ∧ again.isValid = true ∧
      again.header = decoded.header ∧ again.traceInfo = decoded.traceInfo ∧
      again.allParams = decoded.allParams := by
  have opened : (new (bareBlock [])).map (fun decoded => (decoded.isValid, decoded.pos)) =
      some (true, (bareBlock []).length) := by decide +kernel
  obtain ⟨decoded, opened, read⟩ := Option.map_eq_some_iff.mp opened
  obtain ⟨valid, whole⟩ := Prod.mk.inj read
  exact ⟨decoded, opened, valid, (getRawData_again_iff opened valid).mpr whole⟩

/-- One byte behind the last parameter is accepted, but the raw data is without it. -/
theorem getRawData_refused :
    (new (bareBlock [7])).map (fun decoded => decoded.isValid) = some true ∧
      ((new (bareBlock [7])).bind fun decoded => new decoded.getRawData.getData) = some invalid :=
  ⟨by decide +kernel, by decide +kernel⟩

end DecodedEvent
end Hiview.EventRaw
