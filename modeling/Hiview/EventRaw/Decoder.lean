import Hiview.EventRaw.EncodedParam
import Hiview.Lib.Reader

/-! `RawDataDecoder` and the `DecodedParam` hierarchy as readers of a block.
The `_reads` theorems say that each reader takes back the wire form of the
encoder it belongs to. -/
namespace Hiview.EventRaw
open Bytes List Varint Wire

/-- The `do … while` loop over the bytes after the tag byte. Every round
consumes a byte below `maxLen`, so `maxLen - pos` rounds always suffice. -/
def nonTagBytesDecoded : Nat → UInt64 → UInt32 → Reader UInt64
  | 0, _, _ => Reader.fail
  | rounds + 1, val, offset => fun rawData maxLen pos =>
    if pos ≥ maxLen then .failed pos
    else match rawData[pos]? with
      | none => .fault
      | some byte =>
        let val := val ||| ((byte &&& 127).toUInt64 <<< offset.toUInt64)
        if byte &&& 128 ≠ 0 then
          nonTagBytesDecoded rounds val (offset + UInt32.ofNat nonTagByteOffset) rawData maxLen
            (pos + 1)
        else .done (pos + 1) val

def unsignedVarintDecoded : Reader UInt64 := fun rawData maxLen pos =>
  if pos ≥ maxLen then .failed pos
  else match rawData[pos]? with
    | none => .fault
    | some byte =>
      let val := (byte &&& 31).toUInt64
      if byte &&& 32 ≠ 0 then
        nonTagBytesDecoded (maxLen - pos) val (UInt32.ofNat tagByteOffset) rawData maxLen (pos + 1)
      else .done (pos + 1) val

def unzigzag (uval : UInt64) : Int64 :=
  ((uval >>> 1) ^^^ (0 - (uval &&& 1))).toInt64

def signedVarintDecoded : Reader Int64 :=
  unsignedVarintDecoded.andThen fun uval => Reader.pure (unzigzag uval)

/-- A float widened to a double, both given by their bits. -/
def widened (bits : UInt32) : UInt64 := (Float32.ofBits bits).toFloat.toBits

/-- `count` bytes that are copied out of the block. -/
def copied (count : Nat) : Reader (List UInt8) := fun rawData _ pos =>
  if pos + count ≤ rawData.length then .done (pos + count) ((rawData.drop pos).take count)
  else .fault

/-- The sum is taken in `size_t`, so a huge count can pass the first check; it
is then neither of the two sizes. -/
def floatingNumberDecoded : Reader UInt64 :=
  unsignedVarintDecoded.andThen fun valByteCnt rawData maxLen pos =>
    if (pos + valByteCnt.toNat) % 2 ^ 64 > maxLen then .failed pos
    else if valByteCnt = 4 then
      (copied 4).andThen
        (fun bytes => Reader.pure (widened (UInt32.ofNat (Bytes.value bytes)))) rawData maxLen pos
    else if valByteCnt = 8 then
      (copied 8).andThen (fun bytes => Reader.pure (UInt64.ofNat (Bytes.value bytes)))
        rawData maxLen pos
    else .failed pos

/-- An empty string is not copied: the destination keeps its empty default. -/
def stringValueDecoded : Reader (List UInt8) :=
  unsignedVarintDecoded.andThen fun valByteCnt rawData maxLen pos =>
    if valByteCnt.toNat > maxLen ∨ (pos + valByteCnt.toNat) % 2 ^ 64 > maxLen then .failed pos
    else if valByteCnt = 0 then .done pos []
    else copied valByteCnt.toNat rawData maxLen pos

def valueTypeDecoded : Reader ParamValueType := fun rawData maxLen pos =>
  if pos ≥ maxLen then .failed pos
  else match rawData[pos]? with
    | none => .fault
    | some byte => .done (pos + 1) (.ofByte byte)

/-- `DecodeValue` of the array classes. -/
def arrayDecoded {α : Type} (decoded : Reader α) : Reader (List α) :=
  unsignedVarintDecoded.andThen fun size =>
    if size.toNat > maxArraySize then Reader.fail else decoded.repeated size.toNat

/-- `DecodeValue` of the class that `ParseCustomizedParam` creates; an unknown
value type creates none. -/
def decodeValue (type : ParamValueType) : Option (Reader Value) :=
  let isArray := type.isArray = 1
  let among (types : List ValueType) := type.valueType ∈ types.map ValueType.code
  if among [.string] then
    if isArray then some ((arrayDecoded stringValueDecoded).andThen (Reader.pure ∘ .dstringArray))
    else some (stringValueDecoded.andThen (Reader.pure ∘ .dstring))
  else if among [.float, .double] then
    if isArray then
      some ((arrayDecoded floatingNumberDecoded).andThen (Reader.pure ∘ .floatingArray))
    else some (floatingNumberDecoded.andThen (Reader.pure ∘ .floating))
  else if among [.uint8, .uint16, .uint32, .uint64] then
    if isArray then
      some ((arrayDecoded unsignedVarintDecoded).andThen (Reader.pure ∘ .unsignedVarintArray))
    else some (unsignedVarintDecoded.andThen (Reader.pure ∘ .unsignedVarint))
  else if among [.bool, .int8, .int16, .int32, .int64] then
    if isArray then
      some ((arrayDecoded signedVarintDecoded).andThen (Reader.pure ∘ .signedVarintArray))
    else some (signedVarintDecoded.andThen (Reader.pure ∘ .signedVarint))
  else none

section Reads

theorem valueTypeDecoded_eq : valueTypeDecoded = Reader.byte.andThen (Reader.pure ∘ .ofByte) := by
  funext rawData maxLen pos
  refine .trans ?_ (Reader.byte_andThen _).symm
  rfl

theorem nonTagBytesDecoded_succ (rounds : Nat) (val : UInt64) (offset : UInt32) :
    nonTagBytesDecoded (rounds + 1) val offset = Reader.byte.andThen fun byte rawData maxLen pos =>
      let val := val ||| ((byte &&& 127).toUInt64 <<< offset.toUInt64)
      if byte &&& 128 ≠ 0 then
        nonTagBytesDecoded rounds val (offset + UInt32.ofNat nonTagByteOffset) rawData maxLen pos
      else .done pos val := by
  funext rawData maxLen pos
  refine .trans ?_ (Reader.byte_andThen _).symm
  rfl

theorem unsignedVarintDecoded_eq : unsignedVarintDecoded = Reader.byte.andThen fun byte rawData maxLen pos =>
    if byte &&& 32 ≠ 0 then nonTagBytesDecoded (maxLen - (pos - 1)) (byte &&& 31).toUInt64
      (UInt32.ofNat tagByteOffset) rawData maxLen pos
    else .done pos (byte &&& 31).toUInt64 := by
  funext rawData maxLen pos
  refine .trans ?_ (Reader.byte_andThen _).symm
  rfl

variable (byte : UInt8) (type : EncodeType)

theorem low_bits (bits : Nat) (small : bits ≤ 8) :
    (byte &&& UInt8.ofNat (2 ^ bits - 1)).toNat = byte.toNat % 2 ^ bits := by
  have bound : 2 ^ bits ≤ 2 ^ 8 := Nat.pow_le_pow_right (by decide) small
  have mask : (UInt8.ofNat (2 ^ bits - 1)).toNat = 2 ^ bits - 1 := by
    rw [UInt8.toNat_ofNat', Nat.mod_eq_of_lt (by omega)]
  rw [UInt8.toNat_and, mask, Nat.and_two_pow_sub_one_eq_mod]

theorem flag_bit (bit : Nat) (small : bit < 8) :
    byte &&& UInt8.ofNat (2 ^ bit) ≠ 0 ↔ byte.toNat / 2 ^ bit % 2 = 1 := by
  have bound : 2 ^ bit < 2 ^ 8 := Nat.pow_lt_pow_right (by decide) small
  have flag : (UInt8.ofNat (2 ^ bit)).toNat = 2 ^ bit := by
    rw [UInt8.toNat_ofNat', Nat.mod_eq_of_lt bound]
  rw [Ne, ← UInt8.toNat_inj, UInt8.toNat_and, flag, Nat.and_two_pow,
    Nat.testBit_eq_decide_div_mod_eq, UInt8.toNat_zero]
  by_cases raised : byte.toNat / 2 ^ bit % 2 = 1 <;> simp [raised]

theorem continuation_bit : byte &&& 128 ≠ 0 ↔ 128 ≤ byte.toNat := by
  have bound := byte.toNat_lt
  have flag : byte &&& 128 ≠ 0 ↔ byte.toNat / 128 % 2 = 1 := flag_bit byte 7 (by decide)
  rw [flag]
  omega

theorem group_or {byte : UInt8} {offset : UInt32} (low : val.toNat < 2 ^ offset.toNat) (inside : offset.toNat < 64)
    (fits : byte.toNat % 128 * 2 ^ offset.toNat < 2 ^ 64) :
    (val ||| ((byte &&& 127).toUInt64 <<< offset.toUInt64)).toNat =
      val.toNat + 2 ^ offset.toNat * (byte.toNat % 128) := by
  have shifted : ((byte &&& 127).toUInt64 <<< offset.toUInt64).toNat =
      2 ^ offset.toNat * (byte.toNat % 128) := by
    have group : (byte &&& 127).toNat = byte.toNat % 128 := low_bits byte 7 (by decide)
    rw [UInt64.toNat_shiftLeft, UInt8.toNat_toUInt64, UInt32.toNat_toUInt64,
      Nat.mod_eq_of_lt inside, Nat.shiftLeft_eq, group, Nat.mod_eq_of_lt fits, Nat.mul_comm]
  rw [UInt64.toNat_or, shifted, Nat.or_comm, ← Nat.two_pow_add_eq_or_of_lt low, Nat.add_comm]

theorem nonTagBytesDecoded_reads {groups block : List UInt8} {val : UInt64} (chain : Varint.Chain groups)
    (here : Bytes.Occurs block pos groups) (inside : pos + groups.length ≤ block.length)
    (enough : block.length - pos ≤ rounds) (low : val.toNat < 2 ^ offset.toNat)
    (short : offset.toNat + 7 * groups.length ≤ 68)
    (fits : val.toNat + 2 ^ offset.toNat * groupValue groups < 2 ^ 64) :
    nonTagBytesDecoded rounds val offset block block.length pos = .done (pos + groups.length)
      (UInt64.ofNat (val.toNat + 2 ^ offset.toNat * groupValue groups)) := by
  induction groups generalizing rounds pos val offset with
  | nil => exact chain.elim
  | cons group rest ih =>
    obtain ⟨rounds, rfl⟩ : ∃ more, rounds = more + 1 := by
      simp only [length_cons] at inside
      exact ⟨rounds - 1, by omega⟩
    simp only [length_cons] at inside short
    have below := here.before_end
    obtain ⟨byteHere, restHere⟩ := occurs_cons.mp here
    simp only [nonTagBytesDecoded, if_neg below, byteHere, continuation_bit]
    simp only [groupValue] at fits ⊢
    have groupFits : group.toNat % 128 * 2 ^ offset.toNat < 2 ^ 64 := by
      rw [Nat.mul_comm]
      calc 2 ^ offset.toNat * (group.toNat % 128)
          ≤ 2 ^ offset.toNat * (group.toNat % 128 + 128 * groupValue rest) :=
            Nat.mul_le_mul_left _ (Nat.le_add_right _ _)
        _ < 2 ^ 64 := by omega
    have joined := group_or low (by omega) groupFits
    cases rest with
    | nil =>
      have last : ¬ 128 ≤ group.toNat := Nat.not_le.mpr chain
      rw [if_neg last]
      simp only [groupValue, Nat.mul_zero, Nat.add_zero] at fits ⊢
      rw [← joined, UInt64.ofNat_toNat, length_singleton]
    | cons next tail =>
      have more : 128 ≤ group.toNat := chain.1
      have step : (offset + UInt32.ofNat nonTagByteOffset).toNat = offset.toNat + 7 := by
        change (offset.toNat + 7) % 2 ^ 32 = offset.toNat + 7
        omega
      have power : 2 ^ (offset.toNat + 7) = 2 ^ offset.toNat * 128 := by rw [Nat.pow_add]
      have total : val.toNat + 2 ^ offset.toNat * (group.toNat % 128) +
          2 ^ offset.toNat * 128 * groupValue (next :: tail) =
          val.toNat + 2 ^ offset.toNat *
            (group.toNat % 128 + 128 * groupValue (next :: tail)) := by
        rw [Nat.mul_add, Nat.mul_assoc, Nat.add_assoc]
      have room : val.toNat + 2 ^ offset.toNat * (group.toNat % 128) <
          2 ^ offset.toNat * 128 := by
        have digit : group.toNat % 128 + 1 ≤ 128 := by omega
        have scaled := Nat.mul_le_mul_left (2 ^ offset.toNat) digit
        rw [Nat.mul_add, Nat.mul_one] at scaled
        omega
      rw [if_pos more, ih chain.2 restHere (by omega) (by omega) (by rw [joined, step, power]; exact room)
        (by omega) (by rw [joined, step, power, total]; exact fits), joined, step, power,
        total, length_cons, length_cons, Nat.add_right_comm]
      rfl

/-- The tag byte keeps the five low bits below its continuation bit and the
encode type above it. -/
theorem tagByte_toNat (val : UInt64) :
    ∃ head, (tagByte type val).toNat =
      64 * head + (if val.toNat < 32 then 0 else 32) + val.toNat % 32 := by
  have low : (val &&& 31).toUInt8.toNat = val.toNat % 32 := by
    have mask : (31 : UInt64).toNat = 2 ^ 5 - 1 := rfl
    rw [UInt64.toNat_toUInt8, UInt64.toNat_and, mask, Nat.and_two_pow_sub_one_eq_mod]
    omega
  have joined (head : UInt8) (k : Nat) (shape : head.toNat = 2 ^ 5 * k) :
      (head ||| (val &&& 31).toUInt8).toNat = 32 * k + val.toNat % 32 := by
    rw [UInt8.toNat_or, low, shape,
      ← Nat.two_pow_add_eq_or_of_lt (by omega : val.toNat % 32 < 2 ^ 5)]
  have bound : val < 32 ↔ val.toNat < 32 := UInt64.lt_iff_toNat_lt
  simp only [tagByte, bound]
  by_cases small : val.toNat < 32
  · simp only [if_pos small]
    cases type with
    | varint => exact ⟨0, by rw [joined _ 0 rfl]⟩
    | lengthDelimited => exact ⟨1, by rw [joined _ 2 rfl]⟩
    | invalid => exact ⟨0, by rw [joined _ 0 rfl]⟩
  · simp only [if_neg small]
    cases type with
    | varint => exact ⟨0, by rw [joined _ 1 rfl]⟩
    | lengthDelimited => exact ⟨1, by rw [joined _ 3 rfl]⟩
    | invalid => exact ⟨0, by rw [joined _ 1 rfl]⟩

theorem unsignedVarintDecoded_reads (val : UInt64) :
    unsignedVarintDecoded.Reads (varint type val) val := by
  intro block pos here inside addressable
  have bound := here.bound inside
  obtain ⟨head, shape⟩ := tagByte_toNat type val
  obtain ⟨tagHere, restHere⟩ := occurs_cons.mp here
  have size := val.toNat_lt
  have low : ((tagByte type val &&& 31).toUInt64).toNat = val.toNat % 32 := by
    have mask : (tagByte type val &&& 31).toNat = (tagByte type val).toNat % 32 :=
      low_bits _ 5 (by decide)
    rw [UInt8.toNat_toUInt64, mask, shape]
    split <;> omega
  have flag : tagByte type val &&& 32 ≠ 0 ↔ 32 ≤ val.toNat := by
    have bit : tagByte type val &&& 32 ≠ 0 ↔ (tagByte type val).toNat / 32 % 2 = 1 :=
      flag_bit _ 5 (by decide)
    rw [bit, shape]
    split <;> omega
  simp only [varint, length_cons] at bound ⊢
  simp only [unsignedVarintDecoded, if_neg here.before_end, tagHere, flag]
  by_cases more : 32 ≤ val.toNat
  · have fits : val.toNat / 32 < 128 ^ 9 := by
      omega
    have groups := groupValue_groups fits
    have count := groups_length_le 9 (val.toNat / 32)
    have offset : (UInt32.ofNat tagByteOffset).toNat = 5 := rfl
    rw [if_pos more, nonTagBytesDecoded_reads (chain_groups fits (by omega)) restHere
      (by omega) (by omega) (by rw [low, offset]; omega) (by omega)
      (by rw [low, offset, groups]; omega), low, offset, groups, Nat.add_right_comm, Nat.add_assoc]
    have whole : val.toNat % 32 + 2 ^ 5 * (val.toNat / 32) = val.toNat := Nat.mod_add_div _ _
    rw [whole, UInt64.ofNat_toNat]
  · have none : groups 9 (val.toNat / 32) = [] := by
      rw [Nat.div_eq_of_lt (by omega)]
      rfl
    rw [if_neg more, none, length_nil]
    congr 1
    apply UInt64.toNat_inj.mp
    omega

theorem nonneg_iff_toNat_lt (val : Int64) : val ≥ 0 ↔ val.toUInt64.toNat < 2 ^ 63 := by
  have cond := BitVec.toInt_eq_toNat_cond val.toBitVec
  have word : val.toBitVec.toNat = val.toUInt64.toNat := rfl
  rw [ge_iff_le, Int64.le_iff_toInt_le, ← Int64.toInt_toBitVec val, cond, word]
  change (0 : Int) ≤ _ ↔ _
  split <;> omega

/-- The number that a zigzag code stands for. -/
def zigzagValue (code : Nat) : Int := if code % 2 = 0 then code / 2 else -((code + 1) / 2 : Nat)

theorem unzigzag_toInt (uval : UInt64) : (unzigzag uval).toInt = zigzagValue uval.toNat := by
  have bound := uval.toNat_lt
  have halved : (uval >>> 1).toNat = uval.toNat / 2 := by
    exact Nat.shiftRight_eq_div_pow _ 1
  have lowest : (uval &&& 1).toNat = uval.toNat % 2 := by
    exact Nat.and_one_is_mod _
  have word (code : UInt64) : code.toInt64.toInt = if 2 * code.toNat < 2 ^ 64 then (code.toNat : Int)
      else code.toNat - (2 ^ 64 : Nat) := BitVec.toInt_eq_toNat_cond _
  rw [unzigzag, word, zigzagValue]
  by_cases even : uval.toNat % 2 = 0
  · have mask : uval &&& 1 = 0 := UInt64.toNat_inj.mp (by rw [lowest, even]; rfl)
    rw [mask, UInt64.sub_zero, UInt64.xor_zero, halved, if_pos even]
    omega
  · have mask : uval &&& 1 = 1 := UInt64.toNat_inj.mp (by rw [lowest]; change uval.toNat % 2 = 1; omega)
    have flipped : (~~~(uval >>> 1)).toNat = 2 ^ 64 - 1 - uval.toNat / 2 := by
      rw [UInt64.toNat_not, halved]
      rfl
    rw [mask, UInt64.zero_sub, UInt64.xor_neg_one, flipped, if_neg even]
    omega

/-- The two branches are the two halves of the range: doubled, and doubled and
complemented. -/
theorem unzigzag_zigzag (val : Int64) : unzigzag (zigzag val) = val := by
  have bound := val.toUInt64.toNat_lt
  have doubled : (val.toUInt64 <<< 1).toNat = 2 * val.toUInt64.toNat % 2 ^ 64 := by
    change val.toUInt64.toNat <<< 1 % 2 ^ 64 = _
    rw [Nat.shiftLeft_eq, Nat.mul_comm]
  have ones : UInt64.ofNat (2 ^ 64 - 1) = -1 := by decide
  have word : val.toInt = if 2 * val.toUInt64.toNat < 2 ^ 64 then (val.toUInt64.toNat : Int)
      else val.toUInt64.toNat - (2 ^ 64 : Nat) := BitVec.toInt_eq_toNat_cond _
  apply Int64.toInt_inj.mp
  rw [unzigzag_toInt, zigzagValue, word, zigzag]
  by_cases sign : val ≥ 0
  · have small := (nonneg_iff_toNat_lt val).mp sign
    rw [if_pos sign, UInt64.xor_zero, doubled]
    omega
  · have large := mt (nonneg_iff_toNat_lt val).mpr sign
    have flipped : (~~~(val.toUInt64 <<< 1)).toNat = 2 ^ 64 - 1 - 2 * val.toUInt64.toNat % 2 ^ 64 := by
      rw [UInt64.toNat_not, doubled]
      rfl
    rw [if_neg sign, ones, UInt64.xor_neg_one, flipped]
    omega

theorem signedVarintDecoded_reads (val : Int64) :
    signedVarintDecoded.Reads (varint type (zigzag val)) val := by
  have reads := (unsignedVarintDecoded_reads type (zigzag val)).map unzigzag
  rw [unzigzag_zigzag] at reads
  exact reads

theorem copied_reads (bytes : List UInt8) : (copied bytes.length).Reads bytes bytes := by
  intro block pos here inside addressable
  rw [copied, if_pos (here.bound inside), here.slice]

theorem floatingNumberDecoded_reads (val : UInt64) :
    floatingNumberDecoded.Reads (floating val) val := by
  refine (unsignedVarintDecoded_reads .lengthDelimited 8).andThen ?_
  intro block pos here inside addressable
  have bound := here.bound inside
  have copy := copied_reads _ block pos here inside addressable
  rw [littleEndian_length] at bound copy
  have room : ¬ (pos + (8 : UInt64).toNat) % 2 ^ 64 > block.length := by
    change ¬ (pos + 8) % 2 ^ 64 > block.length
    omega
  have double : (8 : UInt64) ≠ 4 := by decide
  simp only [if_neg room, if_neg double, if_true, Reader.andThen, copy, Reader.pure,
    littleEndian_length]
  rw [value_littleEndian_of_lt val.toNat_lt, UInt64.ofNat_toNat]

theorem stringValueDecoded_reads (val : List UInt8) :
    stringValueDecoded.Reads (string val) val := by
  refine (unsignedVarintDecoded_reads .lengthDelimited (UInt64.ofNat val.length)).andThen ?_
  intro block pos here inside addressable
  have bound := here.bound inside
  have count : (UInt64.ofNat val.length).toNat = val.length := by
    rw [UInt64.toNat_ofNat', Nat.mod_eq_of_lt (by omega)]
  have room : ¬ (val.length > block.length ∨ (pos + val.length) % 2 ^ 64 > block.length) := by
    omega
  simp only [count, if_neg room]
  by_cases empty : UInt64.ofNat val.length = 0
  · have nil : val = [] := by
      rw [empty] at count
      exact length_eq_zero_iff.mp count.symm
    rw [if_pos empty, nil, length_nil, Nat.add_zero]
  · rw [if_neg empty, copied_reads val block pos here inside addressable]

theorem valueTypeDecoded_reads (type : ParamValueType) :
    valueTypeDecoded.Reads [type.byte] type := by
  have reads := (Reader.reads_byte type.byte).map ParamValueType.ofByte
  rw [ParamValueType.ofByte_byte] at reads
  rw [valueTypeDecoded_eq]
  exact reads

theorem arrayDecoded_reads {α : Type} {decoded : Reader α} {element : α → List UInt8}
    {vals : List α} (each : ∀ val ∈ vals, decoded.Reads (element val) val)
    (bounded : vals.length ≤ maxArraySize) :
    (arrayDecoded decoded).Reads (array element vals) vals := by
  refine (unsignedVarintDecoded_reads .lengthDelimited (UInt64.ofNat vals.length)).andThen ?_
  have count : (UInt64.ofNat vals.length).toNat = vals.length := by
    rw [UInt64.toNat_ofNat', Nat.mod_eq_of_lt (by rw [maxArraySize] at bounded; omega)]
  rw [count, if_neg (Nat.not_lt.mpr bounded)]
  exact Reader.reads_repeated each

theorem decodeValue_reads {value : Value} (bounded : value.Bounded) :
    ∃ reader, decodeValue ⟨if value.isArray then 1 else 0, value.valueType.code, 0⟩ = some reader ∧
      reader.Reads (Wire.value value) value := by
  cases value with
  | unsignedVarint val => exact ⟨_, rfl, (unsignedVarintDecoded_reads .varint val).map _⟩
  | signedVarint val => exact ⟨_, rfl, (signedVarintDecoded_reads .varint val).map _⟩
  | floating val => exact ⟨_, rfl, (floatingNumberDecoded_reads val).map _⟩
  | dstring val => exact ⟨_, rfl, (stringValueDecoded_reads val).map _⟩
  | unsignedVarintArray vals =>
    exact ⟨_, rfl, (arrayDecoded_reads
      (fun val _ => unsignedVarintDecoded_reads .varint val) bounded).map _⟩
  | signedVarintArray vals =>
    exact ⟨_, rfl, (arrayDecoded_reads
      (fun val _ => signedVarintDecoded_reads .varint val) bounded).map _⟩
  | floatingArray vals =>
    exact ⟨_, rfl, (arrayDecoded_reads (fun val _ => floatingNumberDecoded_reads val) bounded).map _⟩
  | dstringArray vals =>
    exact ⟨_, rfl, (arrayDecoded_reads (fun val _ => stringValueDecoded_reads val) bounded).map _⟩

end Reads
end Hiview.EventRaw
