import Hiview.EventRaw.RawData
import Hiview.Lib.Varint

/-! `RawDataEncoder`. Every encoder appends to a buffer; the wire form each one
appends is stated beside it, and the `_holds` theorems say that the buffer
grows by exactly that form. -/
namespace Hiview.EventRaw
open List RawData Varint

def encodedTag (type : UInt8) : UInt8 := type <<< 6

/-- The `while (val > 0)` loop. The tag byte took five of the 64 bits, so nine
groups of seven exhaust the rest. -/
def nonTagBytesEncoded : Nat → RawData → UInt64 → Option RawData
  | 0, data, _ => some data
  | rounds + 1, data, val =>
    if val > 0 then do
      let cpyVal : UInt8 := (if val < 128 then 0 else 128) ||| (val &&& 127).toUInt8
      let data ← data.append [cpyVal]
      nonTagBytesEncoded rounds data (val >>> 7)
    else some data

def tagByte (type : EncodeType) (val : UInt64) : UInt8 :=
  encodedTag type.code ||| (if val < 32 then 0 else 32) ||| (val &&& 31).toUInt8

def unsignedVarintEncoded (data : RawData) (type : EncodeType) (val : UInt64) :
    Option RawData := do
  let data ← data.append [tagByte type val]
  nonTagBytesEncoded 9 data (val >>> 5)

/-- Zigzag: the sign moves to the least significant bit. -/
def zigzag (val : Int64) : UInt64 :=
  (val.toUInt64 <<< 1) ^^^ (if val ≥ 0 then 0 else UInt64.ofNat (2 ^ 64 - 1))

def signedVarintEncoded (data : RawData) (type : EncodeType) (val : Int64) : Option RawData :=
  unsignedVarintEncoded data type (zigzag val)

/-- A double is the word of its eight bytes. -/
def floatingNumberEncoded (data : RawData) (val : UInt64) : Option RawData := do
  let data ← unsignedVarintEncoded data .lengthDelimited 8
  data.append (Bytes.littleEndian 8 val.toNat)

def stringValueEncoded (data : RawData) (val : List UInt8) : Option RawData := do
  let data ← unsignedVarintEncoded data .lengthDelimited (UInt64.ofNat val.length)
  data.append val

def valueTypeEncoded (data : RawData) (isArray : Bool) (type : ValueType) (count : UInt8) :
    Option RawData :=
  data.append [ParamValueType.byte ⟨if isArray then 1 else 0, type.code, BitVec.ofNat 3 count.toNat⟩]

namespace Wire

def varint (type : EncodeType) (val : UInt64) : List UInt8 :=
  tagByte type val :: Varint.groups 9 (val.toNat / 32)

def floating (val : UInt64) : List UInt8 :=
  varint .lengthDelimited 8 ++ Bytes.littleEndian 8 val.toNat

def string (val : List UInt8) : List UInt8 :=
  varint .lengthDelimited (UInt64.ofNat val.length) ++ val

end Wire

variable {data : RawData} {bytes : List UInt8}

theorem group_byte (val : UInt64) :
    (if val < 128 then 0 else 128) ||| (val &&& 127).toUInt8 =
      UInt8.ofNat (if val.toNat < 128 then val.toNat else val.toNat % 128 + 128) := by
  have low : ((val &&& 127).toUInt8).toNat = val.toNat % 128 := by
    rw [UInt64.toNat_toUInt8, UInt64.toNat_and]
    have mask : (127 : UInt64).toNat = 2 ^ 7 - 1 := rfl
    rw [mask, Nat.and_two_pow_sub_one_eq_mod]
    omega
  apply UInt8.toNat_inj.mp
  rw [UInt8.toNat_or, low, UInt8.toNat_ofNat']
  by_cases small : val < 128
  · have bound : val.toNat < 128 := UInt64.lt_iff_toNat_lt.mp small
    simp only [if_pos small, if_pos bound, UInt8.toNat_zero, Nat.zero_or]
    omega
  · have bound : ¬ val.toNat < 128 := fun h => small (UInt64.lt_iff_toNat_lt.mpr h)
    simp only [if_neg small, if_neg bound]
    have high : (128 : UInt8).toNat = 2 ^ 7 * 1 := rfl
    rw [high, ← Nat.two_pow_add_eq_or_of_lt (by omega : val.toNat % 128 < 2 ^ 7)]
    omega

theorem nonTagBytesEncoded_holds (rounds : Nat) (held : data.Holds bytes) (val : UInt64) :
    ∃ result, nonTagBytesEncoded rounds data val = some result ∧
      result.Holds (bytes ++ groups rounds val.toNat) := by
  induction rounds generalizing data bytes val with
  | zero => exact ⟨data, rfl, by simpa [groups] using held⟩
  | succ rounds ih =>
    by_cases zero : val.toNat = 0
    · have stop : ¬ val > 0 := by
        intro positive
        have := UInt64.lt_iff_toNat_lt.mp positive
        omega
      exact ⟨data, by simp only [nonTagBytesEncoded, if_neg stop],
        by simpa only [groups, if_pos zero, append_nil] using held⟩
    · have more : val > 0 := UInt64.lt_iff_toNat_lt.mpr (by simp only [UInt64.toNat_zero]; omega)
      obtain ⟨next, appended, nextHeld⟩ := append_holds held
        [(if val < 128 then 0 else 128) ||| (val &&& 127).toUInt8]
      obtain ⟨result, encoded, resultHeld⟩ := ih nextHeld (val >>> 7)
      refine ⟨result, ?_, ?_⟩
      · simp only [nonTagBytesEncoded, if_pos more, appended, Option.bind_eq_bind,
          Option.bind_some, encoded]
      · have shifted : (val >>> 7).toNat = val.toNat / 128 := by
          simp [UInt64.toNat_shiftRight, Nat.shiftRight_eq_div_pow]
        rw [group_byte, shifted, append_assoc] at resultHeld
        simpa only [groups, if_neg zero, singleton_append] using resultHeld

variable (held : data.Holds bytes)
include held

theorem unsignedVarintEncoded_holds (type : EncodeType) (val : UInt64) :
    ∃ result, unsignedVarintEncoded data type val = some result ∧
      result.Holds (bytes ++ Wire.varint type val) := by
  obtain ⟨next, appended, nextHeld⟩ := append_holds held [tagByte type val]
  obtain ⟨result, encoded, resultHeld⟩ := nonTagBytesEncoded_holds 9 nextHeld (val >>> 5)
  have shifted : (val >>> 5).toNat = val.toNat / 32 := by
    simp [UInt64.toNat_shiftRight, Nat.shiftRight_eq_div_pow]
  rw [shifted, append_assoc, singleton_append] at resultHeld
  exact ⟨result, by simp [unsignedVarintEncoded, appended, encoded], resultHeld⟩

theorem floatingNumberEncoded_holds (val : UInt64) :
    ∃ result, floatingNumberEncoded data val = some result ∧
      result.Holds (bytes ++ Wire.floating val) := by
  obtain ⟨next, sized, nextHeld⟩ := unsignedVarintEncoded_holds held .lengthDelimited 8
  obtain ⟨result, appended, resultHeld⟩ := append_holds nextHeld (Bytes.littleEndian 8 val.toNat)
  rw [append_assoc] at resultHeld
  exact ⟨result, by simp [floatingNumberEncoded, sized, appended], resultHeld⟩

theorem stringValueEncoded_holds (val : List UInt8) :
    ∃ result, stringValueEncoded data val = some result ∧
      result.Holds (bytes ++ Wire.string val) := by
  obtain ⟨next, sized, nextHeld⟩ :=
    unsignedVarintEncoded_holds held .lengthDelimited (UInt64.ofNat val.length)
  obtain ⟨result, appended, resultHeld⟩ := append_holds nextHeld val
  rw [append_assoc] at resultHeld
  exact ⟨result, by simp [stringValueEncoded, sized, appended], resultHeld⟩

end Hiview.EventRaw
