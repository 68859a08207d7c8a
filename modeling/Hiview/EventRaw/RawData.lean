import Hiview.EventRaw.BaseDef

/-! The growing buffer of `raw_data.cpp`. Bytes past the length are never read,
so a buffer is its initialised prefix together with a capacity; allocations
succeed. A failed operation leaves the object unchanged. -/
namespace Hiview.EventRaw
open List hiding count

def expandBufSize : Nat := 128

structure RawData where
  /-- `data_` up to `len_`; `none` is the null pointer. -/
  data : Option (List UInt8)
  capacity : Nat
  fits : ∀ bytes, data = some bytes → bytes.length ≤ capacity

namespace RawData

/-- `RawData()`. -/
def new : RawData := ⟨some [], expandBufSize, by rintro _ ⟨⟩; exact Nat.zero_le _⟩

def null : RawData := ⟨none, 0, by rintro _ ⟨⟩⟩

/-- `RawData(const RawData&)`: a copy of an empty object owns no buffer. -/
def copy (source : RawData) : RawData :=
  match source.data with
  | none => null
  | some [] => null
  | some bytes => ⟨some bytes, bytes.length, by rintro _ ⟨⟩; exact Nat.le_refl _⟩

/-- `RawData(uint8_t*, size_t)` of so many bytes. -/
def ofData : List UInt8 → RawData
  | [] => new
  | bytes => ⟨some bytes, bytes.length, by rintro _ ⟨⟩; exact Nat.le_refl _⟩

def getData (object : RawData) : List UInt8 := object.data.getD []

def getDataLength (object : RawData) : Nat := object.getData.length

/-- The capacity after room for `count` bytes at `pos` has been made. -/
def expandedCapacity (object : RawData) (count pos : Nat) : Nat :=
  if pos + count > object.capacity then
    object.capacity + (if count > expandBufSize then count else expandBufSize)
  else object.capacity

/-- `memcpy_s` accepts a nonempty destination that has room for the source. -/
def memcpyAccepts (destMax count : Nat) : Bool := decide (destMax ≠ 0) && decide (count ≤ destMax)

def overwrite (bytes source : List UInt8) (pos : Nat) : List UInt8 :=
  bytes.take pos ++ source ++ bytes.drop (pos + source.length)

variable {object : RawData}

theorem overwrite_fits (held : object.data = some bytes) (inside : pos ≤ bytes.length) :
    (overwrite bytes source pos).length ≤ object.expandedCapacity source.length pos := by
  have room := object.fits bytes held
  simp only [overwrite, length_append, length_take, length_drop, expandedCapacity]
  split
  · split <;> omega
  · omega

def update (object : RawData) (source : List UInt8) (pos : Nat) : Option RawData :=
  match held : object.data with
  | none => none
  | some bytes =>
    if inside : pos ≤ bytes.length then
      let capacity := object.expandedCapacity source.length pos
      if memcpyAccepts (capacity - pos) source.length then
        some ⟨some (overwrite bytes source pos), capacity,
          by rintro _ ⟨⟩; exact overwrite_fits held inside⟩
      else none
    else none

def append (object : RawData) (source : List UInt8) : Option RawData :=
  if source = [] then some object else object.update source object.getDataLength

/-- The object owns a buffer that holds exactly `bytes`. -/
def Holds (object : RawData) (bytes : List UInt8) : Prop := object.data = some bytes

theorem new_holds : new.Holds [] := rfl

theorem ofData_holds (bytes : List UInt8) : (ofData bytes).Holds bytes := by
  cases bytes <;> rfl

theorem Holds.getData (held : object.Holds bytes) : object.getData = bytes := by
  rw [RawData.getData, held, Option.getD_some]

theorem copy_getData (object : RawData) : object.copy.getData = object.getData := by
  unfold copy
  split <;> simp_all [getData, null]

theorem update_holds (held : object.Holds bytes) (inside : pos ≤ bytes.length) (nonempty : source ≠ []) :
    ∃ result, object.update source pos = some result ∧
      result.Holds (overwrite bytes source pos) := by
  have room := object.fits bytes held
  have positive : 0 < source.length := length_pos_iff.mpr nonempty
  have accepts : memcpyAccepts (object.expandedCapacity source.length pos - pos)
      source.length = true := by
    rw [memcpyAccepts, Bool.and_eq_true, decide_eq_true_eq, decide_eq_true_eq, expandedCapacity]
    split
    · split <;> omega
    · omega
  unfold update
  split
  · rename_i missing
    rw [held] at missing
    contradiction
  · rename_i found present
    obtain rfl := Option.some.inj (held.symm.trans present)
    simp only [dif_pos inside, accepts, if_true]
    exact ⟨_, rfl, rfl⟩

theorem append_holds (held : object.Holds bytes) (source : List UInt8) :
    ∃ result, object.append source = some result ∧ result.Holds (bytes ++ source) := by
  unfold append
  split
  · rename_i empty
    exact ⟨object, rfl, by simpa [empty] using held⟩
  · rename_i nonempty
    rw [getDataLength, held.getData]
    obtain ⟨result, updated, contents⟩ := update_holds held (Nat.le_refl _) nonempty
    refine ⟨result, updated, ?_⟩
    have past : bytes.drop (bytes.length + source.length) = [] :=
      drop_eq_nil_of_le (Nat.le_add_right _ _)
    simpa [overwrite, past] using contents

section Overwrite
variable {bytes source : List UInt8} {pos : Nat}

theorem overwrite_length (inside : pos + source.length ≤ bytes.length) :
    (overwrite bytes source pos).length = bytes.length := by
  simp only [overwrite, length_append, length_take, length_drop]
  omega

theorem overwrite_before (inside : pos ≤ bytes.length) (front : start + count ≤ pos) :
    ((overwrite bytes source pos).drop start).take count = (bytes.drop start).take count := by
  have taken : (bytes.take pos).length = pos := by rw [length_take]; omega
  rw [overwrite, append_assoc, drop_append_of_le_length (by omega),
    take_append_of_le_length (by rw [length_drop]; omega), drop_take, take_take,
    Nat.min_eq_left (by omega)]

theorem overwrite_at (source : List UInt8) (inside : pos ≤ bytes.length) :
    ((overwrite bytes source pos).drop pos).take source.length = source := by
  have taken : (bytes.take pos).length = pos := by rw [length_take]; omega
  rw [overwrite, append_assoc, drop_append_of_le_length (by omega),
    drop_of_length_le (by omega), nil_append, take_left]

theorem overwrite_after (inside : pos ≤ bytes.length) (behind : pos + source.length ≤ start) :
    (overwrite bytes source pos).drop start = bytes.drop start := by
  have front : (bytes.take pos ++ source).length = pos + source.length := by
    rw [length_append, length_take]
    omega
  rw [overwrite, drop_append, front, drop_of_length_le (by omega), nil_append, drop_drop]
  congr 1
  omega

end Overwrite

end RawData
end Hiview.EventRaw
