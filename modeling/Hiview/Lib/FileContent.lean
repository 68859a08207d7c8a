import Mathlib.Data.List.Basic

/-! The content of a regular file under writes at a position, and a copy in parts: what
has been copied stands at the front, what was there before behind it. -/
namespace Hiview.FileContent
open List
variable {source previous content : List UInt8} {offset : Nat}

/-- Writing past the end leaves a hole that reads as zeros. -/
def writeAt (content : List UInt8) (pos : Nat) (bytes : List UInt8) : List UInt8 :=
  content.take pos ++ List.replicate (pos - content.length) 0 ++ bytes ++ content.drop (pos + bytes.length)

/-- So much of the source has been copied over the previous content. -/
structure Copied (source previous : List UInt8) (offset : Nat) (content : List UInt8) : Prop where
  inside : offset ≤ source.length
  same : content = source.take offset ++ previous.drop offset

theorem copied_zero (source previous : List UInt8) : Copied source previous 0 previous :=
  ⟨Nat.zero_le _, rfl⟩

theorem writeAt_front (length : front.length = offset) (previous bytes : List UInt8) :
    writeAt (front ++ previous.drop offset) offset bytes = front ++ bytes ++ previous.drop (offset + bytes.length) := by
  have noHole : offset - (front ++ previous.drop offset).length = 0 := by
    rw [length_append, length]
    omega
  have rest : (front ++ previous.drop offset).drop (offset + bytes.length) = previous.drop (offset + bytes.length) := by
    rw [drop_append, length, Nat.add_sub_cancel_left, drop_drop, drop_eq_nil_of_le (by omega),
      nil_append]
  rw [writeAt, noHole, rest, take_left' length, replicate_zero, append_nil]

variable (copied : Copied source previous offset content)
include copied

theorem Copied.next (count : Nat) :
    Copied source previous (offset + ((source.drop offset).take count).length)
      (writeAt content offset ((source.drop offset).take count)) := by
  obtain ⟨inside, rfl⟩ := copied
  generalize part : (source.drop offset).take count = bytes
  have longer : source.take (offset + bytes.length) = source.take offset ++ bytes := by
    have taken := prefix_iff_eq_take.mp ( take_prefix count (source.drop offset))
    rw [take_add, ← part, ← taken]
  constructor
  · rw [← part, length_take, length_drop]
    omega
  · rw [longer]
    exact writeAt_front (length_take_of_le inside) previous bytes

theorem Copied.all (complete : source.length ≤ offset) :
    content = source ++ previous.drop source.length := by
  obtain rfl := Nat.le_antisymm copied.inside complete
  rw [copied.same, take_length]

omit copied

theorem append_drop_eq_iff : source ++ previous.drop source.length = source ↔ previous.length ≤ source.length := by
  rw [append_right_eq_self, drop_eq_nil_iff]

end Hiview.FileContent
