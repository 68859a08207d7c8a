
/-! Reads and writes of a block of memory that fail outside of it. -/
namespace Hiview.Memory

/-- So many bytes from a position on. -/
def read (block : List UInt8) (pos count : Nat) : Option (List UInt8) :=
  let bytes := (block.drop pos).take count
  if bytes.length = count then some bytes else none

def write (block : List UInt8) (pos : Nat) (bytes : List UInt8) : Option (List UInt8) :=
  (read block pos bytes.length).map fun _ => block.take pos ++ bytes ++ block.drop (pos + bytes.length)

theorem read_eq (inside : pos + count ≤ block.length) :
    read block pos count = some ((block.drop pos).take count) := by
  rw [read, if_pos]
  rw [List.length_take, List.length_drop]
  omega

theorem write_eq (inside : pos + bytes.length ≤ block.length) :
    write block pos bytes = some (block.take pos ++ bytes ++ block.drop (pos + bytes.length)) := by
  rw [write, read_eq inside, Option.map_some]

theorem write_middle (before after : List UInt8) (here : pos = before.length) (same : bytes.length = old.length) :
    write (before ++ old ++ after) pos bytes = some (before ++ bytes ++ after) := by
  subst here
  rw [write_eq (by simp only [List.length_append]; omega)]
  simp [same]

end Hiview.Memory
