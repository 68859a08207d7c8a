import Mathlib.Data.Nat.Bitwise

/-! Fixed-width little-endian words and blocks of bytes read by position. Both
are independent of what is stored: a block is a list, a word is a number below
a power of 256, and `Occurs` says which bytes stand at a position. -/
namespace Hiview.Bytes

/-- The `width` low base-256 digits of `value`, least significant first. -/
def littleEndian : Nat → Nat → List UInt8
  | 0, _ => []
  | width + 1, value => UInt8.ofNat value :: littleEndian width (value / 256)

/-- The number a little-endian block denotes. -/
def value : List UInt8 → Nat
  | [] => 0
  | byte :: rest => byte.toNat + 256 * value rest

@[simp] theorem littleEndian_length (width v : Nat) : (littleEndian width v).length = width := by
  induction width generalizing v with
  | zero => rfl
  | succ width ih => simp [littleEndian, ih]

theorem value_littleEndian (width v : Nat) :
    value (littleEndian width v) = v % 256 ^ width := by
  induction width generalizing v with
  | zero => simp [littleEndian, value, Nat.mod_one]
  | succ width ih =>
    simp [littleEndian, value, ih, Nat.pow_succ']
    exact (Nat.mod_mul).symm

theorem value_littleEndian_of_lt (fits : v < 256 ^ width) : value (littleEndian width v) = v := by
  rw [value_littleEndian, Nat.mod_eq_of_lt fits]

theorem littleEndian_take (width count v : Nat) :
    (littleEndian width v).take count = littleEndian (min count width) v := by
  induction width generalizing count v with
  | zero => simp [littleEndian]
  | succ width ih =>
    cases count with
    | zero => simp [littleEndian]
    | succ count => simp [littleEndian, List.take_succ_cons, ih, Nat.succ_min_succ]

theorem value_zeros (count : Nat) : value (List.replicate count 0) = 0 := by
  induction count with
  | zero => rfl
  | succ count ih => simp [List.replicate_succ, value, ih]

theorem value_lt (block : List UInt8) : value block < 256 ^ block.length := by
  induction block with
  | nil => simp [value]
  | cons byte rest ih =>
    have digit := byte.toNat_lt
    simp [value, Nat.pow_succ']
    omega

/-- `bytes` stand in `block` from position `pos` on. -/
def Occurs (block : List UInt8) (pos : Nat) (bytes : List UInt8) : Prop :=
  bytes <+: block.drop pos

theorem occurs_nil (block : List UInt8) (pos : Nat) : Occurs block pos [] := List.nil_prefix

variable {block : List UInt8} {pos : Nat}

theorem occurs_cons :
    Occurs block pos (byte :: rest) ↔ block[pos]? = some byte ∧ Occurs block (pos + 1) rest := by
  unfold Occurs
  by_cases inside : pos < block.length
  · rw [List.drop_eq_getElem_cons inside, List.cons_prefix_cons, List.getElem?_eq_getElem inside,
      Option.some.injEq, eq_comm]
  · have past : block.drop pos = [] := List.drop_eq_nil_of_le (by omega)
    simp [past, List.getElem?_eq_none (show block.length ≤ pos by omega)]

theorem occurs_append :
    Occurs block pos (first ++ second) ↔
      Occurs block pos first ∧ Occurs block (pos + first.length) second := by
  induction first generalizing pos with
  | nil => simp [occurs_nil]
  | cons byte rest ih =>
    simp [occurs_cons, ih, and_assoc, Nat.add_assoc, Nat.add_comm 1]

theorem Occurs.bound (here : Occurs block pos bytes) (inside : pos ≤ block.length) :
    pos + bytes.length ≤ block.length := by
  have room := here.length_le
  rw [List.length_drop] at room
  omega

theorem Occurs.before_end (here : Occurs block pos (byte :: rest)) : ¬ pos ≥ block.length :=
  Nat.not_le.mpr (List.getElem?_eq_some_iff.mp (occurs_cons.mp here).1).1

theorem Occurs.slice (here : Occurs block pos bytes) : (block.drop pos).take bytes.length = bytes :=
  (List.prefix_iff_eq_take.mp here).symm

theorem occurs_of_split (split : block = before ++ bytes ++ after) :
    Occurs block before.length bytes := by
  subst split
  rw [Occurs, List.append_assoc, List.drop_left]
  exact List.prefix_append bytes after

end Hiview.Bytes
