import Hiview.EventRaw.Decoder

/-! Whether a decoded number is the one its bytes denote. The loop over the continuation
bytes has no bound but the end of the block: a tenth of them is shifted by more than the
width of the number, and of a ninth only three bits fit. -/
namespace Hiview.EventRaw
open List Varint

/-- The amounts by which the loop shifts, one for each byte that it looks at. -/
def nonTagShifts : Nat → UInt32 → List UInt8 → Nat → Nat → List UInt32
  | 0, _, _, _, _ => []
  | rounds + 1, offset, rawData, maxLen, pos =>
    if pos ≥ maxLen then []
    else match rawData[pos]? with
      | none => []
      | some byte =>
        if byte &&& 128 ≠ 0 then
          offset :: nonTagShifts rounds (offset + UInt32.ofNat nonTagByteOffset) rawData maxLen (pos + 1)
        else [offset]

/-- The shifts that a call of `UnsignedVarintDecoded` executes. -/
def shifts (rawData : List UInt8) (maxLen pos : Nat) : List UInt32 :=
  if pos ≥ maxLen then []
  else match rawData[pos]? with
    | none => []
    | some byte =>
      if byte &&& 32 ≠ 0 then
        nonTagShifts (maxLen - pos) (UInt32.ofNat tagByteOffset) rawData maxLen (pos + 1)
      else []

/-- Five low bits of the first byte, seven of each byte behind it. -/
def denoted : List UInt8 → Nat
  | [] => 0
  | tag :: groups => tag.toNat % 32 + 32 * Varint.groupValue groups

/-- The bytes of a number from its tag byte to the first byte that announces no other. -/
def Encoding : List UInt8 → Prop
  | [] => False
  | tag :: groups => if tag &&& 32 ≠ 0 then Varint.Chain groups else groups = []

instance : DecidablePred Encoding
  | [] => .isFalse id
  | tag :: groups =>
    inferInstanceAs (Decidable (if tag &&& 32 ≠ 0 then Varint.Chain groups else groups = []))

/-- The most bytes that a number of 64 bits needs: five bits and nine times seven. -/
def maxEncodedSize : Nat := 10

/-- What a call of the decoders at a position should come to. -/
structure Exact (block : List UInt8) (pos : Nat) : Prop where
  shifts : ∀ shift ∈ shifts block block.length pos, shift < 64
  unsigned : ∀ next val, unsignedVarintDecoded block block.length pos = .done next val →
    val.toNat = denoted ((block.drop pos).take (next - pos))
  signed : ∀ next val, signedVarintDecoded block block.length pos = .done next val →
    val.toInt = zigzagValue (denoted ((block.drop pos).take (next - pos)))
  rejects : ∀ encoding, Encoding encoding → Bytes.Occurs block pos encoding →
    2 ^ 64 ≤ denoted encoding ∨ maxEncodedSize < encoding.length →
    ∃ stopped, unsignedVarintDecoded block block.length pos = .failed stopped

section Loop
variable {block : List UInt8} {rounds pos : Nat}

variable (enough : block.length - pos ≤ rounds)
include enough

theorem nonTagBytesDecoded_outcome (val : UInt64) (offset : UInt32) :
    (Varint.Chain (chainAt (block.drop pos)) →
      ∃ found, nonTagBytesDecoded rounds val offset block block.length pos =
        .done (pos + (chainAt (block.drop pos)).length) found) ∧
    (¬ Varint.Chain (chainAt (block.drop pos)) →
      ∃ stopped, nonTagBytesDecoded rounds val offset block block.length pos = .failed stopped) := by
  induction rounds generalizing pos val offset with
  | zero =>
    rw [drop_eq_nil_of_le (by omega)]
    exact ⟨False.elim, fun _ => ⟨pos, rfl⟩⟩
  | succ rounds ih =>
    by_cases past : pos ≥ block.length
    · rw [drop_eq_nil_of_le past]
      exact ⟨False.elim, fun _ => ⟨pos, if_pos past⟩⟩
    · have before : pos < block.length := Nat.not_le.mp past
      rw [drop_eq_getElem_cons before]
      simp only [nonTagBytesDecoded, if_neg past, List.getElem?_eq_getElem before, continuation_bit, chainAt]
      by_cases more : 128 ≤ (block[pos]).toNat
      · rw [if_pos more, if_pos more, chain_cons more, length_cons, ← Nat.add_assoc pos,
          Nat.add_right_comm pos]
        have room : block.length - (pos + 1) ≤ rounds := by omega
        exact ih room _ _
      · rw [if_neg more, if_neg more]
        exact ⟨fun _ => ⟨_, rfl⟩, fun unended => absurd (Nat.not_le.mp more) unended⟩

theorem nonTagShifts_lt_iff (low : offset.toNat < 71) :
    (∀ shift ∈ nonTagShifts rounds offset block block.length pos, shift < 64) ↔
      offset.toNat + 7 * (chainAt (block.drop pos)).length < 71 := by
  induction rounds generalizing pos offset with
  | zero =>
    rw [drop_eq_nil_of_le (by omega)]
    simpa [nonTagShifts, chainAt] using low
  | succ rounds ih =>
    by_cases past : pos ≥ block.length
    · rw [drop_eq_nil_of_le past, nonTagShifts, if_pos past]
      simpa [chainAt] using low
    · have before : pos < block.length := Nat.not_le.mp past
      have here : offset < 64 ↔ offset.toNat < 64 := UInt32.lt_iff_toNat_lt
      rw [drop_eq_getElem_cons before, nonTagShifts, if_neg past, List.getElem?_eq_getElem before]
      simp only [continuation_bit, chainAt]
      by_cases more : 128 ≤ (block[pos]).toNat
      · have next : (offset + UInt32.ofNat nonTagByteOffset).toNat = offset.toNat + 7 := by
          change (offset.toNat + 7) % 2 ^ 32 = offset.toNat + 7
          omega
        rw [if_pos more, if_pos more, forall_mem_cons, length_cons, here]
        by_cases fits : offset.toNat < 64
        · rw [ih (by omega) (by omega), next]
          omega
        · omega
      · rw [if_neg more, if_neg more, forall_mem_singleton, length_singleton, here]
        omega

end Loop

/-- The bytes of the number at a position, as far as the block has them. -/
def numberAt (block : List UInt8) (pos : Nat) : List UInt8 :=
  match block.drop pos with
  | [] => []
  | tag :: rest => if tag &&& 32 ≠ 0 then tag :: Varint.chainAt rest else [tag]

section Number
variable {block : List UInt8} {pos : Nat}

theorem numberAt_cases (block : List UInt8) (pos : Nat) :
    (pos ≥ block.length ∧ numberAt block pos = []) ∨
      ∃ tag rest, ¬ pos ≥ block.length ∧ block[pos]? = some tag ∧ block.drop pos = tag :: rest ∧
        rest = block.drop (pos + 1) ∧
        ((¬ tag &&& 32 ≠ 0) ∧ numberAt block pos = [tag] ∨
          tag &&& 32 ≠ 0 ∧ numberAt block pos = tag :: chainAt rest) := by
  by_cases past : pos ≥ block.length
  · exact .inl ⟨past, by rw [numberAt, drop_eq_nil_of_le past]⟩
  · have before : pos < block.length := Nat.not_le.mp past
    have parts := drop_eq_getElem_cons before
    refine .inr ⟨block[pos], block.drop (pos + 1), past, List.getElem?_eq_getElem before, parts, rfl, ?_⟩
    rw [numberAt, parts]
    by_cases long : block[pos] &&& 32 ≠ 0
    · exact .inr ⟨long, if_pos long⟩
    · exact .inl ⟨long, if_neg long⟩

theorem numberAt_occurs (block : List UInt8) (pos : Nat) : Bytes.Occurs block pos (numberAt block pos) := by
  unfold Bytes.Occurs
  obtain ⟨_, number⟩ | ⟨tag, rest, _, _, parts, _, ⟨_, number⟩ | ⟨_, number⟩⟩ := numberAt_cases block pos
  · rw [number]
    exact nil_prefix
  · rw [number, parts]
    exact cons_prefix_cons.mpr ⟨rfl, nil_prefix⟩
  · rw [number, parts]
    exact cons_prefix_cons.mpr ⟨rfl, chainAt_isPrefix rest⟩

theorem Encoding.eq_numberAt (complete : Encoding encoding) (here : Bytes.Occurs block pos encoding) :
    encoding = numberAt block pos := by
  cases encoding with
  | nil => exact complete.elim
  | cons tag groups =>
    unfold Bytes.Occurs at here
    rw [numberAt]
    cases parts : block.drop pos with
    | nil =>
      rw [parts] at here
      cases prefix_nil.mp here
    | cons first rest =>
      rw [parts] at here
      obtain ⟨rfl, following⟩ := cons_prefix_cons.mp here
      dsimp only [Encoding] at complete ⊢
      by_cases long : tag &&& 32 ≠ 0
      · rw [if_pos long] at complete ⊢
        rw [chainAt_of_isPrefix complete following]
      · rw [if_neg long] at complete ⊢
        rw [complete]

theorem shifts_lt_iff (block : List UInt8) (pos : Nat) :
    (∀ shift ∈ shifts block block.length pos, shift < 64) ↔ (numberAt block pos).length ≤ maxEncodedSize := by
  unfold shifts maxEncodedSize
  obtain ⟨past, number⟩ | ⟨tag, rest, before, here, _, rfl, ⟨short, number⟩ | ⟨long, number⟩⟩ :=
    numberAt_cases block pos
  · simp [past, number]
  · simp [here, short, number]
  · have offset : (UInt32.ofNat tagByteOffset).toNat = 5 := rfl
    simp only [if_neg before, here, if_pos long, number, length_cons]
    rw [nonTagShifts_lt_iff (by omega) (by omega), offset]
    omega

theorem unsignedVarintDecoded_outcome (block : List UInt8) (pos : Nat) :
    (Encoding (numberAt block pos) → ∃ found, unsignedVarintDecoded block block.length pos =
      .done (pos + (numberAt block pos).length) found) ∧
    (¬ Encoding (numberAt block pos) → ∃ stopped, unsignedVarintDecoded block block.length pos = .failed stopped) := by
  unfold unsignedVarintDecoded
  obtain ⟨past, number⟩ | ⟨tag, rest, before, here, _, rfl, ⟨short, number⟩ | ⟨long, number⟩⟩ :=
    numberAt_cases block pos
  · rw [number, if_pos past]
    exact ⟨False.elim, fun _ => ⟨pos, rfl⟩⟩
  · simp only [number, if_neg before, here, Encoding, if_neg short]
    exact ⟨fun _ => ⟨_, rfl⟩, fun incomplete => absurd trivial incomplete⟩
  · simp only [number, if_neg before, here, Encoding, if_pos long, length_cons]
    rw [← Nat.add_assoc pos, Nat.add_right_comm pos]
    have room : block.length - (pos + 1) ≤ block.length - pos := by omega
    exact nonTagBytesDecoded_outcome room _ _

/-- A number of at most ten bytes and 64 bits is the one its bytes denote. -/
theorem unsignedVarintDecoded_exact (complete : Encoding (numberAt block pos))
    (short : (numberAt block pos).length ≤ maxEncodedSize) (small : denoted (numberAt block pos) < 2 ^ 64) :
    unsignedVarintDecoded block block.length pos =
      .done (pos + (numberAt block pos).length) (UInt64.ofNat (denoted (numberAt block pos))) := by
  have occurs := numberAt_occurs block pos
  unfold maxEncodedSize at short
  obtain ⟨_, number⟩ | ⟨tag, rest, before, here, _, rfl, ⟨single, number⟩ | ⟨long, number⟩⟩ :=
    numberAt_cases block pos
  · rw [number] at complete
    exact complete.elim
  · have low : (tag &&& 31).toNat = tag.toNat % 32 := low_bits tag 5 (by decide)
    simp only [unsignedVarintDecoded, number, if_neg before, here, if_neg single]
    simp only [length_singleton, denoted, groupValue, Nat.mul_zero, Nat.add_zero, ← low]
    rw [← UInt8.toNat_toUInt64, UInt64.ofNat_toNat]
  · have low : (tag &&& 31).toUInt64.toNat = tag.toNat % 32 := by
      exact low_bits tag 5 (by decide)
    have offset : (UInt32.ofNat tagByteOffset).toNat = 5 := rfl
    have bound := occurs.bound (Nat.le_of_lt (Nat.not_le.mp before))
    rw [number] at complete short small occurs bound
    simp only [Encoding, if_pos long] at complete
    simp only [denoted, length_cons] at small short bound
    have groupsHere := (Bytes.occurs_cons.mp occurs).2
    simp only [unsignedVarintDecoded, if_neg before, here, if_pos long, number]
    rw [nonTagBytesDecoded_reads complete groupsHere (by omega) (by omega) (by rw [low, offset]; omega)
      (by omega) (by rw [low, offset]; omega), low, offset, length_cons, denoted,
      ← Nat.add_assoc pos, Nat.add_right_comm pos]
    rfl

end Number

/-- The number at a position has at most ten bytes, and if it is complete it has 64 bits. -/
structure Fits (block : List UInt8) (pos : Nat) : Prop where
  short : (numberAt block pos).length ≤ maxEncodedSize
  small : Encoding (numberAt block pos) → denoted (numberAt block pos) < 2 ^ 64

theorem Fits.unsigned {next : Nat} (fits : Fits block pos)
    (read : unsignedVarintDecoded block block.length pos = .done next val) :
    val.toNat = denoted ((block.drop pos).take (next - pos)) := by
  by_cases complete : Encoding (numberAt block pos)
  · have small := fits.small complete
    rw [unsignedVarintDecoded_exact complete fits.short small] at read
    obtain ⟨rfl, rfl⟩ := Read.done.inj read
    rw [Nat.add_sub_cancel_left, (numberAt_occurs block pos).slice, UInt64.toNat_ofNat', Nat.mod_eq_of_lt small]
  · obtain ⟨stopped, failed⟩ := (unsignedVarintDecoded_outcome block pos).2 complete
    rw [failed] at read
    cases read

/-- The decoders are exact at the positions where the number fits, and at no other. -/
theorem decoded_exact_iff (block : List UInt8) (pos : Nat) : Exact block pos ↔ Fits block pos := by
  constructor
  · intro sound
    refine ⟨(shifts_lt_iff block pos).mp sound.shifts, fun complete => ?_⟩
    obtain ⟨found, read⟩ := (unsignedVarintDecoded_outcome block pos).1 complete
    have value := sound.unsigned _ found read
    rw [Nat.add_sub_cancel_left, (numberAt_occurs block pos).slice] at value
    rw [← value]
    exact found.toNat_lt
  · intro fits
    refine ⟨(shifts_lt_iff block pos).mpr fits.short, fun next val => fits.unsigned, ?_, ?_⟩
    · intro next val read
      obtain ⟨middle, uval, unsigned, ⟨⟩⟩ := Reader.done_of_andThen read
      rw [unzigzag_toInt, fits.unsigned unsigned]
    · intro encoding complete here oversized
      obtain rfl := complete.eq_numberAt here
      have short := fits.short
      have small := fits.small complete
      omega

/-- Eleven bytes that denote 2 ^ 68, and ten that denote 127 * 2 ^ 61. -/
def elevenBytes : List UInt8 := 32 :: (List.replicate 9 128 ++ [1])

def tenBytes : List UInt8 := 32 :: (List.replicate 8 128 ++ [127])

theorem oversized_accepted :
    unsignedVarintDecoded elevenBytes 11 0 = .done 11 16 ∧ 68 ∈ shifts elevenBytes 11 0 ∧
      ¬ Exact elevenBytes 0 ∧
    unsignedVarintDecoded tenBytes 10 0 = .done 10 16140901064495857664 ∧ denoted tenBytes = 127 * 2 ^ 61 ∧
      ¬ Exact tenBytes 0 := by
  have shifted : 68 ∈ shifts elevenBytes 11 0 := by decide
  have eleven : ¬ Exact elevenBytes 0 := fun sound => absurd (sound.shifts 68 shifted) (by decide)
  have read : unsignedVarintDecoded tenBytes 10 0 = .done 10 16140901064495857664 := by decide
  have ten : ¬ Exact tenBytes 0 := fun sound => absurd (sound.unsigned 10 _ read) (by decide)
  exact ⟨by decide, shifted, eleven, read, by decide, ten⟩

end Hiview.EventRaw
