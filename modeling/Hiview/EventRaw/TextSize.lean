import Hiview.EventRaw.DecodedBlock
import Hiview.EventRaw.JsonText

/-! How long the parameters of an accepted event are when printed. Every value takes bytes of the
block in proportion to its text, and the block has at most `MAX_BLOCK_SIZE` of them. -/
namespace Hiview.EventRaw
open List JsonText

theorem nonTagBytesDecoded_takes (rounds : Nat) (val : UInt64) (offset : UInt32) :
    (nonTagBytesDecoded rounds val offset).Takes fun _ => 0 := by
  induction rounds generalizing val offset with
  | zero =>
    intro block maxLen pos next found read
    cases read
  | succ rounds ih =>
    rw [nonTagBytesDecoded_succ]
    refine Reader.takes_byte.andThen fun byte => ?_
    intro block maxLen pos next found read
    split at read
    · exact ih _ _ read
    · cases read
      exact Nat.le_refl _

theorem unsignedVarintDecoded_takes : unsignedVarintDecoded.Takes fun _ => 1 := by
  rw [unsignedVarintDecoded_eq]
  refine Reader.takes_byte.andThen fun byte => ?_
  intro block maxLen pos next found read
  split at read
  · exact nonTagBytesDecoded_takes _ _ _ read
  · cases read
    exact Nat.le_refl _

theorem copied_takes (count : Nat) : (copied count).Takes fun bytes => max count bytes.length := by
  intro block maxLen pos next bytes read
  rw [copied] at read
  split at read <;> cases read
  dsimp only
  rw [length_take, Nat.max_eq_left (Nat.min_le_left _ _)]

theorem stringValueDecoded_takes : stringValueDecoded.Takes fun text => text.length + 1 := by
  refine unsignedVarintDecoded_takes.andThen fun valByteCnt => ?_
  intro block maxLen pos next text read
  dsimp only at read
  split at read
  · cases read
  · split at read
    · cases read
      exact Nat.le_refl _
    · exact (Nat.add_le_add_left (Nat.le_max_right _ _) _).trans (copied_takes _ read)

theorem floatingNumberDecoded_takes : floatingNumberDecoded.Takes fun _ => 1 := by
  refine unsignedVarintDecoded_takes.andThen fun valByteCnt => ?_
  have converted (count : Nat) (make : List UInt8 → UInt64) :
      ((copied count).andThen fun bytes => Reader.pure (make bytes)).Takes fun _ => 0 :=
    (copied_takes count).andThen fun bytes => Reader.takes_pure (Nat.zero_sub _)
  intro block maxLen pos next found read
  dsimp only at read
  split at read
  · cases read
  · split at read
    · exact converted _ _ read
    · split at read
      · exact converted _ _ read
      · cases read

theorem arrayDecoded_takes {decoded : Reader α} {weight : α → Nat} (each : decoded.Takes weight) :
    (arrayDecoded decoded).Takes fun vals => (vals.map weight).sum + 1 := by
  refine unsignedVarintDecoded_takes.andThen fun size => ?_
  intro block maxLen pos next vals read
  split at read
  · cases read
  · exact each.repeated _ read

/-- The bytes that a value takes at least. -/
def Value.weight : Value → Nat
  | .dstring val => val.length + 1
  | .dstringArray vals => (vals.map fun val => val.length + 1).sum + 1
  | .unsignedVarintArray vals => (vals.map fun _ => 1).sum + 1
  | .signedVarintArray vals => (vals.map fun _ => 1).sum + 1
  | .floatingArray vals => (vals.map fun _ => 1).sum + 1
  | _ => 1

theorem decodeValue_takes (created : decodeValue type = some reader) : reader.Takes Value.weight := by
  have signed : signedVarintDecoded.Takes fun _ => 1 := unsignedVarintDecoded_takes.map fun _ => Nat.le_refl 1
  unfold decodeValue at created
  dsimp only at created
  repeat' split at created
  all_goals cases created
  · exact (arrayDecoded_takes stringValueDecoded_takes).map fun _ => Nat.le_refl _
  · exact stringValueDecoded_takes.map fun _ => Nat.le_refl _
  · exact (arrayDecoded_takes floatingNumberDecoded_takes).map fun _ => Nat.le_refl _
  · exact floatingNumberDecoded_takes.map fun _ => Nat.le_refl _
  · exact (arrayDecoded_takes unsignedVarintDecoded_takes).map fun _ => Nat.le_refl _
  · exact unsignedVarintDecoded_takes.map fun _ => Nat.le_refl _
  · exact (arrayDecoded_takes signed).map fun _ => Nat.le_refl _
  · exact signed.map fun _ => Nat.le_refl _

/-- The bytes that a member takes at least. -/
def memberWeight (member : List UInt8 × Value) : Nat := member.1.length + member.2.weight

theorem paramDecoded_takes : DecodedEvent.paramDecoded.Takes fun param => memberWeight param.pair := by
  have type : valueTypeDecoded.Takes fun _ => 0 := by
    rw [valueTypeDecoded_eq]
    exact Reader.takes_byte.andThen fun byte => Reader.takes_pure (Nat.zero_sub 1)
  have head : DecodedEvent.paramHead.Takes fun found => found.1.length :=
    stringValueDecoded_takes.andThen fun key => type.andThen fun type =>
      Reader.takes_pure (by dsimp only; omega)
  refine head.andThen fun found => ?_
  split
  · rintro block maxLen pos next param ⟨⟩
  · rename_i reader created
    exact (decodeValue_takes created).map fun value => (Nat.add_sub_cancel_left ..).le

theorem decimal_length (small : num < 2 ^ 64) : (Numeral.decimal num).length ≤ 20 := by
  rw [Numeral.decimal]
  split
  · exact (by decide : 1 ≤ 20)
  · rw [length_map, length_reverse]
    exact (Nat.digits_length_le_iff (by decide) num).mpr (small.trans (by decide))

theorem toString_length (val : Int64) : (Numeral.toString val.toInt).length ≤ 21 := by
  have low := val.le_toInt
  have high := val.toInt_lt
  have digits := @decimal_length val.toInt.natAbs (by omega)
  rw [Numeral.toString]
  split
  · exact Nat.succ_le_succ digits
  · exact Nat.le_succ_of_le digits

section Text
variable {printDouble : UInt64 → List UInt8} (printed : ∀ val, (printDouble val).length ≤ 400)

theorem appendArrayValue_length {text : α → List UInt8} {weight : α → Nat} (vals : List α)
    (each : ∀ val, (text val).length + 1 ≤ 512 * weight val) :
    (appendArrayValue (vals.map text)).length + 4 ≤ 512 * ((vals.map weight).sum + 1) := by
  have items : ((vals.map text).flatMap fun item => item ++ [44]).length ≤ 512 * (vals.map weight).sum := by
    induction vals with
    | nil => exact Nat.le_refl 0
    | cons val rest ih =>
      have one := each val
      simp only [map_cons, flatMap_cons, length_append, length_singleton, sum_cons] at ih ⊢
      omega
  simp only [appendArrayValue, length_cons, length_append, length_dropLast, length_nil]
  omega

include printed

theorem valueText_length (value : Value) : (valueText printDouble value).length + 4 ≤ 512 * value.weight := by
  cases value with
  | unsignedVarint val => exact (Nat.add_le_add_right (decimal_length val.toNat_lt) 4).trans (Nat.le_of_ble_eq_true rfl)
  | signedVarint val => exact (Nat.add_le_add_right (toString_length val) 4).trans (Nat.le_of_ble_eq_true rfl)
  | floating val => exact (Nat.add_le_add_right (printed val) 4).trans (Nat.le_of_ble_eq_true rfl)
  | dstring val =>
    simp only [valueText, quoted, Value.weight, length_cons, length_append, length_nil]
    omega
  | unsignedVarintArray vals =>
    exact appendArrayValue_length vals fun val =>
      (Nat.add_le_add_right (decimal_length val.toNat_lt) 1).trans (by decide)
  | signedVarintArray vals =>
    exact appendArrayValue_length vals fun val =>
      (Nat.add_le_add_right (toString_length val) 1).trans (by decide)
  | floatingArray vals =>
    exact appendArrayValue_length vals fun val =>
      (Nat.add_le_add_right (printed val) 1).trans (by decide)
  | dstringArray vals =>
    refine appendArrayValue_length vals fun val => ?_
    simp only [quoted, length_cons, length_append, length_nil]
    omega

theorem appendValue_length (members : List (List UInt8 × Value)) :
    (members.flatMap (appendValue printDouble)).length ≤ 512 * (members.map memberWeight).sum := by
  induction members with
  | nil => exact Nat.le_refl 0
  | cons member rest ih =>
    have value := valueText_length printed member.2
    simp only [flatMap_cons, length_append, map_cons, sum_cons, memberWeight, appendValue, memberText, quoted,
      length_cons, length_nil] at ih ⊢
    omega

/-- The parameters of an event take the bytes between the count and the end of the block. -/
theorem DecodedEvent.Layout.paramsText_length {block : List UInt8} {event : DecodedEvent}
    (layout : Layout block event) :
    ((event.allParams.map DecodedParam.pair).flatMap (appendValue printDouble)).length ≤ 512 * maxBlockSize := by
  have taken := paramDecoded_takes.repeated _ layout.params
  have inside := layout.pos_bounds.2
  have small := layout.small
  have members := appendValue_length printed (event.allParams.map DecodedParam.pair)
  rw [map_map] at members
  change _ + (event.allParams.map (memberWeight ∘ DecodedParam.pair)).sum ≤ _ at taken
  omega

end Text
end Hiview.EventRaw
