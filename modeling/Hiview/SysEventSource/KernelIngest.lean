import Hiview.SysEventSource.SocketIngest

/-! The kernel's device. One of the two device files announces five bytes less than it
delivers, so that the check of the received length leaves room for a message whose announced
length is too short for the copy that `ConverRawData` makes. -/
namespace Hiview.SysEventSource
open EventRaw Bytes List Memory Option

/-- A call of `read`: what it returns, and the buffer behind it. -/
structure DeviceRead where
  ret : Int32
  buffer : List UInt8
  within : ret.toInt ≤ buffer.length

namespace DeviceRead
variable (read : DeviceRead)

/-- The bytes of the buffer that the device has delivered. -/
def received : List UInt8 := read.buffer.take read.ret.toInt.toNat

def announced : Nat := Bytes.value (read.received.take 4)

theorem received_length : read.received.length = read.ret.toInt.toNat := by
  have within := read.within
  rw [received, length_take]
  omega

theorem received_append : read.received ++ read.buffer.drop read.ret.toInt.toNat = read.buffer :=
  take_append_drop _ _

end DeviceRead

structure BBoxDevice where
  fd : Int32 := -1
  hasBbox : Bool := false
  deriving DecidableEq

/-- An integer as a `size_t`. -/
def sizeT (value : Int) : Nat := (value % 18446744073709551616).toNat

namespace BBoxDevice
variable (device : BBoxDevice)

/-- `Open`, given what `open` returns for `/dev/sysevent` and for `/dev/bbox`. -/
def openDevice (sysevent bbox : Int32) : BBoxDevice × Int32 :=
  let opened := if sysevent < 0 then { device with fd := bbox } else { fd := sysevent, hasBbox := true }
  (opened, if opened.fd < 0 then -1 else opened.fd)

/-- `sizeof(struct Header)` is 4. -/
def isValidMsg (msg : List UInt8) (len : Int32) : Option Bool :=
  if len.toInt < getValidDataMinimumByteCount then some false
  else
    (uint32At msg 0).map fun word =>
      let dataByteCnt := word.toInt32.toInt
      !(device.hasBbox && dataByteCnt ≠ len.toInt ||
        !device.hasBbox && sizeT dataByteCnt ≠ sizeT (len.toInt - 4 - 1))

def receiveMsg (fill : UInt8) (buffer : List UInt8) (ret : Int32) (receivers : List (List (Option RawData))) :
    Option (Int × List (List (Option RawData))) :=
  (device.isValidMsg buffer ret).bind fun
    | false => some (-1, receivers)
    | true => (Ingest.handlerEvent (converRawData fill buffer) receivers).map (0, ·)

/-- How many bytes more than it announces the device delivers. -/
def extra : Nat := if device.hasBbox then 0 else 5

def Accepts (bytes : List UInt8) : Prop :=
  85 ≤ bytes.length ∧ Bytes.value (bytes.take 4) + device.extra = bytes.length

instance (bytes : List UInt8) : Decidable (device.Accepts bytes) := inferInstanceAs (Decidable (_ ∧ _))

/-- What `ConverRawData` does with an accepted message, by the announced length. -/
def converted (bytes : List UInt8) : Option (Option RawData) :=
  let announced := Bytes.value (bytes.take 4)
  if announced = 83 then none
  else if announced < 85 then some none
  else some (some (.ofData (Bytes.littleEndian 4 (announced + 1) ++ (bytes.drop 4).take 80 ++ [0] ++
    (bytes.take announced).drop 84)))

theorem sizeT_toInt32_eq_iff (word : UInt32) {num : Nat} (large : 5 ≤ num) (small : num < 2147483648) :
    sizeT word.toInt32.toInt = sizeT ((num : Int) - 4 - 1) ↔ word.toNat + 5 = num := by
  have bound := word.toNat_lt
  rw [toInt32_toInt, sizeT, sizeT]
  split <;> omega

variable {device} {read : DeviceRead}

theorem isValidMsg_received (device : BBoxDevice) (read : DeviceRead) (tail : List UInt8) :
    device.isValidMsg (read.received ++ tail) read.ret = some (decide (device.Accepts read.received)) := by
  have length := read.received_length
  have upper : read.ret.toInt < 2147483648 := read.ret.toInt_lt
  rw [isValidMsg]
  split
  · case isTrue short =>
    have short : read.ret.toInt < 85 := short
    exact congrArg some (decide_eq_false fun accepts => by have long := accepts.1; omega).symm
  · case isFalse long =>
    have long : 85 ≤ read.ret.toInt := Int.not_lt.mp long
    have same : read.ret.toInt = (read.received.length : Int) := by omega
    have word := uint32At_append tail (show 0 + 4 ≤ read.received.length by omega)
    rw [drop_zero] at word
    rw [word, Option.map_some, same]
    refine congrArg some ?_
    have small : read.received.length < 2147483648 := by omega
    have value := toNat_word (length_take_le 4 read.received)
    generalize UInt32.ofNat (Bytes.value (read.received.take 4)) = first at value
    have whole := toInt32_eq_iff first small
    have less := sizeT_toInt32_eq_iff first (by omega) small
    rw [Bool.eq_iff_iff, decide_eq_true_eq, Accepts, extra, ← value]
    cases device.hasBbox with
    | false =>
      simp [less]
      omega
    | true =>
      simp [whole]
      omega

variable (fill : UInt8) {source : List UInt8}

theorem converRawData_refused (first : uint32At source 0 = some word) (short : word.toNat < 83) :
    converRawData fill source = some none := by
  have room : (word + 1).toNat < 84 := by
    exact Nat.lt_of_le_of_lt (Nat.mod_le _ _) (Nat.succ_lt_succ short)
  have refuses : memcpyS (List.replicate (word + 1).toNat fill) 0 (word + 1) source 0 84 = some none := by
    have count : (84 : UInt32).toNat = 84 := rfl
    unfold memcpyS
    rw [RawData.memcpyAccepts, count, decide_eq_false (Nat.not_le.mpr room), Bool.and_false]
    rfl
  simp only [converRawData, first, bind_some, refuses]

theorem converRawData_overrun (first : uint32At source 0 = some 83) (long : 84 ≤ source.length) :
    converRawData fill source = none := by
  have header := memcpyS_header fill long (show 84 ≤ (84 : UInt32).toNat by decide)
  have outside : Memory.write (source.take 84 ++ List.replicate 0 fill) 84 [0] = none := by
    rw [Memory.write, Memory.read]
    simp
  have sum : (83 : UInt32) + 1 = 84 := rfl
  have size : (84 : UInt32).toNat = 84 := rfl
  rw [size] at header
  simp only [converRawData, first, Option.bind_some, sum, size, header, Nat.sub_self, outside, Option.bind_none]

theorem converRawData_bare (first : uint32At source 0 = some 84) (long : 84 ≤ source.length) :
    converRawData fill source = some none := by
  have header := memcpyS_header fill long (show 84 ≤ (85 : UInt32).toNat by decide)
  have length : 84 = (source.take 84).length := by
    rw [length_take]
    omega
  have inside := write_middle (source.take 84) [] length (show [(0 : UInt8)].length = [fill].length from rfl)
  have sum : (84 : UInt32) + 1 = 85 := rfl
  have size : (84 : UInt32).toNat = 84 := rfl
  have larger : (85 : UInt32).toNat = 85 := rfl
  have one : List.replicate (85 - 84) fill = [fill] := rfl
  rw [append_nil] at inside
  rw [larger, one] at header
  simp only [converRawData, first, bind_some, sum, size, larger, header, inside]
  rfl

theorem converRawData_received (tail : List UInt8) (accepts : device.Accepts bytes)
    (small : bytes.length < 2147483648) : converRawData fill (bytes ++ tail) = converted bytes := by
  obtain ⟨long, length⟩ := accepts
  have word := uint32At_append tail (show 0 + 4 ≤ bytes.length by omega)
  have value := toNat_word (length_take_le 4 bytes)
  have whole : 84 ≤ (bytes ++ tail).length := by
    rw [length_append]
    omega
  rw [drop_zero] at word
  rw [converted]
  split
  · case isTrue overrun =>
    rw [overrun] at word
    exact converRawData_overrun fill word whole
  · split
    · case isTrue short =>
      by_cases bare : Bytes.value (bytes.take 4) = 84
      · rw [bare] at word
        exact converRawData_bare fill word whole
      · exact converRawData_refused fill word (by omega)
    · case isFalse complete =>
      generalize announced : Bytes.value (bytes.take 4) = count at length complete
      have taken : (bytes.take count).length = count := by
        rw [length_take]
        omega
      have first : Bytes.value ((bytes.take count).take 4) = (bytes.take count).length := by
        rw [take_take, Nat.min_eq_left (by omega), announced, taken]
      have header : ((bytes.take count).drop 4).take 80 = (bytes.drop 4).take 80 := by
        rw [drop_take, take_take, Nat.min_eq_left (by omega)]
      have copied := converRawData_append fill (bytes.drop count ++ tail) (by omega) (by omega) first
      rwa [← append_assoc, take_append_drop, taken, header] at copied

theorem converted_overrun (announced : read.announced = 83) : converted read.received = none := if_pos announced

theorem converted_short (other : read.announced ≠ 83) (short : read.announced < 85) :
    converted read.received = some none :=
  (if_neg other).trans (if_pos short)

theorem converted_exists (other : read.announced ≠ 83) : ∃ rawData, converted read.received = some rawData := by
  by_cases short : read.announced < 85
  · exact ⟨_, converted_short other short⟩
  · exact ⟨_, (if_neg other).trans (if_neg short)⟩

theorem handlerEvent_none (listening : receivers ≠ []) :
    Ingest.handlerEvent none receivers = none := by
  cases receivers with
  | nil => exact absurd rfl listening
  | cons log rest => rfl

/-- All that a call of `ReceiveMsg` does, whatever lies in the buffer behind the received bytes. -/
theorem receiveMsg_received (tail : List UInt8) (receivers : List (List (Option RawData))) :
    device.receiveMsg fill (read.received ++ tail) read.ret receivers =
      if device.Accepts read.received then
        (Ingest.handlerEvent (converted read.received) receivers).map (0, ·)
      else some (-1, receivers) := by
  have upper : read.ret.toInt < 2147483648 := read.ret.toInt_lt
  have length := read.received_length
  rw [receiveMsg, isValidMsg_received]
  split
  · case isTrue accepts =>
    rw [decide_eq_true accepts, bind_some, converRawData_received fill tail accepts (by omega)]
  · case isFalse refused => rw [decide_eq_false refused, bind_some]

variable (receivers : List (List (Option RawData)))

theorem receiveMsg_buffer :
    device.receiveMsg fill read.buffer read.ret receivers =
      device.receiveMsg fill read.received read.ret receivers := by
  rw [← append_nil read.received, receiveMsg_received, ← read.received_append, receiveMsg_received]

/-- Within the buffer only received bytes are read, and no byte outside of the block that
`ConverRawData` allocates is written: a call that may touch nothing else comes to its end. -/
def Safe (device : BBoxDevice) (fill : UInt8) (read : DeviceRead) (receivers : List (List (Option RawData))) : Prop :=
  ∃ result, device.receiveMsg fill read.received read.ret receivers = some result

theorem accepts_short_iff :
    device.Accepts read.received ∧ read.announced < 85 ↔
      device.hasBbox = false ∧ 85 ≤ read.ret.toInt ∧ read.ret.toInt ≤ 89 ∧ (read.announced : Int) + 5 = read.ret.toInt := by
  have length := read.received_length
  rw [Accepts, ← DeviceRead.announced, extra]
  cases device.hasBbox with
  | false =>
    simp
    omega
  | true =>
    simp [Bool.true_eq_false, iff_false]
    omega

theorem safe_iff :
    Safe device fill read receivers ↔
      ¬(device.hasBbox = false ∧ read.ret = 88 ∧ read.announced = 83 ∧ receivers ≠ []) := by
  have outcome := @receiveMsg_received device read fill [] receivers
  rw [append_nil] at outcome
  rw [Safe, outcome]
  constructor
  · rintro ⟨result, ended⟩ ⟨bbox, ret, announced, listening⟩
    have ret : read.ret.toInt = 88 := by rw [ret]; rfl
    have accepts := ((@accepts_short_iff device read).mpr ⟨bbox, by omega, by omega, by omega⟩).1
    rw [if_pos accepts, converted_overrun announced, handlerEvent_none listening] at ended
    cases ended
  · intro apart
    split
    · case isTrue accepts =>
      by_cases announced : read.announced = 83
      · obtain ⟨bbox, -, -, ret⟩ := accepts_short_iff.mp ⟨accepts, by omega⟩
        have ret : read.ret = 88 := Int32.toInt_inj.mp (show read.ret.toInt = 88 by omega)
        have unheard : receivers = [] := by
          by_contra listening
          exact apart ⟨bbox, ret, announced, listening⟩
        rw [unheard]
        exact ⟨_, rfl⟩
      · obtain ⟨rawData, ended⟩ := converted_exists announced
        rw [ended, Ingest.handlerEvent_some]
        exact ⟨_, rfl⟩
    · exact ⟨_, rfl⟩

theorem receiveMsg_refused (refused : ¬ device.Accepts read.received) :
    device.receiveMsg fill read.buffer read.ret receivers = some (-1, receivers) := by
  rw [← read.received_append, receiveMsg_received, if_neg refused]

/-- A call of `ReceiveMsg` is safe and refuses what announces less than a header, except for
the messages of `/dev/bbox` with 85 to 89 bytes that announce five less. One of these, 88 bytes
that announce 83, leaves the allocated block; the others are handed over as null pointers. -/
theorem receiveMsg_safe_iff (device : BBoxDevice) (fill : UInt8) (read : DeviceRead)
    (receivers : List (List (Option RawData))) :
    (Safe device fill read receivers ∧ (read.announced < getValidDataMinimumByteCount →
        device.receiveMsg fill read.buffer read.ret receivers = some (-1, receivers)) ↔
      ¬(device.hasBbox = false ∧ 85 ≤ read.ret.toInt ∧ read.ret.toInt ≤ 89 ∧
        (read.announced : Int) + 5 = read.ret.toInt)) ∧
    (Safe device fill read receivers ↔
      ¬(device.hasBbox = false ∧ read.ret = 88 ∧ read.announced = 83 ∧ receivers ≠ [])) ∧
    device.receiveMsg fill read.buffer read.ret receivers = device.receiveMsg fill read.received read.ret receivers ∧
    (∀ result, device.receiveMsg fill read.buffer read.ret receivers = some result →
      read.announced < getValidDataMinimumByteCount →
        result = (-1, receivers) ∨ result = (0, receivers.map (· ++ [none]))) ∧
    (device.isValidMsg read.buffer read.ret = some true ∧ read.announced < getValidDataMinimumByteCount ↔
      device.hasBbox = false ∧ 85 ≤ read.ret.toInt ∧ read.ret.toInt ≤ 89 ∧
        (read.announced : Int) + 5 = read.ret.toInt) := by
  refine ⟨?_, safe_iff fill receivers, receiveMsg_buffer fill receivers, ?_, ?_⟩
  · rw [← accepts_short_iff]
    constructor
    · rintro ⟨-, refuses⟩ ⟨accepts, short⟩
      have ended := refuses short
      rw [← read.received_append, receiveMsg_received, if_pos accepts, Option.map_eq_some_iff] at ended
      obtain ⟨_, -, different⟩ := ended
      cases different
    · intro apart
      refine ⟨(safe_iff fill receivers).mpr ?_, fun short =>
        receiveMsg_refused fill receivers fun accepts => apart ⟨accepts, short⟩⟩
      rintro ⟨bbox, ret, announced, -⟩
      have ret : read.ret.toInt = 88 := by rw [ret]; rfl
      exact apart (accepts_short_iff.mpr ⟨bbox, by omega, by omega, by omega⟩)
  · intro result ended short
    rw [← read.received_append, receiveMsg_received] at ended
    split at ended
    · by_cases announced : read.announced = 83
      · rw [converted_overrun announced] at ended
        cases receivers with
        | nil => exact .inr (Option.some.inj ended).symm
        | cons log rest => cases ended
      · rw [converted_short announced short, Ingest.handlerEvent_some] at ended
        exact .inr (Option.some.inj ended).symm
    · exact .inl (Option.some.inj ended).symm
  · rw [← accepts_short_iff, ← read.received_append, isValidMsg_received, Option.some.injEq, decide_eq_true_eq]
    exact Iff.rfl

/-- The read buffer with 83 as its first word. -/
def overrunBuffer : List UInt8 := Bytes.littleEndian 4 83 ++ List.replicate 2044 0

theorem overrunBuffer_within : (88 : Int32).toInt ≤ overrunBuffer.length := by
  rw [overrunBuffer, length_append, length_replicate, littleEndian_length]
  decide

def overrunRead : DeviceRead := ⟨88, overrunBuffer, overrunBuffer_within⟩

/-- The message passes the check, and then the flag is written behind the block. -/
theorem overrun_by_one :
    let device : BBoxDevice := (BBoxDevice.openDevice {} (-1) 3).1
    device.isValidMsg overrunRead.buffer overrunRead.ret = some true ∧
      converRawData 0 overrunRead.buffer = none ∧
      device.receiveMsg 0 overrunRead.buffer overrunRead.ret [[]] = none ∧ ¬Safe device 0 overrunRead [[]] := by
  have bbox : (BBoxDevice.openDevice {} (-1) 3).1.hasBbox = false := by decide
  have announced : overrunRead.announced = 83 := by decide
  have overruns : ¬Safe (BBoxDevice.openDevice {} (-1) 3).1 0 overrunRead [[]] := fun safe =>
    (safe_iff 0 [[]]).mp safe ⟨bbox, rfl, announced, cons_ne_nil _ _⟩
  refine ⟨by decide +kernel, ?_, ?_, overruns⟩
  · exact converRawData_overrun 0 (by decide +kernel) (by decide +kernel)
  · rw [receiveMsg_buffer]
    exact Option.eq_none_iff_forall_not_mem.mpr fun result ended => overruns ⟨result, ended⟩

end BBoxDevice
end Hiview.SysEventSource
