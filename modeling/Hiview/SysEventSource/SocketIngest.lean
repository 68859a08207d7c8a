import Hiview.SysEventSource.EventServer
import Mathlib.Data.List.Forall2

/-! What a socket device hands to its receivers. Whether a datagram is accepted and what
becomes of it depend on its own bytes and credentials only, not on what the buffer and
the credential fields held before. -/
namespace Hiview.SysEventSource
open EventRaw Bytes Datagram Memory
open List hiding count length tail
open Option (bind_some map_some)

namespace Datagram
variable (datagram : Datagram)

/-- `IsValidMsg` with the datagram's own bytes and credentials. -/
def accepted : Bool :=
  SocketDevice.isValidMsg { uCredPid := datagram.cred.pid, uCredUid := datagram.cred.uid, eventCountPerCycle := 0 }
    datagram.bytes datagram.bytes.length = some true

/-- One zero byte more at the end of the header, and the length field increased by one. -/
def extended : List UInt8 :=
  Bytes.littleEndian 4 (Bytes.value (datagram.bytes.take 4) + 1) ++ (datagram.bytes.drop 4).take 80 ++ [0] ++
    datagram.bytes.drop 84

/-- The header that follows the length field. -/
def header : HiSysEventHeader := .ofBytes (datagram.extended.drop 4)

/-- What a receiver gets of an accepted datagram. -/
structure Authentic (rawData : RawData) : Prop where
  bytes : rawData.getData = datagram.extended
  length : Bytes.value (datagram.bytes.take 4) = datagram.bytes.length
  pid : datagram.header.pid.toInt32 = datagram.cred.pid
  uid : datagram.header.uid = datagram.cred.uid

end Datagram

section
variable {bytes : List UInt8} {device : SocketDevice}

variable (word : UInt32) (device : SocketDevice) (tail : List UInt8)

theorem read_append (inside : pos + count ≤ bytes.length) :
    read (bytes ++ tail) pos count = some ((bytes.drop pos).take count) := by
  rw [read_eq (by rw [length_append]; omega), drop_append_of_le_length (by omega),
    take_append_of_le_length (by rw [length_drop]; omega)]

theorem uint32At_append (inside : pos + 4 ≤ bytes.length) :
    uint32At (bytes ++ tail) pos = some (UInt32.ofNat (value ((bytes.drop pos).take 4))) := by
  rw [uint32At, read_append tail inside, map_some]

structure Valid (bytes : List UInt8) : Prop where
  long : 85 ≤ bytes.length
  length : Bytes.value (bytes.take 4) = bytes.length
  uid : UInt32.ofNat (Bytes.value ((bytes.drop 63).take 4)) = device.uCredUid
  pid : (UInt32.ofNat (Bytes.value ((bytes.drop 67).take 4))).toInt32 = device.uCredPid

theorem toNat_word (short : block.length ≤ 4) :
    (UInt32.ofNat (value block)).toNat = value block := by
  have bound := value_lt block
  have power : 256 ^ block.length ≤ 256 ^ 4 := Nat.pow_le_pow_right (by decide) short
  rw [UInt32.toNat_ofNat', Nat.mod_eq_of_lt (by omega)]

theorem toInt32_toInt :
    word.toInt32.toInt =
      if 2 * word.toNat < 4294967296 then (word.toNat : Int) else (word.toNat : Int) - 4294967296 :=
  BitVec.toInt_eq_toNat_cond word.toBitVec

theorem toInt32_eq_iff {num : Nat} (small : num < 2147483648) :
    word.toInt32.toInt = num ↔ word.toNat = num := by
  have bound := word.toNat_lt
  rw [toInt32_toInt]
  split <;> omega

theorem lt_of_le_bufferSize (small : num ≤ bufferSize) : num < 2147483648 := by
  rw [bufferSize] at small
  omega

theorem isValidMsg_append (small : bytes.length ≤ bufferSize) :
    ∃ answer, device.isValidMsg (bytes ++ tail) bytes.length = some answer ∧ (answer = true ↔ Valid device bytes) := by
  rw [SocketDevice.isValidMsg]
  split
  · case isTrue short =>
    refine ⟨false, rfl, iff_of_false (by simp) fun valid => ?_⟩
    exact absurd valid.long (Nat.not_le.mpr short)
  · case isFalse long =>
    have long : 85 ≤ bytes.length := Nat.not_lt.mp long
    have word := uint32At_append tail (show 0 + 4 ≤ bytes.length by omega)
    have uidWord := uint32At_append tail (show 63 + 4 ≤ bytes.length by omega)
    have pidWord := uint32At_append tail (show 67 + 4 ≤ bytes.length by omega)
    have length : (UInt32.ofNat (value (bytes.take 4))).toInt32.toInt = bytes.length ↔
        value (bytes.take 4) = bytes.length := by
      rw [toInt32_eq_iff _ (lt_of_le_bufferSize small), toNat_word (length_take_le _ _)]
    rw [drop_zero] at word
    simp only [word, bind_some]
    split
    · case isTrue large =>
      refine ⟨false, rfl, iff_of_false (by simp) fun valid => ?_⟩
      rw [length.mpr valid.length] at large
      exact absurd (Int.ofNat_le.mpr small) (Int.not_le.mpr large)
    · split
      · case isTrue other => exact ⟨false, rfl, iff_of_false (by simp) fun valid => other (length.mpr valid.length)⟩
      · case isFalse equal =>
        have same := length.mp (not_not.mp equal)
        simp only [posOfUidInHeader, posOfPidInHeader, Nat.reduceAdd, uidWord, pidWord, bind_some,
          map_some]
        split
        · case isTrue other => exact ⟨false, rfl, iff_of_false (by simp) fun valid => other valid.uid⟩
        · case isFalse uid =>
          refine ⟨_, rfl, ?_⟩
          rw [decide_eq_true_eq]
          exact ⟨fun pid => ⟨long, same, not_not.mp uid, pid⟩, Valid.pid⟩

theorem memcpyS_middle (before after : List UInt8) (here : pos = before.length) (positive : 0 < count.toNat)
    (fits : count.toNat ≤ destMax.toNat) (there : read source start count.toNat = some part)
    (same : part.length = old.length) :
    memcpyS (before ++ old ++ after) pos destMax source start count = some (some (before ++ part ++ after)) := by
  have accepts : RawData.memcpyAccepts destMax.toNat count.toNat = true := by
    rw [RawData.memcpyAccepts, Bool.and_eq_true, decide_eq_true_eq, decide_eq_true_eq]
    omega
  rw [memcpyS, if_pos accepts, there, bind_some, write_middle before after here same, map_some]

/-- The lengths that `ConverRawData` computes from the first word. -/
structure Lengths (bytes : List UInt8) (len : UInt32) : Prop where
  sourceLen : len.toNat = bytes.length
  desLen : (len + 1).toNat = bytes.length + 1
  room : (len + 1 - 85).toNat = bytes.length - 84
  count : (len - 84).toNat = bytes.length - 84

theorem lengths_ofNat (long : 85 ≤ bytes.length) (small : bytes.length < 2147483648) :
    Lengths bytes (UInt32.ofNat bytes.length) := by
  have sourceLen : (UInt32.ofNat bytes.length).toNat = bytes.length := by
    rw [UInt32.toNat_ofNat', Nat.mod_eq_of_lt (by omega)]
  generalize UInt32.ofNat bytes.length = len at sourceLen
  have desLen : (len + 1).toNat = bytes.length + 1 := by
    rw [UInt32.toNat_add, sourceLen]
    exact Nat.mod_eq_of_lt (show bytes.length + 1 < 4294967296 by omega)
  refine ⟨sourceLen, desLen, ?_, ?_⟩
  · rw [UInt32.toNat_sub_of_le _ _ (by rw [UInt32.le_iff_toNat_le, desLen]; exact Nat.le_succ_of_le long), desLen]
    exact Nat.add_sub_add_right bytes.length 1 84
  · rw [UInt32.toNat_sub_of_le _ _ (by rw [UInt32.le_iff_toNat_le, sourceLen]; exact Nat.le_of_succ_le long), sourceLen]
    rfl

theorem memcpyS_header {word : UInt32} (fill : UInt8) {source : List UInt8} (long : 84 ≤ source.length)
    (room : 84 ≤ word.toNat) :
    memcpyS (List.replicate word.toNat fill) 0 word source 0 84 =
      some (some (source.take 84 ++ List.replicate (word.toNat - 84) fill)) := by
  have there : read source 0 (84 : UInt32).toNat = some (source.take 84) :=
    read_eq (show 0 + 84 ≤ source.length by omega)
  have same : (source.take 84).length = (List.replicate 84 fill).length := by
    rw [length_take, length_replicate]
    omega
  have here : 0 = ([] : List UInt8).length := rfl
  have split : List.replicate word.toNat fill =
      [] ++ List.replicate 84 fill ++ List.replicate (word.toNat - 84) fill := by
    rw [nil_append, replicate_append_replicate]
    congr 1
    omega
  have fits : (84 : UInt32).toNat ≤ word.toNat := room
  rw [split, memcpyS_middle [] _ here (by decide) fits there same, nil_append]

/-- The parts of the copy fit exactly: header, flag and payload fill the memory. -/
theorem converRawData_append (fill : UInt8) (tail : List UInt8) (long : 85 ≤ bytes.length)
    (small : bytes.length < 2147483648) (length : value (bytes.take 4) = bytes.length) :
    converRawData fill (bytes ++ tail) = some (some (.ofData
      (littleEndian 4 (bytes.length + 1) ++ (bytes.drop 4).take 80 ++ [0] ++ bytes.drop 84))) := by
  have word := uint32At_append tail (show 0 + 4 ≤ bytes.length by omega)
  rw [drop_zero, length] at word
  have lengths := lengths_ofNat long small
  generalize UInt32.ofNat bytes.length = len at word lengths
  obtain ⟨sourceLen, desLen, room, count⟩ := lengths
  have header : (bytes.take 84).length = 84 := by
    rw [length_take]
    omega
  have first : memcpyS (List.replicate (bytes.length + 1) fill) 0 (len + 1) (bytes ++ tail) 0 84 =
      some (some (bytes.take 84 ++ [fill] ++ List.replicate (bytes.length - 84) fill)) := by
    have long : 84 ≤ (bytes ++ tail).length := by
      rw [length_append]
      omega
    have copied : memcpyS (List.replicate (len + 1).toNat fill) 0 (len + 1) (bytes ++ tail) 0 84 = _ :=
      memcpyS_header fill long (by omega)
    rw [desLen, take_append_of_le_length (by omega), show bytes.length + 1 - 84 = bytes.length - 84 + 1 by omega] at copied
    rw [copied, replicate_succ, append_assoc]
    rfl
  have cleared : write (bytes.take 84 ++ [fill] ++ List.replicate (bytes.length - 84) fill) 84 [0] =
      some (bytes.take 84 ++ [0] ++ List.replicate (bytes.length - 84) fill) :=
    write_middle (bytes.take 84) _ header.symm rfl
  have second : memcpyS (bytes.take 84 ++ [0] ++ List.replicate (bytes.length - 84) fill) 85 (len + 1 - 85)
      (bytes ++ tail) 84 (len - 84) = some (some (bytes.take 84 ++ [0] ++ bytes.drop 84)) := by
    have there : read (bytes ++ tail) 84 (len - 84).toNat = some (bytes.drop 84) := by
      rw [count, read_append tail (by omega), take_of_length_le (by rw [length_drop])]
    have here : 85 = (bytes.take 84 ++ [0]).length := by rw [length_append, header]; rfl
    have same : (bytes.drop 84).length = (List.replicate (bytes.length - 84) fill).length := by simp
    have copied := memcpyS_middle (bytes.take 84 ++ [0]) [] here (by omega) (count.trans room.symm).le there same
    rwa [append_nil, append_nil] at copied
  have sized : write (bytes.take 84 ++ [0] ++ bytes.drop 84) 0 (littleEndian 4 (bytes.length + 1)) =
      some (littleEndian 4 (bytes.length + 1) ++ (bytes.drop 4).take 80 ++ [0] ++ bytes.drop 84) := by
    have parts : bytes.take (4 + 80) = bytes.take 4 ++ (bytes.drop 4).take 80 := take_add
    have same : (littleEndian 4 (bytes.length + 1)).length = (bytes.take 4).length := by
      rw [littleEndian_length, length_take]
      omega
    have here : 0 = ([] : List UInt8).length := rfl
    have written := write_middle [] ((bytes.drop 4).take 80 ++ [0] ++ bytes.drop 84) here same
    rw [show 84 = 4 + 80 from rfl, parts]
    simpa only [nil_append, append_assoc] using written
  have flagPos : (84 : UInt32).toNat = 84 := rfl
  have payloadPos : (84 : UInt32) + 1 = 85 := rfl
  have payloadNat : (85 : UInt32).toNat = 85 := rfl
  simp only [converRawData, word, bind_some, desLen, first, flagPos, cleared, payloadPos, payloadNat, second,
    sized, map_some]

end

namespace Datagram
variable {datagram : Datagram}

theorem accepted_iff (device : SocketDevice) (tail : List UInt8) :
    (device.readUcredInfoFromMsgh datagram.cred).isValidMsg (datagram.bytes ++ tail) datagram.bytes.length =
      some datagram.accepted := by
  obtain ⟨answer, same, valid⟩ :=
    isValidMsg_append (device.readUcredInfoFromMsgh datagram.cred) tail datagram.whole
  obtain ⟨own, sameOwn, validOwn⟩ := isValidMsg_append
    { uCredPid := datagram.cred.pid, uCredUid := datagram.cred.uid, eventCountPerCycle := 0 } [] datagram.whole
  rw [append_nil] at sameOwn
  have accepted : datagram.accepted = own := by
    rw [accepted, sameOwn]
    simp
  rw [same, accepted, Option.some.injEq, Bool.eq_iff_iff, valid, validOwn]
  exact ⟨fun both => ⟨both.long, both.length, both.uid, both.pid⟩, fun both => ⟨both.long, both.length, both.uid, both.pid⟩⟩

theorem valid_of_accepted (accepted : datagram.accepted = true) (device : SocketDevice) :
    Valid (device.readUcredInfoFromMsgh datagram.cred) datagram.bytes := by
  obtain ⟨answer, same, valid⟩ :=
    isValidMsg_append (device.readUcredInfoFromMsgh datagram.cred) [] datagram.whole
  rw [accepted_iff, accepted] at same
  exact valid.mp (Option.some.inj same).symm

theorem extended_eq (length : value (datagram.bytes.take 4) = datagram.bytes.length) :
    datagram.extended = littleEndian 4 (datagram.bytes.length + 1) ++ (datagram.bytes.drop 4).take 80 ++ [0] ++
      datagram.bytes.drop 84 := by
  rw [extended, length]

theorem extended_word (inside : pos + 4 ≤ 80) (long : 85 ≤ datagram.bytes.length) :
    ((datagram.extended.drop 4).drop pos).take 4 = (datagram.bytes.drop (4 + pos)).take 4 := by
  have length : ((datagram.bytes.drop 4).take 80).length = 80 := by
    rw [length_take, length_drop]
    omega
  have front : datagram.extended.drop 4 =
      (datagram.bytes.drop 4).take 80 ++ ([0] ++ datagram.bytes.drop 84) := by
    rw [extended, append_assoc, append_assoc]
    exact drop_left' (littleEndian_length 4 _)
  rw [front, drop_append_of_le_length (by omega),
    take_append_of_le_length (by rw [length_drop]; omega), drop_take, take_take, drop_drop,
    Nat.min_eq_left (by omega)]

theorem authentic_ofData (accepted : datagram.accepted = true) :
    datagram.Authentic (.ofData datagram.extended) := by
  obtain ⟨long, length, uid, pid⟩ := valid_of_accepted accepted { eventCountPerCycle := 0 }
  refine ⟨(RawData.ofData_holds _).getData, length, ?_, ?_⟩
  · rw [header, HiSysEventHeader.ofBytes]
    simp only [extended_word (show 63 + 4 ≤ 80 by decide) long]
    exact pid
  · rw [header, HiSysEventHeader.ofBytes]
    simp only [extended_word (show 59 + 4 ≤ 80 by decide) long]
    exact uid

end Datagram

namespace Ingest

/-- Every receiver was handed one authentic event for each accepted datagram that was
read, in the order of their arrival, and nothing else. -/
structure Faithful (receivers : Nat) (state : Ingest) : Prop where
  inBounds : state.fault = false
  handed : ∃ (read : List Datagram) (events : List RawData), state.arrived = read ++ state.queue ∧
    List.Forall₂ Datagram.Authentic (read.filter Datagram.accepted) events ∧
    state.receivers = List.replicate receivers (events.map some)

/-- With a buffer of its size in a running call. -/
structure Kept (receivers : Nat) (state : Ingest) : Prop extends Faithful receivers state where
  buffer : ∀ cycle, state.cycle = some cycle → cycle.buffer.length = bufferSize

variable {receivers : Nat} {state next : Ingest} {fill : UInt8}

theorem handlerEvent_some (rawData : Option RawData) (receivers : List (List (Option RawData))) :
    handlerEvent (some rawData) receivers = some (receivers.map (· ++ [rawData])) := by
  induction receivers with
  | nil => rfl
  | cons log rest ih => rw [handlerEvent, ih, bind_some, map_some, map_cons]

theorem handle_kept {cycle : Cycle} {datagram : Datagram} {read : List Datagram} (device : SocketDevice)
    (inBounds : state.fault = false) (credentials : state.device = device.readUcredInfoFromMsgh datagram.cred)
    (buffer : cycle.buffer = datagram.bytes ++ tail) (size : cycle.buffer.length = bufferSize)
    (arrived : state.arrived = read ++ [datagram] ++ state.queue)
    (earlier : List.Forall₂ Datagram.Authentic (read.filter Datagram.accepted) events)
    (handed : state.receivers = List.replicate receivers (events.map some)) :
    Kept receivers (state.handle fill cycle datagram.bytes.length) := by
  rw [handle, credentials, buffer, Datagram.accepted_iff]
  cases accepted : datagram.accepted with
  | false =>
    have same : (read ++ [datagram]).filter Datagram.accepted = read.filter Datagram.accepted := by
      simp [filter_append, accepted]
    exact ⟨⟨inBounds, read ++ [datagram], events, arrived, same ▸ earlier, handed⟩, nofun⟩
  | true =>
    obtain ⟨long, length, -, -⟩ := Datagram.valid_of_accepted accepted device
    have converted := converRawData_append fill tail long (lt_of_le_bufferSize datagram.whole) length
    have authentic := Datagram.authentic_ofData accepted
    have longer : (read ++ [datagram]).filter Datagram.accepted = read.filter Datagram.accepted ++ [datagram] := by
      simp [filter_append, accepted]
    rw [← Datagram.extended_eq length] at converted
    simp only [converted, handed, handlerEvent_some, map_replicate]
    refine ⟨⟨inBounds, read ++ [datagram], events ++ [.ofData datagram.extended], arrived, ?_, ?_⟩, ?_⟩
    · rw [longer]
      exact rel_append earlier (.cons authentic .nil)
    · rw [map_append]
      rfl
    · intro running same
      split at same
      · cases same
      · cases same
        rwa [buffer] at size

theorem receive_kept (kept : Kept receivers state) {cycle : Cycle} (running : state.cycle = some cycle) :
    Kept receivers (state.receive fill cycle) := by
  obtain ⟨⟨inBounds, read, events, arrived, earlier, handed⟩, buffer⟩ := kept
  have size := buffer cycle running
  rw [receive]
  split
  · case h_1 empty => exact ⟨⟨inBounds, read, events, arrived, earlier, handed⟩, nofun⟩
  · case h_2 datagram rest queued =>
    rw [queued] at arrived
    have split : state.arrived = read ++ [datagram] ++ rest := by
      rw [arrived, append_assoc, singleton_append]
    split
    · case isTrue empty =>
      have rejected : datagram.accepted = false := by
        rw [← Bool.not_eq_true]
        intro accepted
        have long := (valid_of_accepted accepted { eventCountPerCycle := 0 }).long
        omega
      have same : (read ++ [datagram]).filter accepted = read.filter accepted := by
        simp [filter_append, rejected]
      exact ⟨⟨inBounds, read ++ [datagram], events, split, same ▸ earlier, handed⟩, nofun⟩
    · have whole := datagram.whole
      have written : write cycle.buffer 0 datagram.bytes =
          some (datagram.bytes ++ cycle.buffer.drop datagram.bytes.length) := by
        rw [write_eq (by omega), take_zero, nil_append, Nat.zero_add]
      simp only [written]
      refine handle_kept state.device inBounds rfl rfl ?_ split earlier handed
      rw [length_append, length_drop]
      omega

theorem step_kept (kept : Kept receivers state) (stepped : state.step fill label = some next) :
    Kept receivers next := by
  cases label with
  | arrive datagram =>
    cases stepped
    obtain ⟨⟨inBounds, read, events, arrived, earlier, handed⟩, buffer⟩ := kept
    refine ⟨⟨inBounds, read, events, ?_, earlier, handed⟩, buffer⟩
    rw [arrived, append_assoc]
  | poll =>
    rw [step] at stepped
    split at stepped
    · cases stepped
      obtain ⟨⟨inBounds, handed⟩, -⟩ := kept
      refine ⟨⟨inBounds, handed⟩, ?_⟩
      rintro _ ⟨⟩
      exact length_replicate
    · cases stepped
  | receive =>
    obtain ⟨cycle, running, rfl⟩ := Option.map_eq_some_iff.mp stepped
    exact receive_kept kept running

theorem start_kept (eventCountPerCycle : UInt8) (receivers : Nat) :
    Kept receivers (start eventCountPerCycle receivers) where
  inBounds := rfl
  handed := ⟨[], [], rfl, .nil, rfl⟩
  buffer := nofun

/-! ### Everything that arrives is read -/

/-- How many more steps the device can take without an arrival, at most. -/
def backlog (state : Ingest) : Nat :=
  match state.cycle, state.queue with
  | some _, queue => 2 * queue.length + 1
  | none, [] => 0
  | none, datagram :: rest => 2 * (datagram :: rest).length + 2

theorem backlog_le (state : Ingest) : state.backlog ≤ 2 * state.queue.length + 2 := by
  rw [backlog]
  split <;> simp_all

theorem handle_queue (state : Ingest) (fill : UInt8) (cycle : Cycle) (len : Nat) :
    (state.handle fill cycle len).queue = state.queue := by
  rw [handle]
  split
  · rfl
  · rfl
  · split <;> rfl

theorem receive_backlog (state : Ingest) (fill : UInt8) (cycle : Cycle) :
    (state.receive fill cycle).backlog < 2 * state.queue.length + 1 := by
  have shorter : ∀ (other : Ingest) (datagram : Datagram) (rest : List Datagram),
      state.queue = datagram :: rest → other.queue = rest → other.backlog < 2 * state.queue.length + 1 := by
    intro other datagram rest queued left
    have bound := other.backlog_le
    rw [left] at bound
    rw [queued, length_cons]
    omega
  rw [receive]
  split
  · case h_1 empty => simp [backlog, empty]
  · case h_2 datagram rest queued =>
    split
    · exact shorter _ datagram rest queued rfl
    · split
      · exact shorter _ datagram rest queued rfl
      · exact shorter _ datagram rest queued (handle_queue _ _ _ _)

theorem step_backlog (device : ∀ datagram, label ≠ .arrive datagram) (stepped : state.step fill label = some next) :
    next.backlog < state.backlog := by
  cases label with
  | arrive datagram => exact absurd rfl (device datagram)
  | poll =>
    rw [step] at stepped
    split at stepped
    · case h_1 datagram rest idle queued =>
      cases stepped
      simp [backlog, idle, queued]
    · cases stepped
  | receive =>
    obtain ⟨cycle, running, rfl⟩ := Option.map_eq_some_iff.mp stepped
    have before : state.backlog = 2 * state.queue.length + 1 := by rw [backlog, running]
    rw [before]
    exact receive_backlog state fill cycle

theorem run_backlog (device : ∀ datagram, .arrive datagram ∉ labels)
    (ran : Transition.run (step fill) state labels = some next) : labels.length + next.backlog ≤ state.backlog := by
  induction labels generalizing state with
  | nil =>
    cases ran
    exact (Nat.zero_add _).le
  | cons label rest ih =>
    obtain ⟨middle, first, following⟩ := Transition.run_cons ran
    have smaller := step_backlog (fun datagram same => device datagram (same ▸ mem_cons_self)) first
    have later := ih (fun datagram listed => device datagram (mem_cons_of_mem _ listed)) following
    rw [length_cons]
    omega

theorem queue_of_idle (poll : state.step fill .poll = none) (receive : state.step fill .receive = none) :
    state.queue = [] := by
  have idle : state.cycle = none := Option.map_eq_none_iff.mp receive
  cases queued : state.queue with
  | nil => rfl
  | cons datagram rest =>
    rw [step, idle, queued] at poll
    cases poll

/-- In every run the receivers get what is authentic, and without further arrivals the
device comes to rest after a bounded number of steps, with everything read. -/
theorem ingest_faithful {eventCountPerCycle : UInt8} {labels : List IngestLabel}
    (ran : Transition.run (step fill) (start eventCountPerCycle receivers) labels = some state) :
    state.Faithful receivers ∧
      ∀ more final, (∀ datagram, .arrive datagram ∉ more) → Transition.run (step fill) state more = some final →
        more.length ≤ 2 * state.queue.length + 2 ∧
          (final.step fill .poll = none → final.step fill .receive = none →
            final.Faithful receivers ∧ final.queue = []) := by
  have kept := Transition.run_invariant step_kept (start_kept eventCountPerCycle receivers) ran
  refine ⟨kept.toFaithful, fun more final device further => ⟨?_, fun poll receive => ⟨?_, queue_of_idle poll receive⟩⟩⟩
  · have bound := run_backlog device further
    have total := state.backlog_le
    omega
  · exact (Transition.run_invariant step_kept kept further).toFaithful

def sampleBytes : List UInt8 :=
  Bytes.littleEndian 4 85 ++ List.replicate 59 0 ++ Bytes.littleEndian 4 1000 ++ Bytes.littleEndian 4 1234 ++
    List.replicate 14 0

theorem sampleBytes_whole : sampleBytes.length ≤ bufferSize := by decide

/-- An event of process 1234 under user 1000, sent with the credentials of a process. -/
def sentBy (pid : Int32) : Datagram := ⟨sampleBytes, ⟨pid, 1000⟩, sampleBytes_whole⟩

/-- A forged datagram between two honest ones. -/
def forgedBetween : List IngestLabel :=
  [.arrive (sentBy 1234), .arrive (sentBy 99), .poll, .receive, .receive, .arrive (sentBy 1234), .poll, .receive,
    .receive]

theorem ingest_faithful_forged :
    ∃ state, Transition.run (step 170) (start 20 2) forgedBetween = some state ∧
      state.receivers.map List.length = [2, 2] ∧ state.Faithful 2 := by
  have counts : (Transition.run (step 170) (start 20 2) forgedBetween).map (fun state =>
      state.receivers.map List.length) = some [2, 2] := by decide +kernel
  obtain ⟨state, ran, same⟩ := Option.map_eq_some_iff.mp counts
  exact ⟨state, ran, same, (ingest_faithful ran).1⟩

end Ingest
end Hiview.SysEventSource
