import Hiview.EventRaw.RawData
import Hiview.Lib.Memory
import Hiview.Lib.Transition

/-! The socket device of the event server. The kernel's queue, the receive buffer and the
credential fields are parts of the state; a read or write outside of a block of memory is
a fault. The sockets do not block, and poll is level triggered. -/
namespace Hiview.SysEventSource
open EventRaw

def bufferSize : Nat := 384 * 1024

/-- The credentials that the kernel adds to a datagram. -/
structure Ucred where
  pid : Int32
  uid : UInt32
  deriving DecidableEq

structure Datagram where
  bytes : List UInt8
  cred : Ucred
  whole : bytes.length ≤ bufferSize
  deriving DecidableEq

def posOfUidInHeader : Nat := 59

def posOfPidInHeader : Nat := 63

def getValidDataMinimumByteCount : Nat := 4 + HiSysEventHeader.size

def uint32At (block : List UInt8) (pos : Nat) : Option UInt32 :=
  (Memory.read block pos 4).map fun word => UInt32.ofNat (Bytes.value word)

/-- `memcpy_s` of a part of the source: a null pointer is made of a refusal. -/
def memcpyS (dest : List UInt8) (pos : Nat) (destMax : UInt32) (source : List UInt8) (start : Nat) (count : UInt32) :
    Option (Option (List UInt8)) :=
  if RawData.memcpyAccepts destMax.toNat count.toNat then
    (Memory.read source start count.toNat).bind fun bytes => (Memory.write dest pos bytes).map some
  else some none

/-- The memory that `malloc` returns holds some bytes. -/
def converRawData (fill : UInt8) (source : List UInt8) : Option (Option RawData) :=
  (uint32At source 0).bind fun sourceLen =>
    let desLen := sourceLen + 1
    let sourceHeaderLen : UInt32 := 84
    (memcpyS (List.replicate desLen.toNat fill) 0 desLen source 0 sourceHeaderLen).bind fun
      | none => some none
      | some des =>
        (Memory.write des sourceHeaderLen.toNat [0]).bind fun des =>
          let desPos := sourceHeaderLen + 1
          (memcpyS des desPos.toNat (desLen - desPos) source sourceHeaderLen.toNat
            (sourceLen - sourceHeaderLen)).bind fun
              | none => some none
              | some des =>
                (Memory.write des 0 (Bytes.littleEndian 4 desLen.toNat)).map fun des => some (.ofData des)

structure SocketDevice where
  uCredPid : Int32 := 0
  uCredUid : UInt32 := 0
  eventCountPerCycle : UInt8
  deriving DecidableEq

namespace SocketDevice
variable (device : SocketDevice)

def readUcredInfoFromMsgh (cred : Ucred) : SocketDevice :=
  { device with uCredPid := cred.pid, uCredUid := cred.uid }

def isValidMsg (msg : List UInt8) (len : Nat) : Option Bool :=
  if len < getValidDataMinimumByteCount then some false
  else
    (uint32At msg 0).bind fun word =>
      let dataByteCnt := word.toInt32.toInt
      if dataByteCnt > bufferSize then some false
      else if dataByteCnt ≠ len then some false
      else
        (uint32At msg (4 + posOfUidInHeader)).bind fun uid =>
          if uid ≠ device.uCredUid then some false
          else
            (uint32At msg (4 + posOfPidInHeader)).map fun pid => decide (pid.toInt32 = device.uCredPid)

end SocketDevice

structure Cycle where
  buffer : List UInt8
  eventCount : UInt8 := 0

/-- A device with the kernel's queue, the call of `ReceiveMsg` that is running, and what
each receiver was handed; `arrived` are all datagrams so far. -/
structure Ingest where
  device : SocketDevice
  queue : List Datagram := []
  cycle : Option Cycle := none
  receivers : List (List (Option RawData))
  fault : Bool := false
  arrived : List Datagram := []

namespace Ingest

def start (eventCountPerCycle : UInt8) (receivers : Nat) : Ingest :=
  { device := { eventCountPerCycle := eventCountPerCycle }, receivers := List.replicate receivers [] }

variable (state : Ingest)

/-- Every receiver is handed what `ConverRawData` makes of the buffer for it. -/
def handlerEvent (converted : Option (Option RawData)) :
    List (List (Option RawData)) → Option (List (List (Option RawData)))
  | [] => some []
  | log :: rest =>
    converted.bind fun rawData => (handlerEvent converted rest).map ((log ++ [rawData]) :: ·)

/-- The rest of an iteration of `ReceiveMsg` after `recvmsg` has filled the buffer. -/
def handle (fill : UInt8) (cycle : Cycle) (len : Nat) : Ingest :=
  match state.device.isValidMsg cycle.buffer len with
  | none => { state with fault := true, cycle := none }
  | some false => { state with cycle := none }
  | some true =>
    match handlerEvent (converRawData fill cycle.buffer) state.receivers with
    | none => { state with fault := true, cycle := none }
    | some receivers =>
      let eventCount := cycle.eventCount + 1
      let perCycle := state.device.eventCountPerCycle
      { state with
        receivers := receivers
        cycle :=
          if perCycle ≠ 0 ∧ eventCount ≥ perCycle then none else some { cycle with eventCount := eventCount } }

/-- An iteration of `ReceiveMsg`; an empty datagram gives the return value of an error. -/
def receive (fill : UInt8) (cycle : Cycle) : Ingest :=
  match state.queue with
  | [] => { state with cycle := none }
  | datagram :: rest =>
    if datagram.bytes.length ≤ 0 then { state with queue := rest, cycle := none }
    else
      match Memory.write cycle.buffer 0 datagram.bytes with
      | none => { state with queue := rest, fault := true, cycle := none }
      | some buffer =>
        handle
          { state with queue := rest, device := state.device.readUcredInfoFromMsgh datagram.cred }
          fill { cycle with buffer := buffer } datagram.bytes.length

end Ingest

/-- What happens next: a datagram arrives, poll reports the socket and `ReceiveMsg` is
called, or a running call goes through its loop once. -/
inductive IngestLabel where
  | arrive (datagram : Datagram)
  | poll
  | receive
  deriving DecidableEq

def Ingest.step (fill : UInt8) (state : Ingest) : IngestLabel → Option Ingest
  | .arrive datagram =>
    some { state with queue := state.queue ++ [datagram], arrived := state.arrived ++ [datagram] }
  | .poll =>
    match state.cycle, state.queue with
    | none, _ :: _ => some { state with cycle := some { buffer := List.replicate bufferSize 0 } }
    | _, _ => none
  | .receive => state.cycle.map fun cycle => state.receive fill cycle

end Hiview.SysEventSource
