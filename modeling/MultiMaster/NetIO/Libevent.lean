import MultiMaster.Foundation.Framing
import MultiMaster.Foundation.OrderedMap

/-!
# Connections over libevent

A `LibeventHandle` keeps one record for each connection.  Every payload is written
behind a control block with its size, and `recive_str_NoWait` takes payloads out
of the input as they become complete.  The definitions follow
`libevent_handle.cc`.

The spin locks of the source are counters.  One thread runs at a time here, so a
lock that would spin has no result.  Libevent itself is modelled by the input and
output of a connection and by the outcomes of the calls that may fail.
-/

namespace MultiMaster.NetIO

open Foundation

/-- Conversion of a size to `int`. -/
def toInt (size : Nat) : Int := Int.bmod size (2 ^ 32)

/-- Conversion of an `int` to `size_t`. -/
def toSize (value : Int) : Nat := (value % 2 ^ 64).toNat

/-- `sizeof(BufferControlBlock)`. -/
def controlBlockSize : Nat := 4

/-! ## Counter locks -/

def rwRLock (singal : Int) : Option Int :=
  if singal < 0 then none else some (singal + 1)

def rwWLock (singal : Int) : Option Int :=
  if 0 < singal then none else some (singal - 1)

def rwRUnlock (singal : Int) : Int := if 0 < singal then singal - 1 else singal

def rwWUnlock (singal : Int) : Int := if singal < 0 then singal + 1 else singal

/-! ## Buffered connections -/

/-- The two buffers of a connection and its read low watermark. -/
structure Bufferevent where
  input : Bytes
  output : Bytes
  readLow : Nat
  deriving DecidableEq

namespace Bufferevent

/-- `bufferevent_read`: the bytes read, at most `size`. -/
def read (bev : Bufferevent) (size : Nat) : Bytes × Bufferevent :=
  (bev.input.take size, { bev with input := bev.input.drop size })

/-- `bufferevent_write`, when libevent accepts the bytes and when it does not. -/
def write (bev : Bufferevent) (data : Bytes) (accepted : Bool) : Bufferevent × Int :=
  if accepted then ({ bev with output := bev.output ++ data }, 0) else (bev, -1)

/-- `bufferevent_setwatermark(bev, EV_READ, low, 0)`. -/
def setReadWatermark (bev : Bufferevent) (low : Nat) : Bufferevent :=
  { bev with readLow := low }

end Bufferevent

structure BevInfor where
  ip : CString
  port : Int
  bev : Bufferevent
  isListen : Bool
  blockSize : Int
  cacheBlock : Bool
  readSingal : Int
  writeSingal : Int
  deriving DecidableEq

namespace BevInfor

/-- The test by which connections are searched. -/
def hasAddress (info : BevInfor) (ip : CString) (port : Int) : Bool :=
  info.ip = ip ∧ info.port = port

/-- The read lock is kept when a control block was read; `readBuffer_NoWait` gives it
back. -/
def readBufferControlBlockNoWait (info : BevInfor) : Option (BevInfor × Int) := do
  let locked ← rwWLock info.readSingal
  let len := toInt info.bev.input.length
  if toSize len < controlBlockSize then
    return ({ info with readSingal := rwWUnlock locked }, 0)
  else
    let (block, bev) := info.bev.read controlBlockSize
    return ({ info with
      bev := bev
      readSingal := locked
      cacheBlock := true
      blockSize := toInt (leValue block) }, toInt block.length)

/-- Read the payload behind a cached control block into `data`.  Reading from the
input of a connection does not fail. -/
def readBufferNoWait (info : BevInfor) (data : Bytes) : BevInfor × Bytes × Int :=
  if info.cacheBlock then
    let maxSize := info.blockSize
    let len := toInt info.bev.input.length
    if len < maxSize then
      ({ info with
        bev := info.bev.setReadWatermark (toSize maxSize)
        readSingal := rwWUnlock info.readSingal }, data, 0)
    else
      let (bytes, bev) := (info.bev.setReadWatermark 0).read (toSize maxSize)
      ({ info with
        bev := bev
        cacheBlock := false
        readSingal := rwWUnlock info.readSingal }, overwrite data 0 bytes,
        toInt bytes.length)
  else
    (info, data, -1)

/-- Make room for the payload in a string that is not longer than it.  A negative size
makes `append` throw. -/
def growString (info : BevInfor) (bufferStr : Bytes) : Option Bytes :=
  if bufferStr.length ≤ toSize info.blockSize then
    if info.blockSize < 0 then none
    else some (bufferStr ++ List.replicate info.blockSize.toNat 0)
  else
    some bufferStr

/-- Write a control block and `dataSize` bytes.  The flags say which of the two
writes libevent accepts. -/
def writeBufferOnce (info : BevInfor) (data : Bytes) (dataSize : Int)
    (blockAccepted dataAccepted : Bool) : Option (BevInfor × Bool) := do
  let locked ← rwWLock info.writeSingal
  let block := leBytes controlBlockSize (toSize dataSize)
  let (bev, written) := info.bev.write block blockAccepted
  if written < 0 then
    return ({ info with bev := bev, writeSingal := rwWUnlock locked }, false)
  else
    let (bev, written) := bev.write (data.take (toSize dataSize)) dataAccepted
    return ({ info with bev := bev, writeSingal := rwWUnlock locked }, !decide (written < 0))

end BevInfor

/-! ## The connection table -/

structure LibeventHandle where
  maxBevId : Int
  bevMapRwLockSingal : Int
  bevMap : OrderedMap Int BevInfor
  listenVectorRwLockSingal : Int
  listenIdVector : List Int

namespace LibeventHandle

/-- The state that `init_handle` sets up. -/
def initHandle : LibeventHandle :=
  { maxBevId := 0
    bevMapRwLockSingal := 0
    bevMap := OrderedMap.empty
    listenVectorRwLockSingal := 0
    listenIdVector := [] }

/-- Assign to a record of the table, `bev_map[connect_id]`. -/
def setBevInfor (handle : LibeventHandle) (connectId : Int) (info : BevInfor) :
    LibeventHandle :=
  { handle with bevMap := handle.bevMap.insert connectId info }

/-- Look a connection up under the read lock of the table. -/
def lookupConnection (handle : LibeventHandle) (connectId : Int) :
    Option (LibeventHandle × Option BevInfor) := do
  let locked ← rwRLock handle.bevMapRwLockSingal
  return ({ handle with bevMapRwLockSingal := rwRUnlock locked }, handle.bevMap.lookup connectId)

def getReciveBufferLength (handle : LibeventHandle) (connectId : Int) :
    Option (LibeventHandle × Int) := do
  let (handle, found) ← handle.lookupConnection connectId
  match found with
  | none => return (handle, 0)
  | some info =>
      let locked ← rwRLock info.readSingal
      let len := toInt info.bev.input.length
      return (handle.setBevInfor connectId { info with readSingal := rwRUnlock locked }, len)

/-- Receive one payload into `bufferStr` if it is complete. -/
def reciveStrNoWait (handle : LibeventHandle) (connectId : Int) (bufferStr : Bytes) :
    Option (LibeventHandle × Bytes × Int) := do
  let (handle, found) ← handle.lookupConnection connectId
  match found with
  | none => return (handle, bufferStr, -1)
  | some _ =>
      let (handle, length) ← handle.getReciveBufferLength connectId
      if toSize length ≤ controlBlockSize then
        return (handle, bufferStr, 0)
      else
        let info ← handle.bevMap.lookup connectId
        let info ← if info.cacheBlock then some info
          else info.readBufferControlBlockNoWait.map Prod.fst
        let bufferStr ← info.growString bufferStr
        let read := info.readBufferNoWait bufferStr
        return (handle.setBevInfor connectId read.1, read.2)

/-- Returns true whether or not the write succeeded.  The lock of the table is not
given back when the connection does not exist. -/
def send (handle : LibeventHandle) (connectId : Int) (sendBytes : Bytes) (sendSize : Int)
    (blockAccepted dataAccepted : Bool) : Option (LibeventHandle × Bool) :=
  if connectId < 0 then
    some (handle, false)
  else do
    let locked ← rwRLock handle.bevMapRwLockSingal
    match handle.bevMap.lookup connectId with
    | none => return ({ handle with bevMapRwLockSingal := locked }, false)
    | some info =>
        let written ← info.writeBufferOnce sendBytes sendSize blockAccepted dataAccepted
        return ({ handle with bevMapRwLockSingal := rwRUnlock locked }.setBevInfor connectId
          written.1, true)

/-- A new outgoing connection, when it can be set up.  `fresh` is the memory of the
new record: the source leaves its control block uninitialised. -/
def addBuffereventConnect (handle : LibeventHandle) (ip : CString) (port : Int)
    (connected : Bool) (fresh : Int × Bool) : Option (LibeventHandle × Int) :=
  if connected then do
    let peer : BevInfor :=
      { ip := ip
        port := port
        bev := ⟨[], [], 0⟩
        isListen := false
        blockSize := fresh.1
        cacheBlock := fresh.2
        readSingal := 0
        writeSingal := 0 }
    let peerId := handle.maxBevId
    let locked ← rwWLock handle.bevMapRwLockSingal
    return ({ handle with
      maxBevId := handle.maxBevId + 1
      bevMapRwLockSingal := rwWUnlock locked
      bevMap := handle.bevMap.insert peerId peer }, peerId)
  else
    some (handle, -1)

/-- A connection that was accepted by the listener. -/
def addBuffereventListen (handle : LibeventHandle) (ip : CString) (port : Int)
    (fresh : Int × Bool) : Option (LibeventHandle × Int) := do
  let peer : BevInfor :=
    { ip := ip
      port := port
      bev := ⟨[], [], 0⟩
      isListen := true
      blockSize := fresh.1
      cacheBlock := fresh.2
      readSingal := 0
      writeSingal := 0 }
  let peerId := handle.maxBevId
  let locked ← rwWLock handle.bevMapRwLockSingal
  let listening ← rwWLock handle.listenVectorRwLockSingal
  return ({ handle with
    maxBevId := handle.maxBevId + 1
    bevMapRwLockSingal := rwWUnlock locked
    bevMap := handle.bevMap.insert peerId peer
    listenVectorRwLockSingal := rwWUnlock listening
    listenIdVector := handle.listenIdVector ++ [peerId] }, peerId)

/-- The first connection to an address, or a new one. -/
def getConnectionId (handle : LibeventHandle) (ip : CString) (port : Int)
    (tryConnect connected : Bool) (fresh : Int × Bool) : Option (LibeventHandle × Int) := do
  let locked ← rwRLock handle.bevMapRwLockSingal
  let unlocked := { handle with bevMapRwLockSingal := rwRUnlock locked }
  match handle.bevMap.entries.find? fun entry => entry.2.hasAddress ip port with
  | some entry => return (unlocked, entry.1)
  | none =>
      if tryConnect then unlocked.addBuffereventConnect ip port connected fresh
      else return (unlocked, -1)

/-! ## Read callbacks -/

variable {State : Type}

/-- A read callback, with the number of rounds it may take: the connection, what it
has done so far, and whether the input was emptied. -/
abbrev ReadCallback (State : Type) :=
  Nat → LibeventHandle → State → Option (LibeventHandle × State × Bool)

/-- Receive messages while there is input, until one is incomplete or its handler
rejects it.  The handler is given the bytes and the size received. -/
def receiveLoop (connectId : Int) (handler : State → Bytes → Int → Option (State × Bool)) :
    ReadCallback State
  | 0, _, _ => none
  | fuel + 1, handle, state => do
      let (handle, length) ← handle.getReciveBufferLength connectId
      if 0 < length then
        let (handle, bufferStr, reciveSize) ← handle.reciveStrNoWait connectId []
        if reciveSize ≤ 0 then
          return (handle, state, false)
        else
          let (state, accepted) ← handler state bufferStr reciveSize
          if accepted then receiveLoop connectId handler fuel handle state
          else return (handle, state, false)
      else
        return (handle, state, true)

/-- Length of the input of a connection. -/
def inputLength (handle : LibeventHandle) (connectId : Int) : Nat :=
  match handle.bevMap.lookup connectId with
  | none => 0
  | some info => info.bev.input.length

/-- Libevent appends a chunk to the input of a connection and runs the read callback
when the low watermark is reached. -/
def arrive (handle : LibeventHandle) (connectId : Int) (callback : ReadCallback State)
    (state : State) (chunk : Bytes) : Option (LibeventHandle × State) := do
  let info ← handle.bevMap.lookup connectId
  let bev := { info.bev with input := info.bev.input ++ chunk }
  let handle := handle.setBevInfor connectId { info with bev := bev }
  if bev.readLow ≤ bev.input.length then
    -- Every round but the last takes at least one byte out of the input.
    let result ← callback (bev.input.length + 1) handle state
    return (result.1, result.2.1)
  else
    return (handle, state)

end LibeventHandle

end MultiMaster.NetIO
