import Mathlib.Data.List.AList
import MultiMaster.Packet.FixedBuffer

/-!
# Packets as JSON documents

A packet is a JSON array: an object with the header, objects with items, and an
object with notes.  A note says that a slot of an item is a pointer and gives the
bytes it points to.  Parsing puts header, items and noted bytes into the caller's
buffer and stores their addresses in the slots.  The definitions follow
`json_rpc_packet.cc`.

The text is represented by the sequence of events that writing it takes and
reading it gives.  Reading reports a non-negative number as unsigned.  A handler
has no result where the source takes from an empty stack, indexes beyond a vector
or reads beyond a string.
-/

namespace MultiMaster.Packet

open Foundation

/-- Calls of the JSON writer and of the reader's handler. -/
inductive JsonEvent where
  | startArray
  | endArray
  | startObject
  | endObject
  | key (name : Bytes)
  | string (value : Bytes)
  | int (value : Int)
  | uint (value : UInt32)
  | null
  | bool (value : Bool)
  | int64 (value : Int)
  | uint64 (value : Nat)
  | double
  deriving DecidableEq

/-- The event the reader gives for an event of the writer. -/
def JsonEvent.replay : JsonEvent → JsonEvent
  | .int value => if 0 ≤ value then .uint (UInt32.ofNat value.toNat) else .int value
  | event => event

/-- The bytes of a string literal of the source. -/
def literal (name : String) : Bytes := (CString.ofString name).val

/-! ## The reader's handler -/

inductive ParseType where
  | object
  | array
  | key
  | ptrKey
  | ptrOffset
  deriving DecidableEq

structure ParseItem where
  type : ParseType
  key : Bytes
  deriving DecidableEq

/-- The top of the stack is the head of `parseStack`. -/
structure BufferReadHandler where
  objectPtrs : List Int
  nameIdMap : AList fun _ : Bytes => Int
  parseStack : List ParseItem
  objectBuffer : FixedBuffer

namespace BufferReadHandler

def new : BufferReadHandler := ⟨[], ∅, [], .new⟩

/-- `name_id_map[name]`, which enters an unknown name with zero. -/
def nameId (handler : BufferReadHandler) (name : Bytes) : BufferReadHandler × Int :=
  match handler.nameIdMap.lookup name with
  | some index => (handler, index)
  | none => ({ handler with nameIdMap := handler.nameIdMap.insert name 0 }, 0)

/-- `object_ptrs[index]`. -/
def objectPtr (handler : BufferReadHandler) (index : Int) : Option Int :=
  if 0 ≤ index then handler.objectPtrs[index.toNat]? else none

/-- Append bytes to the buffer and enter their offset under a name. -/
def store (handler : BufferReadHandler) (name value : Bytes) : Option BufferReadHandler := do
  let appended ← handler.objectBuffer.append value (wrapInt value.length)
  return { handler with
    objectBuffer := appended.1
    objectPtrs := handler.objectPtrs ++ [appended.2]
    nameIdMap := handler.nameIdMap.insert name handler.objectPtrs.length }

/-- The `unsigned` whose bytes a stack item carries. -/
def readOffset (item : ParseItem) : Option Nat :=
  if 4 ≤ item.key.length + 1 then some (leValue ((item.key ++ [0]).take 4)) else none

def uint (handler : BufferReadHandler) (value : UInt32) :
    Option (BufferReadHandler × Bool) :=
  match handler.parseStack with
  | [] => none
  | item :: stack =>
      if item.key = literal "ptr_offset" then
        some ({ handler with
          parseStack := ⟨.ptrOffset, leBytes 4 value.toNat⟩ :: stack }, true)
      else if item.key = literal "SegmentType" then
        some ({ handler with parseStack := stack }, true)
      else do
        let stored ← { handler with parseStack := stack }.store item.key
          (leBytes 4 value.toNat)
        return (stored, true)

def string (handler : BufferReadHandler) (value : Bytes) :
    Option (BufferReadHandler × Bool) :=
  match handler.parseStack with
  | [] => none
  | item :: stack =>
      if item.key = literal "ptr_key" then
        some ({ handler with parseStack := ⟨.ptrKey, value⟩ :: stack }, true)
      else if item.key = literal "ptr_val" then
        match stack with
        | itemOffset :: itemKey :: stack => do
            let ptrOffset ← readOffset itemOffset
            let appended ← handler.objectBuffer.append value (wrapInt value.length)
            let address := appended.1.getAddress appended.2
            let (handler, index) := { handler with
              parseStack := stack
              objectBuffer := appended.1 }.nameId itemKey.key
            let startOffset ← handler.objectPtr index
            let written ← handler.objectBuffer.put (leBytes 8 address.toNat)
              (wrapInt (startOffset + ptrOffset)) 8
            return ({ handler with objectBuffer := written.1 }, true)
        | _ => none
      else do
        let stored ← { handler with parseStack := stack }.store item.key value
        return (stored, true)

def startObject (handler : BufferReadHandler) : BufferReadHandler :=
  { handler with parseStack := ⟨.object, []⟩ :: handler.parseStack }

def key (handler : BufferReadHandler) (name : Bytes) : BufferReadHandler :=
  { handler with parseStack := ⟨.key, name⟩ :: handler.parseStack }

/-- Take the start of a scope off the stack; reports a start of another kind. -/
def endScope (handler : BufferReadHandler) (type : ParseType) :
    Option (BufferReadHandler × Bool) :=
  match handler.parseStack with
  | [] => none
  | item :: stack => some ({ handler with parseStack := stack }, item.type = type)

def endObject (handler : BufferReadHandler) : Option (BufferReadHandler × Bool) :=
  handler.endScope .object

def endArray (handler : BufferReadHandler) : Option (BufferReadHandler × Bool) :=
  handler.endScope .array

/-- With an empty stack the type of an uninitialised item is compared; `memory` is
what that is. -/
def startArray (handler : BufferReadHandler) (memory : ParseType) :
    Option BufferReadHandler :=
  match handler.parseStack with
  | [] => if memory = .key then none else some { handler with parseStack := [⟨.array, []⟩] }
  | item :: stack =>
      if item.type = .key then some { handler with parseStack := ⟨.array, []⟩ :: stack }
      else some { handler with parseStack := ⟨.array, []⟩ :: item :: stack }

def setBuffer (handler : BufferReadHandler) (address : Nat) (size : Int) :
    Option BufferReadHandler := do
  let buffer ← FixedBuffer.setBuffer address size
  return { handler with objectBuffer := buffer }

def appendTailOffset (handler : BufferReadHandler) : BufferReadHandler :=
  { handler with objectPtrs := handler.objectPtrs ++ [handler.objectBuffer.size] }

/-- One call of the reader. -/
def handle (memory : ParseType) (handler : BufferReadHandler) :
    JsonEvent → Option (BufferReadHandler × Bool)
  | .startArray => (handler.startArray memory).map (·, true)
  | .endArray => handler.endArray
  | .startObject => some (handler.startObject, true)
  | .endObject => handler.endObject
  | .key name => some (handler.key name, true)
  | .string value => handler.string value
  | .uint value => handler.uint value
  | .int _ | .null | .bool _ | .int64 _ | .uint64 _ | .double => some (handler, true)

/-- The reader calls the handler until that returns false. -/
def read (memory : ParseType) (handler : BufferReadHandler) :
    List JsonEvent → Option (BufferReadHandler × Bool)
  | [] => some (handler, true)
  | event :: rest => do
      let called ← handler.handle memory event
      if called.2 then read memory called.1 rest else return (called.1, false)

end BufferReadHandler

/-! ## The packet -/

/-- Position of an item or note in its group. -/
inductive PacketItemType where
  | first
  | normal
  | last
  | single
  deriving DecidableEq

/-- Kinds of the objects of a packet, in the order of their numbers. -/
inductive PacketSegmentType where
  | header
  | body
  | ptrNote
  deriving DecidableEq

def PacketSegmentType.number : PacketSegmentType → Int
  | .header => 0
  | .body => 1
  | .ptrNote => 2

/-- `json` holds the events written so far. -/
structure JsonRpcPacket where
  json : List JsonEvent
  readHandler : BufferReadHandler

namespace JsonRpcPacket

def new : JsonRpcPacket := ⟨[], .new⟩

def write (packet : JsonRpcPacket) (events : List JsonEvent) : JsonRpcPacket :=
  { packet with json := packet.json ++ events }

/-- The member that says what an object of the packet is. -/
def segmentType (segment : PacketSegmentType) : List JsonEvent :=
  [.key (literal "SegmentType"), .int segment.number]

def setPacketHeader (packet : JsonRpcPacket) (header : Bytes) : JsonRpcPacket :=
  packet.write ([.startArray, .startObject] ++ segmentType .header ++
    [.key (literal "PacketHeader"), .string header, .endObject])

def setPacketItem (packet : JsonRpcPacket) (key : CString) (value : Bytes)
    (type : PacketItemType) : JsonRpcPacket :=
  packet.write (
    (if type = .first ∨ type = .single then .startObject :: segmentType .body else []) ++
    [.key key.val, .string value] ++
    (if type = .last ∨ type = .single then [.endObject] else []))

def setNoteForPtr (packet : JsonRpcPacket) (itemKey : CString) (offset : Int)
    (value : Bytes) (type : PacketItemType) : JsonRpcPacket :=
  packet.write (
    (if type = .first ∨ type = .single then
      .startObject :: segmentType .ptrNote ++ [.key (literal "note_arry"), .startArray]
    else []) ++
    [.startObject, .key (literal "ptr_key"), .string itemKey.val,
      .key (literal "ptr_offset"), .int offset, .key (literal "ptr_val"), .string value,
      .endObject] ++
    (if type = .last ∨ type = .single then [.endArray, .endObject, .endArray] else []))

/-- Parse a written document into memory of `size` bytes at an address.  The flag says
whether every call of the handler succeeded. -/
def parse (packet : JsonRpcPacket) (json : List JsonEvent) (address : Nat) (size : Int)
    (memory : ParseType) : Option (JsonRpcPacket × Bool) := do
  let handler ← packet.readHandler.setBuffer address size
  let result ← handler.read memory (json.map JsonEvent.replay)
  return ({ packet with readHandler := result.1.appendTailOffset }, result.2)

def getPacketItemPtr (packet : JsonRpcPacket) (index : Int) : Option Int := do
  let offset ← packet.readHandler.objectPtr index
  return packet.readHandler.objectBuffer.getAddress offset

/-- Looking an unknown key up enters it, so the packet is returned too. -/
def getPacketItemPtrByKey (packet : JsonRpcPacket) (key : Bytes) :
    Option (JsonRpcPacket × Int) := do
  let found := packet.readHandler.nameId key
  let offset ← found.1.objectPtr found.2
  return ({ packet with readHandler := found.1 }, found.1.objectBuffer.getAddress offset)

def getPacketHeaderPtr (packet : JsonRpcPacket) : Option (JsonRpcPacket × Int) :=
  packet.getPacketItemPtrByKey (literal "PacketHeader")

def getPacketItemSize (packet : JsonRpcPacket) (index : Int) : Option Int := do
  let next ← packet.readHandler.objectPtr (index + 1)
  let offset ← packet.readHandler.objectPtr index
  return next - offset

def getPacketItemSizeByKey (packet : JsonRpcPacket) (key : Bytes) :
    Option (JsonRpcPacket × Int) := do
  let found := packet.readHandler.nameId key
  let next ← found.1.objectPtr (found.2 + 1)
  let offset ← found.1.objectPtr found.2
  return ({ packet with readHandler := found.1 }, next - offset)

def getPacketHeaderSize (packet : JsonRpcPacket) : Option (JsonRpcPacket × Int) :=
  packet.getPacketItemSizeByKey (literal "PacketHeader")

/-- The `size` bytes of the caller's buffer at an address, if they are inside. -/
def bytesAt (packet : JsonRpcPacket) (pointer : Int) (size : Nat) : Option Bytes :=
  let buffer := packet.readHandler.objectBuffer
  let offset := pointer - buffer.bytes
  if 0 ≤ offset ∧ offset + size ≤ buffer.memory.length then
    some (slice buffer.memory offset.toNat size)
  else
    none

end JsonRpcPacket

end MultiMaster.Packet
