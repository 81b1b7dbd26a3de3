import MultiMaster.Foundation.Bytes

/-!
# Event messages and their wire format

An event message travels as one buffer: six little-endian words that say where
the four names, the payload and its size are, then the terminated names and the
payload.  The definitions follow `EventMessage` in `event_mess_handle.h` and
`event_mess_handle.cc`.

The character pointers of a message either point to objects outside of it or
into its own buffer; the latter are kept as offsets.
-/

namespace MultiMaster.NetIO

open Foundation

/-- Error numbers of messages. -/
inductive EventMessageErrorNo where
  | success
  | incompleteMessage
  | groupNotFound
  | messTypeNotFound
  | noneUnprocessedMessage
  | invalidHost
  | noneRequestedMessage
  deriving DecidableEq, Repr

/-- A character pointer of a message.  `uninit` is a pointer nobody has set. -/
inductive Ptr (Object : Type) where
  | uninit
  | null
  | outside (object : Object)
  | buffer (offset : UInt32)
  deriving DecidableEq

namespace Ptr

/-- The C string a pointer designates.  `c_str` ends the buffer with a terminator
of its own, so only a pointer behind the buffer is unreadable. -/
def cString (bufferStr : Bytes) : Ptr CString → Option CString
  | .outside string => some string
  | .buffer offset =>
      if offset.toNat ≤ bufferStr.length then
        some (CString.read (bufferStr.drop offset.toNat))
      else
        none
  | .uninit | .null => none

/-- The `size` bytes a pointer designates, when they exist. -/
def data (bufferStr : Bytes) (size : Nat) : Ptr Bytes → Option Bytes
  | .outside object =>
      if size ≤ object.length then some (object.take size) else none
  | .buffer offset =>
      if offset.toNat + size ≤ bufferStr.length then
        some (slice bufferStr offset.toNat size)
      else
        none
  | .null => if size = 0 then some [] else none
  | .uninit => none

/-- The object outside of the message a pointer designates. -/
def outside? {Object : Type} : Ptr Object → Option Object
  | .outside object => some object
  | .uninit | .null | .buffer _ => none

end Ptr

structure EventMessage where
  groupName : Ptr CString
  messType : Ptr CString
  sendHostName : Ptr CString
  reciveHostName : Ptr CString
  message : Ptr Bytes
  messageSize : UInt32
  errorNo : EventMessageErrorNo
  willSend : Bool
  willRecive : Bool
  bufferStr : Bytes
  bufferSize : UInt32
  deriving DecidableEq

/-- Size of the six-word cursor at the front of a buffer. -/
def cursorSize : Nat := 24

/-- One of the six words of the cursor. -/
def cursorField (bufferStr : Bytes) (field : Nat) : UInt32 :=
  UInt32.ofNat (leValue (slice bufferStr (4 * field) 4))

namespace EventMessage

/-- The state after construction and after `clear`. -/
def clear : EventMessage where
  groupName := .null
  messType := .null
  sendHostName := .null
  reciveHostName := .null
  message := .null
  messageSize := 0
  errorNo := .success
  willSend := false
  willRecive := false
  bufferStr := []
  bufferSize := 0

def prepareSend (mess : EventMessage) (gName mType rHost : Ptr CString)
    (message : Ptr Bytes) (messSize : UInt32) : EventMessage :=
  { mess with
    groupName := gName
    messType := mType
    reciveHostName := rHost
    message := message
    messageSize := messSize
    errorNo := .success
    willSend := true
    willRecive := false }

def prepareRecive (mess : EventMessage) (gName msgType : Ptr CString) : EventMessage :=
  { mess with
    groupName := gName
    messType := msgType
    willSend := false
    willRecive := true }

/-- Point the fields of a message into its buffer.  A buffer that holds no more
than a cursor leaves them as they are. -/
def initMessagePtr (mess : EventMessage) : EventMessage :=
  if mess.bufferSize.toNat ≤ cursorSize then
    mess
  else
    { mess with
      groupName := .buffer (cursorField mess.bufferStr 0)
      messType := .buffer (cursorField mess.bufferStr 1)
      sendHostName := .buffer (cursorField mess.bufferStr 2)
      reciveHostName := .buffer (cursorField mess.bufferStr 3)
      message := .buffer (cursorField mess.bufferStr 4)
      messageSize := cursorField mess.bufferStr 5 }

/-- Copying takes over the buffer and points into the copy.  The other fields are
those of the destination: for the copy constructor, of its raw storage. -/
def copy (mess source : EventMessage) : EventMessage :=
  initMessagePtr { mess with
    bufferStr := source.bufferStr
    bufferSize := source.bufferSize }

/-- Store the current size as cursor word `field` and append a terminated name. -/
def appendName (field : Nat) (name : CString) (buffer : Bytes × UInt32) :
    Bytes × UInt32 :=
  let located := overwrite buffer.1 (4 * field) (leBytes 4 buffer.2.toNat)
  let grown := located ++ List.replicate (name.length + 1) 0
  (overwrite grown buffer.2.toNat name.val,
    buffer.2 + UInt32.ofNat (name.length + 1))

/-- Store offset and size of the payload in the last two cursor words and append
the payload. -/
def appendMessage (message : Bytes) (messageSize : UInt32)
    (buffer : Bytes × UInt32) : Bytes × UInt32 :=
  let located := overwrite buffer.1 (4 * 4) (leBytes 4 buffer.2.toNat)
  let sized := overwrite located (4 * 5) (leBytes 4 messageSize.toNat)
  let grown := sized ++ List.replicate messageSize.toNat 0
  (overwrite grown buffer.2.toNat message, buffer.2 + messageSize)

/-- The buffer built from the five variable-length parts. -/
def bufferOf (groupName messType sendHostName reciveHostName : CString)
    (message : Bytes) (messageSize : UInt32) : Bytes × UInt32 :=
  appendMessage message messageSize <|
    appendName 3 reciveHostName <|
    appendName 2 sendHostName <|
    appendName 1 messType <|
    appendName 0 groupName (List.replicate cursorSize 0, UInt32.ofNat cursorSize)

/-- Build the buffer of a message to be sent.  The old buffer is dropped first,
so every pointer must lead out of it; `none` is a bad pointer. -/
def initBufferStr (mess : EventMessage) : Option EventMessage := do
  let groupName ← mess.groupName.outside?
  let messType ← mess.messType.outside?
  let sendHostName ← mess.sendHostName.outside?
  let reciveHostName ← mess.reciveHostName.outside?
  let message ← mess.message.data [] mess.messageSize.toNat
  let buffer := bufferOf groupName messType sendHostName reciveHostName message
    mess.messageSize
  return { mess with bufferStr := buffer.1, bufferSize := buffer.2 }

end EventMessage

/-! ## The fields of a message -/

/-- What a message says, independent of where it is stored. -/
structure MessageFields where
  groupName : CString
  messType : CString
  sendHostName : CString
  reciveHostName : CString
  message : Bytes
  deriving DecidableEq

namespace MessageFields

variable (fields : MessageFields)

/-- The names with their terminators and the payload, in buffer order. -/
def body : Bytes :=
  fields.groupName.toMemory ++ fields.messType.toMemory ++
    fields.sendHostName.toMemory ++ fields.reciveHostName.toMemory ++ fields.message

/-- Size of the buffer that carries the fields. -/
def encodedSize : Nat :=
  24 + ((fields.groupName.length + 1) + (fields.messType.length + 1) +
    (fields.sendHostName.length + 1) + (fields.reciveHostName.length + 1)) +
    fields.message.length

/-- The words of the cursor fit their type: the names end and the payload is within 32
bits. -/
structure CursorFits : Prop where
  names : fields.encodedSize < 2 ^ 32 + fields.message.length
  message : fields.message.length < 2 ^ 32

theorem CursorFits.of_lt {fields : MessageFields} (fits : fields.encodedSize < 2 ^ 32) :
    fields.CursorFits := by
  have whole := fits
  rw [encodedSize] at whole
  constructor
  · omega
  · omega

/-- The six words of the cursor. -/
def cursor : List Nat :=
  let messType := 24 + (fields.groupName.length + 1)
  let sendHostName := messType + (fields.messType.length + 1)
  let reciveHostName := sendHostName + (fields.sendHostName.length + 1)
  let message := reciveHostName + (fields.reciveHostName.length + 1)
  [24, messType, sendHostName, reciveHostName, message, fields.message.length]

@[simp] theorem length_cursor : fields.cursor.length = 6 := rfl

/-- The wire format: cursor, names, payload. -/
def encode : Bytes := leWords fields.cursor ++ fields.body

/-- A message object that `prepare_send` and `sendMessage` have filled in with the
fields, whatever it held before. -/
def prepared (mess : EventMessage) : EventMessage :=
  { mess.prepareSend (.outside fields.groupName) (.outside fields.messType)
      (.outside fields.reciveHostName) (.outside fields.message)
      (UInt32.ofNat fields.message.length) with
    sendHostName := .outside fields.sendHostName }

theorem length_body : fields.body.length + 24 = fields.encodedSize := by
  simp only [body, encodedSize, List.length_append, CString.length_toMemory]
  omega

@[simp] theorem length_encode : fields.encode.length = fields.encodedSize := by
  rw [encode, List.length_append, length_leWords, length_cursor, ← length_body,
    Nat.add_comm]

end MessageFields

end MultiMaster.NetIO
