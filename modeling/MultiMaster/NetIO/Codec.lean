import MultiMaster.NetIO.EventMessage

/-!
# Round trip of the message codec

The encoder grows the buffer part by part while it fills in the cursor words.
Its intermediate buffers all have one layout: the words stored so far, zeros up to
the end of the cursor, and the parts appended so far.
-/

namespace MultiMaster.NetIO

open Foundation

/-! ## Encoding -/

namespace EventMessage

/-- A partly built buffer: some cursor words and some body. -/
def layout (words : List Nat) (body : Bytes) : Bytes :=
  leWords words ++ List.replicate (cursorSize - 4 * words.length) 0 ++ body

theorem length_layout {words : List Nat} (room : words.length ≤ 6) (body : Bytes) :
    (layout words body).length = 24 + body.length := by
  simp only [layout, cursorSize, List.length_append, length_leWords,
    List.length_replicate]
  omega

/-- Storing the next cursor word. -/
theorem layout_store {words : List Nat} (room : words.length < 6) (value : Nat)
    (body : Bytes) :
    overwrite (layout words body) (4 * words.length) (leBytes 4 value) =
      layout (words ++ [value]) body := by
  have inside : 4 * words.length + (leBytes 4 value).length ≤
      (leWords words ++ List.replicate (cursorSize - 4 * words.length) 0).length := by
    simp only [cursorSize, length_leBytes, List.length_append, length_leWords,
      List.length_replicate]
    omega
  have remaining : cursorSize - 4 * words.length - (leBytes 4 value).length =
      cursorSize - 4 * (words ++ [value]).length := by
    simp only [length_leBytes, List.length_append, List.length_singleton]
    omega
  rw [layout, overwrite_append_left inside, ← length_leWords words,
    overwrite_append_fill, length_leWords, remaining, ← leWords_concat, layout]

/-- Appending a part behind the body. -/
theorem layout_append {words : List Nat} (room : words.length ≤ 6)
    (body data : Bytes) (size : Nat) :
    overwrite (layout words body ++ List.replicate size 0) (24 + body.length) data =
      layout words (body ++ (data ++ List.replicate (size - data.length) 0)) := by
  rw [← length_layout room body, overwrite_append_fill]
  simp only [layout, List.append_assoc]

theorem toNat_ofNat_of_lt {value : Nat} (fits : value < 2 ^ 32) :
    (UInt32.ofNat value).toNat = value := by
  rw [UInt32.toNat_ofNat']
  exact Nat.mod_eq_of_lt fits

/-- One name of the encoder: its position becomes the next cursor word and the
terminated name goes behind the body. -/
theorem appendName_layout (field : Nat) (words : List Nat) (body : Bytes)
    (name : CString) (aligned : words.length = field) (room : field < 6)
    (fits : 24 + (body ++ name.toMemory).length < 2 ^ 32) :
    appendName field name (layout words body, UInt32.ofNat (24 + body.length)) =
      (layout (words ++ [24 + body.length]) (body ++ name.toMemory),
        UInt32.ofNat (24 + (body ++ name.toMemory).length)) := by
  subst aligned
  rw [List.length_append, CString.length_toMemory] at fits ⊢
  have position : (UInt32.ofNat (24 + body.length)).toNat = 24 + body.length :=
    toNat_ofNat_of_lt (by omega)
  have stillRoom : (words ++ [24 + body.length]).length ≤ 6 := by
    rw [List.length_append, List.length_singleton]
    exact room
  have filling : name.length + 1 - name.val.length = 1 := by
    simp [CString.length]
  simp only [appendName, position, layout_store room, layout_append stillRoom,
    filling, Prod.mk.injEq]
  refine ⟨rfl, ?_⟩
  rw [← UInt32.ofNat_add, Nat.add_assoc]

/-- The payload of the encoder, behind its offset and size. -/
theorem appendMessage_layout (words : List Nat) (body message : Bytes)
    (aligned : words.length = 4) (fits : 24 + body.length < 2 ^ 32)
    (short : message.length < 2 ^ 32) :
    appendMessage message (UInt32.ofNat message.length)
        (layout words body, UInt32.ofNat (24 + body.length)) =
      (layout (words ++ [24 + body.length, message.length]) (body ++ message),
        UInt32.ofNat (24 + (body ++ message).length)) := by
  have position : (UInt32.ofNat (24 + body.length)).toNat = 24 + body.length :=
    toNat_ofNat_of_lt fits
  have size : (UInt32.ofNat message.length).toNat = message.length :=
    toNat_ofNat_of_lt short
  have located := layout_store (show words.length < 6 by omega) (24 + body.length) body
  have sized := layout_store (show (words ++ [24 + body.length]).length < 6 by
    simp [aligned]) message.length body
  have room : (words ++ [24 + body.length] ++ [message.length]).length ≤ 6 := by
    simp [aligned]
  rw [aligned] at located
  rw [List.length_append, aligned, List.length_singleton] at sized
  simp only [appendMessage, position, size, located, sized, layout_append room,
    Prod.mk.injEq, ← UInt32.ofNat_add, Nat.add_assoc]
  simp

/-- Where terminated names begin that are laid out one after another. -/
def positions (start : Nat) : List CString → List Nat
  | [] => []
  | name :: rest => start :: positions (start + (name.length + 1)) rest

theorem positions_concat (start : Nat) (names : List CString) (name : CString) :
    positions start (names ++ [name]) =
      positions start names ++ [start + (names.flatMap CString.toMemory).length] := by
  induction names generalizing start with
  | nil => rfl
  | cons first rest ih =>
      simp only [List.cons_append, positions, ih, List.flatMap_cons, List.length_append,
        CString.length_toMemory, Nat.add_assoc]

theorem length_positions (start : Nat) (names : List CString) :
    (positions start names).length = names.length := by
  induction names generalizing start with
  | nil => rfl
  | cons first rest ih => rw [positions, List.length_cons, List.length_cons, ih]

/-- The buffer and its size counter after some names. -/
def encodedNames (names : List CString) : Bytes × UInt32 :=
  (layout (positions 24 names) (names.flatMap CString.toMemory),
    UInt32.ofNat (24 + (names.flatMap CString.toMemory).length))

theorem appendName_encodedNames (names : List CString) (name : CString)
    (room : names.length < 6)
    (fits : 24 + ((names ++ [name]).flatMap CString.toMemory).length < 2 ^ 32) :
    appendName names.length name (encodedNames names) = encodedNames (names ++ [name]) := by
  have split : (names ++ [name]).flatMap CString.toMemory =
      names.flatMap CString.toMemory ++ name.toMemory := by
    simp
  rw [split] at fits
  rw [encodedNames, encodedNames, positions_concat, split,
    appendName_layout names.length _ _ name (length_positions 24 names) room fits]

/-- The encoder produces the wire format, and its size counter is what an `unsigned` keeps of
the size. -/
theorem bufferOf_eq (fields : MessageFields) (fits : fields.CursorFits) :
    bufferOf fields.groupName fields.messType fields.sendHostName
        fields.reciveHostName fields.message (UInt32.ofNat fields.message.length) =
      (fields.encode, UInt32.ofNat fields.encodedSize) := by
  rcases fits with ⟨fits, short⟩
  rcases fields with ⟨groupName, messType, sendHostName, reciveHostName, message⟩
  simp only [MessageFields.encodedSize] at fits short
  let names := [groupName, messType, sendHostName, reciveHostName]
  have length : (names.flatMap CString.toMemory).length =
      (groupName.length + 1) + (messType.length + 1) + (sendHostName.length + 1) +
        (reciveHostName.length + 1) := by
    simp [names]
    omega
  have start : (List.replicate cursorSize 0, UInt32.ofNat cursorSize) = encodedNames [] := rfl
  have group : appendName 0 groupName (encodedNames []) = encodedNames [groupName] :=
    appendName_encodedNames [] groupName (by simp) (by simp; omega)
  have type : appendName 1 messType (encodedNames [groupName]) =
      encodedNames [groupName, messType] :=
    appendName_encodedNames [groupName] messType (by simp) (by simp; omega)
  have send : appendName 2 sendHostName (encodedNames [groupName, messType]) =
      encodedNames [groupName, messType, sendHostName] :=
    appendName_encodedNames [groupName, messType] sendHostName (by simp) (by simp; omega)
  have recive : appendName 3 reciveHostName
      (encodedNames [groupName, messType, sendHostName]) = encodedNames names :=
    appendName_encodedNames [groupName, messType, sendHostName] reciveHostName (by simp)
      (by simp; omega)
  have payload := appendMessage_layout (positions 24 names) (names.flatMap CString.toMemory)
    message rfl (by rw [length]; omega) short
  rw [bufferOf, start, group, type, send, recive, encodedNames, payload, Prod.mk.injEq]
  constructor
  · have words : positions 24 names ++
          [24 + (names.flatMap CString.toMemory).length, message.length] =
        MessageFields.cursor ⟨groupName, messType, sendHostName, reciveHostName, message⟩ := by
      rw [length]
      simp only [names, positions, MessageFields.cursor, List.cons_append, List.nil_append,
        Nat.add_assoc]
    have body : names.flatMap CString.toMemory ++ message =
        MessageFields.body ⟨groupName, messType, sendHostName, reciveHostName, message⟩ := by
      simp [names, MessageFields.body]
    rw [words, body]
    rfl
  · rw [List.length_append, length, ← Nat.add_assoc]
    rfl

/-- Encoding prepared fields gives their wire format. -/
theorem initBufferStr_prepared (fields : MessageFields)
    (fits : fields.encodedSize < 2 ^ 32) (sender : EventMessage) :
    (fields.prepared sender).initBufferStr =
      some { fields.prepared sender with
        bufferStr := fields.encode
        bufferSize := UInt32.ofNat fields.encodedSize } := by
  have size : (UInt32.ofNat fields.message.length).toNat = fields.message.length := by
    apply toNat_ofNat_of_lt
    rw [MessageFields.encodedSize] at fits
    omega
  simp [initBufferStr, MessageFields.prepared, prepareSend, Ptr.outside?, Ptr.data,
    size, bufferOf_eq fields (.of_lt fits)]

end EventMessage

/-! ## Decoding -/

/-- A pointer to a name that lies in the buffer with its terminator. -/
def NameInside (bufferStr : Bytes) (pointer : Ptr CString) (name : CString) : Prop :=
  ∃ offset, pointer = .buffer offset ∧
    slice bufferStr offset.toNat (name.length + 1) = name.toMemory

/-- A pointer to a payload that lies in the buffer. -/
def DataInside (bufferStr : Bytes) (pointer : Ptr Bytes) (data : Bytes) : Prop :=
  ∃ offset, pointer = .buffer offset ∧
    offset.toNat + data.length ≤ bufferStr.length ∧
    slice bufferStr offset.toNat data.length = data

namespace EventMessage

/-- The fields of a message are stored in its own buffer. -/
structure Stores (mess : EventMessage) (fields : MessageFields) : Prop where
  groupName : NameInside mess.bufferStr mess.groupName fields.groupName
  messType : NameInside mess.bufferStr mess.messType fields.messType
  sendHostName : NameInside mess.bufferStr mess.sendHostName fields.sendHostName
  reciveHostName : NameInside mess.bufferStr mess.reciveHostName fields.reciveHostName
  message : DataInside mess.bufferStr mess.message fields.message
  messageSize : mess.messageSize.toNat = fields.message.length

/-- Read the fields of a message through its pointers. -/
def fields? (mess : EventMessage) : Option MessageFields := do
  let groupName ← mess.groupName.cString mess.bufferStr
  let messType ← mess.messType.cString mess.bufferStr
  let sendHostName ← mess.sendHostName.cString mess.bufferStr
  let reciveHostName ← mess.reciveHostName.cString mess.bufferStr
  let message ← mess.message.data mess.bufferStr mess.messageSize.toNat
  return ⟨groupName, messType, sendHostName, reciveHostName, message⟩

end EventMessage

theorem NameInside.cString_eq {bufferStr : Bytes} {pointer : Ptr CString}
    {name : CString} (inside : NameInside bufferStr pointer name) :
    pointer.cString bufferStr = some name := by
  rcases inside with ⟨offset, rfl, stored⟩
  have long := congrArg List.length stored
  rw [slice, List.length_take, List.length_drop, CString.length_toMemory] at long
  have readable : offset.toNat ≤ bufferStr.length := by omega
  have split : bufferStr.drop offset.toNat =
      name.toMemory ++ (bufferStr.drop offset.toNat).drop (name.length + 1) := by
    rw [← stored, slice, List.take_append_drop]
  rw [Ptr.cString, if_pos readable, split, CString.read_toMemory_append]

theorem DataInside.data_eq {bufferStr : Bytes} {pointer : Ptr Bytes} {data : Bytes}
    (inside : DataInside bufferStr pointer data) :
    pointer.data bufferStr data.length = some data := by
  rcases inside with ⟨offset, rfl, fits, stored⟩
  rw [Ptr.data, if_pos fits, stored]

theorem EventMessage.Stores.fields?_eq {mess : EventMessage} {fields : MessageFields}
    (stores : mess.Stores fields) : mess.fields? = some fields := by
  simp [fields?, stores.groupName.cString_eq, stores.messType.cString_eq,
    stores.sendHostName.cString_eq, stores.reciveHostName.cString_eq,
    stores.messageSize, stores.message.data_eq]

namespace MessageFields

variable (fields : MessageFields)

/-- The cursor words of an encoding are read back unchanged. -/
theorem cursorField_encode (fits : fields.CursorFits) (index : Nat)
    (inBounds : index < fields.cursor.length) :
    (cursorField fields.encode index).toNat = fields.cursor[index] := by
  have bounded : ∀ word ∈ fields.cursor, word < 2 ^ 32 := by
    intro word member
    rcases fits with ⟨fits, short⟩
    rw [encodedSize] at fits
    simp only [cursor, List.mem_cons, List.not_mem_nil, or_false] at member
    omega
  have small := bounded _ (List.getElem_mem inBounds)
  rw [cursorField, encode, slice_leWords _ _ _ inBounds, leValue_leBytes,
    UInt32.toNat_ofNat']
  omega

/-- A name is found where the cursor says it is. -/
theorem nameInside_encode (fits : fields.CursorFits) {index : Nat}
    (inBounds : index < fields.cursor.length) {name : CString} (front back : Bytes)
    (split : fields.encode = front ++ name.toMemory ++ back)
    (position : fields.cursor[index] = front.length) :
    NameInside fields.encode (.buffer (cursorField fields.encode index)) name := by
  refine ⟨_, rfl, ?_⟩
  rw [cursorField_encode fields fits index inBounds, position, split,
    ← CString.length_toMemory, slice_append]

/-- Decoding the wire format finds all fields inside the buffer, unless the size says that
there is no more than a cursor. -/
theorem stores_encode_of_large (fits : fields.CursorFits)
    (large : cursorSize < (UInt32.ofNat fields.encodedSize).toNat) (target : EventMessage) :
    (EventMessage.initMessagePtr { target with
      bufferStr := fields.encode
      bufferSize := UInt32.ofNat fields.encodedSize }).Stores fields := by
  have header : (leWords fields.cursor).length = 24 := by
    rw [length_leWords]
    rfl
  simp only [EventMessage.initMessagePtr, if_neg (Nat.not_le.mpr large)]
  let front₁ := leWords fields.cursor ++ fields.groupName.toMemory
  let front₂ := front₁ ++ fields.messType.toMemory
  let front₃ := front₂ ++ fields.sendHostName.toMemory
  let front₄ := front₃ ++ fields.reciveHostName.toMemory
  have length₁ : front₁.length = 24 + (fields.groupName.length + 1) := by
    simp [front₁, header]
  have length₂ : front₂.length = front₁.length + (fields.messType.length + 1) := by
    simp [front₂]
  have length₃ : front₃.length = front₂.length + (fields.sendHostName.length + 1) := by
    simp [front₃]
  have length₄ : front₄.length = front₃.length + (fields.reciveHostName.length + 1) := by
    simp [front₄]
  rw [length₁] at length₂
  rw [length₂] at length₃
  rw [length₃] at length₄
  have split₄ : fields.encode = front₄ ++ fields.message := by
    simp [encode, body, front₄, front₃, front₂, front₁]
  constructor
  · apply nameInside_encode fields fits (by simp) (leWords fields.cursor)
      (fields.messType.toMemory ++ fields.sendHostName.toMemory ++
        fields.reciveHostName.toMemory ++ fields.message)
    · simp [encode, body]
    · exact header.symm
  · apply nameInside_encode fields fits (by simp) front₁
      (fields.sendHostName.toMemory ++ fields.reciveHostName.toMemory ++ fields.message)
    · simp [split₄, front₄, front₃, front₂]
    · exact length₁.symm
  · apply nameInside_encode fields fits (by simp) front₂
      (fields.reciveHostName.toMemory ++ fields.message)
    · simp [split₄, front₄, front₃]
    · exact length₂.symm
  · apply nameInside_encode fields fits (by simp) front₃ fields.message
    · exact split₄
    · exact length₃.symm
  · have position : (cursorField fields.encode 4).toNat = front₄.length := by
      rw [cursorField_encode fields fits 4 (by simp)]
      exact length₄.symm
    have whole : fields.encode.length = front₄.length + fields.message.length := by
      rw [split₄, List.length_append]
    refine ⟨_, rfl, ?_, ?_⟩
    · rw [position]
      exact Nat.le_of_eq whole.symm
    · have found := slice_append front₄ fields.message []
      rw [List.append_nil, ← split₄] at found
      rw [position]
      exact found
  · exact cursorField_encode fields fits 5 (by simp)

/-- Decoding the wire format of a size that fits finds all fields inside the buffer. -/
theorem stores_encode (fits : fields.encodedSize < 2 ^ 32) (target : EventMessage) :
    (EventMessage.initMessagePtr { target with
      bufferStr := fields.encode
      bufferSize := UInt32.ofNat fields.encodedSize }).Stores fields := by
  apply fields.stores_encode_of_large (.of_lt fits)
  rw [EventMessage.toNat_ofNat_of_lt fits, encodedSize, cursorSize]
  omega

end MessageFields

/-- Round trip of the codec.  Whatever the message objects held before, encoding
yields a buffer of the size the size field says, in which decoding finds the four
names with their terminators and the payload, all inside the buffer, and encoding
what was found gives the same bytes. -/
theorem eventMessage_codec_roundTrip (fields : MessageFields)
    (fits : fields.encodedSize < 2 ^ 32) (sender receiver : EventMessage) :
    ∃ encoded decoded, (fields.prepared sender).initBufferStr = some encoded ∧
      encoded.bufferSize.toNat = encoded.bufferStr.length ∧
      decoded = EventMessage.initMessagePtr { receiver with
        bufferStr := encoded.bufferStr
        bufferSize := encoded.bufferSize } ∧
      decoded.Stores fields ∧ decoded.fields? = some fields ∧
      ∀ recovered, decoded.fields? = some recovered → ∀ resender,
        ((recovered.prepared resender).initBufferStr).map EventMessage.bufferStr =
          some encoded.bufferStr := by
  have stores := fields.stores_encode fits receiver
  refine ⟨_, _, EventMessage.initBufferStr_prepared fields fits sender, ?_, rfl,
    stores, stores.fields?_eq, ?_⟩
  · rw [MessageFields.length_encode]
    exact EventMessage.toNat_ofNat_of_lt fits
  · intro recovered read resender
    cases Option.some.inj (stores.fields?_eq.symm.trans read)
    rw [EventMessage.initBufferStr_prepared fields fits resender]
    rfl

/-- A lock request with an empty receiver name and a payload with a zero byte. -/
theorem eventMessage_codec_roundTrip_request :
    ∃ encoded decoded,
      (MessageFields.prepared ⟨.ofString "centralized_lock", .ofString "PageLockRequest",
        .ofString "host1", .ofString "", [1, 0, 2]⟩ .clear).initBufferStr =
          some encoded ∧
      decoded = EventMessage.initMessagePtr { EventMessage.clear with
        bufferStr := encoded.bufferStr
        bufferSize := encoded.bufferSize } ∧
      decoded.fields? = some ⟨.ofString "centralized_lock", .ofString "PageLockRequest",
        .ofString "host1", .ofString "", [1, 0, 2]⟩ := by
  rcases eventMessage_codec_roundTrip ⟨.ofString "centralized_lock",
    .ofString "PageLockRequest", .ofString "host1", .ofString "", [1, 0, 2]⟩
    (by decide) .clear .clear with ⟨encoded, decoded, made, _, read, _, same, _⟩
  exact ⟨encoded, decoded, made, read, same⟩

end MultiMaster.NetIO
