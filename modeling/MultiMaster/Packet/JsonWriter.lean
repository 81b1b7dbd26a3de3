import MultiMaster.Packet.JsonRpcPacket

/-!
# The text of a packet

The calls of the JSON writer give a text.  The definitions follow `Writer` of
`rapidjson/writer.h`: values are separated by what the count of values in the innermost
scope says, and strings are written between quotes with escapes.  A text is at least as
long as the strings in it together, and holds no zero byte.
-/

namespace MultiMaster.Packet

open Foundation

namespace JsonWriter

/-! ## Strings and numbers -/

def hexDigits : Bytes := literal "0123456789ABCDEF"

/-- What is written for a byte of a string. -/
def writeByte (byte : UInt8) : Bytes :=
  if byte = 8 then literal "\\b"
  else if byte = 9 then literal "\\t"
  else if byte = 10 then literal "\\n"
  else if byte = 12 then literal "\\f"
  else if byte = 13 then literal "\\r"
  else if byte = 34 then [92, 34]
  else if byte = 92 then [92, 92]
  else if byte < 32 then
    literal "\\u00" ++ [hexDigits.getD (byte.toNat / 16) 48, hexDigits.getD (byte.toNat % 16) 48]
  else [byte]

def writeString (value : Bytes) : Bytes := [34] ++ value.flatMap writeByte ++ [34]

def writeInt (value : Int) : Bytes :=
  (if value < 0 then [45] else []) ++
    (Nat.toDigits 10 value.natAbs).map fun digit => UInt8.ofNat digit.toNat

/-! ## Calls -/

/-- A scope with the number of values that were written in it. -/
structure Level where
  valueCount : Nat
  inArray : Bool
  deriving DecidableEq

/-- The innermost scope is the head of `levelStack`. -/
structure State where
  levelStack : List Level
  text : Bytes
  deriving DecidableEq

def State.new : State := ⟨[], []⟩

/-- What separates a value from the one before it. -/
def separator : List Level → Bytes
  | [] => []
  | level :: _ =>
      if 0 < level.valueCount then
        if level.inArray then literal ","
        else if level.valueCount % 2 = 0 then literal "," else literal ":"
      else []

/-- Count a value in the innermost scope. -/
def count : List Level → List Level
  | [] => []
  | level :: levels => { level with valueCount := level.valueCount + 1 } :: levels

/-- Write the separator and a value. -/
def writeValue (state : State) (value : Bytes) : State :=
  ⟨count state.levelStack, state.text ++ separator state.levelStack ++ value⟩

def startScope (state : State) (inArray : Bool) (bracket : Bytes) : State :=
  let counted := writeValue state bracket
  { counted with levelStack := ⟨0, inArray⟩ :: counted.levelStack }

def endScope (state : State) (bracket : Bytes) : State :=
  ⟨state.levelStack.tail, state.text ++ bracket⟩

/-- One call of the writer.  A packet makes no other ones. -/
def write (state : State) : JsonEvent → State
  | .startArray => startScope state true (literal "[")
  | .endArray => endScope state (literal "]")
  | .startObject => startScope state false [123]
  | .endObject => endScope state [125]
  | .key name => writeValue state (writeString name)
  | .string value => writeValue state (writeString value)
  | .int value => writeValue state (writeInt value)
  | .uint _ | .null | .bool _ | .int64 _ | .uint64 _ | .double => state

/-- The text that calls write. -/
def textOf (events : List JsonEvent) : Bytes := (events.foldl write State.new).text

/-! ## Lengths -/

theorem writeByte_spec : ∀ byte < 256,
    0 ∉ writeByte (UInt8.ofNat byte) ∧ 1 ≤ (writeByte (UInt8.ofNat byte)).length := by
  decide +kernel

theorem zero_notMem_writeByte (byte : UInt8) : 0 ∉ writeByte byte := by
  have spec := (writeByte_spec byte.toNat byte.toNat_lt).1
  rwa [UInt8.ofNat_toNat] at spec

theorem length_writeByte (byte : UInt8) : 1 ≤ (writeByte byte).length := by
  have spec := (writeByte_spec byte.toNat byte.toNat_lt).2
  rwa [UInt8.ofNat_toNat] at spec

theorem zero_notMem_writeString (value : Bytes) : 0 ∉ writeString value := by
  intro member
  simp only [writeString, List.mem_append, List.mem_singleton, List.mem_flatMap] at member
  rcases member with (quote | ⟨byte, _, inside⟩) | quote
  · cases quote
  · exact zero_notMem_writeByte byte inside
  · cases quote

theorem length_flatMap_writeByte (value : Bytes) :
    value.length ≤ (value.flatMap writeByte).length := by
  induction value with
  | nil => exact Nat.le_refl _
  | cons byte rest ih =>
      have one := length_writeByte byte
      rw [List.flatMap_cons, List.length_append, List.length_cons]
      omega

theorem length_writeString (value : Bytes) : value.length ≤ (writeString value).length := by
  have inner := length_flatMap_writeByte value
  rw [writeString, List.length_append, List.length_append]
  omega

theorem zero_notMem_writeInt (value : Int) : 0 ∉ writeInt value := by
  intro member
  rw [writeInt, List.mem_append] at member
  rcases member with sign | digit
  · split at sign
    · simp at sign
    · cases sign
  · rcases List.mem_map.mp digit with ⟨character, among, zero⟩
    have isDigit := Nat.isDigit_of_mem_toDigits (by decide) (by decide) among
    rw [Char.isDigit, Bool.and_eq_true, decide_eq_true_iff, decide_eq_true_iff] at isDigit
    have low : 48 ≤ character.toNat := isDigit.1
    have high : character.toNat ≤ 57 := isDigit.2
    have code := congrArg UInt8.toNat zero
    rw [UInt8.toNat_ofNat', UInt8.toNat_zero, Nat.mod_eq_of_lt (by omega)] at code
    omega

/-- The bytes of a string that a call writes as a value. -/
def valueBytes : JsonEvent → Nat
  | .string value => value.length
  | _ => 0

theorem zero_notMem_separator (levels : List Level) : 0 ∉ separator levels := by
  cases levels with
  | nil => exact List.not_mem_nil
  | cons level levels =>
      rw [separator]
      split
      · split
        · decide
        · split
          · decide
          · decide
      · exact List.not_mem_nil

/-- What a call of the writer adds to the text. -/
theorem write_text (state : State) (event : JsonEvent) :
    ∃ added, (write state event).text = state.text ++ added ∧ 0 ∉ added ∧
      valueBytes event ≤ added.length := by
  have value : ∀ bytes : Bytes, 0 ∉ bytes →
      0 ∉ separator state.levelStack ++ bytes := by
    intro bytes free member
    rcases List.mem_append.mp member with separating | inside
    · exact zero_notMem_separator _ separating
    · exact free inside
  cases event with
  | startArray =>
      exact ⟨_, List.append_assoc _ _ _, value (literal "[") (by decide), Nat.zero_le _⟩
  | endArray => exact ⟨literal "]", rfl, by decide, Nat.zero_le _⟩
  | startObject => exact ⟨_, List.append_assoc _ _ _, value [123] (by decide), Nat.zero_le _⟩
  | endObject => exact ⟨[125], rfl, by decide, Nat.zero_le _⟩
  | key name =>
      exact ⟨_, List.append_assoc _ _ _, value _ (zero_notMem_writeString name), Nat.zero_le _⟩
  | string bytes =>
      refine ⟨_, List.append_assoc _ _ _, value _ (zero_notMem_writeString bytes), ?_⟩
      have written := length_writeString bytes
      rw [List.length_append, valueBytes]
      omega
  | int number =>
      exact ⟨_, List.append_assoc _ _ _, value _ (zero_notMem_writeInt number), Nat.zero_le _⟩
  | uint _ | null | bool _ | int64 _ | uint64 _ | double =>
      exact ⟨[], (List.append_nil _).symm, List.not_mem_nil, Nat.zero_le _⟩

/-- Calls add no zero byte to a text, and at least the bytes of their values. -/
theorem foldl_write_spec {state : State} (events : List JsonEvent) (free : 0 ∉ state.text) :
    0 ∉ (events.foldl write state).text ∧
      state.text.length + (events.map valueBytes).sum ≤
        (events.foldl write state).text.length := by
  induction events generalizing state with
  | nil => exact ⟨free, Nat.le_refl _⟩
  | cons event rest ih =>
      rcases write_text state event with ⟨added, text, addedFree, bytes⟩
      have freeNext : 0 ∉ (write state event).text := by
        rw [text, List.mem_append, not_or]
        exact ⟨free, addedFree⟩
      rcases ih freeNext with ⟨freeAfter, longer⟩
      refine ⟨freeAfter, Nat.le_trans ?_ longer⟩
      rw [text, List.map_cons, List.sum_cons, List.length_append]
      omega

/-- A text holds no zero byte and is at least as long as the values in it together. -/
theorem textOf_spec (events : List JsonEvent) :
    0 ∉ textOf events ∧ (events.map valueBytes).sum ≤ (textOf events).length := by
  have whole : _ ∧ State.new.text.length + _ ≤ _ := foldl_write_spec events List.not_mem_nil
  rw [show State.new.text.length = 0 from rfl, Nat.zero_add] at whole
  exact whole

theorem textOf_startArray (events : List JsonEvent) : textOf (.startArray :: events) ≠ [] := by
  have opened : (write State.new .startArray).text = literal "[" := rfl
  have free : 0 ∉ (write State.new .startArray).text := by decide
  have longer := (foldl_write_spec events free).2
  rw [opened, show (literal "[").length = 1 by decide] at longer
  intro empty
  rw [textOf, List.foldl_cons] at empty
  rw [empty, List.length_nil] at longer
  omega

example : textOf (JsonRpcPacket.new.setPacketHeader [97, 0, 34]).json =
    literal "[\x7b\"SegmentType\":0,\"PacketHeader\":\"a\\u0000\\\"\"\x7d" := by
  decide +kernel

end JsonWriter

/-! ## The text of a packet -/

namespace JsonRpcPacket

/-- `get_string_ptr`: the text that was written. -/
def getString (packet : JsonRpcPacket) : Bytes := JsonWriter.textOf packet.json

/-- `strlen` counts from the second byte of the text, so that there is no result for an
empty one. -/
def getStringLength (packet : JsonRpcPacket) : Option Int :=
  match packet.getString with
  | [] => none
  | _ :: rest => some (wrapInt ((CString.read (rest ++ [0])).length + 2 : Nat))

/-- The length is that of the text and its terminator, as an `int`. -/
theorem getStringLength_eq {packet : JsonRpcPacket} (written : packet.getString ≠ []) :
    packet.getStringLength = some (wrapInt (packet.getString.length + 1 : Nat)) := by
  have free : 0 ∉ packet.getString := (JsonWriter.textOf_spec packet.json).1
  rw [getStringLength]
  cases text : packet.getString with
  | nil => exact absurd text written
  | cons first rest =>
      rw [text, List.mem_cons, not_or] at free
      have whole : CString.read (rest ++ [0]) = ⟨rest, free.2⟩ := by
        have read := CString.read_toMemory_append ⟨rest, free.2⟩ []
        rw [List.append_nil] at read
        exact read
      dsimp only
      rw [whole, List.length_cons]
      rfl

end JsonRpcPacket

end MultiMaster.Packet
