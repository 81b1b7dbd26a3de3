import MultiMaster.Packet.JsonRpcPacket

/-!
# Writes of the reader

The handler changes the caller's memory only by calls of `FixedBuffer::put`.  This
module lists the calls that reading a text makes, up to the end of the reading or to
the first call that copies bytes to a place outside of the memory, and connects the
list with the handler.
-/

namespace MultiMaster.Packet

open Foundation

/-- The arguments of a call of `put`. -/
structure PutCall where
  data : Bytes
  offset : Int
  size : Int
  deriving DecidableEq

namespace PutCall

/-- A buffer of `length` bytes does not refuse the call. -/
def Succeeds (length : Int) (call : PutCall) : Prop :=
  wrapInt (call.offset + call.size) ≤ length

/-- The bytes the call copies go to places of a buffer of `length` bytes. -/
def Inside (length : Int) (call : PutCall) : Prop :=
  0 ≤ call.offset ∧ 0 ≤ call.size ∧ call.offset + call.size ≤ length

/-- What the call writes, if it is not refused, stays inside of the buffer. -/
def Safe (length : Int) (call : PutCall) : Prop :=
  call.Succeeds length → call.Inside length

instance (length : Int) (call : PutCall) : Decidable (call.Succeeds length) :=
  inferInstanceAs (Decidable (_ ≤ _))

instance (length : Int) (call : PutCall) : Decidable (call.Inside length) :=
  inferInstanceAs (Decidable (_ ∧ _))

instance (length : Int) (call : PutCall) : Decidable (call.Safe length) :=
  inferInstanceAs (Decidable (_ → _))

/-- The end of what was written after the call. -/
def tailAfter (size tail : Nat) (call : PutCall) : Nat :=
  if call.Succeeds size then max tail (call.offset + call.size).toNat else tail

end PutCall

/-! ## One call -/

namespace FixedBuffer

/-- A buffer of `size` bytes of which `tail` are in use. -/
structure Filled (size tail : Nat) (buffer : FixedBuffer) : Prop where
  length : buffer.length = size
  memory : buffer.memory.length = size
  offset : buffer.tailOffset = tail
  within : tail ≤ size

variable {size tail : Nat} {buffer : FixedBuffer}

theorem holding_filled (address size : Nat) : Filled size 0 (holding address size []) :=
  ⟨rfl, by simp [holding], rfl, Nat.zero_le _⟩

/-- A safe call is made. -/
theorem Filled.put {call : PutCall} (filled : Filled size tail buffer)
    (safe : call.Safe size) (small : size < 2 ^ 31) :
    ∃ after, buffer.put call.data call.offset call.size =
        some (after, decide (call.Succeeds size)) ∧
      Filled size (call.tailAfter size tail) after ∧ after.bytes = buffer.bytes := by
  by_cases succeeds : call.Succeeds size
  · rcases safe succeeds with ⟨offset, length, inside⟩
    have wrapped : wrapInt (call.offset + call.size) = (call.offset + call.size).toNat := by
      have whole : call.offset + call.size = ((call.offset + call.size).toNat : Int) := by omega
      rw [whole]
      exact wrapInt_of_lt (by omega)
    have accepted : ¬buffer.length < wrapInt (call.offset + call.size) := by
      rw [filled.length]
      exact not_lt.mpr succeeds
    have room : 0 ≤ call.offset ∧ 0 ≤ call.size ∧
        call.offset + call.size ≤ buffer.memory.length := by
      rw [filled.memory]
      exact ⟨offset, length, inside⟩
    refine ⟨{ buffer with
      tailOffset :=
        if buffer.tailOffset < wrapInt (call.offset + call.size) then
          wrapInt (call.offset + call.size)
        else buffer.tailOffset
      memory := overwrite buffer.memory call.offset.toNat (call.data.take call.size.toNat) },
      ?_, ?_, rfl⟩
    · rw [FixedBuffer.put, if_neg accepted, if_pos room, decide_eq_true succeeds]
    · refine ⟨filled.length, ?_, ?_, ?_⟩
      · rw [length_overwrite, filled.memory]
        rw [List.length_take, filled.memory]
        omega
      · simp only [PutCall.tailAfter, if_pos succeeds, wrapped, filled.offset]
        split
        · omega
        · omega
      · have within := filled.within
        rw [PutCall.tailAfter, if_pos succeeds]
        omega
  · have refused : buffer.length < wrapInt (call.offset + call.size) := by
      rw [filled.length]
      exact not_le.mp succeeds
    refine ⟨buffer, ?_, ?_, rfl⟩
    · rw [FixedBuffer.put, if_pos refused, decide_eq_false succeeds]
    · rw [PutCall.tailAfter, if_neg succeeds]
      exact filled

/-- A call that has a result is safe. -/
theorem Filled.safe_of_put {call : PutCall} {written : FixedBuffer × Bool}
    (filled : Filled size tail buffer)
    (made : buffer.put call.data call.offset call.size = some written) :
    call.Safe size := by
  intro succeeds
  have accepted : ¬buffer.length < wrapInt (call.offset + call.size) := by
    rw [filled.length]
    exact not_lt.mpr succeeds
  rw [FixedBuffer.put, if_neg accepted] at made
  split at made
  · rename_i room
    rw [filled.memory] at room
    exact room
  · cases made

end FixedBuffer

/-! ## Numbers of names -/

/-- Every name has the number of one of `count` offsets, or zero. -/
def IdsBelow (ids : AList fun _ : Bytes => Int) (count : Nat) : Prop :=
  ∀ name id, ids.lookup name = some id → 0 ≤ id ∧ (id = 0 ∨ id < count)

/-- A name can be given such a number, also when there are more offsets by then. -/
theorem IdsBelow.insert {ids : AList fun _ : Bytes => Int} {count later : Nat} {name : Bytes}
    {id : Int} (below : IdsBelow ids count) (grown : count ≤ later) (nonneg : 0 ≤ id)
    (number : id = 0 ∨ id < later) : IdsBelow (ids.insert name id) later := by
  intro other found looked
  by_cases same : other = name
  · rw [same, AList.lookup_insert, Option.some.injEq] at looked
    rw [← looked]
    exact ⟨nonneg, number⟩
  · rw [AList.lookup_insert_ne same] at looked
    have old := below other found looked
    omega

/-! ## The calls of the handler -/

namespace BufferReadHandler

/-- `append` puts a value behind what was written. -/
def appendCall (handler : BufferReadHandler) (value : Bytes) : PutCall :=
  ⟨value, handler.objectBuffer.tailOffset, wrapInt value.length⟩

/-- The offset that is found under a name. -/
def startOf (handler : BufferReadHandler) (name : Bytes) : Option Int :=
  handler.objectPtr (handler.nameId name).2

/-- The second call for a note: the address of its value goes to the slot. -/
def slotCalls (handler : BufferReadHandler) (name value : Bytes) (ptrOffset : Nat) :
    List PutCall :=
  match handler.objectBuffer.append value (wrapInt value.length), handler.startOf name with
  | some appended, some startOffset =>
      [⟨leBytes 8 (appended.1.getAddress appended.2).toNat,
        wrapInt (startOffset + ptrOffset), 8⟩]
  | _, _ => []

/-- The calls of `put` that one call of the handler makes. -/
def putCalls (handler : BufferReadHandler) : JsonEvent → List PutCall
  | .uint value =>
      match handler.parseStack with
      | [] => []
      | item :: _ =>
          if item.key = literal "ptr_offset" then []
          else if item.key = literal "SegmentType" then []
          else [handler.appendCall (leBytes 4 value.toNat)]
  | .string value =>
      match handler.parseStack with
      | [] => []
      | item :: stack =>
          if item.key = literal "ptr_key" then []
          else if item.key = literal "ptr_val" then
            match stack with
            | itemOffset :: itemKey :: _ =>
                match readOffset itemOffset with
                | some ptrOffset =>
                    handler.appendCall value :: handler.slotCalls itemKey.key value ptrOffset
                | none => []
            | _ => []
          else [handler.appendCall value]
  | _ => []

/-- The calls of `put` while the reader goes through events. -/
def readCalls (memory : ParseType) (handler : BufferReadHandler) :
    List JsonEvent → List PutCall
  | [] => []
  | event :: rest =>
      handler.putCalls event ++
        match handler.handle memory event with
        | some (after, true) => after.readCalls memory rest
        | _ => []

variable {memory : ParseType} {handler : BufferReadHandler}

/-- `put` with the arguments of a call. -/
def perform (buffer : FixedBuffer) (call : PutCall) : Option FixedBuffer :=
  (buffer.put call.data call.offset call.size).map Prod.fst

theorem append_eq_perform (handler : BufferReadHandler) (value : Bytes) :
    handler.objectBuffer.append value (wrapInt value.length) =
      (perform handler.objectBuffer (handler.appendCall value)).map
        (·, handler.objectBuffer.tailOffset) := by
  rw [FixedBuffer.append, perform, appendCall]
  cases handler.objectBuffer.put value handler.objectBuffer.tailOffset
      (wrapInt value.length) with
  | none => rfl
  | some written => rfl

theorem store_performs {name value : Bytes} {after : BufferReadHandler}
    (stored : handler.store name value = some after) :
    perform handler.objectBuffer (handler.appendCall value) = some after.objectBuffer := by
  rw [store, append_eq_perform] at stored
  cases performed : perform handler.objectBuffer (handler.appendCall value) with
  | none => simp [performed] at stored
  | some buffer =>
      simp only [performed, Option.map_some, Option.bind_eq_bind, Option.bind_some,
        Option.pure_def, Option.some.injEq] at stored
      rw [← stored]

@[simp] theorem nameId_objectBuffer (handler : BufferReadHandler) (name : Bytes) :
    (handler.nameId name).1.objectBuffer = handler.objectBuffer := by
  rw [nameId]
  split
  · rfl
  · rfl

@[simp] theorem nameId_objectPtrs (handler : BufferReadHandler) (name : Bytes) :
    (handler.nameId name).1.objectPtrs = handler.objectPtrs := by
  rw [nameId]
  split
  · rfl
  · rfl

@[simp] theorem nameId_parseStack (handler : BufferReadHandler) (name : Bytes) :
    (handler.nameId name).1.parseStack = handler.parseStack := by
  rw [nameId]
  split
  · rfl
  · rfl

/-- What the handler does with the value of a note. -/
def note (handler : BufferReadHandler) (name value : Bytes) (ptrOffset : Nat) :
    Option BufferReadHandler := do
  let appended ← handler.objectBuffer.append value (wrapInt value.length)
  let named := { handler with objectBuffer := appended.1 }.nameId name
  let startOffset ← named.1.objectPtr named.2
  let written ← named.1.objectBuffer.put
    (leBytes 8 (appended.1.getAddress appended.2).toNat) (wrapInt (startOffset + ptrOffset)) 8
  return { named.1 with objectBuffer := written.1 }

theorem string_ptrVal {item itemOffset itemKey : ParseItem} {stack : List ParseItem}
    {ptrOffset : Nat} (scope : handler.parseStack = item :: itemOffset :: itemKey :: stack)
    (member : item.key = literal "ptr_val") (offset : readOffset itemOffset = some ptrOffset)
    (value : Bytes) :
    handler.string value =
      ({ handler with parseStack := stack }.note itemKey.key value ptrOffset).map
        (·, true) := by
  have other : literal "ptr_val" ≠ literal "ptr_key" := by decide
  rw [string, scope]
  simp only [member, other, if_false, if_true, offset, Option.bind_eq_bind, Option.bind_some]
  rw [note]
  simp [Option.map_bind]

theorem nameId_withBuffer (handler : BufferReadHandler) (buffer : FixedBuffer)
    (name : Bytes) :
    { handler with objectBuffer := buffer }.nameId name =
      ({ (handler.nameId name).1 with objectBuffer := buffer }, (handler.nameId name).2) := by
  simp only [nameId]
  split
  · rfl
  · rfl

theorem nameId_withStack (handler : BufferReadHandler) (stack : List ParseItem)
    (name : Bytes) :
    { handler with parseStack := stack }.nameId name =
      ({ (handler.nameId name).1 with parseStack := stack }, (handler.nameId name).2) := by
  simp only [nameId]
  split
  · rfl
  · rfl

@[simp] theorem startOf_withStack (handler : BufferReadHandler) (stack : List ParseItem)
    (name : Bytes) : { handler with parseStack := stack }.startOf name = handler.startOf name := by
  rw [startOf, nameId_withStack, startOf]
  rfl

/-- The call that puts the address of the bytes at `offset` in a slot. -/
def slotCall (buffer : FixedBuffer) (offset startOffset : Int) (ptrOffset : Nat) : PutCall :=
  ⟨leBytes 8 (buffer.getAddress offset).toNat, wrapInt (startOffset + ptrOffset), 8⟩

theorem note_eq (handler : BufferReadHandler) (name value : Bytes) (ptrOffset : Nat) :
    handler.note name value ptrOffset =
      (perform handler.objectBuffer (handler.appendCall value)).bind fun appended =>
        (handler.startOf name).bind fun startOffset =>
          (perform appended
            (slotCall appended handler.objectBuffer.tailOffset startOffset ptrOffset)).map
            fun written => { (handler.nameId name).1 with objectBuffer := written } := by
  rw [note, append_eq_perform]
  cases perform handler.objectBuffer (handler.appendCall value) with
  | none => rfl
  | some appended =>
      have started : ({ (handler.nameId name).1 with objectBuffer := appended } :
          BufferReadHandler).objectPtr (handler.nameId name).2 = handler.startOf name := by
        rw [startOf, objectPtr, objectPtr, nameId_objectPtrs]
      simp only [Option.map_some, Option.bind_eq_bind, Option.bind_some, nameId_withBuffer,
        started, perform, slotCall, Option.map_map]
      cases handler.startOf name with
      | none => rfl
      | some startOffset =>
          simp only [Option.bind_some]
          cases appended.put (leBytes 8
              (appended.getAddress handler.objectBuffer.tailOffset).toNat)
              (wrapInt (startOffset + ptrOffset)) 8 with
          | none => rfl
          | some written => rfl

theorem slotCalls_eq (handler : BufferReadHandler) (name value : Bytes) (ptrOffset : Nat) :
    handler.slotCalls name value ptrOffset =
      match perform handler.objectBuffer (handler.appendCall value), handler.startOf name with
      | some appended, some startOffset =>
          [slotCall appended handler.objectBuffer.tailOffset startOffset ptrOffset]
      | _, _ => [] := by
  rw [slotCalls, append_eq_perform]
  cases perform handler.objectBuffer (handler.appendCall value) with
  | none => rfl
  | some appended =>
      cases handler.startOf name with
      | none => rfl
      | some startOffset => rfl

theorem note_performs {name value : Bytes} {ptrOffset : Nat} {after : BufferReadHandler}
    (noted : handler.note name value ptrOffset = some after) :
    (handler.appendCall value :: handler.slotCalls name value ptrOffset).foldlM perform
      handler.objectBuffer = some after.objectBuffer := by
  rw [note_eq] at noted
  rcases Option.bind_eq_some_iff.mp noted with ⟨appended, performed, noted⟩
  rcases Option.bind_eq_some_iff.mp noted with ⟨startOffset, started, noted⟩
  rcases Option.map_eq_some_iff.mp noted with ⟨written, put, rfl⟩
  rw [slotCalls_eq, performed, started]
  simp [performed, put]

/-! ## Reading -/

/-- Calls of the handler that only change the stack. -/
structure OnlyStack (handler : BufferReadHandler) (event : JsonEvent)
    (after : BufferReadHandler) : Prop where
  after : after = { handler with parseStack := after.parseStack }
  calls : handler.putCalls event = []

/-- A call of the handler that stores a value under a name. -/
structure Stores (handler : BufferReadHandler) (event : JsonEvent) (name value : Bytes)
    (after : BufferReadHandler) : Prop where
  after : { handler with parseStack := after.parseStack }.store name value = some after
  calls : handler.putCalls event = [handler.appendCall value]

/-- A call of the handler that follows a note. -/
structure Notes (handler : BufferReadHandler) (event : JsonEvent) (name value : Bytes)
    (ptrOffset : Nat) (after : BufferReadHandler) : Prop where
  after : { handler with parseStack := after.parseStack }.note name value ptrOffset =
    some after
  calls : handler.putCalls event =
    handler.appendCall value :: handler.slotCalls name value ptrOffset

theorem store_parseStack {name value : Bytes} {after : BufferReadHandler}
    (stored : handler.store name value = some after) :
    after.parseStack = handler.parseStack := by
  rcases Option.bind_eq_some_iff.mp stored with ⟨appended, _, same⟩
  cases same
  rfl

theorem note_parseStack {name value : Bytes} {ptrOffset : Nat} {after : BufferReadHandler}
    (noted : handler.note name value ptrOffset = some after) :
    after.parseStack = handler.parseStack := by
  rw [note_eq] at noted
  rcases Option.bind_eq_some_iff.mp noted with ⟨appended, performed, noted⟩
  rcases Option.bind_eq_some_iff.mp noted with ⟨startOffset, started, noted⟩
  rcases Option.map_eq_some_iff.mp noted with ⟨written, put, rfl⟩
  exact nameId_parseStack handler name

theorem startArray_onlyStack {after : BufferReadHandler}
    (started : handler.startArray memory = some after) :
    OnlyStack handler .startArray after := by
  rw [startArray] at started
  split at started
  · split at started
    · cases started
    · cases started
      exact ⟨rfl, rfl⟩
  · split at started
    · cases started
      exact ⟨rfl, rfl⟩
    · cases started
      exact ⟨rfl, rfl⟩

theorem endScope_after {type : ParseType} {after : BufferReadHandler} {proceed : Bool}
    (ended : handler.endScope type = some (after, proceed)) :
    after = { handler with parseStack := after.parseStack } := by
  rw [endScope] at ended
  split at ended
  · cases ended
  · cases ended
    rfl

theorem uint_cases {value : UInt32} {after : BufferReadHandler} {proceed : Bool}
    (called : handler.uint value = some (after, proceed)) :
    OnlyStack handler (.uint value) after ∨
      ∃ name, Stores handler (.uint value) name (leBytes 4 value.toNat) after := by
  rw [uint] at called
  split at called
  · cases called
  · rename_i item stack scope
    split at called
    · rename_i offset
      cases called
      refine .inl ⟨rfl, ?_⟩
      simp [putCalls, scope, offset]
    · rename_i notOffset
      split at called
      · rename_i segment
        cases called
        refine .inl ⟨rfl, ?_⟩
        simp [putCalls, scope, segment]
      · rename_i notSegment
        rcases Option.bind_eq_some_iff.mp called with ⟨stored, storing, same⟩
        cases same
        refine .inr ⟨item.key, ?_, ?_⟩
        · rw [store_parseStack storing]
          exact storing
        · simp [putCalls, scope, notOffset, notSegment]

theorem string_cases {value : Bytes} {after : BufferReadHandler} {proceed : Bool}
    (called : handler.string value = some (after, proceed)) :
    OnlyStack handler (.string value) after ∨
      (∃ name, Stores handler (.string value) name value after) ∨
      ∃ name ptrOffset, Notes handler (.string value) name value ptrOffset after := by
  cases scope : handler.parseStack with
  | nil => simp [string, scope] at called
  | cons item stack =>
      by_cases ptrKey : item.key = literal "ptr_key"
      · simp only [string, scope, ptrKey, if_true, Option.some.injEq, Prod.mk.injEq] at called
        rcases called with ⟨rfl, rfl⟩
        refine .inl ⟨rfl, ?_⟩
        simp [putCalls, scope, ptrKey]
      · have other : literal "ptr_val" ≠ literal "ptr_key" := by decide
        by_cases ptrVal : item.key = literal "ptr_val"
        · match stack with
          | [] => simp [string, scope, ptrVal, other] at called
          | [itemOffset] => simp [string, scope, ptrVal, other] at called
          | itemOffset :: itemKey :: stack =>
              cases offset : readOffset itemOffset with
              | none =>
                  simp [string, scope, ptrVal, offset, other] at called
              | some ptrOffset =>
                  rw [string_ptrVal scope ptrVal offset] at called
                  rcases Option.map_eq_some_iff.mp called with ⟨noted, noting, same⟩
                  cases same
                  refine .inr (.inr ⟨itemKey.key, ptrOffset, ?_, ?_⟩)
                  · rw [note_parseStack noting]
                    exact noting
                  · simp [putCalls, scope, other, ptrVal, offset]
        · simp only [string, scope, ptrKey, ptrVal, if_false] at called
          rcases Option.bind_eq_some_iff.mp called with ⟨stored, storing, same⟩
          cases same
          refine .inr (.inl ⟨item.key, ?_, ?_⟩)
          · rw [store_parseStack storing]
            exact storing
          · simp [putCalls, scope, ptrKey, ptrVal]

/-- Everything a call of the handler can do besides changing the stack. -/
theorem handle_cases {event : JsonEvent} {after : BufferReadHandler} {proceed : Bool}
    (handled : handler.handle memory event = some (after, proceed)) :
    OnlyStack handler event after ∨
      (∃ name value, Stores handler event name value after) ∨
      ∃ name value ptrOffset, Notes handler event name value ptrOffset after := by
  cases event with
  | startArray =>
      rcases Option.map_eq_some_iff.mp handled with ⟨opened, started, same⟩
      cases same
      exact .inl (startArray_onlyStack started)
  | endArray => exact .inl ⟨endScope_after handled, rfl⟩
  | endObject => exact .inl ⟨endScope_after handled, rfl⟩
  | uint value =>
      rcases uint_cases handled with onlyStack | ⟨name, stores⟩
      · exact .inl onlyStack
      · exact .inr (.inl ⟨name, _, stores⟩)
  | string value =>
      rcases string_cases handled with onlyStack | ⟨name, stores⟩ | ⟨name, ptrOffset, notes⟩
      · exact .inl onlyStack
      · exact .inr (.inl ⟨name, value, stores⟩)
      · exact .inr (.inr ⟨name, value, ptrOffset, notes⟩)
  | startObject =>
      cases handled
      exact .inl ⟨rfl, rfl⟩
  | key name =>
      cases handled
      exact .inl ⟨rfl, rfl⟩
  | int value | null | bool value | int64 value | uint64 value | double =>
      cases handled
      exact .inl ⟨rfl, rfl⟩

/-- The calls that are listed for a call of the handler change the buffer as it does. -/
theorem handle_performs {event : JsonEvent} {after : BufferReadHandler} {proceed : Bool}
    (handled : handler.handle memory event = some (after, proceed)) :
    (handler.putCalls event).foldlM perform handler.objectBuffer =
      some after.objectBuffer := by
  rcases handle_cases handled with onlyStack | ⟨name, value, stores⟩ |
    ⟨name, value, ptrOffset, notes⟩
  · rw [onlyStack.calls, onlyStack.after]
    rfl
  · have performed := store_performs stores.after
    change perform handler.objectBuffer (handler.appendCall value) = _ at performed
    rw [stores.calls, List.foldlM_cons, performed]
    rfl
  · have performed := note_performs notes.after
    rw [slotCalls, startOf_withStack] at performed
    rw [notes.calls, slotCalls]
    exact performed

/-- The listed calls change the buffer as the reading does. -/
theorem read_performs {events : List JsonEvent} {after : BufferReadHandler} {complete : Bool}
    (done : handler.read memory events = some (after, complete)) :
    (handler.readCalls memory events).foldlM perform handler.objectBuffer =
      some after.objectBuffer := by
  induction events generalizing handler with
  | nil =>
      cases done
      rfl
  | cons event rest ih =>
      rw [read] at done
      rcases Option.bind_eq_some_iff.mp done with ⟨⟨middle, proceed⟩, handled, continued⟩
      rw [readCalls, List.foldlM_append, handle_performs handled, handled]
      cases proceed with
      | false =>
          cases continued
          rfl
      | true => exact ih continued

/-- Calls with results are safe, and each moves the tail as its arguments say. -/
theorem performs_safe {size tail : Nat} {buffer after : FixedBuffer} {calls : List PutCall}
    (filled : buffer.Filled size tail) (small : size < 2 ^ 31)
    (performed : calls.foldlM perform buffer = some after) :
    (∀ call ∈ calls, call.Safe size) ∧
      after.Filled size (calls.foldl (fun tail call => call.tailAfter size tail) tail) := by
  induction calls generalizing buffer tail with
  | nil =>
      cases performed
      exact ⟨fun call member => absurd member List.not_mem_nil, filled⟩
  | cons call calls ih =>
      rw [List.foldlM_cons] at performed
      rcases Option.bind_eq_some_iff.mp performed with ⟨middle, first, others⟩
      rcases Option.map_eq_some_iff.mp first with ⟨written, put, rfl⟩
      have safe := filled.safe_of_put put
      rcases filled.put safe small with ⟨made, again, filledMade, _⟩
      rw [put] at again
      cases again
      rcases ih filledMade others with ⟨safeRest, filledAfter⟩
      refine ⟨fun other member => ?_, filledAfter⟩
      rcases List.mem_cons.mp member with rfl | later
      · exact safe
      · exact safeRest other later

/-! ## Parts of a text -/

variable {calls : List PutCall} {events : List JsonEvent} {middle after : BufferReadHandler}

/-- Whatever follows the events, the reader gets to `after` and makes the calls. -/
structure Passes (memory : ParseType) (handler : BufferReadHandler) (events : List JsonEvent)
    (calls : List PutCall) (after : BufferReadHandler) : Prop where
  read : ∀ rest, handler.read memory (events ++ rest) = after.read memory rest
  calls : ∀ rest, handler.readCalls memory (events ++ rest) =
    calls ++ after.readCalls memory rest

/-- Whatever follows the events, a call writes outside of a buffer of `size` bytes. -/
def Escapes (memory : ParseType) (size : Nat) (handler : BufferReadHandler)
    (events : List JsonEvent) : Prop :=
  ∀ rest, ∃ call ∈ handler.readCalls memory (events ++ rest), ¬call.Safe size

theorem Passes.refl (handler : BufferReadHandler) : Passes memory handler [] [] handler :=
  ⟨fun _ => rfl, fun _ => rfl⟩

theorem Passes.append {first second : List JsonEvent} {firstCalls secondCalls : List PutCall}
    (passes : Passes memory handler first firstCalls middle)
    (next : Passes memory middle second secondCalls after) :
    Passes memory handler (first ++ second) (firstCalls ++ secondCalls) after := by
  constructor
  · intro rest
    rw [List.append_assoc, passes.read, next.read]
  · intro rest
    rw [List.append_assoc, passes.calls, next.calls, List.append_assoc]

theorem passes_of_handle {event : JsonEvent}
    (handled : handler.handle memory event = some (after, true)) :
    Passes memory handler [event] (handler.putCalls event) after := by
  constructor
  · intro rest
    rw [List.singleton_append, read, handled]
    rfl
  · intro rest
    rw [List.singleton_append, readCalls, handled]

/-- A call of the handler that only changes the stack. -/
theorem passes_onlyStack {event : JsonEvent} {stack : List ParseItem}
    (handled : handler.handle memory event = some ({ handler with parseStack := stack }, true))
    (none : handler.putCalls event = []) :
    Passes memory handler [event] [] { handler with parseStack := stack } :=
  none ▸ passes_of_handle handled

theorem Passes.escapes {size : Nat} {first second : List JsonEvent}
    (passes : Passes memory handler first calls middle)
    (escapes : Escapes memory size middle second) :
    Escapes memory size handler (first ++ second) := by
  intro rest
  rcases escapes rest with ⟨call, member, escaping⟩
  refine ⟨call, ?_, escaping⟩
  rw [List.append_assoc, passes.calls]
  exact List.mem_append_right _ member

theorem Escapes.append {size : Nat} {first : List JsonEvent}
    (escapes : Escapes memory size handler first) (second : List JsonEvent) :
    Escapes memory size handler (first ++ second) := by
  intro rest
  rw [List.append_assoc]
  exact escapes (second ++ rest)

theorem escapes_of_call {size : Nat} {event : JsonEvent} {call : PutCall}
    (member : call ∈ handler.putCalls event) (escaping : ¬call.Safe size) :
    Escapes memory size handler [event] := by
  intro rest
  refine ⟨call, ?_, escaping⟩
  rw [List.singleton_append, readCalls]
  exact List.mem_append_left _ member

end BufferReadHandler

end MultiMaster.Packet
