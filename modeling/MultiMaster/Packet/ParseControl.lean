import MultiMaster.Packet.PutCalls

/-!
# The handler without its buffer

Which entries the handler takes from its stack and which offsets it looks up does not
depend on the bytes in the buffer.  A control state keeps the stack, the numbers of
names and how many offsets there are.  It has no result only where the source takes
from an empty stack or indexes beyond the list of offsets.
-/

namespace MultiMaster.Packet

open Foundation

structure ParseControl where
  ptrCount : Nat
  nameIdMap : AList fun _ : Bytes => Int
  parseStack : List ParseItem

namespace ParseControl

def new : ParseControl := ⟨0, ∅, []⟩

def store (control : ParseControl) (name : Bytes) : ParseControl :=
  { control with
    ptrCount := control.ptrCount + 1
    nameIdMap := control.nameIdMap.insert name control.ptrCount }

def index (control : ParseControl) (name : Bytes) : Int :=
  (control.nameIdMap.lookup name).getD 0

/-- `name_id_map[name]`, which enters an unknown name with zero. -/
def enter (control : ParseControl) (name : Bytes) : ParseControl :=
  match control.nameIdMap.lookup name with
  | some _ => control
  | none => { control with nameIdMap := control.nameIdMap.insert name 0 }

def uint (control : ParseControl) (value : UInt32) : Option ParseControl :=
  match control.parseStack with
  | [] => none
  | item :: stack =>
      if item.key = literal "ptr_offset" then
        some { control with parseStack := ⟨.ptrOffset, leBytes 4 value.toNat⟩ :: stack }
      else if item.key = literal "SegmentType" then
        some { control with parseStack := stack }
      else
        some ({ control with parseStack := stack }.store item.key)

def string (control : ParseControl) (value : Bytes) : Option ParseControl :=
  match control.parseStack with
  | [] => none
  | item :: stack =>
      if item.key = literal "ptr_key" then
        some { control with parseStack := ⟨.ptrKey, value⟩ :: stack }
      else if item.key = literal "ptr_val" then
        match stack with
        | _ :: itemKey :: stack =>
            if 0 ≤ control.index itemKey.key ∧ control.index itemKey.key < control.ptrCount then
              some ({ control with parseStack := stack }.enter itemKey.key)
            else none
        | _ => none
      else
        some ({ control with parseStack := stack }.store item.key)

def endScope (control : ParseControl) (type : ParseType) : Option (ParseControl × Bool) :=
  match control.parseStack with
  | [] => none
  | item :: stack => some ({ control with parseStack := stack }, item.type = type)

def startArray (control : ParseControl) (memory : ParseType) : Option ParseControl :=
  match control.parseStack with
  | [] => if memory = .key then none else some { control with parseStack := [⟨.array, []⟩] }
  | item :: stack =>
      if item.type = .key then some { control with parseStack := ⟨.array, []⟩ :: stack }
      else some { control with parseStack := ⟨.array, []⟩ :: item :: stack }

/-- One call of the reader. -/
def handle (memory : ParseType) (control : ParseControl) :
    JsonEvent → Option (ParseControl × Bool)
  | .startArray => (control.startArray memory).map (·, true)
  | .endArray => control.endScope .array
  | .startObject =>
      some ({ control with parseStack := ⟨.object, []⟩ :: control.parseStack }, true)
  | .endObject => control.endScope .object
  | .key name => some ({ control with parseStack := ⟨.key, name⟩ :: control.parseStack }, true)
  | .string value => (control.string value).map (·, true)
  | .uint value => (control.uint value).map (·, true)
  | .int _ | .null | .bool _ | .int64 _ | .uint64 _ | .double => some (control, true)

/-- The reader calls the handler until that returns false. -/
def read (memory : ParseType) (control : ParseControl) :
    List JsonEvent → Option (ParseControl × Bool)
  | [] => some (control, true)
  | event :: rest => do
      let called ← control.handle memory event
      if called.2 then read memory called.1 rest else return (called.1, false)

theorem read_append {memory : ParseType} {control middle : ParseControl}
    {first second : List JsonEvent}
    (passed : control.read memory first = some (middle, true)) :
    control.read memory (first ++ second) = middle.read memory second := by
  induction first generalizing control with
  | nil =>
      cases passed
      rfl
  | cons event rest ih =>
      rw [read] at passed
      rcases Option.bind_eq_some_iff.mp passed with ⟨⟨next, proceed⟩, handled, continued⟩
      rw [List.cons_append, read, handled]
      cases proceed with
      | false => cases continued
      | true => exact ih continued

end ParseControl

/-! ## The control of a handler -/

namespace BufferReadHandler

variable {handler after : BufferReadHandler} {memory : ParseType}

def control (handler : BufferReadHandler) : ParseControl :=
  ⟨handler.objectPtrs.length, handler.nameIdMap, handler.parseStack⟩

theorem store_control {name value : Bytes} (stored : handler.store name value = some after) :
    after.control = handler.control.store name := by
  rcases Option.bind_eq_some_iff.mp stored with ⟨appended, _, same⟩
  cases same
  rw [control, List.length_append]
  rfl

theorem nameId_control (handler : BufferReadHandler) (name : Bytes) :
    (handler.nameId name).2 = handler.control.index name := by
  rw [nameId, ParseControl.index, control]
  dsimp only
  cases handler.nameIdMap.lookup name with
  | none => rfl
  | some index => rfl

theorem note_control {name value : Bytes} {ptrOffset : Nat}
    (noted : handler.note name value ptrOffset = some after) :
    0 ≤ handler.control.index name ∧ handler.control.index name < handler.control.ptrCount ∧
      after.control = handler.control.enter name := by
  rw [note_eq] at noted
  rcases Option.bind_eq_some_iff.mp noted with ⟨appended, _, noted⟩
  rcases Option.bind_eq_some_iff.mp noted with ⟨startOffset, started, noted⟩
  rcases Option.map_eq_some_iff.mp noted with ⟨written, _, rfl⟩
  rw [startOf, objectPtr, nameId_control] at started
  split at started
  · rename_i nonneg
    have inside := (List.getElem?_eq_some_iff.mp started).1
    have bound : handler.control.index name < handler.objectPtrs.length := by omega
    refine ⟨nonneg, bound, ?_⟩
    rw [nameId, control, ParseControl.enter, control]
    dsimp only
    cases handler.nameIdMap.lookup name with
    | none => rfl
    | some index => rfl
  · cases started

theorem uint_control {value : UInt32} {proceed : Bool}
    (called : handler.uint value = some (after, proceed)) :
    proceed = true ∧ handler.control.uint value = some after.control := by
  rw [uint] at called
  split at called
  · cases called
  · rename_i item stack scope
    simp only [ParseControl.uint, control, scope]
    split at called
    · rename_i offset
      cases called
      exact ⟨rfl, if_pos offset⟩
    · rename_i notOffset
      rw [if_neg notOffset]
      split at called
      · rename_i segment
        cases called
        exact ⟨rfl, if_pos segment⟩
      · rename_i notSegment
        rcases Option.bind_eq_some_iff.mp called with ⟨stored, storing, same⟩
        cases same
        refine ⟨rfl, ?_⟩
        rw [if_neg notSegment]
        exact congrArg some (store_control storing).symm

theorem string_control {value : Bytes} {proceed : Bool}
    (called : handler.string value = some (after, proceed)) :
    proceed = true ∧ handler.control.string value = some after.control := by
  cases scope : handler.parseStack with
  | nil => simp [string, scope] at called
  | cons item stack =>
      simp only [ParseControl.string, control, scope]
      by_cases ptrKey : item.key = literal "ptr_key"
      · simp only [string, scope, ptrKey, if_true, Option.some.injEq, Prod.mk.injEq] at called
        rcases called with ⟨rfl, rfl⟩
        exact ⟨rfl, if_pos ptrKey⟩
      · rw [if_neg ptrKey]
        by_cases ptrVal : item.key = literal "ptr_val"
        · rw [if_pos ptrVal]
          have other : literal "ptr_val" ≠ literal "ptr_key" := by decide
          match stack with
          | [] => simp [string, scope, ptrVal, other] at called
          | [itemOffset] => simp [string, scope, ptrVal, other] at called
          | itemOffset :: itemKey :: stack =>
              cases offset : readOffset itemOffset with
              | none => simp [string, scope, ptrVal, offset, other] at called
              | some ptrOffset =>
                  rw [string_ptrVal scope ptrVal offset] at called
                  rcases Option.map_eq_some_iff.mp called with ⟨noted, noting, same⟩
                  cases same
                  rcases note_control noting with ⟨nonneg, bound, entered⟩
                  refine ⟨rfl, ?_⟩
                  dsimp only
                  rw [if_pos ⟨nonneg, bound⟩]
                  exact congrArg some entered.symm
        · simp only [string, scope, ptrKey, ptrVal, if_false] at called
          rcases Option.bind_eq_some_iff.mp called with ⟨stored, storing, same⟩
          cases same
          refine ⟨rfl, ?_⟩
          rw [if_neg ptrVal]
          exact congrArg some (store_control storing).symm

theorem startArray_control (started : handler.startArray memory = some after) :
    handler.control.startArray memory = some after.control := by
  rw [startArray] at started
  rw [ParseControl.startArray, control]
  dsimp only
  cases scope : handler.parseStack with
  | nil =>
      rw [scope] at started
      dsimp only at started ⊢
      split at started
      · cases started
      · rename_i defined
        cases started
        exact if_neg defined
  | cons item stack =>
      rw [scope] at started
      dsimp only at started ⊢
      split at started
      · rename_i key
        cases started
        exact if_pos key
      · rename_i notKey
        cases started
        exact if_neg notKey

theorem endScope_control {type : ParseType} {proceed : Bool}
    (ended : handler.endScope type = some (after, proceed)) :
    handler.control.endScope type = some (after.control, proceed) := by
  rw [endScope] at ended
  rw [ParseControl.endScope, control]
  dsimp only
  cases scope : handler.parseStack with
  | nil =>
      rw [scope] at ended
      cases ended
  | cons item stack =>
      rw [scope] at ended
      cases ended
      rfl

/-- A call that the handler gets through is made on its control as well. -/
theorem handle_control {event : JsonEvent} {proceed : Bool}
    (handled : handler.handle memory event = some (after, proceed)) :
    handler.control.handle memory event = some (after.control, proceed) := by
  cases event with
  | startArray =>
      rcases Option.map_eq_some_iff.mp handled with ⟨opened, started, same⟩
      cases same
      exact Option.map_eq_some_iff.mpr ⟨_, startArray_control started, rfl⟩
  | endArray => exact endScope_control handled
  | endObject => exact endScope_control handled
  | uint value =>
      rcases uint_control handled with ⟨rfl, called⟩
      exact Option.map_eq_some_iff.mpr ⟨_, called, rfl⟩
  | string value =>
      rcases string_control handled with ⟨rfl, called⟩
      exact Option.map_eq_some_iff.mpr ⟨_, called, rfl⟩
  | startObject =>
      cases handled
      rfl
  | key name =>
      cases handled
      rfl
  | int _ | null | bool _ | int64 _ | uint64 _ | double =>
      cases handled
      rfl

/-- The reading of a handler is one of its control. -/
theorem read_control {events : List JsonEvent} {complete : Bool}
    (done : handler.read memory events = some (after, complete)) :
    handler.control.read memory events = some (after.control, complete) := by
  induction events generalizing handler with
  | nil =>
      cases done
      rfl
  | cons event rest ih =>
      rw [read] at done
      rcases Option.bind_eq_some_iff.mp done with ⟨⟨middle, proceed⟩, handled, continued⟩
      rw [ParseControl.read, handle_control handled]
      cases proceed with
      | false =>
          cases continued
          rfl
      | true => exact ih continued

/-! ## Calls that find their entries -/

/-- The call takes no entry from an empty stack and looks up no offset that is not there. -/
def FindsEntries (memory : ParseType) (handler : BufferReadHandler) : JsonEvent → Prop
  | .startArray => handler.parseStack = [] → memory ≠ .key
  | .endArray | .endObject | .uint _ => handler.parseStack ≠ []
  | .string _ =>
      match handler.parseStack with
      | [] => False
      | item :: stack => item.key = literal "ptr_val" →
          match stack with
          | _ :: itemKey :: _ =>
              0 ≤ (handler.nameId itemKey.key).2 ∧
                (handler.nameId itemKey.key).2 < handler.objectPtrs.length
          | _ => False
  | .startObject | .key _ | .int _ | .null | .bool _ | .int64 _ | .uint64 _ | .double => True

/-- Every call that a reading reaches finds its entries. -/
def ReadsSafely (memory : ParseType) (handler : BufferReadHandler) (events : List JsonEvent) :
    Prop :=
  ∀ before event rest, events = before ++ event :: rest → ∀ reached,
    handler.read memory before = some (reached, true) → reached.FindsEntries memory event

theorem findsEntries_string {value : Bytes}
    (called : handler.control.string value ≠ none) :
    handler.FindsEntries memory (.string value) := by
  have other : literal "ptr_val" ≠ literal "ptr_key" := by decide
  rw [FindsEntries]
  rw [ParseControl.string] at called
  simp only [nameId_control]
  cases scope : handler.parseStack with
  | nil => simp [control, scope] at called
  | cons item stack =>
      intro ptrVal
      match stack with
      | [] => simp [control, scope, ptrVal, other] at called
      | [_] => simp [control, scope, ptrVal, other] at called
      | _ :: itemKey :: _ =>
          by_contra absent
          have outside : ¬(0 ≤ handler.control.index itemKey.key ∧
              handler.control.index itemKey.key < handler.control.ptrCount) := absent
          rw [show handler.control.parseStack = _ from scope] at called
          simp only [ptrVal, other, if_false, if_true, if_neg outside] at called
          exact called rfl

/-- What the control has a result for finds its entries in the handler. -/
theorem findsEntries_of_control {event : JsonEvent}
    (called : handler.control.handle memory event ≠ none) :
    handler.FindsEntries memory event := by
  cases event with
  | startArray =>
      rintro empty rfl
      simp [ParseControl.handle, ParseControl.startArray, control, empty] at called
  | endArray | endObject =>
      intro empty
      simp [ParseControl.handle, ParseControl.endScope, control, empty] at called
  | uint value =>
      intro empty
      simp [ParseControl.handle, ParseControl.uint, control, empty] at called
  | string value =>
      apply findsEntries_string
      intro failed
      exact called (congrArg (Option.map (·, true)) failed)
  | startObject | key _ | int _ | null | bool _ | int64 _ | uint64 _ | double => trivial

/-- A reading of the control with a result says that the handler reads safely. -/
theorem readsSafely_of_control {events : List JsonEvent}
    (done : handler.control.read memory events ≠ none) : handler.ReadsSafely memory events := by
  rintro before event rest rfl reached passed
  apply findsEntries_of_control
  intro failed
  apply done
  rw [ParseControl.read_append (read_control passed), ParseControl.read, failed]
  rfl

end BufferReadHandler

end MultiMaster.Packet
