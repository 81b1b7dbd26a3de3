import MultiMaster.Packet.JsonReader
import MultiMaster.Packet.JsonWriter

/-!
# Texts of documents

A document that is written with balanced calls gives a text without white space: the elements
of an array and the members of an object stand between brackets, with commas between them.
-/

namespace MultiMaster.Packet

open Foundation

mutual

/-- Documents of strings and `int` numbers. -/
inductive WrittenValue where
  | string (value : Bytes)
  | int (value : Int32)
  | array (elements : WrittenElements)
  | object (members : WrittenMembers)

inductive WrittenElements where
  | nil
  | cons (first : WrittenValue) (rest : WrittenElements)

inductive WrittenMembers where
  | nil
  | cons (name : Bytes) (first : WrittenValue) (rest : WrittenMembers)

end

/-! ## Calls and text of a document -/

mutual

/-- The calls of the writer for a document. -/
def WrittenValue.events : WrittenValue → List JsonEvent
  | .string value => [.string value]
  | .int value => [.int value.toInt]
  | .array elements => .startArray :: (elements.events ++ [.endArray])
  | .object members => .startObject :: (members.events ++ [.endObject])

def WrittenElements.events : WrittenElements → List JsonEvent
  | .nil => []
  | .cons first rest => first.events ++ rest.events

def WrittenMembers.events : WrittenMembers → List JsonEvent
  | .nil => []
  | .cons name first rest => .key name :: (first.events ++ rest.events)

end

open JsonWriter JsonReader

mutual

/-- The text of a document. -/
def WrittenValue.text : WrittenValue → Bytes
  | .string value => writeString value
  | .int value => writeInt value.toInt
  | .array elements => leftBracket :: (elements.text false ++ [rightBracket])
  | .object members => leftCurlyBracket :: (members.text false ++ [rightCurlyBracket])

/-- The elements of an array, behind others or not. -/
def WrittenElements.text (behind : Bool) : WrittenElements → Bytes
  | .nil => []
  | .cons first rest => (if behind then [comma] else []) ++ first.text ++ rest.text true

def WrittenMembers.text (behind : Bool) : WrittenMembers → Bytes
  | .nil => []
  | .cons name first rest =>
      (if behind then [comma] else []) ++ writeString name ++ colon :: first.text ++
        rest.text true

end

def WrittenElements.length : WrittenElements → Nat
  | .nil => 0
  | .cons _ rest => rest.length + 1

def WrittenMembers.length : WrittenMembers → Nat
  | .nil => 0
  | .cons _ _ rest => rest.length + 1

/-! ## The writer -/

/-- The state of the writer inside an array after some values. -/
def insideArray (levels : List Level) (values : Nat) (text : Bytes) : JsonWriter.State :=
  ⟨⟨values, true⟩ :: levels, text⟩

/-- The state of the writer inside an object after some members. -/
def insideObject (levels : List Level) (members : Nat) (text : Bytes) : JsonWriter.State :=
  ⟨⟨2 * members, false⟩ :: levels, text⟩

theorem separator_insideArray (levels : List Level) (values : Nat) :
    separator (⟨values, true⟩ :: levels) = if decide (0 < values) then [comma] else [] := by
  rw [separator]
  by_cases behind : 0 < values
  · rw [if_pos behind, if_pos rfl, decide_eq_true behind, if_pos rfl]
    rfl
  · rw [if_neg behind, decide_eq_false behind, if_neg Bool.false_ne_true]

theorem separator_insideObject (levels : List Level) (members : Nat) :
    separator (⟨2 * members, false⟩ :: levels) =
      if decide (0 < members) then [comma] else [] := by
  rw [separator]
  dsimp only
  by_cases behind : 0 < members
  · rw [if_pos (by omega), if_neg Bool.false_ne_true, if_pos (Nat.mul_mod_right 2 members),
      decide_eq_true behind, if_pos rfl]
    rfl
  · rw [if_neg (by omega), decide_eq_false behind, if_neg Bool.false_ne_true]

/-- Between the name of a member and its value. -/
theorem separator_behindName (levels : List Level) (members : Nat) :
    separator (⟨2 * members + 1, false⟩ :: levels) = [colon] := by
  rw [separator]
  dsimp only
  rw [if_pos (Nat.succ_pos _), if_neg Bool.false_ne_true, if_neg (by omega)]
  rfl

theorem endArray_insideArray (levels : List Level) (values : Nat) (text : Bytes) :
    write (insideArray levels values text) .endArray = ⟨levels, text ++ [rightBracket]⟩ := rfl

theorem endObject_insideObject (levels : List Level) (members : Nat) (text : Bytes) :
    write (insideObject levels members text) .endObject =
      ⟨levels, text ++ [rightCurlyBracket]⟩ := rfl

mutual

/-- A value is written behind the separator of its scope, and counted there. -/
theorem write_value (state : JsonWriter.State) : ∀ value : WrittenValue,
    value.events.foldl write state =
      ⟨count state.levelStack, state.text ++ separator state.levelStack ++ value.text⟩
  | .string value => rfl
  | .int value => rfl
  | .array elements => by
      have opened : write state .startArray =
          insideArray (count state.levelStack) 0
            (state.text ++ separator state.levelStack ++ [leftBracket]) := rfl
      rw [WrittenValue.events, List.foldl_cons, List.foldl_append, opened, write_elements,
        List.foldl_cons, List.foldl_nil, endArray_insideArray, WrittenValue.text,
        decide_eq_false (Nat.lt_irrefl 0), List.append_assoc _ [leftBracket], List.append_assoc]
      rfl
  | .object members => by
      have opened : write state .startObject =
          insideObject (count state.levelStack) 0
            (state.text ++ separator state.levelStack ++ [leftCurlyBracket]) := rfl
      rw [WrittenValue.events, List.foldl_cons, List.foldl_append, opened, write_members,
        List.foldl_cons, List.foldl_nil, endObject_insideObject, WrittenValue.text,
        decide_eq_false (Nat.lt_irrefl 0), List.append_assoc _ [leftCurlyBracket],
        List.append_assoc]
      rfl

theorem write_elements (levels : List Level) (values : Nat) (text : Bytes) :
    ∀ elements : WrittenElements,
      elements.events.foldl write (insideArray levels values text) =
        insideArray levels (values + elements.length)
          (text ++ elements.text (decide (0 < values)))
  | .nil => by
      rw [WrittenElements.text, List.append_nil]
      rfl
  | .cons first rest => by
      have counted : first.events.foldl write (insideArray levels values text) =
          insideArray levels (values + 1)
            (text ++ (if decide (0 < values) then [comma] else []) ++ first.text) := by
        rw [write_value, ← separator_insideArray levels values]
        rfl
      rw [WrittenElements.events, List.foldl_append, counted, write_elements,
        decide_eq_true (Nat.succ_pos values), WrittenElements.text, WrittenElements.length,
        Nat.add_assoc, Nat.add_comm 1, List.append_assoc, List.append_assoc, List.append_assoc]

theorem write_members (levels : List Level) (before : Nat) (text : Bytes) :
    ∀ members : WrittenMembers,
      members.events.foldl write (insideObject levels before text) =
        insideObject levels (before + members.length)
          (text ++ members.text (decide (0 < before)))
  | .nil => by
      rw [WrittenMembers.text, List.append_nil]
      rfl
  | .cons name first rest => by
      have named : write (insideObject levels before text) (.key name) =
          ⟨⟨2 * before + 1, false⟩ :: levels,
            text ++ (if decide (0 < before) then [comma] else []) ++ writeString name⟩ := by
        rw [← separator_insideObject levels before]
        rfl
      have counted : first.events.foldl write ⟨⟨2 * before + 1, false⟩ :: levels,
            text ++ (if decide (0 < before) then [comma] else []) ++ writeString name⟩ =
          insideObject levels (before + 1)
            (text ++ (if decide (0 < before) then [comma] else []) ++ writeString name ++
              [colon] ++ first.text) := by
        rw [write_value, ← separator_behindName levels before]
        rfl
      rw [WrittenMembers.events, List.foldl_cons, named, List.foldl_append, counted,
        write_members, decide_eq_true (Nat.succ_pos before), WrittenMembers.text,
        WrittenMembers.length, Nat.add_assoc, Nat.add_comm 1]
      simp only [List.append_assoc, List.cons_append, List.nil_append]

end

/-- The calls for a document write its text. -/
theorem textOf_events (value : WrittenValue) : textOf value.events = value.text := by
  rw [textOf, write_value]
  rfl

end MultiMaster.Packet
