import Mathlib.Data.List.Basic
import Mathlib.Data.List.Range

/-!
# Flat arrays

An unbounded array, written to in ranges, is the meaning of a buffer that stores the
front of it in pieces.  `Represents` relates the two.
-/

namespace MultiMaster.Foundation

universe u

/-- An array without an end. -/
def FlatArray (Value : Type u) := Nat → Value

namespace FlatArray

variable {Value : Type u}

/-- The array that holds one value everywhere. -/
def filled (value : Value) : FlatArray Value := fun _ => value

/-- The array after `data` was written at `offset`. -/
def write (array : FlatArray Value) (offset : Nat) (data : List Value) : FlatArray Value :=
  fun position =>
    if offset ≤ position then (data[position - offset]?).getD (array position)
    else array position

/-- The `size` values from `offset` on. -/
def read (array : FlatArray Value) (offset size : Nat) : List Value :=
  (List.range size).map fun index => array (offset + index)

variable {array : FlatArray Value} {values data : List Value} {offset size position : Nat}

theorem write_outside (outside : position < offset ∨ offset + data.length ≤ position) :
    array.write offset data position = array position := by
  rw [write]
  split
  · rw [List.getElem?_eq_none (by omega)]
    rfl
  · rfl

theorem write_inside {value : Value} (found : data[position]? = some value) :
    array.write offset data (offset + position) = value := by
  rw [write, if_pos (Nat.le_add_right _ _), Nat.add_sub_cancel_left, found]
  rfl

/-- The values are the front of the array and everything behind them is blank. -/
def Represents (blank : Value) (values : List Value) (array : FlatArray Value) : Prop :=
  ∀ position, (values[position]?).getD blank = array position

/-- A stored value. -/
theorem Represents.getElem?_eq {blank : Value} (represents : Represents blank values array)
    (inside : position < values.length) : values[position]? = some (array position) := by
  have found := List.getElem?_eq_getElem inside
  rw [← represents position, found]
  rfl

/-- A range of the stored values is that range of the array. -/
theorem Represents.read_eq {blank : Value} (represents : Represents blank values array)
    (inside : size = 0 ∨ offset + size ≤ values.length) :
    (values.drop offset).take size = array.read offset size := by
  apply List.ext_getElem?
  intro index
  by_cases within : index < size
  · rw [List.getElem?_take_of_lt within, List.getElem?_drop,
      represents.getElem?_eq (by omega), read, List.getElem?_map, List.getElem?_range within]
    rfl
  · rw [List.getElem?_take_eq_none (Nat.not_lt.mp within), List.getElem?_eq_none]
    rw [read, List.length_map, List.length_range]
    exact Nat.not_lt.mp within

end FlatArray

end MultiMaster.Foundation
