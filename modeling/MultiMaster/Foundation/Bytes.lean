import Mathlib.Data.List.Basic
import Mathlib.Data.List.TakeWhile
import Mathlib.Data.Set.Finite.Basic
import Mathlib.Data.UInt
import Mathlib.Tactic.Ring

/-!
# Bytes, C strings and little-endian words

Byte strings are lists of bytes.  A C string is a byte string without the
terminator, so that the terminator is never part of the value.  Fixed-width
unsigned words are laid out least significant byte first.
-/

namespace MultiMaster.Foundation

abbrev Bytes := List UInt8

/-! ## C strings -/

/-- The bytes of a C string in front of its terminator. -/
def CString := { bytes : Bytes // (0 : UInt8) ∉ bytes }

namespace CString

instance : DecidableEq CString :=
  inferInstanceAs (DecidableEq { bytes : Bytes // (0 : UInt8) ∉ bytes })

/-- Read a C string from memory: everything up to the first terminator. -/
def read (memory : Bytes) : CString :=
  ⟨memory.takeWhile (· ≠ 0), by
    intro member
    have nonzero := List.mem_takeWhile_imp member
    simp at nonzero⟩

/-- The C string of a source literal with one byte per character. -/
def ofString (literal : String) : CString :=
  read (literal.toList.map fun character => UInt8.ofNat character.toNat)

/-- There are C strings of every length. -/
instance : Infinite CString :=
  Infinite.of_injective
    (fun size => (⟨List.replicate size 1, by simp [List.mem_replicate]⟩ : CString))
    (by
      intro left right equal
      have lengths := congrArg (fun string : CString => string.val.length) equal
      simpa using lengths)

def length (string : CString) : Nat := string.val.length

/-- The string as it lies in memory, terminator included. -/
def toMemory (string : CString) : Bytes := string.val ++ [0]

@[simp] theorem length_toMemory (string : CString) :
    string.toMemory.length = string.length + 1 := by
  simp [toMemory, length]

@[simp] theorem read_toMemory_append (string : CString) (rest : Bytes) :
    read (string.toMemory ++ rest) = string := by
  apply Subtype.ext
  have nonzero : ∀ byte ∈ string.val, decide (byte ≠ 0) = true := by
    intro byte member
    have different : byte ≠ 0 := fun equal => string.property (equal ▸ member)
    simpa using different
  simp only [read, toMemory, List.append_assoc]
  rw [List.takeWhile_append_of_pos nonzero]
  simp

end CString

/-! ## Little-endian words -/

/-- The `width` low-order bytes of a number, least significant first. -/
def leBytes : (width : Nat) → Nat → Bytes
  | 0, _ => []
  | width + 1, value => UInt8.ofNat value :: leBytes width (value / 256)

/-- The number laid out in a byte string, least significant byte first. -/
def leValue : Bytes → Nat
  | [] => 0
  | byte :: rest => byte.toNat + 256 * leValue rest

@[simp] theorem length_leBytes (width value : Nat) :
    (leBytes width value).length = width := by
  induction width generalizing value with
  | zero => rfl
  | succ width ih => simp [leBytes, ih]

@[simp] theorem leValue_leBytes (width value : Nat) :
    leValue (leBytes width value) = value % 256 ^ width := by
  induction width generalizing value with
  | zero => simp [leBytes, leValue, Nat.mod_one]
  | succ width ih =>
      have lowByte : (UInt8.ofNat value).toNat = value % 256 := rfl
      have widened : 256 ^ (width + 1) = 256 * 256 ^ width := by ring
      rw [leBytes, leValue, ih, lowByte, widened, Nat.mod_mul]

theorem leValue_lt (bytes : Bytes) : leValue bytes < 256 ^ bytes.length := by
  induction bytes with
  | nil => simp [leValue]
  | cons byte rest ih =>
      have small := byte.toNat_lt
      rw [leValue, List.length_cons, pow_succ]
      omega

/-- Bytes are laid out again from the number they stand for. -/
@[simp] theorem leBytes_leValue (bytes : Bytes) :
    leBytes bytes.length (leValue bytes) = bytes := by
  induction bytes with
  | nil => rfl
  | cons byte rest ih =>
      have small := byte.toNat_lt
      have rest_eq : (byte.toNat + 256 * leValue rest) / 256 = leValue rest := by omega
      have byte_eq : UInt8.ofNat (byte.toNat + 256 * leValue rest) = byte := by
        apply UInt8.toNat_inj.mp
        rw [UInt8.toNat_ofNat']
        omega
      rw [leValue, List.length_cons, leBytes, rest_eq, byte_eq, ih]

/-- Four-byte words laid out one after another. -/
def leWords (values : List Nat) : Bytes := values.flatMap (leBytes 4)

@[simp] theorem length_leWords (values : List Nat) :
    (leWords values).length = 4 * values.length := by
  induction values with
  | nil => rfl
  | cons value rest ih =>
      simp only [leWords, List.flatMap_cons, List.length_append, length_leBytes,
        List.length_cons] at ih ⊢
      omega

theorem leWords_concat (values : List Nat) (value : Nat) :
    leWords (values ++ [value]) = leWords values ++ leBytes 4 value := by
  simp [leWords]

/-! ## Reading and writing memory -/

/-- The `size` bytes from `offset` on. -/
def slice (memory : Bytes) (offset size : Nat) : Bytes :=
  (memory.drop offset).take size

/-- Memory after `data` was copied to `offset`. -/
def overwrite (memory : Bytes) (offset : Nat) (data : Bytes) : Bytes :=
  memory.take offset ++ data ++ memory.drop (offset + data.length)

theorem slice_append (front data back : Bytes) :
    slice (front ++ data ++ back) front.length data.length = data := by
  simp [slice]

/-- A word of an array of words is read back from its own position. -/
theorem slice_leWords (values : List Nat) (rest : Bytes) (index : Nat)
    (inBounds : index < values.length) :
    slice (leWords values ++ rest) (4 * index) 4 = leBytes 4 values[index] := by
  have split : leWords values =
      leWords (values.take index) ++
        (leBytes 4 values[index] ++ leWords (values.drop (index + 1))) := by
    conv_lhs => rw [← List.take_append_drop index values,
      List.drop_eq_getElem_cons inBounds]
    simp only [leWords, List.flatMap_append, List.flatMap_cons]
  have position : (leWords (values.take index)).length = 4 * index := by
    rw [length_leWords, List.length_take_of_le (Nat.le_of_lt inBounds)]
  rw [split, slice, List.append_assoc, ← position, List.drop_left]
  simp

theorem length_overwrite {memory data : Bytes} {offset : Nat}
    (inside : offset + data.length ≤ memory.length) :
    (overwrite memory offset data).length = memory.length := by
  simp only [overwrite, List.length_append, List.length_take, List.length_drop]
  omega

/-- Writing inside the front leaves the back alone. -/
theorem overwrite_append_left {front back data : Bytes} {offset : Nat}
    (inside : offset + data.length ≤ front.length) :
    overwrite (front ++ back) offset data = overwrite front offset data ++ back := by
  have start : offset ≤ front.length := by omega
  rw [overwrite, overwrite, List.take_append_of_le_length start,
    List.drop_append_of_le_length inside]
  simp only [List.append_assoc]

/-- A write does not touch the bytes before and behind it. -/
theorem getElem?_overwrite {memory data : Bytes} {offset position : Nat}
    (inside : offset + data.length ≤ memory.length)
    (outside : position < offset ∨ offset + data.length ≤ position) :
    (overwrite memory offset data)[position]? = memory[position]? := by
  have front : (memory.take offset).length = offset := by
    rw [List.length_take]
    omega
  rw [overwrite, List.append_assoc]
  rcases outside with before | behind
  · rw [List.getElem?_append_left (by omega), List.getElem?_take_of_lt before]
  · rw [List.getElem?_append_right (by omega), List.getElem?_append_right (by omega),
      List.getElem?_drop, front]
    congr 1
    omega

/-- What was written is read back. -/
theorem slice_overwrite {memory data : Bytes} {offset : Nat}
    (inside : offset + data.length ≤ memory.length) :
    slice (overwrite memory offset data) offset data.length = data := by
  have front : (memory.take offset).length = offset := by
    rw [List.length_take]
    omega
  have found := slice_append (memory.take offset) data (memory.drop (offset + data.length))
  rw [front] at found
  exact found

/-- Memories that agree on a range have the same slice there. -/
theorem slice_congr {first second : Bytes} {offset size : Nat}
    (same : ∀ position, offset ≤ position → position < offset + size →
      first[position]? = second[position]?) :
    slice first offset size = slice second offset size := by
  apply List.ext_getElem?
  intro index
  by_cases inside : index < size
  · rw [slice, slice, List.getElem?_take_of_lt inside, List.getElem?_take_of_lt inside,
      List.getElem?_drop, List.getElem?_drop]
    exact same (offset + index) (by omega) (by omega)
  · rw [slice, slice, List.getElem?_take_eq_none (Nat.not_lt.mp inside),
      List.getElem?_take_eq_none (Nat.not_lt.mp inside)]

/-- A slice of a slice. -/
theorem slice_slice (memory : Bytes) {offset size start count : Nat}
    (inside : start + count ≤ size) :
    slice (slice memory offset size) start count = slice memory (offset + start) count := by
  rw [slice, slice, slice, List.drop_take, List.drop_drop, List.take_take,
    Nat.min_eq_left (by omega)]

/-- Writing at the end of the front replaces bytes of the filling behind it. -/
theorem overwrite_append_fill (front data : Bytes) (size : Nat) :
    overwrite (front ++ List.replicate size 0) front.length data =
      front ++ data ++ List.replicate (size - data.length) 0 := by
  simp [overwrite]

end MultiMaster.Foundation
