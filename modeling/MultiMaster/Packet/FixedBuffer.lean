import Mathlib.Order.Lattice
import MultiMaster.Foundation.Bytes

/-!
# Buffers over the caller's memory

A `FixedBuffer` writes into memory it is given.  The definitions follow
`multi_buffer.cc`.  A write outside of the memory has no result.
-/

namespace MultiMaster.Packet

open Foundation

/-- The value of a 32-bit `int` computation. -/
def wrapInt (value : Int) : Int := Int.bmod value (2 ^ 32)

/-- The address of the memory, what it holds, its length and the end of what was
written. -/
structure FixedBuffer where
  bytes : Nat
  memory : Bytes
  length : Int
  tailOffset : Int
  deriving DecidableEq

namespace FixedBuffer

/-- A buffer that has not been given memory yet. -/
def new : FixedBuffer := ⟨0, [], 0, 0⟩

/-- Take over memory at an address and clear it.  `memset` does not return when the length
is negative. -/
def setBuffer (address : Nat) (len : Int) : Option FixedBuffer :=
  if 0 ≤ len then
    some { bytes := address
           memory := List.replicate len.toNat 0
           length := len
           tailOffset := 0 }
  else
    none

def put (buffer : FixedBuffer) (data : Bytes) (offset size : Int) :
    Option (FixedBuffer × Bool) :=
  if buffer.length < wrapInt (offset + size) then
    some (buffer, false)
  else if 0 ≤ offset ∧ 0 ≤ size ∧ offset + size ≤ buffer.memory.length then
    some ({ buffer with
      tailOffset :=
        if buffer.tailOffset < wrapInt (offset + size) then wrapInt (offset + size)
        else buffer.tailOffset
      memory := overwrite buffer.memory offset.toNat (data.take size.toNat) }, true)
  else
    none

/-- Returns the offset of the data, whether or not there was room for it. -/
def append (buffer : FixedBuffer) (data : Bytes) (size : Int) : Option (FixedBuffer × Int) := do
  let written ← buffer.put data buffer.tailOffset size
  return (written.1, buffer.tailOffset)

def getAddress (buffer : FixedBuffer) (offset : Int) : Int := buffer.bytes + offset

def size (buffer : FixedBuffer) : Int := buffer.tailOffset

/-! ## Filled buffers -/

/-- A buffer of `size` bytes that begins with `content` and is clear behind it. -/
def holding (address size : Nat) (content : Bytes) : FixedBuffer :=
  { bytes := address
    memory := content ++ List.replicate (size - content.length) 0
    length := size
    tailOffset := content.length }

variable {address size : Nat} {content data : Bytes}

theorem wrapInt_of_lt {value : Nat} (small : value < 2 ^ 31) : wrapInt value = value := by
  apply Int.bmod_eq_of_le
  · omega
  · omega

theorem setBuffer_natCast (address size : Nat) :
    setBuffer address size = some (holding address size []) := by
  simp [setBuffer, holding]

/-- A write that fits is made, and moves the tail when it goes beyond it. -/
theorem put_of_fits {buffer : FixedBuffer} {offset : Nat}
    (length : buffer.length = buffer.memory.length)
    (inside : offset + data.length ≤ buffer.memory.length)
    (small : buffer.memory.length < 2 ^ 31) :
    buffer.put data offset data.length =
      some ({ buffer with
        tailOffset := max buffer.tailOffset (offset + data.length : Nat)
        memory := overwrite buffer.memory offset data }, true) := by
  have sum : wrapInt ((offset : Int) + data.length) = (offset + data.length : Nat) := by
    rw [← Nat.cast_add]
    exact wrapInt_of_lt (by omega)
  have fits : ¬buffer.length < ((offset + data.length : Nat) : Int) := by
    rw [length]
    omega
  have room : 0 ≤ (offset : Int) ∧ 0 ≤ (data.length : Int) ∧
      (offset : Int) + data.length ≤ buffer.memory.length := by omega
  have tail : (if buffer.tailOffset < ((offset + data.length : Nat) : Int)
      then ((offset + data.length : Nat) : Int) else buffer.tailOffset) =
        max buffer.tailOffset (offset + data.length : Nat) := by
    split
    · omega
    · omega
  rw [put, sum, if_neg fits, if_pos room, tail, Int.toNat_natCast, Int.toNat_natCast,
    List.take_length]

/-- Writing inside the content. -/
theorem put_holding {offset : Nat} (inside : offset + data.length ≤ content.length)
    (fits : content.length ≤ size) (small : size < 2 ^ 31) :
    (holding address size content).put data offset data.length =
      some (holding address size (overwrite content offset data), true) := by
  have whole : (holding address size content).memory.length = size := by
    simp only [holding, List.length_append, List.length_replicate]
    omega
  rw [put_of_fits (by rw [whole]; rfl) (by omega) (by omega)]
  simp only [holding, length_overwrite inside, overwrite_append_left inside]
  rw [max_eq_left (by omega)]

/-- Appending behind the content. -/
theorem append_holding (fits : content.length + data.length ≤ size) (small : size < 2 ^ 31) :
    (holding address size content).append data data.length =
      some (holding address size (content ++ data), (content.length : Int)) := by
  have whole : (holding address size content).memory.length = size := by
    simp only [holding, List.length_append, List.length_replicate]
    omega
  have written : (holding address size content).put data content.length data.length = _ :=
    put_of_fits (by rw [whole]; rfl) (by omega) (by omega)
  have tail : (holding address size content).tailOffset = (content.length : Int) := rfl
  have rest : size - content.length - data.length = size - (content ++ data).length := by
    rw [List.length_append]
    omega
  rw [append, tail, written]
  simp only [holding, overwrite_append_fill, rest, List.length_append, Option.bind_eq_bind,
    Option.bind_some, Option.pure_def]
  rw [max_eq_right (by omega)]

end FixedBuffer

end MultiMaster.Packet
