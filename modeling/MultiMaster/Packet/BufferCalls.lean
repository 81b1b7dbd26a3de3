import MultiMaster.Foundation.Machine
import MultiMaster.Packet.DynamicRuns

/-!
# The calls of a buffer

Both buffers implement `BufferAPI`.  The module supplies the calls that are not modelled
elsewhere, the machines that take the calls one after another, and what a dynamic buffer
keeps over any calls in range.  The definitions follow `multi_buffer.h` and
`multi_buffer.cc`.
-/

namespace MultiMaster.Packet

open Foundation

/-- A call of `BufferAPI`; writes are given all of their data. -/
inductive BufferCall where
  | put (data : Bytes) (offset : Nat)
  | append (data : Bytes)
  | get (offset size : Nat)
  | size
  | clear
  | destory
  deriving DecidableEq

/-- What a call returns: whether it has stored or read something, and an offset or size.
`FixedBuffer::get` has no return statement. -/
inductive BufferAnswer where
  | stored (done : Bool)
  | placed (offset : Int)
  | read (done : Option Bool) (bytes : Bytes)
  | counted (size : Int)
  | nothing
  deriving DecidableEq

namespace DynamicBuffer

/-- The blocks are kept and zeroed. -/
def clear (buffer : DynamicBuffer) : DynamicBuffer :=
  { blocksList := buffer.blocksList.map fun _ => Block.zero
    tailOffsetInBlock := 0 }

def destory (_ : DynamicBuffer) : DynamicBuffer := ⟨[], 0⟩

def call (buffer : DynamicBuffer) : BufferCall → Option (DynamicBuffer × BufferAnswer)
  | .put data offset => (buffer.put data offset data.length).map fun put =>
      (put.1, .stored put.2)
  | .append data => (buffer.append data data.length).map fun appended =>
      (appended.1, .placed appended.2)
  | .get offset size => (buffer.get offset size).map fun got => (buffer, .read (some got.1) got.2)
  | .size => some (buffer, .counted buffer.size)
  | .clear => some (buffer.clear, .nothing)
  | .destory => some (buffer.destory, .nothing)

end DynamicBuffer

namespace FixedBuffer

/-- Bytes are read as they lie in the memory; there is no test of the range. -/
def get (buffer : FixedBuffer) (offset size : Int) : Option Bytes :=
  if 0 ≤ offset ∧ 0 ≤ size ∧ offset + size ≤ buffer.memory.length then
    some (slice buffer.memory offset.toNat size.toNat)
  else
    none

/-- The memory is zeroed; `memset` does not return when the length is negative. -/
def clear (buffer : FixedBuffer) : Option FixedBuffer :=
  if 0 ≤ buffer.length then
    some { buffer with memory := List.replicate buffer.length.toNat 0 }
  else
    none

/-- The memory is given back. -/
def destory (buffer : FixedBuffer) : FixedBuffer := { buffer with memory := [] }

def call (buffer : FixedBuffer) : BufferCall → Option (FixedBuffer × BufferAnswer)
  | .put data offset => (buffer.put data offset data.length).map fun put =>
      (put.1, .stored put.2)
  | .append data => (buffer.append data data.length).map fun appended =>
      (appended.1, .placed appended.2)
  | .get offset size => (buffer.get offset size).map fun bytes => (buffer, .read none bytes)
  | .size => some (buffer, .counted buffer.size)
  | .clear => buffer.clear.map fun cleared => (cleared, .nothing)
  | .destory => some (buffer.destory, .nothing)

end FixedBuffer

/-- A buffer as a machine.  After a call outside of the memory nothing happens. -/
def bufferMachine {Buffer : Type} (call : Buffer → BufferCall → Option (Buffer × BufferAnswer)) :
    Machine (Option Buffer) BufferCall (Option BufferAnswer) where
  step state input :=
    let result := state.bind fun buffer => call buffer input
    (result.map Prod.fst, result.map Prod.snd)

def dynamicCalls : Machine (Option DynamicBuffer) BufferCall (Option BufferAnswer) :=
  bufferMachine DynamicBuffer.call

def fixedCalls : Machine (Option FixedBuffer) BufferCall (Option BufferAnswer) :=
  bufferMachine FixedBuffer.call

/-! ## Calls in range -/

section

variable {Buffer : Type} (call : Buffer → BufferCall → Option (Buffer × BufferAnswer))
variable (inRange : Buffer → BufferCall → Prop)

/-- The calls are of one kind and in range of the buffers that they find. -/
def CallsInRange (kind : BufferCall → Prop) (start : Buffer) (calls : List BufferCall) : Prop :=
  (bufferMachine call).Respects (some start)
    (fun _ state input => kind input ∧ ∀ buffer, state = some buffer → inRange buffer input) calls

/-- A buffer with a property was reached. -/
def Reached (property : Buffer → Prop) (state : Option Buffer) : Prop :=
  ∃ buffer, state = some buffer ∧ property buffer

variable {call inRange}

theorem step_of_call {buffer after : Buffer} {input : BufferCall} {answer : BufferAnswer}
    (called : call buffer input = some (after, answer)) :
    (bufferMachine call).step (some buffer) input = (some after, some answer) := by
  rw [bufferMachine]
  simp only [Option.bind_some, called, Option.map_some]

theorem callsInRange_singleton {kind : BufferCall → Prop} {start : Buffer} {input : BufferCall} :
    CallsInRange call inRange kind start [input] ↔ kind input ∧ inRange start input := by
  rw [CallsInRange, ← List.nil_append [input], Machine.respects_concat]
  simp only [Machine.respects_nil, Machine.exec_nil, Option.some.injEq, forall_eq', true_and]

/-- A run in range of buffers with a property that the calls keep returns, and leaves such a
buffer. -/
theorem CallsInRange.reached {property : Buffer → Prop} {start : Buffer}
    {kind : BufferCall → Prop} (initial : property start)
    (step : ∀ buffer input, property buffer → kind input → inRange buffer input →
      ∃ after answer, call buffer input = some (after, answer) ∧ property after)
    {calls : List BufferCall} (respects : CallsInRange call inRange kind start calls) :
    Reached property ((bufferMachine call).exec (some start) calls) := by
  have first : Reached property (some start) := ⟨start, rfl, initial⟩
  refine Machine.exec_invariant first ?_ respects
  rintro history state input ⟨buffer, rfl, holds⟩ ⟨allowed, inside⟩
  rcases step buffer input holds allowed (inside buffer rfl) with
    ⟨after, answer, called, holdsAfter⟩
  rw [step_of_call called]
  exact ⟨after, rfl, holdsAfter⟩

end

/-! ## Dynamic buffers in range -/

namespace DynamicBuffer

variable {buffer after : DynamicBuffer} {data : Bytes} {offset : Nat}

/-- The range of a call leaves room for one more block below the largest `int`. -/
def InRange (buffer : DynamicBuffer) : BufferCall → Prop
  | .put data offset => offset + data.length ≤ 2 ^ 31 - blockSize
  | .append data => buffer.size + data.length ≤ 2 ^ 31 - blockSize
  | .get offset size => offset + size ≤ 2 ^ 31 - blockSize
  | .size | .clear | .destory => True

/-- All calls of a run are in range of the buffers that they find. -/
def RespectsRange (calls : List BufferCall) : Prop :=
  dynamicCalls.Respects (some new)
    (fun _ state call => ∀ buffer, state = some buffer → buffer.InRange call) calls

/-- The blocks can be counted, and the tail lies in a block that exists. -/
structure Sound (buffer : DynamicBuffer) : Prop where
  few : buffer.blocksList.length ≤ maxBlocks
  tail : ∃ tail : Nat, buffer.tailOffsetInBlock = tail ∧ tail ≤ blockSize
  empty : buffer.blocksList.length = 0 → buffer.tailOffsetInBlock = 0

theorem sound_new : Sound new := ⟨Nat.zero_le _, ⟨0, rfl, Nat.zero_le _⟩, fun _ => rfl⟩

theorem Sound.clear (sound : buffer.Sound) : buffer.clear.Sound := by
  refine ⟨?_, ⟨0, rfl, Nat.zero_le _⟩, fun _ => rfl⟩
  rw [DynamicBuffer.clear, List.length_map]
  exact sound.few

/-- The size is at most the capacity. -/
theorem Sound.size_bounds (sound : buffer.Sound) :
    ∃ size : Nat, buffer.size = size ∧ size ≤ blockSize * buffer.blocksList.length := by
  rcases sound.tail with ⟨tail, same, short⟩
  refine ⟨_, size_eq sound.few same short, ?_⟩
  cases count : buffer.blocksList.length with
  | zero =>
      have none := sound.empty count
      omega
  | succ others =>
      rw [Nat.mul_succ, Nat.add_sub_cancel]
      omega

theorem PutResult.sound (result : PutResult buffer after data offset) (sound : buffer.Sound)
    (fits : offset + data.length ≤ 2 ^ 31 - blockSize) : after.Sound := by
  constructor
  · rw [result.length, length_extended]
    exact Nat.max_le.mpr ⟨sound.few, blocksFor_le_maxBlocks fits⟩
  · rw [result.tail]
    split
    · exact ⟨_, rfl, tailOf_le _⟩
    · exact sound.tail
  · intro none
    rw [result.length, length_extended] at none
    have bound := le_blocksFor (offset + data.length)
    have needed : blocksFor (offset + data.length) = 0 := by omega
    rw [needed, Nat.mul_zero] at bound
    rw [result.tail, if_neg (by omega)]
    exact sound.empty (by omega)

/-- `append` is `put` at the size. -/
theorem append_eq (sound : buffer.Sound)
    (fits : buffer.size + data.length ≤ 2 ^ 31 - blockSize) :
    ∃ size : Nat, buffer.size = size ∧ size + data.length ≤ 2 ^ 31 - blockSize ∧
      ∃ after, buffer.put data size data.length = some (after, true) ∧
        PutResult buffer after data size ∧
        buffer.append data data.length = some (after, (size : Int)) := by
  rcases sound.size_bounds with ⟨size, same, _⟩
  rw [same] at fits
  have small : size + data.length ≤ 2 ^ 31 - blockSize := by
    rw [blockSize_eq] at fits ⊢
    omega
  rcases put_eq sound.few small with ⟨after, putting, result⟩
  refine ⟨size, same, small, after, putting, result, ?_⟩
  rw [append, same, putting]
  rfl

/-- `get` answers false exactly when the range ends behind the blocks. -/
theorem get_eq (sound : buffer.Sound) {size : Nat} (fits : offset + size ≤ 2 ^ 31 - blockSize) :
    buffer.get offset size =
      if blockSize * buffer.blocksList.length < offset + size then some (false, [])
      else some (true, slice (contents buffer.blocksList) offset size) := by
  have small : offset + size < 2 ^ 31 := by
    rw [blockSize_eq] at fits
    omega
  split
  · have beyond : ((blockSize * buffer.blocksList.length : Nat) : Int) < (offset + size : Nat) := by
      exact_mod_cast (by assumption)
    rw [get, checkSpace, wrapInt_add small, capacity_eq sound.few, if_pos beyond]
    rfl
  · exact get_inside sound.few (by rw [length_contents]; omega)

theorem exists_call {call : BufferCall} (sound : buffer.Sound) (inRange : buffer.InRange call) :
    ∃ after answer, buffer.call call = some (after, answer) ∧ after.Sound := by
  cases call with
  | put data offset =>
      rcases put_eq sound.few inRange with ⟨after, putting, result⟩
      refine ⟨after, .stored true, ?_, result.sound sound inRange⟩
      rw [DynamicBuffer.call, putting]
      rfl
  | append data =>
      rcases append_eq sound inRange with ⟨size, _, small, after, _, result, appending⟩
      refine ⟨after, .placed size, ?_, result.sound sound small⟩
      rw [DynamicBuffer.call, appending]
      rfl
  | get offset size =>
      have getting := get_eq sound inRange
      split at getting
      · exact ⟨buffer, _, by rw [DynamicBuffer.call, getting]; rfl, sound⟩
      · exact ⟨buffer, _, by rw [DynamicBuffer.call, getting]; rfl, sound⟩
  | size => exact ⟨buffer, _, rfl, sound⟩
  | clear => exact ⟨buffer.clear, _, rfl, sound.clear⟩
  | destory => exact ⟨new, _, rfl, sound_new⟩

/-- A run in range returns and leaves a sound buffer. -/
theorem RespectsRange.reached {calls : List BufferCall} (respects : RespectsRange calls) :
    Reached Sound (dynamicCalls.exec (some new) calls) := by
  have inRange : CallsInRange DynamicBuffer.call InRange (fun _ => True) new calls :=
    fun before input after split => ⟨trivial, respects before input after split⟩
  exact inRange.reached sound_new fun _ _ sound _ => exists_call sound

end DynamicBuffer

end MultiMaster.Packet
