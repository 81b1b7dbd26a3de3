import Mathlib.Logic.Function.Basic
import MultiMaster.Packet.Parsing
import MultiMaster.Packet.PutCalls

/-!
# Reading texts of the packet shape

A text of the packet shape has a header, objects with items and an object with notes;
its strings and offsets are arbitrary.  Reading one is a sequence of two kinds of
steps: a value is stored under a name, or a note is followed.  An account says, from
the lengths of the values and the offsets alone, where each step writes and whether
that is inside of the buffer.
-/

namespace MultiMaster.Packet

open Foundation

/-- A note as the reader finds it in a text. -/
structure TextNote where
  key : Bytes
  offset : UInt32
  value : Bytes
  deriving DecidableEq

/-- A JSON text of the packet shape.  The names of the members of notes are not names of
items. -/
structure PacketText where
  header : Bytes
  groups : List (List (Bytes × Bytes))
  notes : List TextNote
  storable : ∀ entry ∈ groups.flatten, BufferReadHandler.Storable entry.1

/-- What reading a text does with the handler's data. -/
inductive PacketStep where
  | store (name value : Bytes)
  | note (note : TextNote)
  deriving DecidableEq

namespace PacketText

/-- An object of a packet with its kind and its members. -/
def objectEvents (segment : UInt32) (members : List JsonEvent) : List JsonEvent :=
  [.startObject, .key (literal "SegmentType"), .uint segment] ++ members ++ [.endObject]

def memberEvents (entry : Bytes × Bytes) : List JsonEvent :=
  [.key entry.1, .string entry.2]

def noteEvents (note : TextNote) : List JsonEvent :=
  [.startObject, .key (literal "ptr_key"), .string note.key, .key (literal "ptr_offset"),
    .uint note.offset, .key (literal "ptr_val"), .string note.value, .endObject]

/-- The header is stored like an item. -/
def headerEntry (text : PacketText) : Bytes × Bytes := (literal "PacketHeader", text.header)

/-- The calls of the handler when the text is read. -/
def events (text : PacketText) : List JsonEvent :=
  [.startArray] ++ objectEvents 0 (memberEvents text.headerEntry) ++
    text.groups.flatMap (fun group => objectEvents 1 (group.flatMap memberEvents)) ++
    objectEvents 2 ([.key (literal "note_arry"), .startArray] ++
      text.notes.flatMap noteEvents ++ [.endArray]) ++ [.endArray]

/-- The steps behind the storing of the header. -/
def steps (text : PacketText) : List PacketStep :=
  text.groups.flatten.map (fun entry => .store entry.1 entry.2) ++ text.notes.map .note

end PacketText

/-! ## Accounts -/

/-- How many bytes of a value `append` is told to copy. -/
def copied (value : Bytes) : Nat := value.length % 2 ^ 32

/-- The place of a slot in 32-bit arithmetic. -/
def slotOf (startOffset : Int) (ptrOffset : UInt32) : Nat :=
  ((startOffset + ptrOffset.toNat) % 2 ^ 32).toNat

/-- A slot that is written inside of a buffer of `size` bytes, or refused. -/
def SlotInRange (size slot : Nat) : Prop :=
  slot + 8 < 2 ^ 31 ∨ (2 ^ 32 ≤ slot + 8 ∧ 2 ^ 32 + size < slot + 8)

instance (size slot : Nat) : Decidable (SlotInRange size slot) :=
  inferInstanceAs (Decidable (_ ∨ _))

/-- Where the values found under names begin, and how much of the buffer is in use. -/
structure PacketAccount where
  starts : Bytes → Int
  tail : Nat

namespace PacketAccount

/-- The use of the buffer after a value; one without room is dropped. -/
def grow (size tail : Nat) (value : Bytes) : Nat :=
  if tail + copied value ≤ size then tail + copied value else tail

/-- The use of the buffer after a slot was written. -/
def afterSlot (size tail slot : Nat) : Nat :=
  if slot + 8 ≤ size then max tail (slot + 8) else tail

def step (size : Nat) (account : PacketAccount) : PacketStep → PacketAccount
  | .store name value =>
      ⟨Function.update account.starts name account.tail, grow size account.tail value⟩
  | .note note =>
      { account with
        tail := afterSlot size (grow size account.tail note.value)
          (slotOf (account.starts note.key) note.offset) }

def run (size : Nat) (account : PacketAccount) (steps : List PacketStep) : PacketAccount :=
  steps.foldl (step size) account

/-- The value of a step ends below the largest `int`, and the slot of a note is in range. -/
def StepInRange (size : Nat) (account : PacketAccount) : PacketStep → Prop
  | .store _ value => account.tail + copied value < 2 ^ 31
  | .note note => account.tail + copied note.value < 2 ^ 31 ∧
      SlotInRange size (slotOf (account.starts note.key) note.offset)

def InRange (size : Nat) (account : PacketAccount) : List PacketStep → Prop
  | [] => True
  | step :: rest => account.StepInRange size step ∧ (account.step size step).InRange size rest

/-- The calls of `put` in a step, when the buffer is at an address. -/
def stepCalls (address : Nat) (account : PacketAccount) : PacketStep → List PutCall
  | .store _ value => [⟨value, account.tail, wrapInt value.length⟩]
  | .note note =>
      [⟨note.value, account.tail, wrapInt note.value.length⟩,
        ⟨leBytes 8 (address + account.tail),
          wrapInt (account.starts note.key + note.offset.toNat), 8⟩]

def calls (address size : Nat) (account : PacketAccount) : List PacketStep → List PutCall
  | [] => []
  | step :: rest =>
      account.stepCalls address step ++ (account.step size step).calls address size rest

instance (size : Nat) (account : PacketAccount) (step : PacketStep) :
    Decidable (account.StepInRange size step) :=
  match step with
  | .store _ _ => inferInstanceAs (Decidable (_ < _))
  | .note _ => inferInstanceAs (Decidable (_ ∧ _))

instance inRangeDecidable (size : Nat) :
    (account : PacketAccount) → (steps : List PacketStep) →
      Decidable (account.InRange size steps)
  | _, [] => isTrue trivial
  | account, step :: rest =>
      have := inRangeDecidable size (account.step size step) rest
      inferInstanceAs (Decidable (_ ∧ _))

variable {address size : Nat} {account : PacketAccount}

theorem run_append (first second : List PacketStep) :
    account.run size (first ++ second) = (account.run size first).run size second :=
  List.foldl_append

theorem inRange_append {first second : List PacketStep} :
    account.InRange size (first ++ second) ↔
      account.InRange size first ∧ (account.run size first).InRange size second := by
  induction first generalizing account with
  | nil => simp [InRange, run]
  | cons step rest ih =>
      rw [List.cons_append, InRange, InRange, ih, and_assoc]
      rfl

theorem calls_append (first second : List PacketStep) :
    account.calls address size (first ++ second) =
      account.calls address size first ++
        (account.run size first).calls address size second := by
  induction first generalizing account with
  | nil => rfl
  | cons step rest ih =>
      rw [List.cons_append, calls, ih, calls, List.append_assoc]
      rfl

/-! ## Ranges of the calls -/

theorem wrapInt_emod (value : Int) : wrapInt (value % 2 ^ 32) = wrapInt value := by
  rw [wrapInt, wrapInt]
  exact Int.emod_bmod value (2 ^ 32)

theorem wrapInt_of_ge {value : Int} (low : 2 ^ 31 ≤ value) (high : value < 2 ^ 32) :
    wrapInt value = value - 2 ^ 32 := by
  rw [wrapInt, Int.bmod_def, Int.emod_eq_of_lt (by omega) (by norm_num; omega), if_neg (by omega)]
  norm_num

theorem wrapInt_length (value : Bytes) : wrapInt value.length = wrapInt (copied value) := by
  rw [copied, Int.natCast_emod, ← wrapInt_emod value.length]
  rfl

theorem wrapInt_of_range {value : Int} (low : -2 ^ 31 ≤ value) (high : value < 2 ^ 31) :
    wrapInt value = value := by
  apply Int.bmod_eq_of_le
  · omega
  · omega

theorem copied_lt (value : Bytes) : copied value < 2 ^ 32 :=
  Nat.mod_lt _ (by norm_num)

/-- The call of `append` for a value. -/
theorem append_safe_iff {tail : Nat} (value : Bytes) (within : tail ≤ size)
    (small : size < 2 ^ 31) :
    PutCall.Safe size ⟨value, tail, wrapInt value.length⟩ ↔ tail + copied value < 2 ^ 31 := by
  have bound := copied_lt value
  simp only [wrapInt_length, PutCall.Safe, PutCall.Succeeds, PutCall.Inside]
  by_cases positive : copied value < 2 ^ 31
  · rw [FixedBuffer.wrapInt_of_lt positive]
    by_cases fits : tail + copied value < 2 ^ 31
    · rw [wrapInt_of_range (by omega) (by omega)]
      omega
    · rw [wrapInt_of_ge (by omega) (by omega)]
      omega
  · have negative : wrapInt (copied value) = (copied value : Int) - 2 ^ 32 :=
      wrapInt_of_ge (by omega) (by omega)
    rw [negative, wrapInt_of_range (by omega) (by omega)]
    omega

theorem append_tailAfter {tail : Nat} {value : Bytes}
    (fits : tail + copied value < 2 ^ 31) :
    PutCall.tailAfter size tail ⟨value, tail, wrapInt value.length⟩ = grow size tail value := by
  simp only [wrapInt_length, PutCall.tailAfter, PutCall.Succeeds, grow]
  rw [FixedBuffer.wrapInt_of_lt (by omega), wrapInt_of_range (by omega) (by omega)]
  by_cases room : tail + copied value ≤ size
  · rw [if_pos (by omega), if_pos room]
    omega
  · rw [if_neg (by omega), if_neg room]

theorem wrapInt_slot (startOffset : Int) (ptrOffset : UInt32) :
    wrapInt (startOffset + ptrOffset.toNat) = wrapInt (slotOf startOffset ptrOffset) := by
  rw [slotOf, Int.toNat_of_nonneg (Int.emod_nonneg _ (by norm_num)), wrapInt_emod]

theorem slotOf_lt (startOffset : Int) (ptrOffset : UInt32) :
    slotOf startOffset ptrOffset < 2 ^ 32 := by
  have bound := Int.emod_lt_of_pos (startOffset + ptrOffset.toNat)
    (show (0 : Int) < 2 ^ 32 by decide)
  rw [slotOf]
  omega

/-- The call that writes a slot. -/
theorem slot_safe_iff (data : Bytes) (startOffset : Int) (ptrOffset : UInt32)
    (small : size < 2 ^ 31) :
    PutCall.Safe size ⟨data, wrapInt (startOffset + ptrOffset.toNat), 8⟩ ↔
      SlotInRange size (slotOf startOffset ptrOffset) := by
  have bound := slotOf_lt startOffset ptrOffset
  simp only [wrapInt_slot, PutCall.Safe, PutCall.Succeeds, PutCall.Inside, SlotInRange]
  by_cases positive : slotOf startOffset ptrOffset < 2 ^ 31
  · rw [FixedBuffer.wrapInt_of_lt positive]
    by_cases fits : slotOf startOffset ptrOffset + 8 < 2 ^ 31
    · rw [wrapInt_of_range (by omega) (by omega)]
      omega
    · rw [wrapInt_of_ge (by omega) (by omega)]
      omega
  · have negative : wrapInt (slotOf startOffset ptrOffset) =
        (slotOf startOffset ptrOffset : Int) - 2 ^ 32 := wrapInt_of_ge (by omega) (by omega)
    rw [negative, wrapInt_of_range (by omega) (by omega)]
    omega

theorem slot_tailAfter {tail : Nat} {startOffset : Int} {ptrOffset : UInt32} (data : Bytes)
    (inRange : SlotInRange size (slotOf startOffset ptrOffset)) :
    PutCall.tailAfter size tail ⟨data, wrapInt (startOffset + ptrOffset.toNat), 8⟩ =
      afterSlot size tail (slotOf startOffset ptrOffset) := by
  have bound := slotOf_lt startOffset ptrOffset
  simp only [wrapInt_slot, PutCall.tailAfter, PutCall.Succeeds, afterSlot]
  rcases inRange with low | ⟨high, refused⟩
  · rw [FixedBuffer.wrapInt_of_lt (by omega), wrapInt_of_range (by omega) (by omega)]
    by_cases room : slotOf startOffset ptrOffset + 8 ≤ size
    · rw [if_pos (by omega), if_pos room]
      omega
    · rw [if_neg (by omega), if_neg room]
  · have negative : wrapInt (slotOf startOffset ptrOffset) =
        (slotOf startOffset ptrOffset : Int) - 2 ^ 32 := wrapInt_of_ge (by omega) (by omega)
    rw [negative, wrapInt_of_range (by omega) (by omega), if_neg (by omega), if_neg (by omega)]

end PacketAccount

end MultiMaster.Packet
