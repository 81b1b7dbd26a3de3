import MultiMaster.Packet.BufferCalls

/-!
# Cleared buffers

After `clear`, a buffer should answer as a new one on the same memory.  A dynamic buffer
keeps its blocks, and its size counts all of them but the last; a fixed buffer keeps its
tail.
-/

namespace MultiMaster.Packet

open Foundation

namespace BufferCall

/-- `put` or `append`. -/
def Writes : BufferCall → Prop
  | .put _ _ | .append _ => True
  | .get _ _ | .size | .clear | .destory => False

/-- Any call that neither clears nor destroys. -/
def Uses : BufferCall → Prop
  | .put _ _ | .append _ | .get _ _ | .size => True
  | .clear | .destory => False

end BufferCall

section

variable {Buffer : Type} (call : Buffer → BufferCall → Option (Buffer × BufferAnswer))
variable (inRange : Buffer → BufferCall → Prop)

/-- What calls are answered. -/
def answers (state : Option Buffer) (calls : List BufferCall) : List (Option BufferAnswer) :=
  ((bufferMachine call).trace state calls).map Prod.snd

/-- After the writes and `clear`, all uses in range of a new buffer are answered as the new
buffer answers them. -/
def ClearedAsNew (fresh : Buffer) (writes : List BufferCall) : Prop :=
  ∀ uses, CallsInRange call inRange BufferCall.Uses fresh uses →
    answers call ((bufferMachine call).exec (some fresh) (writes ++ [.clear])) uses =
      answers call (some fresh) uses

variable {call inRange}

theorem answers_singleton (buffer : Buffer) (input : BufferCall) :
    answers call (some buffer) [input] = [(call buffer input).map Prod.snd] := rfl

/-- The state after the writes and `clear`. -/
theorem exec_clear {start buffer after : Buffer} {writes : List BufferCall}
    {answer : BufferAnswer} (reached : (bufferMachine call).exec (some start) writes = some buffer)
    (cleared : call buffer .clear = some (after, answer)) :
    (bufferMachine call).exec (some start) (writes ++ [.clear]) = some after := by
  rw [Machine.exec_concat, reached, step_of_call cleared]

/-- Related buffers that answer alike and stay related give the same answers to all uses in
range of the second. -/
theorem answers_eq_of_related {related : Buffer → Buffer → Prop} {cleared fresh : Buffer}
    (initial : related cleared fresh)
    (step : ∀ {cleared fresh input}, related cleared fresh → BufferCall.Uses input →
      inRange fresh input → ∃ clearedAfter freshAfter answer,
        call cleared input = some (clearedAfter, answer) ∧
        call fresh input = some (freshAfter, answer) ∧ related clearedAfter freshAfter)
    {uses : List BufferCall} (respects : CallsInRange call inRange BufferCall.Uses fresh uses) :
    answers call (some cleared) uses = answers call (some fresh) uses := by
  let both (state view : Option Buffer) : Prop :=
    ∃ fresh cleared, state = some fresh ∧ view = some cleared ∧ related cleared fresh
  have follows : Machine.Simulation (bufferMachine call) (bufferMachine call) both
      (fun state input =>
        input.Uses ∧ ∀ buffer, state = some buffer → inRange buffer input)
      (fun _ _ => True) id id := by
    constructor
    rintro state view input ⟨fresh, cleared, rfl, rfl, same⟩ ⟨uses, inside⟩
    rcases step same uses (inside fresh rfl) with
      ⟨clearedAfter, freshAfter, answer, calledCleared, calledFresh, sameAfter⟩
    rw [id_eq, step_of_call calledCleared, step_of_call calledFresh]
    exact ⟨trivial, ⟨freshAfter, clearedAfter, rfl, rfl, sameAfter⟩, rfl⟩
  have run := (follows.run ⟨fresh, cleared, rfl, rfl, initial⟩ respects).2.2
  rw [List.map_id, List.map_id] at run
  exact run.symm

end

/-! ## Dynamic buffers -/

namespace DynamicBuffer

variable {buffer cleared fresh : DynamicBuffer} {data : Bytes} {offset : Nat}

/-- Reads end inside of the blocks; for other calls the range is the one of the loops. -/
def InsideRange (buffer : DynamicBuffer) : BufferCall → Prop
  | .get offset size => ((offset + size : Nat) : Int) ≤ buffer.capacity
  | call => buffer.InRange call

/-- A buffer with one block that holds nothing. -/
def oneBlock : DynamicBuffer := ⟨[Block.zero], 0⟩

theorem size_new : new.size = (0 : Nat) := by decide

theorem size_oneBlock : oneBlock.size = (0 : Nat) := by decide

theorem Sound.inRange (sound : buffer.Sound) {call : BufferCall}
    (inside : buffer.InsideRange call) : buffer.InRange call := by
  cases call with
  | get offset size =>
      have few := sound.few
      have within : ((offset + size : Nat) : Int) ≤ buffer.capacity := inside
      rw [capacity_eq few, Int.ofNat_le] at within
      have range : offset + size ≤ 2 ^ 31 - blockSize := by
        rw [maxBlocks] at few
        rw [blockSize_eq] at within ⊢
        omega
      exact range
  | put data offset => exact inside
  | append data => exact inside
  | size => trivial
  | clear => trivial
  | destory => trivial

/-- The same blocks are added, whether or not one is there already. -/
theorem extended_oneBlock {total : Nat} (some : 0 < total) :
    oneBlock.extended total = new.extended total := by
  have needed : 0 < blocksFor total := by
    unfold blocksFor blockSize
    omega
  have one : blocksFor total - 0 = blocksFor total - 1 + 1 := by omega
  simp only [extended, addBlocks, oneBlock, new, List.length_singleton, List.length_nil,
    Int.toNat_natCast, one, List.replicate_succ]
  rfl

/-- A write of something does the same in both. -/
theorem put_oneBlock (some : 0 < offset + data.length)
    (fits : offset + data.length ≤ 2 ^ 31 - blockSize) :
    oneBlock.put data offset data.length = new.put data offset data.length := by
  have few : oneBlock.blocksList.length ≤ maxBlocks := by decide
  rw [put, put, checkSpace_expand few fits, checkSpace_expand (Nat.zero_le _) fits,
    extended_oneBlock some]

/-- The two buffers are the same, or they hold nothing and one has a block. -/
def SameUse (cleared fresh : DynamicBuffer) : Prop :=
  fresh.Sound ∧ (cleared = fresh ∨ (cleared = oneBlock ∧ fresh = new))

/-- Writes at offset 0 or at the size, which is 0. -/
theorem SameUse.put_fresh (fits : offset + data.length ≤ 2 ^ 31 - blockSize) :
    ∃ clearedAfter freshAfter, oneBlock.put data offset data.length = some (clearedAfter, true) ∧
      new.put data offset data.length = some (freshAfter, true) ∧
      SameUse clearedAfter freshAfter := by
  rcases put_eq sound_new.few fits with ⟨after, putting, result⟩
  have sound := result.sound sound_new fits
  by_cases more : 0 < offset + data.length
  · exact ⟨after, after, (put_oneBlock more fits).trans putting, putting, sound, .inl rfl⟩
  · have start : offset = 0 := by omega
    have empty : data = [] := List.eq_nil_of_length_eq_zero (by omega)
    subst start empty
    exact ⟨oneBlock, new, by decide +kernel, by decide +kernel, sound_new, .inr ⟨rfl, rfl⟩⟩

theorem SameUse.call {call : BufferCall} (same : SameUse cleared fresh) (uses : call.Uses)
    (inside : fresh.InsideRange call) : ∃ clearedAfter freshAfter answer,
      cleared.call call = some (clearedAfter, answer) ∧
      fresh.call call = some (freshAfter, answer) ∧ SameUse clearedAfter freshAfter := by
  rcases same with ⟨sound, rfl | ⟨rfl, rfl⟩⟩
  · rcases exists_call sound (sound.inRange inside) with ⟨after, answer, called, soundAfter⟩
    exact ⟨after, after, answer, called, called, soundAfter, .inl rfl⟩
  · cases call with
    | put data offset =>
        rcases SameUse.put_fresh inside with ⟨clearedAfter, freshAfter, first, second, same⟩
        refine ⟨clearedAfter, freshAfter, .stored true, ?_, ?_, same⟩
        · rw [DynamicBuffer.call, first]
          rfl
        · rw [DynamicBuffer.call, second]
          rfl
    | append data =>
        have fits : 0 + data.length ≤ 2 ^ 31 - blockSize := by
          have range : new.size + data.length ≤ 2 ^ 31 - blockSize := inside
          rw [size_new, blockSize_eq] at range
          rw [blockSize_eq]
          omega
        rcases SameUse.put_fresh fits with ⟨clearedAfter, freshAfter, first, second, same⟩
        refine ⟨clearedAfter, freshAfter, .placed 0, ?_, ?_, same⟩
        · rw [DynamicBuffer.call, append, size_oneBlock, first]
          rfl
        · rw [DynamicBuffer.call, append, size_new, second]
          rfl
    | get offset size =>
        have range : ((offset + size : Nat) : Int) ≤ new.capacity := inside
        have none : new.capacity = (0 : Nat) := by decide
        rw [none] at range
        have start : offset = 0 := by omega
        have nothing : size = 0 := by omega
        subst start nothing
        exact ⟨oneBlock, new, .read (some true) [], by decide +kernel, by decide +kernel,
          sound_new, .inr ⟨rfl, rfl⟩⟩
    | size =>
        refine ⟨oneBlock, new, .counted (0 : Nat), ?_, ?_, sound_new, .inr ⟨rfl, rfl⟩⟩
        · rw [DynamicBuffer.call, size_oneBlock]
        · rw [DynamicBuffer.call, size_new]
    | clear => exact absurd uses id
    | destory => exact absurd uses id

/-- The size after clearing. -/
theorem Sound.size_clear (sound : buffer.Sound) :
    buffer.clear.size = (blockSize * (buffer.blocksList.length - 1) : Nat) := by
  have counted : buffer.clear.size = _ := size_eq sound.clear.few rfl (Nat.zero_le _)
  rw [counted, DynamicBuffer.clear, List.length_map, Nat.add_zero]

theorem sameUse_clear (few : buffer.blocksList.length ≤ 1) :
    SameUse buffer.clear new := by
  refine ⟨sound_new, ?_⟩
  rw [DynamicBuffer.clear]
  cases held : buffer.blocksList with
  | nil => exact .inl rfl
  | cons block rest =>
      rw [held, List.length_cons] at few
      have alone : rest = [] := List.length_eq_zero_iff.mp (by omega)
      subst alone
      exact .inr ⟨rfl, rfl⟩

/-- Clearing makes a buffer as good as new, for reads inside of the new buffer, exactly when
it has at most one block. -/
theorem clearedAsNew_inside_iff {writes : List BufferCall} (sound : buffer.Sound)
    (reached : dynamicCalls.exec (some new) writes = some buffer) :
    ClearedAsNew DynamicBuffer.call InsideRange new writes ↔ buffer.capacity ≤ blockSize := by
  rw [capacity_eq sound.few, ClearedAsNew, exec_clear reached rfl]
  constructor
  · intro same
    have sizes : [some (BufferAnswer.counted buffer.clear.size)] = [some (.counted new.size)] :=
      same [.size] (callsInRange_singleton.mpr ⟨trivial, trivial⟩)
    simp only [List.cons.injEq, Option.some.injEq, BufferAnswer.counted.injEq, and_true,
      sound.size_clear, size_new] at sizes
    rw [blockSize_eq] at sizes ⊢
    omega
  · intro few uses inside
    have one : buffer.blocksList.length ≤ 1 := by
      rw [blockSize_eq] at few
      omega
    exact answers_eq_of_related (sameUse_clear one) SameUse.call inside

theorem Sound.capacity_eq_zero (sound : buffer.Sound) :
    buffer.capacity = 0 ↔ buffer.blocksList = [] := by
  rw [capacity_eq sound.few, Int.natCast_eq_zero, blockSize_eq, ← List.length_eq_zero_iff]
  omega

/-- Without blocks clearing changes nothing; a block that is kept is read where the new
buffer refuses. -/
theorem clearedAsNew_inRange_iff {writes : List BufferCall} (sound : buffer.Sound)
    (reached : dynamicCalls.exec (some new) writes = some buffer) :
    ClearedAsNew DynamicBuffer.call InRange new writes ↔ buffer.capacity = 0 := by
  rw [sound.capacity_eq_zero, ClearedAsNew, exec_clear reached rfl]
  constructor
  · intro same
    by_contra blocks
    have more : 0 < buffer.clear.blocksList.length := by
      rw [DynamicBuffer.clear, List.length_map]
      exact List.length_pos_of_ne_nil blocks
    have range : 0 + 1 ≤ 2 ^ 31 - blockSize := by decide
    have kept : ¬blockSize * buffer.clear.blocksList.length < 0 + 1 := by
      rw [blockSize_eq]
      omega
    have got : buffer.clear.get (0 : Nat) (1 : Nat) = some (true, _) :=
      (get_eq sound.clear range).trans (if_neg kept)
    have refused : new.get (0 : Nat) (1 : Nat) = some (false, []) := by decide
    have inside : new.InRange (.get 0 1) := range
    have answer := same [.get 0 1] (callsInRange_singleton.mpr ⟨trivial, inside⟩)
    rw [answers_singleton, answers_singleton, DynamicBuffer.call, DynamicBuffer.call, got,
      refused] at answer
    cases answer
  · intro none uses _
    rw [DynamicBuffer.clear, none]
    rfl

/-- When clearing a buffer reached by writes makes it as good as new, for both readings of a
range that a read may have. -/
theorem clearedAsNew_iff {writes : List BufferCall}
    (respects : CallsInRange DynamicBuffer.call InRange BufferCall.Writes new writes) :
    ∃ buffer, dynamicCalls.exec (some new) writes = some buffer ∧
      (ClearedAsNew DynamicBuffer.call InsideRange new writes ↔ buffer.capacity ≤ blockSize) ∧
      (ClearedAsNew DynamicBuffer.call InRange new writes ↔ buffer.capacity = 0) := by
  rcases respects.reached sound_new (fun _ _ sound _ => exists_call sound) with
    ⟨buffer, reached, sound⟩
  exact ⟨buffer, reached, clearedAsNew_inside_iff sound reached,
    clearedAsNew_inRange_iff sound reached⟩

end DynamicBuffer

/-! ## Fixed buffers -/

namespace FixedBuffer

variable {buffer : FixedBuffer} {address length offset : Nat} {data : Bytes}

/-- The range of a call ends inside of the memory. -/
def InRange (buffer : FixedBuffer) : BufferCall → Prop
  | .put data offset => ((offset + data.length : Nat) : Int) ≤ buffer.length
  | .append data => buffer.tailOffset + data.length ≤ buffer.length
  | .get offset size => ((offset + size : Nat) : Int) ≤ buffer.length
  | .size | .clear | .destory => True

/-- The buffer writes into this memory. -/
structure OnMemory (address length : Nat) (buffer : FixedBuffer) : Prop where
  small : length < 2 ^ 31
  bytes : buffer.bytes = address
  whole : buffer.length = length
  memory : buffer.memory.length = length
  tail : ∃ tail : Nat, buffer.tailOffset = tail

theorem onMemory_holding (small : length < 2 ^ 31) :
    OnMemory address length (holding address length []) :=
  ⟨small, rfl, rfl, by simp [holding], 0, rfl⟩

/-- A write in range is made and stays in the memory. -/
theorem OnMemory.put (onMemory : OnMemory address length buffer)
    (inside : offset + data.length ≤ length) :
    ∃ after, buffer.put data offset data.length = some (after, true) ∧
      OnMemory address length after := by
  rcases onMemory.tail with ⟨tail, same⟩
  have whole : buffer.length = buffer.memory.length := by rw [onMemory.whole, onMemory.memory]
  have fits : offset + data.length ≤ buffer.memory.length := by
    rw [onMemory.memory]
    exact inside
  have short : buffer.memory.length < 2 ^ 31 := by
    rw [onMemory.memory]
    exact onMemory.small
  refine ⟨_, put_of_fits whole fits short, onMemory.small, onMemory.bytes, onMemory.whole,
    ?_, ?_⟩
  · rw [length_overwrite fits]
    exact onMemory.memory
  · refine ⟨max tail (offset + data.length), ?_⟩
    simp only [same]
    omega

theorem OnMemory.call {input : BufferCall} (onMemory : OnMemory address length buffer)
    (writes : input.Writes) (inside : buffer.InRange input) :
    ∃ after answer, buffer.call input = some (after, answer) ∧ OnMemory address length after := by
  cases input with
  | put data offset =>
      have range : ((offset + data.length : Nat) : Int) ≤ buffer.length := inside
      rw [onMemory.whole, Int.ofNat_le] at range
      rcases onMemory.put range with ⟨after, putting, onMemoryAfter⟩
      refine ⟨after, .stored true, ?_, onMemoryAfter⟩
      rw [FixedBuffer.call, putting]
      rfl
  | append data =>
      rcases onMemory.tail with ⟨tail, same⟩
      have range : buffer.tailOffset + data.length ≤ buffer.length := inside
      rw [onMemory.whole, same] at range
      rcases onMemory.put (by omega : tail + data.length ≤ length) with
        ⟨after, putting, onMemoryAfter⟩
      refine ⟨after, .placed tail, ?_, onMemoryAfter⟩
      rw [FixedBuffer.call, append, same, putting]
      rfl
  | get offset size => exact absurd writes id
  | size => exact absurd writes id
  | clear => exact absurd writes id
  | destory => exact absurd writes id

/-- Clearing leaves the tail where it is. -/
theorem OnMemory.call_clear (onMemory : OnMemory address length buffer) :
    buffer.call .clear =
      some ({ holding address length [] with tailOffset := buffer.tailOffset }, .nothing) := by
  rw [FixedBuffer.call, FixedBuffer.clear, onMemory.bytes, onMemory.whole,
    if_pos (Int.natCast_nonneg _)]
  rfl

/-- Clearing a buffer reached by writes makes it as good as new exactly when nothing was
written. -/
theorem clearedAsNew_iff {writes : List BufferCall} (small : length < 2 ^ 31)
    (respects : CallsInRange FixedBuffer.call InRange BufferCall.Writes
      (holding address length []) writes) :
    ∃ buffer, fixedCalls.exec (some (holding address length [])) writes = some buffer ∧
      (ClearedAsNew FixedBuffer.call InRange (holding address length []) writes ↔
        buffer.size = 0) := by
  rcases respects.reached (onMemory_holding small) (fun _ _ => OnMemory.call) with
    ⟨buffer, reached, onMemory⟩
  refine ⟨buffer, reached, ?_⟩
  rw [ClearedAsNew, exec_clear reached onMemory.call_clear, size]
  constructor
  · intro same
    have sizes : [some (BufferAnswer.counted buffer.tailOffset)] = [some (.counted 0)] :=
      same [.size] (callsInRange_singleton.mpr ⟨trivial, trivial⟩)
    simpa only [List.cons.injEq, Option.some.injEq, BufferAnswer.counted.injEq, and_true]
      using sizes
  · intro nothing uses inside
    rw [nothing]
    rfl

end FixedBuffer

/-! ## Both buffers -/

/-- Clearing makes a dynamic buffer as good as new if and only if it has at most one block
(no block at all, when reads may go beyond the new buffer), and a fixed buffer if and only if
nothing was written to it. -/
theorem clear_asNew_iff (writes : List BufferCall) :
    (CallsInRange DynamicBuffer.call DynamicBuffer.InRange BufferCall.Writes
        DynamicBuffer.new writes →
      ∃ buffer, dynamicCalls.exec (some DynamicBuffer.new) writes = some buffer ∧
        (ClearedAsNew DynamicBuffer.call DynamicBuffer.InsideRange DynamicBuffer.new writes ↔
          buffer.capacity ≤ blockSize) ∧
        (ClearedAsNew DynamicBuffer.call DynamicBuffer.InRange DynamicBuffer.new writes ↔
          buffer.capacity = 0)) ∧
      ∀ address length : Nat, length < 2 ^ 31 →
        ∃ fresh, FixedBuffer.setBuffer address length = some fresh ∧
          (CallsInRange FixedBuffer.call FixedBuffer.InRange BufferCall.Writes fresh writes →
            ∃ buffer, fixedCalls.exec (some fresh) writes = some buffer ∧
              (ClearedAsNew FixedBuffer.call FixedBuffer.InRange fresh writes ↔
                buffer.size = 0)) := by
  refine ⟨DynamicBuffer.clearedAsNew_iff, fun address length small => ?_⟩
  exact ⟨_, FixedBuffer.setBuffer_natCast address length, FixedBuffer.clearedAsNew_iff small⟩

/-- A byte in the first block, and a fixed buffer that was given nothing to append. -/
theorem clear_asNew_small :
    ClearedAsNew DynamicBuffer.call DynamicBuffer.InsideRange DynamicBuffer.new [.put [7] 3] ∧
      ∃ fresh, FixedBuffer.setBuffer 100 (8 : Nat) = some fresh ∧
        ClearedAsNew FixedBuffer.call FixedBuffer.InRange fresh [.append []] := by
  constructor
  · have inside : 3 + [(7 : UInt8)].length ≤ 2 ^ 31 - blockSize := by decide
    rcases (clear_asNew_iff [.put [7] 3]).1 (callsInRange_singleton.mpr ⟨trivial, inside⟩) with
      ⟨buffer, reached, asNew, _⟩
    have oneBlock : (dynamicCalls.exec (some DynamicBuffer.new) [.put [7] 3]).map
        (fun buffer => decide (buffer.capacity ≤ (blockSize : Int))) = some true := by
      decide +kernel
    rw [reached, Option.map_some, Option.some_inj, decide_eq_true_iff] at oneBlock
    exact asNew.mpr oneBlock
  · rcases (clear_asNew_iff [.append []]).2 100 8 (by decide) with ⟨fresh, taken, cleared⟩
    refine ⟨fresh, taken, ?_⟩
    rw [FixedBuffer.setBuffer_natCast] at taken
    cases taken
    have inside : (FixedBuffer.holding 100 8 []).InRange (.append []) := by
      unfold FixedBuffer.InRange
      decide
    rcases cleared (callsInRange_singleton.mpr ⟨trivial, inside⟩) with
      ⟨buffer, reached, asNew⟩
    have empty : (fixedCalls.exec (some (FixedBuffer.holding 100 8 [])) [.append []]).map
        FixedBuffer.size = some 0 := by decide +kernel
    rw [reached, Option.map_some, Option.some_inj] at empty
    exact asNew.mpr empty

/-- After a write to the second block, and after any byte in a fixed buffer, the size of the
cleared buffer is not 0. -/
theorem clear_keeps_size :
    (answers DynamicBuffer.call (dynamicCalls.exec (some DynamicBuffer.new)
        [.put [7] 1024, .clear]) [.size] = [some (.counted 1024)] ∧
      ¬ClearedAsNew DynamicBuffer.call DynamicBuffer.InsideRange DynamicBuffer.new
        [.put [7] 1024]) ∧
      ∃ fresh, FixedBuffer.setBuffer 100 (8 : Nat) = some fresh ∧
        answers FixedBuffer.call (fixedCalls.exec (some fresh) [.append [7], .clear]) [.size] =
          [some (.counted 1)] ∧
        ¬ClearedAsNew FixedBuffer.call FixedBuffer.InRange fresh [.append [7]] := by
  have dynamic : answers DynamicBuffer.call (dynamicCalls.exec (some DynamicBuffer.new)
      [.put [7] 1024, .clear]) [.size] = [some (.counted 1024)] := by decide +kernel
  have fixed : answers FixedBuffer.call (fixedCalls.exec (some (FixedBuffer.holding 100 8 []))
      [.append [7], .clear]) [.size] = [some (.counted 1)] := by decide +kernel
  refine ⟨⟨dynamic, fun same => ?_⟩, _, FixedBuffer.setBuffer_natCast 100 8, fixed,
    fun same => ?_⟩
  · have sizes := same [.size] (callsInRange_singleton.mpr ⟨trivial, trivial⟩)
    exact absurd (dynamic.symm.trans sizes) (by decide +kernel)
  · have sizes := same [.size] (callsInRange_singleton.mpr ⟨trivial, trivial⟩)
    exact absurd (fixed.symm.trans sizes) (by decide +kernel)

end MultiMaster.Packet
