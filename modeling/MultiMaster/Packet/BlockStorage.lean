import MultiMaster.Packet.DynamicBuffer

/-!
# Blocks and the flat array they store

The blocks of a buffer, one after another, store the front of a flat array.  `get` reads
ranges of it as they are.  `put` copies into every block from the front of its data, so
that it stores its data where the data happens to repeat and something else where it
does not.
-/

namespace MultiMaster.Packet

open Foundation

variable {data bytes : Bytes} {blocks rest : List Block} {block : Block}
variable {offset size position : Nat}

theorem blockSize_eq : blockSize = 1024 := rfl

/-! ## Bytes of blocks -/

/-- The bytes of blocks, one block after another. -/
def contents (blocks : List Block) : Bytes := blocks.flatMap Subtype.val

theorem length_contents (blocks : List Block) :
    (contents blocks).length = blockSize * blocks.length := by
  induction blocks with
  | nil => rfl
  | cons block rest ih =>
      rw [contents] at ih ⊢
      rw [List.flatMap_cons, List.length_append, ih, block.property, List.length_cons]
      ring

theorem contents_cons (block : Block) (rest : List Block) :
    contents (block :: rest) = block.val ++ contents rest := rfl

theorem contents_append (first second : List Block) :
    contents (first ++ second) = contents first ++ contents second :=
  List.flatMap_append

/-- A byte of the first block or of those behind it. -/
theorem getElem?_contents_cons (block : Block) (rest : List Block) (position : Nat) :
    (contents (block :: rest))[position]? =
      if position < blockSize then block.val[position]?
      else (contents rest)[position - blockSize]? := by
  rw [contents_cons]
  split
  · rw [List.getElem?_append_left (by rw [block.property]; assumption)]
  · rw [List.getElem?_append_right (by rw [block.property]; omega), block.property]

theorem getElem?_contents_replicate (count : Nat) :
    (contents (List.replicate count Block.zero))[position]? =
      if position < blockSize * count then some 0 else none := by
  induction count generalizing position with
  | zero => rfl
  | succ count ih =>
      rw [List.replicate_succ, getElem?_contents_cons, ih]
      split
      · rw [if_pos (by rw [Nat.mul_succ]; omega)]
        exact List.getElem?_replicate_of_lt (by assumption)
      · rw [Nat.mul_succ]
        split
        · rw [if_pos (by omega)]
        · rw [if_neg (by omega)]

/-! ## Single blocks -/

/-- What a write changes. -/
theorem getElem?_overwrite_eq {memory : Bytes} (inside : offset + data.length ≤ memory.length) :
    (overwrite memory offset data)[position]? =
      if offset ≤ position ∧ position < offset + data.length then data[position - offset]?
      else memory[position]? := by
  split
  · have front : (memory.take offset).length = offset := by
      rw [List.length_take]
      omega
    rw [overwrite, List.append_assoc, List.getElem?_append_right (by omega), front,
      List.getElem?_append_left (by omega)]
  · exact getElem?_overwrite inside (by omega)

theorem Block.store_eq (block : Block) (offset size : Nat)
    (inside : offset + size ≤ blockSize) (given : size ≤ data.length) :
    ∃ stored : Block, block.store offset data size = some stored ∧
      ∀ position, stored.val[position]? =
        if offset ≤ position ∧ position < offset + size then data[position - offset]?
        else block.val[position]? := by
  have room : (0 : Int) ≤ offset ∧ (0 : Int) ≤ size ∧ (offset : Int) + size ≤ blockSize ∧
      (size : Int) ≤ data.length := by omega
  have taken : (data.take size).length = size := by
    rw [List.length_take]
    omega
  refine ⟨_, dif_pos room, ?_⟩
  intro position
  simp only [Int.toNat_natCast]
  rw [getElem?_overwrite_eq (by rw [taken, block.property]; exact inside), taken]
  split
  · rw [List.getElem?_take_of_lt (by omega)]
  · rfl

theorem Block.load_eq (block : Block) (offset size : Nat) (inside : offset + size ≤ blockSize) :
    block.load offset size = some (slice block.val offset size) := by
  have room : (0 : Int) ≤ offset ∧ (0 : Int) ≤ size ∧ (offset : Int) + size ≤ blockSize := by
    omega
  rw [load, if_pos room, Int.toNat_natCast, Int.toNat_natCast]

namespace DynamicBuffer

/-! ## The loops -/

/-- How far a buffer of `total` bytes reaches into its last block. -/
def tailOf (total : Nat) : Nat := total - blockSize * ((total - 1) / blockSize)

/-- Where `put` takes the byte for a position behind the start of its first block. -/
def sourceIndex (offset position : Nat) : Nat :=
  if position < blockSize then position - offset else position % blockSize

theorem tailOf_of_le (some : 0 < size) (small : size ≤ blockSize) : tailOf size = size := by
  rw [tailOf, Nat.div_eq_of_lt (by omega)]
  rfl

theorem tailOf_add_block (some : 0 < size) : tailOf (blockSize + size) = tailOf size := by
  unfold tailOf blockSize
  omega

/-- Behind the first block the source index does not depend on the offset. -/
theorem sourceIndex_sub (behind : ¬position < blockSize) :
    sourceIndex 0 (position - blockSize) = sourceIndex offset position := by
  rw [sourceIndex, sourceIndex, if_neg behind]
  unfold blockSize at behind ⊢
  split
  · omega
  · omega

/-- The bytes after a part of `put` that has stored the range in every block from the front
of the data. -/
def StoredFrom (data : Bytes) (offset size : Nat) (before after : Bytes) : Prop :=
  ∀ position, after[position]? =
    if offset ≤ position ∧ position < offset + size then data[sourceIndex offset position]?
    else before[position]?

theorem StoredFrom.nothing (data bytes : Bytes) (offset : Nat) :
    StoredFrom data offset 0 bytes bytes := by
  intro position
  rw [if_neg (by omega)]

/-- The range ends in the first block. -/
theorem StoredFrom.last {stored : Block} (inside : offset + size ≤ blockSize)
    (written : ∀ position, stored.val[position]? =
      if offset ≤ position ∧ position < offset + size then data[position - offset]?
      else block.val[position]?) :
    StoredFrom data offset size (contents (block :: rest)) (contents (stored :: rest)) := by
  intro position
  rw [getElem?_contents_cons, getElem?_contents_cons, written]
  by_cases here : position < blockSize
  · have source : sourceIndex offset position = position - offset := if_pos here
    rw [if_pos here, if_pos here, source]
  · rw [if_neg here, if_neg here, if_neg (by omega)]

/-- The range fills the first block to its end and goes on in the next one. -/
theorem StoredFrom.fill {stored : Block} {later : List Block} (start : offset ≤ blockSize)
    (beyond : blockSize - offset < size)
    (written : ∀ position, stored.val[position]? =
      if offset ≤ position ∧ position < offset + (blockSize - offset) then
        data[position - offset]?
      else block.val[position]?)
    (others : StoredFrom data 0 (size - (blockSize - offset)) (contents rest)
      (contents later)) :
    StoredFrom data offset size (contents (block :: rest)) (contents (stored :: later)) := by
  intro position
  rw [getElem?_contents_cons, getElem?_contents_cons, written, others]
  by_cases here : position < blockSize
  · have source : sourceIndex offset position = position - offset := if_pos here
    rw [if_pos here, if_pos here, source]
    congr 1
    apply propext
    omega
  · rw [if_neg here, if_neg here, sourceIndex_sub here]
    congr 1
    apply propext
    omega

/-- One round of the loop of `put` that does not end in its block. -/
theorem putLoop_fill (appendByte : Bool) (tail : Int) (start : offset ≤ blockSize)
    (beyond : blockSize - offset < size) :
    putLoop data appendByte tail (block :: rest) offset size =
      (block.store offset data (blockSize - offset : Nat)).bind fun stored =>
        (putLoop data appendByte tail rest (0 : Nat)
          (size - (blockSize - offset) : Nat)).map fun later => (stored :: later.1, later.2) := by
  have more : ¬(size : Int) = 0 := by omega
  have longer : (blockSize : Int) - offset < size := by omega
  have remaining : ((size - (blockSize - offset) : Nat) : Int) =
      (size : Int) - ((blockSize : Int) - offset) := by omega
  rw [putLoop, if_neg more, remaining, Nat.cast_sub start]
  simp only [if_pos longer, Option.bind_eq_bind, Option.pure_def, Nat.cast_zero]
  cases block.store offset data ((blockSize : Int) - offset) with
  | none => rfl
  | some stored =>
      cases putLoop data appendByte tail rest 0 ((size : Int) - ((blockSize : Int) - offset)) with
      | none => rfl
      | some later => rfl

/-- The loop of `put` writes the whole range, every block from the front of the data. -/
theorem putLoop_eq (appendByte : Bool) (tail : Int) (blocks : List Block)
    (offset size : Nat) (start : offset < blockSize)
    (inside : offset + size ≤ blockSize * blocks.length) (given : size ≤ data.length) :
    ∃ written, putLoop data appendByte tail blocks offset size =
        some (written, if appendByte ∧ size ≠ 0 then (tailOf (offset + size) : Int) else tail) ∧
      written.length = blocks.length ∧
      StoredFrom data offset size (contents blocks) (contents written) := by
  induction blocks generalizing offset size with
  | nil =>
      have empty : size = 0 := by
        rw [List.length_nil] at inside
        omega
      subst empty
      exact ⟨[], by simp [putLoop], rfl, .nothing data _ offset⟩
  | cons block rest ih =>
      by_cases empty : size = 0
      · subst empty
        exact ⟨block :: rest, by simp [putLoop], rfl, .nothing data _ offset⟩
      · rw [List.length_cons, Nat.mul_succ] at inside
        by_cases beyond : blockSize - offset < size
        · rcases block.store_eq offset (blockSize - offset) (by omega)
            (Nat.le_trans (Nat.le_of_lt beyond) given) with ⟨stored, storing, bytes⟩
          rcases ih 0 (size - (blockSize - offset)) (by decide) (by omega) (by omega) with
            ⟨later, looping, sameLength, others⟩
          have sameTail : tailOf (0 + (size - (blockSize - offset))) =
              tailOf (offset + size) := by
            rw [← tailOf_add_block (by omega)]
            congr 1
            omega
          refine ⟨stored :: later, ?_, by rw [List.length_cons, List.length_cons, sameLength],
            .fill (Nat.le_of_lt start) beyond bytes others⟩
          have both : size - (blockSize - offset) ≠ 0 ∧ size ≠ 0 := by omega
          rw [putLoop_fill appendByte tail (Nat.le_of_lt start) beyond, storing, looping, sameTail]
          simp [both.1, both.2]
        · rcases block.store_eq offset size (by omega) given with ⟨stored, storing, bytes⟩
          have more : ¬(size : Int) = 0 := by omega
          have shorter : ¬(blockSize : Int) - offset < size := by omega
          refine ⟨stored :: rest, ?_, rfl, .last (by omega) bytes⟩
          rw [putLoop, if_neg more]
          simp only [if_neg shorter, storing, Option.bind_eq_bind, Option.bind_some]
          rw [tailOf_of_le (by omega) (by omega)]
          simp [empty]

/-- One round of the loop of `get` that does not end in its block. -/
theorem getLoop_fill (start : offset ≤ blockSize) (beyond : blockSize - offset < size) :
    getLoop (block :: rest) offset size =
      (block.load offset (blockSize - offset : Nat)).bind fun loaded =>
        (getLoop rest (0 : Nat) (size - (blockSize - offset) : Nat)).map fun later =>
          loaded ++ later := by
  have more : ¬(size : Int) = 0 := by omega
  have longer : (blockSize : Int) - offset < size := by omega
  have remaining : ((size - (blockSize - offset) : Nat) : Int) =
      (size : Int) - ((blockSize : Int) - offset) := by omega
  rw [getLoop, if_neg more, remaining, Nat.cast_sub start]
  simp only [if_pos longer, Option.bind_eq_bind, Option.pure_def, Nat.cast_zero]
  cases block.load offset ((blockSize : Int) - offset) with
  | none => rfl
  | some loaded =>
      cases getLoop rest 0 ((size : Int) - ((blockSize : Int) - offset)) with
      | none => rfl
      | some later => rfl

/-- A range that begins in the first block and ends behind it. -/
theorem slice_contents_cons (start : offset ≤ blockSize) (beyond : blockSize - offset < size) :
    slice (contents (block :: rest)) offset size =
      slice block.val offset (blockSize - offset) ++
        slice (contents rest) 0 (size - (blockSize - offset)) := by
  have width := block.property
  have whole : (block.val.drop offset).length = blockSize - offset := by
    rw [List.length_drop, width]
  have all : (block.val.drop offset).take size = block.val.drop offset :=
    List.take_of_length_le (by omega)
  have toEnd : (block.val.drop offset).take (blockSize - offset) = block.val.drop offset :=
    List.take_of_length_le (by omega)
  rw [contents_cons, slice, slice, slice, List.drop_append_of_le_length (by omega),
    List.take_append, whole, all, toEnd, List.drop_zero]

/-- The loop of `get` reads the range as it is stored, if it is stored. -/
theorem getLoop_eq (blocks : List Block) (offset size : Nat) (start : offset < blockSize) :
    getLoop blocks offset size =
      if size = 0 ∨ offset + size ≤ blockSize * blocks.length then
        some (slice (contents blocks) offset size)
      else none := by
  induction blocks generalizing offset size with
  | nil =>
      rw [List.length_nil]
      by_cases empty : size = 0
      · simp [getLoop, empty, slice]
      · rw [if_neg (by omega), getLoop, if_neg (by omega)]
  | cons block rest ih =>
      rw [List.length_cons, Nat.mul_succ]
      by_cases empty : size = 0
      · simp [getLoop, empty, slice]
      · by_cases beyond : blockSize - offset < size
        · have loaded := block.load_eq offset (blockSize - offset) (by omega)
          have later := ih 0 (size - (blockSize - offset)) (by decide)
          rw [getLoop_fill (Nat.le_of_lt start) beyond, loaded, later, Option.bind_some]
          by_cases stored : offset + size ≤ blockSize * rest.length + blockSize
          · rw [if_pos (by omega), if_pos (by omega), Option.map_some,
              slice_contents_cons (Nat.le_of_lt start) beyond]
          · rw [if_neg (by omega), if_neg (by omega), Option.map_none]
        · have more : ¬(size : Int) = 0 := by omega
          have width := block.property
          have shorter : ¬(blockSize : Int) - offset < size := by omega
          have stored : size = 0 ∨ offset + size ≤ blockSize * rest.length + blockSize :=
            .inr (by omega)
          rw [getLoop, if_neg more, if_pos stored]
          simp only [if_neg shorter, block.load_eq offset size (by omega)]
          rw [contents_cons, slice, slice, List.drop_append_of_le_length (by omega),
            List.take_append_of_le_length (by rw [List.length_drop]; omega)]

/-! ## Ranges of a buffer -/

/-- The number of blocks that `total` bytes need. -/
def blocksFor (total : Nat) : Nat := (total + (blockSize - 1)) / blockSize

/-- A buffer with the blocks that `total` bytes need. -/
def extended (buffer : DynamicBuffer) (total : Nat) : DynamicBuffer :=
  buffer.addBlocks (blocksFor total - buffer.blocksList.length : Nat)

/-- The largest number of blocks whose bytes an `int` can count with room for one more
block. -/
def maxBlocks : Nat := 2 ^ 21 - 1

variable {buffer : DynamicBuffer}

theorem wrapInt_add (fits : offset + size < 2 ^ 31) :
    wrapInt ((offset : Int) + size) = (offset + size : Nat) := by
  rw [← Nat.cast_add]
  exact FixedBuffer.wrapInt_of_lt fits

theorem capacity_eq (few : buffer.blocksList.length ≤ maxBlocks) :
    buffer.capacity = (blockSize * buffer.blocksList.length : Nat) := by
  rw [capacity, ← Nat.cast_mul, Nat.mul_comm]
  apply FixedBuffer.wrapInt_of_lt
  unfold maxBlocks at few
  unfold blockSize
  omega

/-- Missing bytes in whole blocks, as `check_space` rounds them up. -/
theorem missingBlocks_eq {count total : Nat} (more : blockSize * count < total) :
    (if ((total - blockSize * count : Nat) : Int).tmod blockSize = 0 then
        ((total - blockSize * count : Nat) : Int).tdiv blockSize
      else ((total - blockSize * count : Nat) : Int).tdiv blockSize + 1) =
      (blocksFor total - count : Nat) := by
  rw [← Int.ofNat_tmod, ← Int.ofNat_tdiv, blocksFor]
  rw [blockSize_eq] at more ⊢
  split
  · omega
  · omega

/-- `check_space` adds the blocks that are missing. -/
theorem checkSpace_expand (few : buffer.blocksList.length ≤ maxBlocks)
    (fits : offset + size ≤ 2 ^ 31 - blockSize) :
    (buffer.checkSpace offset size true).1 = buffer.extended (offset + size) := by
  have small : offset + size < 2 ^ 31 := by
    rw [blockSize_eq] at fits
    omega
  rw [checkSpace, wrapInt_add small, capacity_eq few, extended]
  by_cases more : blockSize * buffer.blocksList.length < offset + size
  · have require : wrapInt ((offset : Int) + size -
        (blockSize * buffer.blocksList.length : Nat)) =
          (offset + size - blockSize * buffer.blocksList.length : Nat) := by
      rw [← Nat.cast_add, ← Nat.cast_sub (Nat.le_of_lt more)]
      exact FixedBuffer.wrapInt_of_lt (by rw [blockSize_eq] at fits ⊢; omega)
    rw [if_pos (by exact_mod_cast more), if_pos rfl, require]
    simp only [missingBlocks_eq more]
  · rw [if_neg (by exact_mod_cast more), blocksFor]
    have enough : (offset + size + (blockSize - 1)) / blockSize -
        buffer.blocksList.length = 0 := by
      rw [blockSize_eq] at more ⊢
      omega
    rw [enough]
    simp [addBlocks]

theorem length_extended (buffer : DynamicBuffer) (total : Nat) :
    (buffer.extended total).blocksList.length =
      max buffer.blocksList.length (blocksFor total) := by
  simp only [extended, addBlocks, List.length_append, List.length_replicate,
    Int.toNat_natCast]
  omega

theorem le_blocksFor (total : Nat) : total ≤ blockSize * blocksFor total := by
  unfold blocksFor blockSize
  omega

theorem le_extended (buffer : DynamicBuffer) (total : Nat) :
    total ≤ blockSize * (buffer.extended total).blocksList.length := by
  rw [length_extended]
  exact Nat.le_trans (le_blocksFor total) (Nat.mul_le_mul_left _ (Nat.le_max_right _ _))

theorem blocksFor_le_maxBlocks {total : Nat} (fits : total ≤ 2 ^ 31 - blockSize) :
    blocksFor total ≤ maxBlocks := by
  unfold blocksFor maxBlocks
  rw [blockSize_eq] at fits ⊢
  omega

/-- New blocks are zero. -/
theorem getElem?_extended (buffer : DynamicBuffer) (total : Nat) {position : Nat}
    (inside : position < (contents (buffer.extended total).blocksList).length) :
    (contents (buffer.extended total).blocksList)[position]? =
      if position < (contents buffer.blocksList).length then
        (contents buffer.blocksList)[position]?
      else some 0 := by
  simp only [extended, addBlocks, contents_append, List.length_append] at inside ⊢
  split
  · rw [List.getElem?_append_left (by assumption)]
  · rw [List.getElem?_append_right (by omega), getElem?_contents_replicate, if_pos]
    rw [length_contents (List.replicate _ _), List.length_replicate] at inside
    omega

/-- The blocks before that of an offset and those from it on. -/
theorem contents_split (blocks : List Block) (offset : Nat) :
    contents blocks = contents (blocks.take (offset / blockSize)) ++
      contents (blocks.drop (offset / blockSize)) := by
  rw [← contents_append, List.take_append_drop]

theorem length_contents_take {blocks : List Block} (whole : offset / blockSize ≤ blocks.length) :
    (contents (blocks.take (offset / blockSize))).length = blockSize * (offset / blockSize) := by
  rw [length_contents, List.length_take, Nat.min_eq_left whole]

/-- Where `put` at `offset` takes the byte it stores at `position`. -/
def putSource (offset position : Nat) : Nat :=
  sourceIndex (offset % blockSize) (position - blockSize * (offset / blockSize))

/-- What `put` leaves in a buffer. -/
structure PutResult (buffer after : DynamicBuffer) (data : Bytes) (offset : Nat) : Prop where
  length : after.blocksList.length =
    (buffer.extended (offset + data.length)).blocksList.length
  tail : after.tailOffsetInBlock =
    if (buffer.extended (offset + data.length)).size < (offset + data.length : Nat) ∧
        data.length ≠ 0 then
      (tailOf (offset + data.length) : Int)
    else buffer.tailOffsetInBlock
  bytes : ∀ position, (contents after.blocksList)[position]? =
    if offset ≤ position ∧ position < offset + data.length then
      data[putSource offset position]?
    else (contents (buffer.extended (offset + data.length)).blocksList)[position]?

theorem tailOf_mod (some : 0 < size) :
    tailOf (offset % blockSize + size) = tailOf (offset + size) := by
  unfold tailOf blockSize
  omega

/-- The loop of `put` from the block of an offset on. -/
theorem putLoop_at (appendByte : Bool) (tail : Int) (blocks : List Block)
    (inside : offset + data.length ≤ blockSize * blocks.length) :
    ∃ written, putLoop data appendByte tail (blocks.drop (offset / blockSize))
          ((offset % blockSize : Nat) : Int) data.length =
        some (written, if appendByte ∧ data.length ≠ 0 then
          (tailOf (offset + data.length) : Int) else tail) ∧
      (blocks.take (offset / blockSize) ++ written).length = blocks.length ∧
      ∀ position, (contents (blocks.take (offset / blockSize) ++ written))[position]? =
        if offset ≤ position ∧ position < offset + data.length then
          data[putSource offset position]?
        else (contents blocks)[position]? := by
  have split := Nat.div_add_mod offset blockSize
  have start : offset % blockSize < blockSize := Nat.mod_lt _ (by decide)
  have whole : offset / blockSize ≤ blocks.length := by
    rw [blockSize_eq] at inside ⊢
    omega
  have front := length_contents_take whole
  rcases putLoop_eq appendByte tail (blocks.drop (offset / blockSize)) (offset % blockSize)
    data.length start (by rw [List.length_drop, Nat.mul_sub]; omega) (Nat.le_refl _) with
    ⟨written, looping, sameLength, bytes⟩
  refine ⟨written, ?_, ?_, ?_⟩
  · rw [looping]
    by_cases empty : data.length = 0
    · simp [empty]
    · rw [tailOf_mod (Nat.pos_of_ne_zero empty)]
  · rw [List.length_append, sameLength, ← List.length_append, List.take_append_drop]
  · intro position
    rw [contents_append, contents_split blocks offset]
    by_cases before : position < blockSize * (offset / blockSize)
    · rw [List.getElem?_append_left (by omega), List.getElem?_append_left (by omega),
        if_neg (by omega)]
    · rw [List.getElem?_append_right (by omega), List.getElem?_append_right (by omega), front,
        bytes, putSource]
      congr 1
      apply propext
      omega

theorem put_eq (few : buffer.blocksList.length ≤ maxBlocks)
    (fits : offset + data.length ≤ 2 ^ 31 - blockSize) :
    ∃ after, buffer.put data offset data.length = some (after, true) ∧
      PutResult buffer after data offset := by
  have small : offset + data.length < 2 ^ 31 := by
    rw [blockSize_eq] at fits
    omega
  rcases putLoop_at (decide ((buffer.extended (offset + data.length)).size <
      (offset + data.length : Nat))) buffer.tailOffsetInBlock
    (buffer.extended (offset + data.length)).blocksList (le_extended buffer _) with
    ⟨written, looping, sameLength, bytes⟩
  simp only [decide_eq_true_iff] at looping
  have same : (buffer.extended (offset + data.length)).tailOffsetInBlock =
      buffer.tailOffsetInBlock := rfl
  refine ⟨⟨(buffer.extended (offset + data.length)).blocksList.take (offset / blockSize) ++
    written, if (buffer.extended (offset + data.length)).size < (offset + data.length : Nat) ∧
        data.length ≠ 0 then (tailOf (offset + data.length) : Int)
      else buffer.tailOffsetInBlock⟩, ?_, ?_⟩
  · rw [put, checkSpace_expand few fits]
    simp only [wrapInt_add small, same, ← Int.ofNat_tmod, ← Int.ofNat_tdiv, Int.toNat_natCast,
      looping, if_pos (Int.natCast_nonneg (offset / blockSize)), Option.bind_eq_bind,
      Option.bind_some, Option.pure_def]
  · constructor
    · exact sameLength
    · dsimp only
    · exact bytes

/-- The loop of `get` from the block of an offset on. -/
theorem getLoop_at (blocks : List Block) (offset size : Nat) :
    getLoop (blocks.drop (offset / blockSize)) ((offset % blockSize : Nat) : Int) size =
      if size = 0 ∨ offset + size ≤ blockSize * blocks.length then
        some (slice (contents blocks) offset size)
      else none := by
  have split := Nat.div_add_mod offset blockSize
  rw [getLoop_eq _ _ _ (Nat.mod_lt _ (by decide)), List.length_drop]
  by_cases whole : offset / blockSize ≤ blocks.length
  · have front := length_contents_take whole
    have same : slice (contents (blocks.drop (offset / blockSize))) (offset % blockSize) size =
        slice (contents blocks) offset size := by
      have passed : (contents (blocks.take (offset / blockSize))).drop offset = [] :=
        List.drop_eq_nil_of_le (by omega)
      have within : offset - blockSize * (offset / blockSize) = offset % blockSize := by omega
      rw [contents_split blocks offset, slice, slice, List.drop_append, passed, List.nil_append,
        front, within]
    have stored : (size = 0 ∨ offset % blockSize + size ≤
        blockSize * (blocks.length - offset / blockSize)) ↔
          (size = 0 ∨ offset + size ≤ blockSize * blocks.length) := by
      rw [blockSize_eq] at split whole ⊢
      omega
    simp only [same, stored]
  · by_cases empty : size = 0
    · simp [empty, slice]
    · rw [if_neg, if_neg]
      · rw [blockSize_eq] at split whole ⊢
        omega
      · rw [blockSize_eq] at split whole ⊢
        omega

/-- What `get` reads, if it reads at all. -/
theorem get_true {offset size : Nat} (reads : buffer.get offset size = some (true, bytes)) :
    bytes = slice (contents buffer.blocksList) offset size ∧
      (size = 0 ∨ offset + size ≤ (contents buffer.blocksList).length) := by
  rw [get] at reads
  split at reads
  · simp only [← Int.ofNat_tmod, ← Int.ofNat_tdiv, Int.toNat_natCast, getLoop_at,
      if_pos (Int.natCast_nonneg (offset / blockSize)), Option.bind_eq_bind] at reads
    rw [length_contents]
    split at reads
    · cases reads
      exact ⟨rfl, by assumption⟩
    · cases reads
  · cases reads

theorem capacity_le (buffer : DynamicBuffer) :
    buffer.capacity ≤ (blockSize * buffer.blocksList.length : Nat) ∧ buffer.capacity < 2 ^ 31 := by
  rw [capacity, wrapInt, Int.bmod_def, blockSize_eq]
  split
  · omega
  · omega

/-- `get` reads every range up to the capacity. -/
theorem get_of_le_capacity (within : ((offset + size : Nat) : Int) ≤ buffer.capacity) :
    buffer.get offset size = some (true, slice (contents buffer.blocksList) offset size) := by
  rcases capacity_le buffer with ⟨least, small⟩
  have inside : offset + size ≤ blockSize * buffer.blocksList.length := by omega
  rw [get, checkSpace, wrapInt_add (by omega), if_neg (Int.not_lt.mpr within)]
  simp only [if_true, ← Int.ofNat_tmod, ← Int.ofNat_tdiv, Int.toNat_natCast, getLoop_at,
    if_pos (Int.natCast_nonneg (offset / blockSize)), if_pos (Or.inr inside),
    Option.bind_eq_bind, Option.bind_some, Option.pure_def]

/-- `get` reads every range inside of the blocks. -/
theorem get_inside (few : buffer.blocksList.length ≤ maxBlocks)
    (inside : offset + size ≤ (contents buffer.blocksList).length) :
    buffer.get offset size = some (true, slice (contents buffer.blocksList) offset size) := by
  rw [length_contents] at inside
  apply get_of_le_capacity
  rw [capacity_eq few]
  exact Int.ofNat_le.mpr inside

end DynamicBuffer

end MultiMaster.Packet
