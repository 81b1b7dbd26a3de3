import MultiMaster.Packet.BufferCalls

/-!
# Bounds of the block loops

The loops of `put` and `get` go from block to block by the size that remains; they do not
look where the blocks end.  The ranges that they copy are followed here without regard to
the blocks, and lie inside of them after any calls in range.

`get_address` looks at the size of the buffer alone.  At the end of a buffer that is full, or
has no blocks, it goes to a block that does not exist.
-/

namespace MultiMaster.Packet

open Foundation

/-- A range of a block that `memcpy` reads or writes. -/
structure BlockRange where
  block : Nat
  start : Int
  length : Int
  deriving DecidableEq

/-- The ranges that the loops of `put` and `get` copy from a block on, with the number of
rounds that they may take. -/
def loopRanges : Nat → Nat → Int → Int → Option (List BlockRange)
  | 0, _, _, _ => none
  | rounds + 1, block, offset, size =>
      if size = 0 then some []
      else if blockSize - offset < size then do
        let later ← loopRanges rounds (block + 1) 0 (size - (blockSize - offset))
        return ⟨block, offset, blockSize - offset⟩ :: later
      else
        some [⟨block, offset, size⟩]

namespace BlockRange

/-- The range is not empty and lies in one of the first `count` blocks. -/
def Inside (range : BlockRange) (count : Nat) : Prop :=
  range.block < count ∧ 0 ≤ range.start ∧ 0 < range.length ∧
    range.start + range.length ≤ blockSize

/-- Copy out of a range. -/
def load (blocks : List Block) (range : BlockRange) : Option Bytes := do
  let block ← blocks[range.block]?
  block.load range.start range.length

/-- Copy from the front of the data into a range. -/
def store (data : Bytes) (blocks : List Block) (range : BlockRange) : Option (List Block) := do
  let block ← blocks[range.block]?
  let stored ← block.store range.start data range.length
  return blocks.set range.block stored

end BlockRange

/-- The loops end, and the ranges that they copy for `size` bytes at an offset lie inside of
`count` blocks. -/
structure CopiesInside (offset size count : Nat) (ranges : List BlockRange) : Prop where
  followed : ∃ rounds,
    loopRanges rounds (offset / blockSize) (offset % blockSize : Nat) size = some ranges
  inside : ∀ range ∈ ranges, range.Inside count

/-! ## The loops copy these ranges -/

namespace DynamicBuffer

variable {ranges : List BlockRange} {rounds index : Nat} {offset size : Int}

theorem getLoop_zero (blocks : List Block) (offset : Int) : getLoop blocks offset 0 = some [] := by
  cases blocks with
  | nil => rfl
  | cons block rest => rfl

theorem putLoop_zero (data : Bytes) (appendByte : Bool) (tail : Int) (blocks : List Block)
    (offset : Int) : putLoop data appendByte tail blocks offset 0 = some (blocks, tail) := by
  cases blocks with
  | nil => rfl
  | cons block rest => rfl

/-- Behind the blocks there is nothing to read. -/
theorem getLoop_absent {blocks : List Block} (absent : blocks[index]? = none) (more : size ≠ 0)
    (offset : Int) : getLoop (blocks.drop index) offset size = none := by
  rw [List.drop_eq_nil_of_le (List.getElem?_eq_none_iff.mp absent), getLoop, if_neg more]

/-- Behind the blocks there is nowhere to write. -/
theorem putLoop_absent {blocks : List Block} (absent : blocks[index]? = none) (more : size ≠ 0)
    (data : Bytes) (appendByte : Bool) (tail offset : Int) :
    putLoop data appendByte tail (blocks.drop index) offset size = none := by
  rw [List.drop_eq_nil_of_le (List.getElem?_eq_none_iff.mp absent), putLoop, if_neg more]

/-- What the first round of the loops does. -/
theorem loopRanges_cases (followed : loopRanges (rounds + 1) index offset size = some ranges) :
    (size = 0 ∧ ranges = []) ∨
      (size ≠ 0 ∧ blockSize - offset < size ∧
        ∃ later, loopRanges rounds (index + 1) 0 (size - (blockSize - offset)) = some later ∧
          ranges = ⟨index, offset, blockSize - offset⟩ :: later) ∨
      (size ≠ 0 ∧ ¬blockSize - offset < size ∧ ranges = [⟨index, offset, size⟩]) := by
  rw [loopRanges] at followed
  by_cases empty : size = 0
  · rw [if_pos empty] at followed
    cases followed
    exact .inl ⟨empty, rfl⟩
  · rw [if_neg empty] at followed
    by_cases beyond : blockSize - offset < size
    · rw [if_pos beyond] at followed
      rcases Option.bind_eq_some_iff.mp followed with ⟨later, goesOn, same⟩
      cases same
      exact .inr (.inl ⟨empty, beyond, later, goesOn, rfl⟩)
    · rw [if_neg beyond] at followed
      cases followed
      exact .inr (.inr ⟨empty, beyond, rfl⟩)

/-- `get` reads the ranges one after another. -/
theorem getLoop_eq_ranges (blocks : List Block)
    (followed : loopRanges rounds index offset size = some ranges) :
    getLoop (blocks.drop index) offset size =
      (ranges.mapM (BlockRange.load blocks)).map List.flatten := by
  induction rounds generalizing index offset size ranges with
  | zero => cases followed
  | succ rounds ih =>
      rcases loopRanges_cases followed with ⟨rfl, rfl⟩ | ⟨more, beyond, later, goesOn, rfl⟩ |
        ⟨more, within, rfl⟩
      · exact getLoop_zero _ _
      · rw [List.mapM_cons, BlockRange.load]
        cases here : blocks[index]? with
        | none =>
            rw [getLoop_absent here more]
            rfl
        | some block =>
            rcases List.getElem?_eq_some_iff.mp here with ⟨inside, rfl⟩
            rw [List.drop_eq_getElem_cons inside, getLoop, if_neg more, if_pos beyond, ih goesOn]
            simp only [Option.bind_eq_bind, Option.bind_some, Option.pure_def]
            cases blocks[index].load offset (blockSize - offset) with
            | none => rfl
            | some loaded =>
                cases later.mapM (BlockRange.load blocks) with
                | none => rfl
                | some rest => rfl
      · rw [List.mapM_cons, List.mapM_nil, BlockRange.load]
        cases here : blocks[index]? with
        | none =>
            rw [getLoop_absent here more]
            rfl
        | some block =>
            rcases List.getElem?_eq_some_iff.mp here with ⟨inside, rfl⟩
            rw [List.drop_eq_getElem_cons inside, getLoop, if_neg more, if_neg within]
            simp only [Option.bind_eq_bind, Option.bind_some, Option.pure_def]
            cases blocks[index].load offset size with
            | none => rfl
            | some loaded => simp

/-- `put` writes the ranges one after another. -/
theorem putLoop_eq_ranges (data : Bytes) (appendByte : Bool) (tail : Int) (blocks : List Block)
    (followed : loopRanges rounds index offset size = some ranges) :
    (putLoop data appendByte tail (blocks.drop index) offset size).map
        (fun written => blocks.take index ++ written.1) =
      ranges.foldlM (BlockRange.store data) blocks := by
  induction rounds generalizing index offset size ranges blocks with
  | zero => cases followed
  | succ rounds ih =>
      rcases loopRanges_cases followed with ⟨rfl, rfl⟩ | ⟨more, beyond, later, goesOn, rfl⟩ |
        ⟨more, within, rfl⟩
      · rw [putLoop_zero, Option.map_some, List.take_append_drop]
        rfl
      · rw [List.foldlM_cons, BlockRange.store]
        cases here : blocks[index]? with
        | none =>
            rw [putLoop_absent here more]
            rfl
        | some block =>
            rcases List.getElem?_eq_some_iff.mp here with ⟨inside, rfl⟩
            rw [List.drop_eq_getElem_cons inside, putLoop, if_neg more, if_pos beyond]
            simp only [Option.bind_eq_bind, Option.bind_some, Option.pure_def]
            cases blocks[index].store offset data (blockSize - offset) with
            | none => rfl
            | some stored =>
                have next := ih (blocks.set index stored) goesOn
                rw [List.drop_set_of_lt (by omega)] at next
                simp only [Option.bind_some]
                rw [← next]
                cases putLoop data appendByte tail (blocks.drop (index + 1)) 0
                    (size - (blockSize - offset)) with
                | none => rfl
                | some rest =>
                    have front : (blocks.set index stored).take (index + 1) =
                        blocks.take index ++ [stored] := by
                      rw [List.take_add_one, List.take_set,
                        List.set_eq_of_length_le (List.length_take_le _ _),
                        List.getElem?_set_self inside]
                      rfl
                    rw [Option.bind_some, Option.map_some, Option.map_some, front,
                      List.append_assoc]
                    rfl
      · simp only [List.foldlM_cons, List.foldlM_nil, BlockRange.store]
        cases here : blocks[index]? with
        | none =>
            rw [putLoop_absent here more]
            rfl
        | some block =>
            rcases List.getElem?_eq_some_iff.mp here with ⟨inside, rfl⟩
            rw [List.drop_eq_getElem_cons inside, putLoop, if_neg more, if_neg within]
            simp only [Option.bind_eq_bind, Option.bind_some, Option.pure_def]
            cases blocks[index].store offset data size with
            | none => rfl
            | some stored => simp [List.set_eq_take_append_cons_drop, inside]

/-- Where the ranges lie, for an offset in the first of the blocks. -/
theorem loopRanges_inside {rounds index offset size count : Nat} (enough : size < rounds)
    (start : offset < blockSize)
    (inside : blockSize * index + offset + size ≤ blockSize * count) :
    ∃ ranges, loopRanges rounds index offset size = some ranges ∧
      ∀ range ∈ ranges, range.Inside count := by
  induction rounds generalizing index offset size with
  | zero => omega
  | succ rounds ih =>
      by_cases empty : size = 0
      · exact ⟨[], by rw [loopRanges, if_pos (by omega)], fun _ none => by cases none⟩
      · have more : ¬(size : Int) = 0 := by omega
        have here : index < count := by
          rw [blockSize_eq] at inside
          omega
        by_cases beyond : (blockSize : Int) - offset < size
        · have remaining : ((size - (blockSize - offset) : Nat) : Int) =
              (size : Int) - ((blockSize : Int) - offset) := by omega
          have rest : ∃ later, loopRanges rounds (index + 1) (0 : Nat)
                (size - (blockSize - offset) : Nat) = some later ∧
              ∀ range ∈ later, range.Inside count :=
            ih (by omega) (by decide) (by rw [Nat.mul_succ]; omega)
          rcases rest with ⟨later, goesOn, bounds⟩
          rw [remaining] at goesOn
          refine ⟨⟨index, offset, blockSize - offset⟩ :: later, ?_, ?_⟩
          · rw [loopRanges, if_neg more, if_pos beyond, ← Nat.cast_zero, goesOn]
            rfl
          · intro range member
            rcases List.mem_cons.mp member with rfl | member
            · exact ⟨here, by dsimp only; omega, by dsimp only; omega, by dsimp only; omega⟩
            · exact bounds range member
        · refine ⟨[⟨index, offset, size⟩], ?_, ?_⟩
          · rw [loopRanges, if_neg more, if_neg beyond]
          · intro range member
            rw [List.mem_singleton.mp member]
            exact ⟨here, by dsimp only; omega, by dsimp only; omega, by dsimp only; omega⟩

theorem copiesInside {offset size count : Nat} (inside : offset + size ≤ blockSize * count) :
    ∃ ranges, CopiesInside offset size count ranges := by
  have split := Nat.div_add_mod offset blockSize
  rcases loopRanges_inside (Nat.lt_succ_self size) (Nat.mod_lt offset (by decide))
    (by rw [split]; exact inside) with ⟨ranges, followed, bounds⟩
  exact ⟨ranges, ⟨size + 1, followed⟩, bounds⟩

/-! ## Any calls in range -/

/-- A number of bytes rounded up to whole blocks. -/
def roundUp (total : Nat) : Nat := blockSize * blocksFor total

/-- `put` returns, makes the capacity large enough and no larger, and copies into ranges
inside of the blocks, one after another. -/
def PutsInside (buffer : DynamicBuffer) (data : Bytes) (offset : Nat) : Prop :=
  ∃ after ranges, buffer.put data offset data.length = some (after, true) ∧
    after.capacity = max buffer.capacity (roundUp (offset + data.length)) ∧
    CopiesInside offset data.length after.blocksList.length ranges ∧
    ranges.foldlM (BlockRange.store data)
      (buffer.checkSpace offset data.length true).1.blocksList = some after.blocksList

/-- `get` refuses exactly the ranges behind the capacity and reads nothing of them; of the
others it reads all bytes, out of ranges inside of the blocks. -/
def GetsInside (buffer : DynamicBuffer) (offset size : Nat) : Prop :=
  (buffer.get offset size = some (false, []) ↔ buffer.capacity < (offset + size : Nat)) ∧
    (¬buffer.capacity < (offset + size : Nat) →
      ∃ bytes ranges, buffer.get offset size = some (true, bytes) ∧ bytes.length = size ∧
        CopiesInside offset size buffer.blocksList.length ranges ∧
        (ranges.mapM (BlockRange.load buffer.blocksList)).map List.flatten = some bytes)

variable {buffer : DynamicBuffer}

/-- The blocks that `put` leaves are those with the ranges written. -/
theorem put_stores_ranges {data : Bytes} {offset count : Nat} {after : DynamicBuffer}
    (copies : CopiesInside offset data.length count ranges)
    (putting : buffer.put data offset data.length = some (after, true)) :
    ranges.foldlM (BlockRange.store data)
      (buffer.checkSpace offset data.length true).1.blocksList = some after.blocksList := by
  rcases copies.followed with ⟨rounds, followed⟩
  rw [put] at putting
  simp only [← Int.ofNat_tmod, ← Int.ofNat_tdiv, Int.toNat_natCast,
    if_pos (Int.natCast_nonneg (offset / blockSize))] at putting
  rcases Option.bind_eq_some_iff.mp putting with ⟨written, looping, same⟩
  cases same
  rw [← putLoop_eq_ranges data _ _ _ followed, looping]
  rfl

/-- The bytes that `get` returns are those of the ranges. -/
theorem get_loads_ranges {offset size count : Nat} {bytes : Bytes}
    (copies : CopiesInside offset size count ranges)
    (reads : buffer.get offset size = some (true, bytes)) :
    (ranges.mapM (BlockRange.load buffer.blocksList)).map List.flatten = some bytes := by
  rcases copies.followed with ⟨rounds, followed⟩
  rw [get] at reads
  split at reads
  · simp only [← Int.ofNat_tmod, ← Int.ofNat_tdiv, Int.toNat_natCast,
      if_pos (Int.natCast_nonneg (offset / blockSize))] at reads
    rcases Option.bind_eq_some_iff.mp reads with ⟨loaded, looping, same⟩
    cases same
    rw [← getLoop_eq_ranges _ followed, looping]
  · cases reads

theorem Sound.putsInside (sound : buffer.Sound) {data : Bytes} {offset : Nat}
    (fits : offset + data.length ≤ 2 ^ 31 - blockSize) : buffer.PutsInside data offset := by
  rcases put_eq sound.few fits with ⟨after, putting, result⟩
  have few := (result.sound sound fits).few
  have room : offset + data.length ≤ blockSize * after.blocksList.length := by
    rw [result.length]
    exact le_extended buffer _
  rcases copiesInside room with ⟨ranges, copies⟩
  refine ⟨after, ranges, putting, ?_, copies, put_stores_ranges copies putting⟩
  · rw [capacity_eq few, capacity_eq sound.few, result.length, length_extended, roundUp,
      ← Nat.mul_max_mul_left]
    omega

theorem Sound.getsInside (sound : buffer.Sound) {offset size : Nat}
    (fits : offset + size ≤ 2 ^ 31 - blockSize) : buffer.GetsInside offset size := by
  rw [GetsInside, get_eq sound fits, capacity_eq sound.few, Int.ofNat_lt]
  by_cases beyond : blockSize * buffer.blocksList.length < offset + size
  · rw [if_pos beyond]
    exact ⟨iff_of_true rfl beyond, fun within => absurd beyond within⟩
  · rw [if_neg beyond]
    rcases copiesInside (Nat.not_lt.mp beyond) with ⟨ranges, copies⟩
    have reads := (get_eq sound fits).trans (if_neg beyond)
    refine ⟨iff_of_false ?_ beyond,
      fun _ => ⟨_, ranges, rfl, ?_, copies, get_loads_ranges copies reads⟩⟩
    · intro refused
      cases refused
    · rw [slice, List.length_take, List.length_drop, length_contents]
      omega

/-- After any calls in range, a further `put` or `get` in range ends and stays inside of the
blocks. -/
theorem blockLoops_inside (calls : List BufferCall) (inRange : RespectsRange calls) :
    ∃ buffer, dynamicCalls.exec (some new) calls = some buffer ∧
      (∀ data offset, offset + data.length ≤ 2 ^ 31 - blockSize →
        buffer.PutsInside data offset) ∧
      ∀ offset size, offset + size ≤ 2 ^ 31 - blockSize → buffer.GetsInside offset size := by
  rcases inRange.reached with ⟨buffer, reached, sound⟩
  exact ⟨buffer, reached, fun _ _ => sound.putsInside, fun _ _ => sound.getsInside⟩

/-- Two bytes on a block boundary, and clearing. -/
theorem blockLoops_inside_boundary :
    ∃ buffer, dynamicCalls.exec (some new) [.put [1, 2] 1023, .clear] = some buffer ∧
      (∀ data offset, offset + data.length ≤ 2 ^ 31 - blockSize →
        buffer.PutsInside data offset) ∧
      ∀ offset size, offset + size ≤ 2 ^ 31 - blockSize → buffer.GetsInside offset size := by
  refine blockLoops_inside [.put [1, 2] 1023, .clear] ?_
  have small : 1023 + [(1 : UInt8), 2].length ≤ 2 ^ 31 - blockSize := by decide
  have put : RespectsRange ([] ++ [.put [1, 2] 1023]) :=
    Machine.respects_concat.mpr ⟨Machine.respects_nil, fun _ _ => small⟩
  have cleared : RespectsRange ([.put [1, 2] 1023] ++ [.clear]) :=
    Machine.respects_concat.mpr ⟨put, fun _ _ => trivial⟩
  exact cleared

/-! ## Addresses -/

/-- Block and position of an address, or a null pointer.  There is no result when the
iterator leads behind the blocks. -/
def getAddress (buffer : DynamicBuffer) (offset : Int) : Option (Option (Nat × Int)) :=
  if buffer.size < offset then
    some none
  else
    let index := offset.tdiv blockSize
    if 0 ≤ index ∧ index < buffer.blocksList.length then
      some (some (index.toNat, offset.tmod blockSize))
    else
      none

/-- The byte at an address. -/
def byteAt (buffer : DynamicBuffer) (address : Nat × Int) : Option UInt8 := do
  let block ← buffer.blocksList[address.1]?
  if 0 ≤ address.2 then block.val[address.2.toNat]? else none

/-- The byte that `get(out, offset, 1)` returns.  Behind the largest `int` the sum of offset
and size overflows. -/
def getByte (buffer : DynamicBuffer) (offset : Int) : Option UInt8 :=
  if offset + 1 < 2 ^ 31 then
    match buffer.get offset 1 with
    | some (true, [byte]) => some byte
    | _ => none
  else
    none

/-- `get_address` returns null, or the address of a byte in a block, which is the one that
`get` returns. -/
def AddressAgrees (buffer : DynamicBuffer) (offset : Nat) : Prop :=
  ∃ result, buffer.getAddress offset = some result ∧
    ∀ address, result = some address →
      ∃ byte, buffer.byteAt address = some byte ∧ buffer.getByte offset = some byte

/-- The bytes of the blocks, by block and position. -/
theorem getElem?_contents (blocks : List Block) (position : Nat) :
    (contents blocks)[position]? =
      (blocks[position / blockSize]?).bind fun block => block.val[position % blockSize]? := by
  induction blocks generalizing position with
  | nil => rfl
  | cons block rest ih =>
      rw [getElem?_contents_cons]
      by_cases here : position < blockSize
      · rw [if_pos here, Nat.div_eq_of_lt here, Nat.mod_eq_of_lt here]
        rfl
      · have block : position / blockSize = (position - blockSize) / blockSize + 1 := by
          rw [blockSize_eq] at here ⊢
          omega
        have place : position % blockSize = (position - blockSize) % blockSize := by
          rw [blockSize_eq] at here ⊢
          omega
        rw [if_neg here, ih, block, place]
        rfl

/-- The byte at an offset below the capacity. -/
theorem getByte_of_lt {offset : Nat} (below : (offset : Int) < buffer.capacity) :
    buffer.getByte offset = (contents buffer.blocksList)[offset]? := by
  have small := (capacity_le buffer).2
  have got : buffer.get offset (1 : Nat) =
      some (true, slice (contents buffer.blocksList) offset 1) :=
    get_of_le_capacity (by omega)
  rw [Int.natCast_one] at got
  have fits : (offset : Int) + 1 < 2 ^ 31 := by omega
  rw [getByte, if_pos fits, got, slice, List.take_one, List.head?_drop]
  cases (contents buffer.blocksList)[offset]? with
  | none => simp
  | some byte => simp

/-- No byte is returned from the capacity on. -/
theorem getByte_of_le {offset : Nat} (beyond : buffer.capacity ≤ offset) :
    buffer.getByte offset = none := by
  rw [getByte]
  split
  · have sum : wrapInt ((offset : Int) + (1 : Nat)) = (offset + 1 : Nat) :=
      wrapInt_add (by omega)
    have short : buffer.capacity < ((offset + 1 : Nat) : Int) := by omega
    rw [Int.natCast_one] at sum
    rw [get, checkSpace, sum, if_pos short]
    rfl
  · rfl

/-- Where the address and `get` lead to the same byte, for any buffer. -/
theorem addressAgrees_iff (buffer : DynamicBuffer) (offset : Nat) :
    buffer.AddressAgrees offset ↔ buffer.size < offset ∨ (offset : Int) < buffer.capacity := by
  by_cases behind : buffer.size < offset
  · refine iff_of_true ⟨none, ?_, fun _ found => by cases found⟩ (.inl behind)
    rw [getAddress, if_pos behind]
  · rw [or_iff_right behind]
    by_cases below : (offset : Int) < buffer.capacity
    · refine iff_of_true ?_ below
      have inside : offset < blockSize * buffer.blocksList.length := by
        have least := (capacity_le buffer).1
        omega
      have block : offset / blockSize < buffer.blocksList.length :=
        Nat.div_lt_of_lt_mul inside
      refine ⟨some (offset / blockSize, (offset % blockSize : Nat)), ?_, ?_⟩
      · rw [getAddress, if_neg behind]
        simp only [← Int.ofNat_tmod, ← Int.ofNat_tdiv, Int.toNat_natCast]
        rw [if_pos ⟨Int.natCast_nonneg _, Int.ofNat_lt.mpr block⟩]
      · intro address found
        cases found
        have stored : offset < (contents buffer.blocksList).length := by
          rw [length_contents]
          exact inside
        have byte := List.getElem?_eq_getElem stored
        refine ⟨_, ?_, (getByte_of_lt below).trans byte⟩
        rw [getElem?_contents] at byte
        rw [← byte, byteAt]
        simp only [Int.toNat_natCast, if_pos (Int.natCast_nonneg _), Option.bind_eq_bind]
    · refine iff_of_false ?_ below
      rintro ⟨result, addressed, same⟩
      rw [getAddress, if_neg behind] at addressed
      simp only at addressed
      split at addressed
      · cases addressed
        rcases same _ rfl with ⟨byte, _, got⟩
        rw [getByte_of_le (by omega)] at got
        cases got
      · cases addressed

/-- In any buffer reached the addresses agree behind the size and below the capacity; after
calls in range all of them agree if and only if the buffer is not full. -/
theorem getAddress_agrees_iff (calls : List BufferCall) (buffer : DynamicBuffer)
    (reached : dynamicCalls.exec (some new) calls = some buffer) :
    (∀ offset, buffer.AddressAgrees offset ↔
      buffer.size < offset ∨ (offset : Int) < buffer.capacity) ∧
      (RespectsRange calls →
        ((∀ offset, buffer.AddressAgrees offset) ↔ buffer.size < buffer.capacity)) := by
  refine ⟨addressAgrees_iff buffer, fun inRange => ?_⟩
  rcases inRange.reached with ⟨found, same, sound⟩
  rw [reached] at same
  cases same
  rcases sound.size_bounds with ⟨size, counted, _⟩
  simp only [addressAgrees_iff, counted]
  constructor
  · intro agrees
    have last := agrees size
    omega
  · intro notFull offset
    omega

/-- After one byte all addresses agree, the one behind it included. -/
theorem getAddress_agrees_oneByte :
    ∃ buffer, dynamicCalls.exec (some new) [.append [7]] = some buffer ∧
      ∀ offset, buffer.AddressAgrees offset := by
  have small : new.size + [(7 : UInt8)].length ≤ 2 ^ 31 - blockSize := by decide
  have inRange : RespectsRange ([] ++ [.append [7]]) :=
    Machine.respects_concat.mpr ⟨Machine.respects_nil, fun buffer found => by
      cases found
      exact small⟩
  rcases inRange.reached with ⟨buffer, reached, sound⟩
  have notFull : (dynamicCalls.exec (some new) [.append [7]]).map
      (fun buffer => decide (buffer.size < buffer.capacity)) = some true := by decide +kernel
  rw [List.nil_append] at reached inRange
  rw [reached, Option.map_some, Option.some_inj, decide_eq_true_iff] at notFull
  exact ⟨buffer, reached, ((getAddress_agrees_iff _ buffer reached).2 inRange).mpr notFull⟩

/-- A new buffer has no address for offset 0, and a buffer with one full block none for
offset 1024, which is its size. -/
theorem getAddress_behind_blocks :
    ¬new.AddressAgrees 0 ∧
      ∃ buffer, dynamicCalls.exec (some new) [.append (List.replicate 1024 7)] = some buffer ∧
        buffer.size = 1024 ∧ ¬buffer.AddressAgrees 1024 := by
  have full : (dynamicCalls.exec (some new) [.append (List.replicate 1024 7)]).map
      (fun buffer => (buffer.size, buffer.capacity)) = some (1024, 1024) := by decide +kernel
  constructor
  · rw [addressAgrees_iff]
    decide
  · rcases Option.map_eq_some_iff.mp full with ⟨buffer, reached, sizes⟩
    rcases Prod.mk.inj sizes with ⟨size, capacity⟩
    refine ⟨buffer, reached, size, ?_⟩
    rw [addressAgrees_iff, size, capacity]
    decide

end DynamicBuffer

end MultiMaster.Packet
