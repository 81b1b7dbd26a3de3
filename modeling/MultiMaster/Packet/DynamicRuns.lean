import MultiMaster.Packet.BlockStorage

/-!
# Runs of a dynamic buffer

What a buffer stores after any calls of `put` is compared with a flat array, and the size
it reports after any calls of `append` with the number of bytes appended.
-/

namespace MultiMaster.Packet

open Foundation

/-! ## Stored bytes -/

/-- A call of `put` with the bytes it is given. -/
structure Put where
  data : Bytes
  offset : Nat
  deriving DecidableEq

namespace Put

/-- The range of the call leaves room for one more block below the largest `int`. -/
def InRange (put : Put) : Prop := put.offset + put.data.length ≤ 2 ^ 31 - blockSize

/-- Every byte for a block behind the first one occurs in the data at the position that it
has in its block. -/
def Repeats (put : Put) : Prop :=
  ∀ index < put.data.length, blockSize ≤ put.offset % blockSize + index →
    put.data[(put.offset + index) % blockSize]? = put.data[index]?

instance (put : Put) : Decidable put.InRange := inferInstanceAs (Decidable (_ ≤ _))

instance (put : Put) : Decidable put.Repeats :=
  inferInstanceAs (Decidable (∀ index < put.data.length, _))

end Put

namespace DynamicBuffer

variable {buffer after : DynamicBuffer} {puts : List Put} {put : Put}
variable {array : FlatArray UInt8}

/-- The buffer after calls of `put` on a new one. -/
def putAll (puts : List Put) : Option DynamicBuffer :=
  puts.foldlM (fun buffer put =>
    (buffer.put put.data put.offset put.data.length).map Prod.fst) new

/-- The flat array after the same writes. -/
def flatAfter (puts : List Put) : FlatArray UInt8 :=
  puts.foldl (fun array put => array.write put.offset put.data) (FlatArray.filled 0)

/-- The calls have a result, and every later `get` that returns true reads the flat
array. -/
def ReadsBack (puts : List Put) : Prop :=
  ∃ buffer, putAll puts = some buffer ∧
    ∀ offset size : Nat, offset < 2 ^ 31 → size < 2 ^ 31 →
      ∀ bytes, buffer.get offset size = some (true, bytes) →
        bytes = (flatAfter puts).read offset size

theorem putAll_concat (puts : List Put) (put : Put) :
    putAll (puts ++ [put]) = (putAll puts).bind fun buffer =>
      (buffer.put put.data put.offset put.data.length).map Prod.fst := by
  simp [putAll, List.foldlM_append]

theorem flatAfter_concat (puts : List Put) (put : Put) :
    flatAfter (puts ++ [put]) = (flatAfter puts).write put.offset put.data := by
  rw [flatAfter, List.foldl_append]
  rfl

/-- The source of a byte, by its index in the data. -/
theorem putSource_add (offset index : Nat) :
    putSource offset (offset + index) =
      if offset % blockSize + index < blockSize then index
      else (offset + index) % blockSize := by
  rw [putSource, sourceIndex, blockSize_eq]
  split
  · rw [if_pos (by omega)]
    omega
  · rw [if_neg (by omega)]
    omega

/-- `put` looks up bytes of repeating data where they are. -/
theorem Repeats.getElem?_putSource (repeats : put.Repeats) {index : Nat}
    (inside : index < put.data.length) :
    put.data[putSource put.offset (put.offset + index)]? = put.data[index]? := by
  rw [putSource_add]
  split
  · rfl
  · exact repeats index inside (by omega)

/-- Adding blocks does not change what is represented. -/
theorem represents_extended (represents : FlatArray.Represents 0 (contents buffer.blocksList)
    array) (total : Nat) :
    FlatArray.Represents 0 (contents (buffer.extended total).blocksList) array := by
  intro position
  rw [← represents position]
  by_cases inside : position < (contents (buffer.extended total).blocksList).length
  · rw [getElem?_extended buffer total inside]
    split
    · rfl
    · rw [List.getElem?_eq_none (by omega)]
      rfl
  · have shorter : (contents buffer.blocksList).length ≤
        (contents (buffer.extended total).blocksList).length := by
      rw [length_contents, length_contents, length_extended]
      exact Nat.mul_le_mul_left _ (Nat.le_max_left _ _)
    rw [List.getElem?_eq_none (by omega), List.getElem?_eq_none (by omega)]

/-- A call with repeating data does what the flat array does. -/
theorem PutResult.represents (result : PutResult buffer after put.data put.offset)
    (repeats : put.Repeats)
    (represents : FlatArray.Represents 0 (contents buffer.blocksList) array) :
    FlatArray.Represents 0 (contents after.blocksList)
      (array.write put.offset put.data) := by
  intro position
  rw [result.bytes]
  split
  · obtain ⟨index, rfl⟩ := Nat.exists_eq_add_of_le (by omega : put.offset ≤ position)
    have inside : index < put.data.length := by omega
    have found := List.getElem?_eq_getElem inside
    rw [Repeats.getElem?_putSource repeats inside, FlatArray.write_inside found, found]
    rfl
  · rw [FlatArray.write_outside (by omega)]
    exact represents_extended represents _ position

theorem PutResult.few (result : PutResult buffer after put.data put.offset)
    (few : buffer.blocksList.length ≤ maxBlocks) (inRange : put.InRange) :
    after.blocksList.length ≤ maxBlocks := by
  rw [result.length, length_extended]
  exact Nat.max_le.mpr ⟨few, blocksFor_le_maxBlocks inRange⟩

/-- Repeating calls leave a buffer that represents the flat array. -/
theorem putAll_represents (inRange : ∀ put ∈ puts, put.InRange)
    (repeats : ∀ put ∈ puts, put.Repeats) :
    ∃ buffer, putAll puts = some buffer ∧ buffer.blocksList.length ≤ maxBlocks ∧
      FlatArray.Represents 0 (contents buffer.blocksList) (flatAfter puts) := by
  induction puts using List.reverseRecOn with
  | nil => exact ⟨new, rfl, Nat.zero_le _, fun _ => rfl⟩
  | append_singleton puts put ih =>
      rcases ih (fun put member => inRange put (List.mem_append_left _ member))
        (fun put member => repeats put (List.mem_append_left _ member)) with
        ⟨buffer, reached, few, represents⟩
      have last : put ∈ puts ++ [put] := List.mem_append_right _ (List.mem_singleton.mpr rfl)
      rcases put_eq few (inRange put last) with ⟨after, putting, result⟩
      refine ⟨after, ?_, result.few few (inRange put last), ?_⟩
      · rw [putAll_concat, reached, Option.bind_some, putting]
        rfl
      · rw [flatAfter_concat]
        exact result.represents (repeats put last) represents

/-- A call that is read back has repeating data. -/
theorem PutResult.repeats (result : PutResult buffer after put.data put.offset)
    (few : buffer.blocksList.length ≤ maxBlocks) (inRange : put.InRange)
    (readsBack : ∀ offset size : Nat, offset < 2 ^ 31 → size < 2 ^ 31 →
      ∀ bytes, after.get offset size = some (true, bytes) →
        bytes = (array.write put.offset put.data).read offset size) :
    put.Repeats := by
  intro index inside behind
  have room : put.offset + index < (contents after.blocksList).length := by
    rw [length_contents, result.length]
    have enough := le_extended buffer (put.offset + put.data.length)
    omega
  have small : put.offset + index < 2 ^ 31 := by
    have range := inRange
    rw [Put.InRange, blockSize_eq] at range
    omega
  have found := List.getElem?_eq_getElem inside
  have read := readsBack (put.offset + index) 1 small (by decide) _
    (get_inside (result.few few inRange) room)
  have stored : slice (contents after.blocksList) (put.offset + index) 1 =
      (put.data[(put.offset + index) % blockSize]?).toList := by
    have bytes := result.bytes (put.offset + index)
    rw [if_pos (by omega), putSource_add, if_neg (by omega)] at bytes
    rw [slice, List.take_one, List.head?_drop, bytes]
  rw [stored, FlatArray.read, List.range_one, List.map_singleton, Nat.add_zero,
    FlatArray.write_inside found] at read
  rw [found]
  cases source : put.data[(put.offset + index) % blockSize]? with
  | none => simp [source] at read
  | some byte => simpa [source] using read

/-- A buffer is read back as the flat array after every call of a run if and only if every
call has repeating data: all of it in one block, or the bytes for later blocks equal to
those that stand in the data at their positions in the blocks. -/
theorem put_readsBack_iff (puts : List Put) (inRange : ∀ put ∈ puts, put.InRange) :
    (∀ before, before <+: puts → ReadsBack before) ↔ ∀ put ∈ puts, put.Repeats := by
  constructor
  · intro readsBack
    induction puts using List.reverseRecOn with
    | nil => simp
    | append_singleton puts put ih =>
        have earlierInRange : ∀ put ∈ puts, put.InRange :=
          fun put member => inRange put (List.mem_append_left _ member)
        have last : put ∈ puts ++ [put] :=
          List.mem_append_right _ (List.mem_singleton.mpr rfl)
        have earlier := ih earlierInRange
          fun before among => readsBack before (among.trans (List.prefix_append _ _))
        rcases putAll_represents earlierInRange earlier with ⟨buffer, reached, few, _⟩
        rcases put_eq few (inRange put last) with ⟨after, putting, result⟩
        rcases readsBack _ List.prefix_rfl with ⟨final, finished, reads⟩
        rw [putAll_concat, reached, Option.bind_some, putting] at finished
        cases finished
        rw [flatAfter_concat] at reads
        intro other member
        rcases List.mem_append.mp member with old | new
        · exact earlier other old
        · rw [List.mem_singleton.mp new]
          exact result.repeats few (inRange put last) reads
  · intro repeats before among
    rcases putAll_represents (fun put member => inRange put (among.subset member))
      (fun put member => repeats put (among.subset member)) with
      ⟨buffer, reached, _, represents⟩
    refine ⟨buffer, reached, ?_⟩
    intro offset size _ _ bytes reads
    rcases get_true reads with ⟨rfl, inside⟩
    exact represents.read_eq inside

/-- Data that repeats across a block boundary, then data inside of a block. -/
theorem put_readsBack_iff_repeating : ReadsBack [⟨[7, 7], 1023⟩, ⟨[1, 2, 3], 5⟩] :=
  (put_readsBack_iff [⟨[7, 7], 1023⟩, ⟨[1, 2, 3], 5⟩] (by decide)).mpr (by decide) _
    List.prefix_rfl

/-- Of two bytes on a block boundary the first is stored twice. -/
theorem boundary_notReadBack :
    (⟨[1, 2], 1023⟩ : Put).InRange ∧ ¬ReadsBack [⟨[1, 2], 1023⟩] := by
  refine ⟨by decide, ?_⟩
  intro readsBack
  rcases readsBack with ⟨buffer, reached, reads⟩
  have stored : ((putAll [⟨[1, 2], 1023⟩]).bind fun buffer =>
      buffer.get (1023 : Nat) (2 : Nat)) = some (true, [1, 1]) := by decide +kernel
  rw [reached, Option.bind_some] at stored
  have read := reads 1023 2 (by decide) (by decide) [1, 1] stored
  exact absurd read (by decide)

/-! ## Sizes -/

/-- The buffer after calls of `append` on a new one. -/
def appendAll (payloads : List Bytes) : Option DynamicBuffer :=
  payloads.foldlM (fun buffer data => (buffer.append data data.length).map Prod.fst) new

/-- The number of bytes in a list of payloads. -/
def total (payloads : List Bytes) : Nat := (payloads.map List.length).sum

/-- After the payloads `before`, appending `data` returns their total and adds to it. -/
def Accounts (before : List Bytes) (data : Bytes) : Prop :=
  ∃ buffer after, appendAll before = some buffer ∧
    buffer.append data data.length = some (after, (total before : Int)) ∧
    after.size = (total (before ++ [data]) : Nat)

/-- Every `append` ends at least as far into its last block as the one before. -/
def TailsGrow (payloads : List Bytes) : Prop :=
  ∀ before data, before ++ [data] <+: payloads →
    tailOf (total before) ≤ tailOf (total (before ++ [data]))

theorem appendAll_concat (payloads : List Bytes) (data : Bytes) :
    appendAll (payloads ++ [data]) = (appendAll payloads).bind fun buffer =>
      (buffer.append data data.length).map Prod.fst := by
  simp [appendAll, List.foldlM_append]

theorem total_concat (payloads : List Bytes) (data : Bytes) :
    total (payloads ++ [data]) = total payloads + data.length := by
  simp [total]

theorem tailOf_le (count : Nat) : tailOf count ≤ blockSize := by
  unfold tailOf blockSize
  omega

/-- A number of bytes by its full blocks and its tail. -/
theorem blocksFor_tailOf (count : Nat) :
    blockSize * (blocksFor count - 1) + tailOf count = count := by
  unfold blocksFor tailOf blockSize
  omega

/-- The size of a buffer by the number of its blocks and its tail. -/
theorem size_eq {tail : Nat} (few : buffer.blocksList.length ≤ maxBlocks)
    (tailEq : buffer.tailOffsetInBlock = tail) (short : tail ≤ blockSize) :
    buffer.size = (blockSize * (buffer.blocksList.length - 1) + tail : Nat) := by
  have count : wrapInt buffer.blocksList.length = buffer.blocksList.length := by
    apply FixedBuffer.wrapInt_of_lt
    unfold maxBlocks at few
    omega
  have full : (if (0 : Int) < buffer.blocksList.length then
      (buffer.blocksList.length : Int) - 1 else buffer.blocksList.length) =
        (buffer.blocksList.length - 1 : Nat) := by
    split
    · omega
    · omega
  rw [size, count]
  simp only [full, tailEq]
  rw [← Nat.cast_mul, ← Nat.cast_add, Nat.mul_comm]
  apply FixedBuffer.wrapInt_of_lt
  unfold maxBlocks at few
  rw [blockSize_eq] at short ⊢
  omega

/-- The buffer holds `count` bytes and knows it. -/
structure Sized (buffer : DynamicBuffer) (count : Nat) : Prop where
  blocks : buffer.blocksList.length = blocksFor count
  tail : buffer.tailOffsetInBlock = tailOf count

theorem Sized.size_eq {count : Nat} (sized : buffer.Sized count)
    (fits : count ≤ 2 ^ 31 - blockSize) : buffer.size = count := by
  have few : buffer.blocksList.length ≤ maxBlocks := by
    rw [sized.blocks]
    exact blocksFor_le_maxBlocks fits
  rw [DynamicBuffer.size_eq few sized.tail (tailOf_le count), sized.blocks,
    blocksFor_tailOf]

theorem blocksFor_mono {first second : Nat} (le : first ≤ second) :
    blocksFor first ≤ blocksFor second := by
  unfold blocksFor
  exact Nat.div_le_div_right (by omega)

/-- `append` keeps the larger of the old and the new tail. -/
theorem Sized.append {count : Nat} {data : Bytes} (sized : buffer.Sized count)
    (fits : count + data.length ≤ 2 ^ 31 - blockSize) :
    ∃ after, buffer.append data data.length = some (after, (count : Int)) ∧
      after.blocksList.length = blocksFor (count + data.length) ∧
      after.tailOffsetInBlock =
        (max (tailOf count) (tailOf (count + data.length)) : Nat) := by
  have few : buffer.blocksList.length ≤ maxBlocks := by
    rw [sized.blocks]
    exact blocksFor_le_maxBlocks (by omega)
  rcases put_eq few fits with ⟨after, putting, result⟩
  have wider : (buffer.extended (count + data.length)).blocksList.length =
      blocksFor (count + data.length) := by
    rw [length_extended, sized.blocks]
    exact Nat.max_eq_right (blocksFor_mono (Nat.le_add_right _ _))
  have extendedSize : (buffer.extended (count + data.length)).size =
      (blockSize * (blocksFor (count + data.length) - 1) + tailOf count : Nat) := by
    have enough : (buffer.extended (count + data.length)).blocksList.length ≤ maxBlocks := by
      rw [wider]
      exact blocksFor_le_maxBlocks fits
    have sameTail : (buffer.extended (count + data.length)).tailOffsetInBlock =
        (tailOf count : Int) := sized.tail
    rw [DynamicBuffer.size_eq enough sameTail (tailOf_le count), wider]
  have parts := blocksFor_tailOf (count + data.length)
  refine ⟨after, ?_, ?_, ?_⟩
  · rw [DynamicBuffer.append, sized.size_eq (by omega), putting]
    rfl
  · rw [result.length, wider]
  · rw [result.tail, extendedSize, sized.tail]
    by_cases empty : data.length = 0
    · rw [if_neg (by simp [empty]), empty, Nat.add_zero, Nat.max_self]
    · split
      · rw [Nat.max_eq_right (by omega)]
      · rw [Nat.max_eq_left (by omega)]

/-- The size is right after an `append` exactly when the tail has not moved back. -/
theorem append_sized_iff {count : Nat} {data : Bytes}
    (blocks : after.blocksList.length = blocksFor (count + data.length))
    (tail : after.tailOffsetInBlock =
      (max (tailOf count) (tailOf (count + data.length)) : Nat))
    (fits : count + data.length ≤ 2 ^ 31 - blockSize) :
    after.size = (count + data.length : Nat) ↔
      tailOf count ≤ tailOf (count + data.length) := by
  have few : after.blocksList.length ≤ maxBlocks := by
    rw [blocks]
    exact blocksFor_le_maxBlocks fits
  have parts := blocksFor_tailOf (count + data.length)
  rw [size_eq few tail (Nat.max_le.mpr ⟨tailOf_le _, tailOf_le _⟩), blocks]
  omega

/-- Buffers whose tails grow know their size. -/
theorem appendAll_sized {payloads : List Bytes} (grow : TailsGrow payloads)
    (fits : total payloads ≤ 2 ^ 31 - blockSize) :
    ∃ buffer, appendAll payloads = some buffer ∧ buffer.Sized (total payloads) := by
  induction payloads using List.reverseRecOn with
  | nil => exact ⟨new, rfl, rfl, rfl⟩
  | append_singleton payloads data ih =>
      rw [total_concat] at fits ⊢
      have earlier : TailsGrow payloads :=
        fun before other among => grow before other (among.trans (List.prefix_append _ _))
      rcases ih earlier (by omega) with ⟨buffer, reached, sized⟩
      rcases sized.append fits with ⟨after, appending, blocks, tail⟩
      have last := grow payloads data List.prefix_rfl
      rw [total_concat] at last
      refine ⟨after, ?_, blocks, ?_⟩
      · rw [appendAll_concat, reached, Option.bind_some, appending]
        rfl
      · rw [tail, Nat.max_eq_right last]

/-- Every `append` of a run returns the total so far and leaves the new total as the size
if and only if every `append` ends at least as far into its last block as the one before. -/
theorem append_accounts_iff (payloads : List Bytes)
    (fits : total payloads ≤ 2 ^ 31 - blockSize) :
    (∀ before data, before ++ [data] <+: payloads → Accounts before data) ↔
      TailsGrow payloads := by
  constructor
  · intro accounts
    induction payloads using List.reverseRecOn with
    | nil =>
        intro before data among
        simp at among
    | append_singleton payloads data ih =>
        rw [total_concat] at fits
        have earlier := ih (by omega) fun before other among =>
          accounts before other (among.trans (List.prefix_append _ _))
        intro before other among
        rcases List.prefix_concat_iff.mp among with whole | shorter
        · obtain ⟨rfl, same⟩ := List.append_inj' whole rfl
          cases same
          rcases appendAll_sized earlier (by omega) with ⟨buffer, reached, sized⟩
          rcases sized.append fits with ⟨after, appending, blocks, tail⟩
          rcases accounts _ _ among with ⟨found, final, finding, last, size⟩
          rw [reached] at finding
          cases finding
          rw [appending] at last
          cases last
          rw [total_concat] at size ⊢
          exact (append_sized_iff blocks tail fits).mp size
        · exact earlier before other shorter
  · intro grow before data among
    have bound : total before + data.length ≤ 2 ^ 31 - blockSize := by
      rcases among with ⟨rest, rfl⟩
      simp only [total, List.map_append, List.sum_append, List.map_singleton,
        List.sum_singleton] at fits ⊢
      omega
    have front : before <+: payloads := (List.prefix_append _ _).trans among
    have earlier : TailsGrow before :=
      fun first other inside => grow first other (inside.trans front)
    rcases appendAll_sized earlier (by omega) with ⟨buffer, reached, sized⟩
    rcases sized.append bound with ⟨after, appending, blocks, tail⟩
    have last := grow before data among
    rw [total_concat] at last
    refine ⟨buffer, after, reached, appending, ?_⟩
    rw [total_concat]
    exact (append_sized_iff blocks tail bound).mpr last

/-- A payload that fills a block to its end, and one that fills two more. -/
theorem append_accounts_iff_wholeBlocks :
    Accounts [List.replicate 1024 1] (List.replicate 2048 2) := by
  have first : total [List.replicate 1024 (1 : UInt8)] = 1024 := by decide +kernel
  have second : total ([List.replicate 1024 (1 : UInt8)] ++ [List.replicate 2048 2]) = 3072 := by
    decide +kernel
  refine (append_accounts_iff ([List.replicate 1024 1] ++ [List.replicate 2048 2])
    (by rw [second]; decide)).mpr ?_ _ _ List.prefix_rfl
  intro before data among
  rcases List.prefix_concat_iff.mp among with whole | shorter
  · obtain ⟨rfl, same⟩ := List.append_inj' whole rfl
    cases same
    rw [first, second]
    decide
  · have short := shorter.length_le
    rw [List.length_append, List.length_singleton, List.length_singleton] at short
    have none : before = [] := List.eq_nil_of_length_eq_zero (by omega)
    rw [none]
    exact Nat.zero_le _

/-- After 1000 bytes, appending 100 bytes makes the size 2024. -/
theorem append_size_wrong :
    total ([List.replicate 1000 1] ++ [List.replicate 100 2]) ≤ 2 ^ 31 - blockSize ∧
      ¬Accounts [List.replicate 1000 1] (List.replicate 100 2) := by
  have sizes : total ([List.replicate 1000 (1 : UInt8)] ++ [List.replicate 100 2]) = 1100 := by
    decide +kernel
  refine ⟨by rw [sizes]; decide, ?_⟩
  intro accounts
  rcases accounts with ⟨buffer, after, reached, appending, size⟩
  have wrong : ((appendAll [List.replicate 1000 1]).bind fun buffer =>
      (buffer.append (List.replicate 100 2) (List.replicate 100 (2 : UInt8)).length).map
        fun result => result.1.size) = some 2024 := by decide +kernel
  rw [reached, Option.bind_some, appending, Option.map_some, size, sizes] at wrong
  exact absurd wrong (by decide)

end DynamicBuffer

end MultiMaster.Packet
