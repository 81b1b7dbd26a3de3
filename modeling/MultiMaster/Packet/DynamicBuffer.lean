import MultiMaster.Foundation.FlatArray
import MultiMaster.Packet.FixedBuffer

/-!
# Buffers that grow by blocks

A `DynamicBuffer` keeps its bytes in blocks of 1024 bytes and adds blocks when something
is put behind them.  The definitions follow `multi_buffer.cc`.  A computation has no
result where the source reads or writes outside of a block or of the caller's data.
-/

namespace MultiMaster.Packet

open Foundation

/-- `BLOCK_SIZE`. -/
def blockSize : Nat := 1024

/-- The memory of one block. -/
abbrev Block := { bytes : Bytes // bytes.length = blockSize }

namespace Block

/-- A new block, `new char[BLOCK_SIZE]{0}`. -/
def zero : Block := ⟨List.replicate blockSize 0, List.length_replicate⟩

/-- `memcpy` of the first `size` bytes of `data` into a block. -/
def store (block : Block) (offset : Int) (data : Bytes) (size : Int) : Option Block :=
  if inside : 0 ≤ offset ∧ 0 ≤ size ∧ offset + size ≤ blockSize ∧ size ≤ data.length then
    some ⟨overwrite block.val offset.toNat (data.take size.toNat), by
      rw [length_overwrite]
      · exact block.property
      · rw [List.length_take, block.property]
        omega⟩
  else
    none

/-- `memcpy` of `size` bytes out of a block. -/
def load (block : Block) (offset size : Int) : Option Bytes :=
  if 0 ≤ offset ∧ 0 ≤ size ∧ offset + size ≤ blockSize then
    some (slice block.val offset.toNat size.toNat)
  else
    none

end Block

structure DynamicBuffer where
  blocksList : List Block
  tailOffsetInBlock : Int
  deriving DecidableEq

namespace DynamicBuffer

def new : DynamicBuffer := ⟨[], 0⟩

def size (buffer : DynamicBuffer) : Int :=
  let count := wrapInt buffer.blocksList.length
  let full := if 0 < count then count - 1 else count
  wrapInt (full * blockSize + buffer.tailOffsetInBlock)

def capacity (buffer : DynamicBuffer) : Int := wrapInt (buffer.blocksList.length * blockSize)

def addBlocks (buffer : DynamicBuffer) (i : Int) : DynamicBuffer :=
  { buffer with blocksList := buffer.blocksList ++ List.replicate i.toNat Block.zero }

/-- Is there room for `size` bytes at `offset`, or room made for them? -/
def checkSpace (buffer : DynamicBuffer) (offset size : Int) (expand : Bool) :
    DynamicBuffer × Bool :=
  if buffer.capacity < wrapInt (offset + size) then
    if expand then
      let require := wrapInt (offset + size - buffer.capacity)
      let blocks :=
        if require.tmod blockSize = 0 then require.tdiv blockSize
        else require.tdiv blockSize + 1
      (buffer.addBlocks blocks, true)
    else
      (buffer, false)
  else
    (buffer, true)

/-- The loop of `put`, from the block under the iterator on.  The source pointer stays at
the front of the data. -/
def putLoop (data : Bytes) (appendByte : Bool) (tail : Int) :
    List Block → Int → Int → Option (List Block × Int)
  | blocks, offset, size =>
      if size = 0 then some (blocks, tail)
      else
        match blocks with
        | [] => none
        | block :: rest =>
            if blockSize - offset < size then do
              let stored ← block.store offset data (blockSize - offset)
              let later ← putLoop data appendByte tail rest 0 (size - (blockSize - offset))
              return (stored :: later.1, later.2)
            else do
              let stored ← block.store offset data size
              return (stored :: rest, if appendByte then offset + size else tail)

def put (buffer : DynamicBuffer) (data : Bytes) (offset size : Int) :
    Option (DynamicBuffer × Bool) :=
  let buffer := (buffer.checkSpace offset size true).1
  let appendByte := decide (buffer.size < wrapInt (offset + size))
  let index := offset.tdiv blockSize
  if 0 ≤ index then do
    let written ← putLoop data appendByte buffer.tailOffsetInBlock
      (buffer.blocksList.drop index.toNat) (offset.tmod blockSize) size
    return (⟨buffer.blocksList.take index.toNat ++ written.1, written.2⟩, true)
  else
    none

/-- The loop of `get`, from the block under the iterator on. -/
def getLoop : List Block → Int → Int → Option Bytes
  | blocks, offset, size =>
      if size = 0 then some []
      else
        match blocks with
        | [] => none
        | block :: rest =>
            if blockSize - offset < size then do
              let loaded ← block.load offset (blockSize - offset)
              let later ← getLoop rest 0 (size - (blockSize - offset))
              return loaded ++ later
            else
              block.load offset size

/-- The return value and the bytes read. -/
def get (buffer : DynamicBuffer) (offset size : Int) : Option (Bool × Bytes) :=
  if (buffer.checkSpace offset size false).2 then
    let index := offset.tdiv blockSize
    if 0 ≤ index then do
      let loaded ← getLoop (buffer.blocksList.drop index.toNat) (offset.tmod blockSize) size
      return (true, loaded)
    else
      none
  else
    some (false, [])

/-- Returns the offset of the data. -/
def append (buffer : DynamicBuffer) (data : Bytes) (dataSize : Int) :
    Option (DynamicBuffer × Int) := do
  let written ← buffer.put data buffer.size dataSize
  return (written.1, buffer.size)

end DynamicBuffer

end MultiMaster.Packet
