import Mathlib.Data.UInt
import MultiMaster.Foundation.Bytes
import MultiMaster.Foundation.LinkedList

/-!
# The hash table of uthash

An element of a hash table carries a handle with the links of two doubly linked lists: the
chain of its bucket and the list of all elements in the order of their addition.  The
definitions follow the macros of `uthash.h`, for elements of any type whose keys stand in
one of their fields.

Memory is the list of all elements that were allocated, and the address of an element is
its position.  An element and its handle have one address, and there is one table, so that
`hho` and `tbl` are not needed.  A computation has no result where the source would follow
a pointer to nowhere, leave the array of buckets, or end the program.
-/

namespace MultiMaster.LockTable.UtHash

open Foundation

abbrev Address := Nat

/-! ## Elements in memory -/

/-- The handle in an element.  The key pointer is the address of the element in whose field
the key stands. -/
structure UtHashHandle where
  prev : Option Address
  next : Option Address
  hhPrev : Option Address
  hhNext : Option Address
  key : Address
  keylen : UInt32
  hashv : UInt32
  deriving DecidableEq

structure Node (Element : Type) where
  element : Element
  hh : UtHashHandle
  deriving DecidableEq

abbrev Memory (Element : Type) := List (Node Element)

section Memory

variable {Element : Type}

/-- Read the handle at an address. -/
def handleAt (memory : Memory Element) (address : Address) : Option UtHashHandle :=
  memory[address]?.map Node.hh

/-- Assign to fields of the handle at an address. -/
def assign (memory : Memory Element) (address : Address)
    (change : UtHashHandle → UtHashHandle) : Option (Memory Element) :=
  if address < memory.length then
    some (memory.modify address fun node => { node with hh := change node.hh })
  else none

/-- Assign through a pointer that may be `NULL`. -/
def assignLink (memory : Memory Element) (link : Option Address)
    (change : UtHashHandle → UtHashHandle) : Option (Memory Element) :=
  match link with
  | none => some memory
  | some address => assign memory address change

def nextOf (memory : Memory Element) (address : Address) : Option Address :=
  (handleAt memory address).bind UtHashHandle.next

def prevOf (memory : Memory Element) (address : Address) : Option Address :=
  (handleAt memory address).bind UtHashHandle.prev

def hhNextOf (memory : Memory Element) (address : Address) : Option Address :=
  (handleAt memory address).bind UtHashHandle.hhNext

def hhPrevOf (memory : Memory Element) (address : Address) : Option Address :=
  (handleAt memory address).bind UtHashHandle.hhPrev

end Memory

/-! ## Buckets and tables -/

structure UtHashBucket where
  hhHead : Option Address
  count : UInt32
  expandMult : UInt32
  deriving DecidableEq

structure UtHashTable where
  buckets : List UtHashBucket
  numBuckets : UInt32
  log2NumBuckets : UInt32
  numItems : UInt32
  tail : Address
  idealChainMaxlen : UInt32
  nonidealItems : UInt32
  ineffExpands : UInt32
  noexpand : UInt32
  deriving DecidableEq

def hashInitialNumBuckets : UInt32 := 32

def hashInitialNumBucketsLog2 : UInt32 := 5

def hashBktCapacityThresh : UInt32 := 10

/-- Buckets as `uthash_bzero` leaves them. -/
def zeroBuckets (size : Nat) : List UtHashBucket := List.replicate size ⟨none, 0, 0⟩

def hashMakeTable (head : Address) : UtHashTable where
  buckets := zeroBuckets hashInitialNumBuckets.toNat
  numBuckets := hashInitialNumBuckets
  log2NumBuckets := hashInitialNumBucketsLog2
  numItems := 0
  tail := head
  idealChainMaxlen := 0
  nonidealItems := 0
  ineffExpands := 0
  noexpand := 0

def hashToBkt (hashv numBkts : UInt32) : UInt32 := hashv &&& (numBkts - 1)

/-! ## The hash function -/

def hashJenMix (a b c : UInt32) : UInt32 × UInt32 × UInt32 :=
  let a := (a - b - c) ^^^ (c >>> 13)
  let b := (b - c - a) ^^^ (a <<< 8)
  let c := (c - a - b) ^^^ (b >>> 13)
  let a := (a - b - c) ^^^ (c >>> 12)
  let b := (b - c - a) ^^^ (a <<< 16)
  let c := (c - a - b) ^^^ (b >>> 5)
  let a := (a - b - c) ^^^ (c >>> 3)
  let b := (b - c - a) ^^^ (a <<< 10)
  let c := (c - a - b) ^^^ (b >>> 15)
  (a, b, c)

/-- A byte of the key, shifted.  The cases of the final `switch` leave out the bytes behind
the key. -/
def keyByte (key : Bytes) (index : Nat) (shift : UInt32) : UInt32 :=
  match key[index]? with
  | none => 0
  | some byte => byte.toUInt32 <<< shift

/-- Four bytes of the key. -/
def keyWord (key : Bytes) (index : Nat) : UInt32 :=
  keyByte key index 0 + keyByte key (index + 1) 8 + keyByte key (index + 2) 16 +
    keyByte key (index + 3) 24

/-- The rounds for blocks of twelve bytes, with what is left of the key. -/
def hashJenBlocks : Nat → Bytes → UInt32 × UInt32 × UInt32 → Bytes × UInt32 × UInt32 × UInt32
  | 0, key, state => (key, state)
  | rounds + 1, key, (i, j, hashv) =>
      hashJenBlocks rounds (key.drop 12)
        (hashJenMix (i + keyWord key 0) (j + keyWord key 4) (hashv + keyWord key 8))

def hashJen (key : Bytes) : UInt32 :=
  let blocks := hashJenBlocks (key.length / 12) key (0x9e3779b9, 0x9e3779b9, 0xfeedbeef)
  let rest := blocks.1
  let hashv := blocks.2.2.2 + UInt32.ofNat key.length + keyByte rest 10 24 +
    keyByte rest 9 16 + keyByte rest 8 8
  (hashJenMix (blocks.2.1 + keyWord rest 0) (blocks.2.2.1 + keyWord rest 4) hashv).2.2

/-! ## Expanding the table -/

section Tables

variable {Element : Type}

/-- Link an element in front of the chain of a bucket. -/
def linkFirst (memory : Memory Element) (bucket : UtHashBucket) (addhh : Address) :
    Option (Memory Element × UtHashBucket) := do
  let memory ← assign memory addhh fun hh =>
    { hh with hhNext := bucket.hhHead, hhPrev := none }
  let memory ← assignLink memory bucket.hhHead fun hh => { hh with hhPrev := some addhh }
  return (memory, { bucket with hhHead := some addhh })

/-- The new buckets while the elements are being moved. -/
structure Expansion (Element : Type) where
  memory : Memory Element
  newBuckets : List UtHashBucket
  nonidealItems : UInt32

/-- Count an element in its new bucket: the bucket, and whether the element comes behind
the ideal chain length. -/
def countItem (idealChainMaxlen : UInt32) (newbkt : UtHashBucket) : UtHashBucket × Bool :=
  let newbkt := { newbkt with count := newbkt.count + 1 }
  if idealChainMaxlen < newbkt.count then
    if newbkt.expandMult * idealChainMaxlen < newbkt.count then
      ({ newbkt with expandMult := newbkt.expandMult + 1 }, true)
    else (newbkt, true)
  else (newbkt, false)

/-- Move one element to its new bucket. -/
def expandItem (tbl : UtHashTable) (expansion : Expansion Element) (thh : Address) :
    Option (Expansion Element) := do
  let hh ← handleAt expansion.memory thh
  let bkt := (hashToBkt hh.hashv (tbl.numBuckets * 2)).toNat
  let newbkt ← expansion.newBuckets[bkt]?
  let counted := countItem tbl.idealChainMaxlen newbkt
  let linked ← linkFirst expansion.memory counted.1 thh
  return {
    memory := linked.1
    newBuckets := expansion.newBuckets.set bkt linked.2
    nonidealItems := expansion.nonidealItems + if counted.2 then 1 else 0 }

/-- Move the elements of an old bucket.  No chain is longer than memory. -/
def expandBucket (tbl : UtHashTable) (expansion : Expansion Element) (bktI : Nat) :
    Option (Expansion Element) := do
  let bucket ← tbl.buckets[bktI]?
  walk (fun expansion => hhNextOf expansion.memory) (expandItem tbl)
    expansion.memory.length expansion bucket.hhHead

/-- The ideal chain length for twice as many buckets. -/
def idealLength (tbl : UtHashTable) : UInt32 :=
  (tbl.numItems >>> (tbl.log2NumBuckets + 1)) +
    if tbl.numItems &&& (tbl.numBuckets * 2 - 1) ≠ 0 then 1 else 0

/-- Twice as many buckets.  Allocation succeeds; a shift by all bits of the number of items
is undefined. -/
def hashExpandBuckets (memory : Memory Element) (tbl : UtHashTable) :
    Option (Memory Element × UtHashTable) := do
  let tbl ← if tbl.log2NumBuckets + 1 < 32 then
      some { tbl with idealChainMaxlen := idealLength tbl }
    else none
  let expansion ← (List.range tbl.numBuckets.toNat).foldlM (expandBucket tbl)
    ⟨memory, zeroBuckets (2 * tbl.numBuckets.toNat), 0⟩
  let ineffExpands :=
    if tbl.numItems >>> 1 < expansion.nonidealItems then tbl.ineffExpands + 1 else 0
  return (expansion.memory,
    { tbl with
      buckets := expansion.newBuckets
      numBuckets := tbl.numBuckets * 2
      log2NumBuckets := tbl.log2NumBuckets + 1
      nonidealItems := expansion.nonidealItems
      ineffExpands := ineffExpands
      noexpand := if 1 < ineffExpands then 1 else tbl.noexpand })

/-! ## Adding, deleting and finding -/

/-- A bucket is full for its multiplier, and expansion is not inhibited. -/
def mustExpand (tbl : UtHashTable) (bucket : UtHashBucket) : Bool :=
  (bucket.expandMult + 1) * hashBktCapacityThresh ≤ bucket.count ∧ tbl.noexpand = 0

def hashAddToBkt (memory : Memory Element) (tbl : UtHashTable) (bkt : Nat) (addhh : Address) :
    Option (Memory Element × UtHashTable) := do
  let head ← tbl.buckets[bkt]?
  let linked ← linkFirst memory { head with count := head.count + 1 } addhh
  let tbl := { tbl with buckets := tbl.buckets.set bkt linked.2 }
  if mustExpand tbl linked.2 then hashExpandBuckets linked.1 tbl
  else return (linked.1, tbl)

def hashAddToTable (memory : Memory Element) (tbl : UtHashTable) (hashval : UInt32)
    (add : Address) : Option (Memory Element × UtHashTable) :=
  hashAddToBkt memory { tbl with numItems := tbl.numItems + 1 }
    (hashToBkt hashval tbl.numBuckets).toNat add

/-- Put an element behind the last one of the table. -/
def hashAppendList (memory : Memory Element) (tbl : UtHashTable) (add : Address) :
    Option (Memory Element × UtHashTable) := do
  let memory ← assign memory add fun hh => { hh with next := none, prev := some tbl.tail }
  let memory ← assign memory tbl.tail fun hh => { hh with next := some add }
  return (memory, { tbl with tail := add })

/-- The elements in memory, and the table with the element at its head.  A head that is
`NULL` stands for a table without elements. -/
structure Hash (Element : Type) where
  memory : Memory Element
  root : Option (Address × UtHashTable)

/-- What depends on the use of the table: the hash function, the bytes that begin at the key
field of an element, and how many of them are the key. -/
structure Keying (Element : Type) where
  hashFcn : Bytes → UInt32
  field : Element → Bytes
  keylen : UInt32

/-- The key at a key pointer. -/
def Keying.cut (keying : Keying Element) (memory : Bytes) : Bytes :=
  memory.take keying.keylen.toNat

/-- The key of an element. -/
def Keying.key (keying : Keying Element) (element : Element) : Bytes :=
  keying.cut (keying.field element)

def hashAdd (keying : Keying Element) (hash : Hash Element) (add : Address) :
    Option (Hash Element) := do
  let node ← hash.memory[add]?
  let hashv := keying.hashFcn (keying.key node.element)
  let memory ← assign hash.memory add fun hh =>
    { hh with hashv := hashv, key := add, keylen := keying.keylen }
  match hash.root with
  | none =>
      let memory ← assign memory add fun hh => { hh with next := none, prev := none }
      let added ← hashAddToTable memory (hashMakeTable add) hashv add
      return ⟨added.1, some (add, added.2)⟩
  | some (head, tbl) =>
      let appended ← hashAppendList memory tbl add
      let added ← hashAddToTable appended.1 appended.2 hashv add
      return ⟨added.1, some (head, added.2)⟩

/-- Take an element out of a list: its neighbours are linked with each other.  The element
keeps its own links. -/
def unlink (setNext setPrev : Option Address → UtHashHandle → UtHashHandle)
    (memory : Memory Element) (prev next : Option Address) : Option (Memory Element) := do
  let memory ← assignLink memory prev (setNext next)
  assignLink memory next (setPrev prev)

def hashDelInBkt (memory : Memory Element) (head : UtHashBucket) (delhh : Address) :
    Option (Memory Element × UtHashBucket) := do
  let hh ← handleAt memory delhh
  let memory ← unlink (fun link hh => { hh with hhNext := link })
    (fun link hh => { hh with hhPrev := link }) memory hh.hhPrev hh.hhNext
  return (memory, { head with
    count := head.count - 1
    hhHead := if head.hhHead = some delhh then hh.hhNext else head.hhHead })

/-- Remove an element that is in the table.  With the last element the table goes. -/
def hashDelete (hash : Hash Element) (del : Address) : Option (Hash Element) :=
  match hash.root with
  | none => none
  | some (head, tbl) => do
      let hh ← handleAt hash.memory del
      if hh.prev = none ∧ hh.next = none then
        return { hash with root := none }
      else
        -- No table has a tail that is `NULL`, and no table that is left has such a head.
        let tail ← if del = tbl.tail then hh.prev else some tbl.tail
        let head ← if hh.prev = none then hh.next else some head
        let memory ← unlink (fun link hh => { hh with next := link })
          (fun link hh => { hh with prev := link }) hash.memory hh.prev hh.next
        let bkt := (hashToBkt hh.hashv tbl.numBuckets).toNat
        let bucket ← tbl.buckets[bkt]?
        let deleted ← hashDelInBkt memory bucket del
        return ⟨deleted.1, some (head, { tbl with
          tail := tail
          numItems := tbl.numItems - 1
          buckets := tbl.buckets.set bkt deleted.2 })⟩

/-- The test of `HASH_FIND_IN_BKT`. -/
def matchesKey (keying : Keying Element) (memory : Memory Element) (keyptr : Bytes)
    (hashval : UInt32) (out : Address) : Option Bool := do
  let hh ← handleAt memory out
  if hh.hashv = hashval ∧ hh.keylen = keying.keylen then
    let owner ← memory[hh.key]?
    return keying.key owner.element = keying.cut keyptr
  else return false

def hashFindInBkt (keying : Keying Element) (memory : Memory Element) (head : UtHashBucket)
    (keyptr : Bytes) (hashval : UInt32) : Option (Option Address) :=
  searchChain (hhNextOf memory) (matchesKey keying memory keyptr hashval) memory.length
    head.hhHead

/-- The address of an element with a key, `NULL` when there is none. -/
def hashFind (keying : Keying Element) (hash : Hash Element) (keyptr : Bytes) :
    Option (Option Address) :=
  match hash.root with
  | none => some none
  | some (_, tbl) => do
      let hashv := keying.hashFcn (keying.cut keyptr)
      let head ← tbl.buckets[(hashToBkt hashv tbl.numBuckets).toNat]?
      hashFindInBkt keying hash.memory head keyptr hashv

def hashCount (hash : Hash Element) : UInt32 :=
  match hash.root with
  | none => 0
  | some (_, tbl) => tbl.numItems

/-- The elements that `HASH_ITER` visits, when its body changes nothing. -/
def hashIter (hash : Hash Element) : Option (List Address) :=
  walk (fun _ => nextOf hash.memory) (fun visited el => some (visited ++ [el]))
    hash.memory.length [] (hash.root.map Prod.fst)

/-! ## The integrity check -/

/-- One element of a list: its back link is the element before it. -/
def fsckLink (back : UtHashHandle → Option Address) (memory : Memory Element)
    (state : Option Address × UInt32) (thh : Address) : Option (Option Address × UInt32) := do
  let hh ← handleAt memory thh
  if back hh = state.1 then return (some thh, state.2 + 1) else none

/-- One bucket: the links of its chain and its count.  The result is the number of items so
far. -/
def fsckBucket (memory : Memory Element) (tbl : UtHashTable) (count : UInt32) (bktI : Nat) :
    Option UInt32 := do
  let bucket ← tbl.buckets[bktI]?
  let walked ← walk (fun _ => hhNextOf memory) (fsckLink UtHashHandle.hhPrev memory)
    memory.length (none, 0) bucket.hhHead
  if bucket.count = walked.2 then return count + walked.2 else none

/-- The check passes: the program is not ended by `HASH_OOPS`. -/
def hashFsck (hash : Hash Element) : Option Unit :=
  match hash.root with
  | none => some ()
  | some (head, tbl) => do
      let count ← (List.range tbl.numBuckets.toNat).foldlM (fsckBucket hash.memory tbl) 0
      if count = tbl.numItems then
        let walked ← walk (fun _ => nextOf hash.memory)
          (fsckLink UtHashHandle.prev hash.memory) hash.memory.length (none, 0) (some head)
        if walked.2 = tbl.numItems then return () else none
      else none

end Tables

end MultiMaster.LockTable.UtHash
