import MultiMaster.Foundation.Machine
import MultiMaster.LockTable.HashDeletion

/-!
# Runs of the hash table

Elements are allocated and added, changed apart from their keys, and deleted.  Whatever
their keys and hash values are, the integrity check passes after every operation, an
iteration visits the elements in the order of their addition, and a search by key gives an
element with the key exactly when there is one.

The only limit is the width of the counters: a table of 2^31 buckets, whose array takes 32
GiB, cannot be expanded.
-/

namespace MultiMaster.LockTable.UtHash

open Foundation

variable {Element : Type} {keying : Keying Element} {memory after : Memory Element}
variable {hash : Hash Element} {added : List Address} {keyptr : Bytes}

/-! ## Searching -/

/-- What a search by key may answer. -/
structure Finds (keying : Keying Element) (memory : Memory Element) (added : List Address)
    (keyptr : Bytes) (result : Option Address) : Prop where
  found : ∀ address, result = some address →
    address ∈ added ∧ keyAt keying memory address = some (keying.cut keyptr)
  missing : result = none →
    ∀ address ∈ added, keyAt keying memory address ≠ some (keying.cut keyptr)

/-- The test compares the keys of elements that the table holds. -/
theorem matchesKey_keyed (keyptr : Bytes) {out : Address} (keyed : Keyed keying memory out) :
    matchesKey keying memory keyptr (keying.hashFcn (keying.cut keyptr)) out =
      some (decide (keyAt keying memory out = some (keying.cut keyptr))) := by
  rcases keyed with ⟨hh, key, found, keyFound, own, keylen, hashv⟩
  rw [matchesKey, found]
  simp only [Option.bind_eq_bind, Option.bind_some, hashv, keylen, and_true, own, keyFound,
    Option.some.injEq]
  by_cases sameHash : keying.hashFcn key = keying.hashFcn (keying.cut keyptr)
  · rcases Option.map_eq_some_iff.mp keyFound with ⟨node, atOut, rfl⟩
    rw [if_pos sameHash, atOut]
    rfl
  · have different : key ≠ keying.cut keyptr := fun same => sameHash (congrArg _ same)
    rw [if_neg sameHash, decide_eq_false different]
    rfl

/-- A search ends, and finds an element with the key if the table holds one. -/
theorem hashFind_spec (valid : Valid keying hash added) (keyptr : Bytes) :
    ∃ result, hashFind keying hash keyptr = some result ∧
      Finds keying hash.memory added keyptr result := by
  rcases hash with ⟨memory, root⟩
  cases root with
  | none =>
      rw [show added = [] from valid.table]
      exact ⟨none, rfl, by simp, by simp⟩
  | some root =>
      rcases root with ⟨head, tbl⟩
      have intact : Intact keying memory head tbl added := valid.table
      rcases intact.filled with ⟨log2, order, filled, perm⟩
      have bkt : (hashToBkt (keying.hashFcn (keying.cut keyptr)) tbl.numBuckets).toNat =
          (keying.hashFcn (keying.cut keyptr)).toNat % 2 ^ log2 :=
        hashToBkt_toNat filled.sized.numBuckets
      obtain ⟨bucket, found⟩ : ∃ bucket,
          tbl.buckets[(keying.hashFcn (keying.cut keyptr)).toNat % 2 ^ log2]? = some bucket := by
        refine ⟨_, List.getElem?_eq_getElem ?_⟩
        rw [filled.sized.buckets]
        exact Nat.mod_lt _ (Nat.two_pow_pos log2)
      have linked := filled.chained.linked _ bucket found
      generalize chainEq : bucketChain (slot (hashOf keying memory) (2 ^ log2)) order _ = chain
        at linked
      have inAdded : ∀ address ∈ chain, address ∈ added := by
        intro address member
        rw [← chainEq] at member
        exact perm.mem_iff.mp (mem_bucketChain.mp member).1
      have enough : chain.length ≤ memory.length := by
        rw [← chainEq]
        exact filled.length_chain_le _
      have searched := searchChain_eq linked.forward enough
        fun address member => matchesKey_keyed keyptr
          (valid.keyed address (inAdded address member))
      refine ⟨chain.find? fun address => keyAt keying memory address = some (keying.cut keyptr),
        ?_, ?_, ?_⟩
      · rw [hashFind]
        simp only [bkt, found, Option.bind_eq_bind, Option.bind_some, hashFindInBkt]
        exact searched
      · intro address isResult
        exact ⟨inAdded address (List.mem_of_find?_eq_some isResult),
          by simpa using List.find?_some isResult⟩
      · intro isNone address member sameKey
        have hashed : hashOf keying memory address = keying.hashFcn (keying.cut keyptr) := by
          rw [hashOf, sameKey]
          rfl
        have inChain : address ∈ chain := by
          rw [← chainEq, mem_bucketChain, slot, hashed]
          exact ⟨perm.mem_iff.mpr member, rfl⟩
        exact List.find?_eq_none.mp isNone address inChain (by simpa using sameKey)

/-! ## Changes outside of the table -/

/-- The table stays in order when memory grows, and when elements are changed apart from
their keys. -/
theorem Valid.congr {root : Option (Address × UtHashTable)}
    (valid : Valid keying ⟨memory, root⟩ added) (longer : memory.length ≤ after.length)
    (handles : ∀ address < memory.length, handleAt after address = handleAt memory address)
    (keys : ∀ address < memory.length,
      keyAt keying after address = keyAt keying memory address) :
    Valid keying ⟨after, root⟩ added := by
  have inMemory : ∀ address ∈ added, address < memory.length := by
    intro address member
    rcases valid.keyed address member with ⟨hh, _, found, _⟩
    rcases handleAt_eq_some.mp found with ⟨element, atAddress⟩
    exact (List.getElem?_eq_some_iff.mp atAddress).1
  have keyed : ∀ address ∈ added, Keyed keying after address := by
    intro address member
    rw [Keyed, handles address (inMemory address member), keys address (inMemory address member)]
    exact valid.keyed address member
  refine ⟨keyed, ?_⟩
  cases root with
  | none => exact valid.table
  | some root =>
      rcases root with ⟨head, tbl⟩
      have intact : Intact keying memory head tbl added := valid.table
      rcases intact.filled with ⟨log2, order, filled, perm⟩
      have hashes : ∀ address ∈ order,
          hashOf keying after address = hashOf keying memory address := by
        intro address member
        rw [hashOf, hashOf, keys address (filled.inMemory address member)]
      refine ⟨⟨log2, order, ?_, perm⟩, ?_, intact.last, ?_⟩
      · have rehashed := filled.congr_hashes hashes
        refine rehashed.congr longer ?_ ?_ ?_
        · exact Keyed.hashed fun address member => keyed address (perm.mem_iff.mp member)
        · intro address inside
          rw [hhNextOf, hhNextOf, handles address inside]
        · intro address inside
          rw [hhPrevOf, hhPrevOf, handles address inside]
      · refine intact.listed.congr ?_ ?_
        · intro address member
          rw [nextOf, nextOf, handles address (inMemory address member)]
        · intro address member
          rw [prevOf, prevOf, handles address (inMemory address member)]
      · exact fun few => intact.bounded (longer.trans_lt few)

/-! ## Iterating -/

/-- An iteration visits the elements in the order of their addition. -/
theorem hashIter_spec (valid : Valid keying hash added) : hashIter hash = some added := by
  rcases hash with ⟨memory, root⟩
  cases root with
  | none =>
      rw [show added = [] from valid.table]
      cases memory <;> rfl
  | some root =>
      rcases root with ⟨head, tbl⟩
      have intact : Intact keying memory head tbl added := valid.table
      rcases intact.filled with ⟨log2, order, filled, perm⟩
      have enough := length_le_of_lt (perm.nodup_iff.mp filled.distinct)
        fun address member => filled.inMemory address (perm.mem_iff.mpr member)
      have walked : ∃ visited, walk (fun _ => nextOf memory)
          (fun visited el => some (visited ++ [el])) memory.length [] (some head) =
            some visited ∧ visited = added := by
        refine walk_rule (fun front visited => visited = front) [] intact.listed.forward enough
          rfl ?_
        rintro front address rest _ _ behind rfl
        exact ⟨_, rfl, rfl, behind⟩
      rcases walked with ⟨visited, walked, rfl⟩
      exact walked

theorem hashCount_spec (valid : Valid keying hash added) :
    hashCount hash = UInt32.ofNat added.length := by
  rcases hash with ⟨memory, root⟩
  cases root with
  | none =>
      rw [show added = [] from valid.table]
      rfl
  | some root =>
      rcases root with ⟨head, tbl⟩
      have intact : Intact keying memory head tbl added := valid.table
      rcases intact.filled with ⟨log2, order, filled, perm⟩
      rw [← perm.length_eq]
      exact filled.items

/-! ## Operations -/

/-- What a program does with elements: it allocates one and adds it, assigns to fields of
one, or deletes one. -/
inductive Operation (Element : Type) where
  | add (node : Node Element)
  | update (address : Address) (element : Element)
  | del (address : Address)

/-- A new element has a handle that is not initialised. -/
def insertElement (keying : Keying Element) (hash : Hash Element) (node : Node Element) :
    Option (Hash Element) :=
  hashAdd keying { hash with memory := hash.memory ++ [node] } hash.memory.length

def updateElement (hash : Hash Element) (address : Address) (element : Element) :
    Hash Element :=
  { hash with memory := hash.memory.modify address fun node => { node with element := element } }

def Operation.run (keying : Keying Element) (hash : Hash Element) :
    Operation Element → Option (Hash Element)
  | .add node => insertElement keying hash node
  | .update address element => some (updateElement hash address element)
  | .del address => hashDelete hash address

/-- A program with one hash table.  There is no state once the program has been ended. -/
def program (keying : Keying Element) :
    Machine (Option (Hash Element)) (Operation Element) Unit where
  step state operation := (state.bind fun hash => operation.run keying hash, ())

/-! ## Contents -/

/-- The elements that were allocated, and the addresses of those in the table in the order
of their addition. -/
structure Contents (Element : Type) where
  elements : List Element
  present : List Address

namespace Contents

def step (contents : Contents Element) : Operation Element → Contents Element
  | .add node =>
      ⟨contents.elements ++ [node.element], contents.present ++ [contents.elements.length]⟩
  | .update address element => { contents with elements := contents.elements.set address element }
  | .del address => { contents with present := contents.present.erase address }

def keyAt (keying : Keying Element) (contents : Contents Element) (address : Address) :
    Option Bytes :=
  contents.elements[address]?.map keying.key

end Contents

/-- The contents after some operations. -/
def contentsAfter (operations : List (Operation Element)) : Contents Element :=
  operations.foldl Contents.step ⟨[], []⟩

/-- What the macros rely on: the table can still expand, an element keeps its key, and an
element is deleted when it is in the table. -/
def Permitted (keying : Keying Element) (history : List (Operation Element × Unit))
    (state : Option (Hash Element)) : Operation Element → Prop
  | .add _ => ∀ hash ∈ state, CanExpand hash
  | .update address element =>
      (contentsAfter (history.map Prod.fst)).keyAt keying address = some (keying.key element)
  | .del address => address ∈ (contentsAfter (history.map Prod.fst)).present

instance (keying : Keying Element) (history : List (Operation Element × Unit))
    (state : Option (Hash Element)) (operation : Operation Element) :
    Decidable (Permitted keying history state operation) := by
  cases operation with
  | add node =>
      exact inferInstanceAs (Decidable (∀ hash ∈ state, CanExpand hash))
  | update address element =>
      exact inferInstanceAs (Decidable ((contentsAfter (history.map Prod.fst)).keyAt keying
        address = some (keying.key element)))
  | del address =>
      exact inferInstanceAs (Decidable (address ∈
        (contentsAfter (history.map Prod.fst)).present))

theorem keyAt_map (memory : Memory Element) (address : Address) :
    keyAt keying memory address = (memory.map Node.element)[address]?.map keying.key := by
  rw [keyAt, List.getElem?_map, Option.map_map]
  rfl

/-- A table that has the contents. -/
structure Contains (keying : Keying Element) (hash : Hash Element) (contents : Contents Element) :
    Prop where
  valid : Valid keying hash contents.present
  elements : hash.memory.map Node.element = contents.elements

namespace Contains

variable {contents : Contents Element}

theorem empty (keying : Keying Element) : Contains keying ⟨[], none⟩ ⟨[], []⟩ :=
  ⟨⟨by simp, rfl⟩, rfl⟩

theorem length (holds : Contains keying hash contents) :
    hash.memory.length = contents.elements.length := by
  rw [← holds.elements, List.length_map]

theorem keyAt_eq (holds : Contains keying hash contents) (address : Address) :
    UtHash.keyAt keying hash.memory address = contents.keyAt keying address := by
  rw [keyAt_map, holds.elements, Contents.keyAt]

theorem inMemory (holds : Contains keying hash contents) {address : Address}
    (member : address ∈ contents.present) : address < hash.memory.length := by
  rcases holds.valid.keyed address member with ⟨hh, _, found, _⟩
  rcases handleAt_eq_some.mp found with ⟨element, atAddress⟩
  exact (List.getElem?_eq_some_iff.mp atAddress).1

theorem add (holds : Contains keying hash contents) (room : CanExpand hash) (node : Node Element) :
    ∃ after, insertElement keying hash node = some after ∧
      Contains keying after (contents.step (.add node)) := by
  have before : Valid keying ⟨hash.memory, hash.root⟩ contents.present := holds.valid
  have grown : Valid keying ⟨hash.memory ++ [node], hash.root⟩ contents.present := by
    refine before.congr (by simp) ?_ ?_
    · intro address inside
      rw [handleAt, handleAt, List.getElem?_append_left inside]
    · intro address inside
      rw [UtHash.keyAt, UtHash.keyAt, List.getElem?_append_left inside]
  have fresh : hash.memory.length ∉ contents.present := fun member =>
    (holds.inMemory member).false
  rcases hashAdd_spec grown fresh (by simp) room with ⟨after, ran, valid, same⟩
  refine ⟨after, ran, ?_, ?_⟩
  · rw [holds.length] at valid
    exact valid
  · rw [same, List.map_append, holds.elements]
    rfl

theorem update (holds : Contains keying hash contents) {address : Address} {element : Element}
    (sameKey : contents.keyAt keying address = some (keying.key element)) :
    Contains keying (updateElement hash address element)
      (contents.step (.update address element)) := by
  have before : Valid keying ⟨hash.memory, hash.root⟩ contents.present := holds.valid
  have handles : (updateElement hash address element).memory.map Node.hh =
      hash.memory.map Node.hh := by
    apply List.ext_getElem?
    intro position
    rw [List.getElem?_map, List.getElem?_map, updateElement, List.getElem?_modify]
    cases hash.memory[position]? with
    | none => rfl
    | some node =>
        split
        · rfl
        · rfl
  have elements : (updateElement hash address element).memory.map Node.element =
      contents.elements.set address element := by
    rw [← holds.elements]
    apply List.ext_getElem?
    intro position
    rw [List.getElem?_map, List.getElem?_set, List.getElem?_map, updateElement,
      List.getElem?_modify, List.length_map]
    by_cases same : address = position
    · subst position
      by_cases inside : address < hash.memory.length
      · simp [inside]
      · simp [inside]
    · simp [same]
  refine ⟨before.congr ?_ ?_ ?_, elements⟩
  · exact (length_of_map handles).ge
  · intro other _
    have here := congrArg (fun hhs : List UtHashHandle => hhs[other]?) handles
    simp only [List.getElem?_map] at here
    exact here
  · intro other inside
    refine (keyAt_map _ other).trans ?_
    rw [holds.keyAt_eq]
    change (List.map Node.element (updateElement hash address element).memory)[other]?.map _ = _
    rw [elements]
    by_cases same : address = other
    · subst other
      rw [sameKey, List.getElem?_set_self (holds.length ▸ inside)]
      rfl
    · rw [List.getElem?_set_ne same, Contents.keyAt]

theorem del (holds : Contains keying hash contents) {address : Address}
    (member : address ∈ contents.present) :
    ∃ after, hashDelete hash address = some after ∧
      Contains keying after (contents.step (.del address)) := by
  rcases hashDelete_spec holds.valid member with ⟨after, ran, valid, same⟩
  exact ⟨after, ran, valid, same.trans holds.elements⟩

end Contains

/-- Every permitted operation ends, and leaves a table with the changed contents. -/
theorem Contains.run {contents : Contents Element} (holds : Contains keying hash contents)
    {history : List (Operation Element × Unit)}
    (reached : contentsAfter (history.map Prod.fst) = contents) {operation : Operation Element}
    (permitted : Permitted keying history (some hash) operation) :
    ∃ after, operation.run keying hash = some after ∧
      Contains keying after (contents.step operation) := by
  subst contents
  cases operation with
  | add node => exact holds.add (permitted hash rfl) node
  | update address element => exact ⟨_, rfl, holds.update permitted⟩
  | del address => exact holds.del permitted

/-! ## Every run -/

section Runs

variable {operations : List (Operation Element)}

/-- The program has not been ended, and its table has the contents. -/
def Reached (keying : Keying Element) (history : List (Operation Element × Unit))
    (state : Option (Hash Element)) : Prop :=
  ∃ hash, state = some hash ∧ Contains keying hash (contentsAfter (history.map Prod.fst))

theorem holds_of_run (respects : (program keying).Respects (some ⟨[], none⟩)
    (Permitted keying) operations) :
    ∃ hash, (program keying).exec (some ⟨[], none⟩) operations = some hash ∧
      Contains keying hash (contentsAfter operations) := by
  have initial : Reached keying [] (some ⟨[], none⟩) := ⟨_, rfl, Contains.empty keying⟩
  have reached := Machine.guarded_invariant initial (by
    rintro history _ operation ⟨hash, rfl, holds⟩ permitted
    rcases holds.run rfl permitted with ⟨after, ran, kept⟩
    refine ⟨after, ran, ?_⟩
    rw [List.map_append, contentsAfter, List.foldl_append]
    exact kept) respects
  rwa [Reached, Machine.map_fst_trace] at reached

/-- No operation allocates more than one element. -/
theorem length_elements_le (operations : List (Operation Element)) :
    (contentsAfter operations).elements.length ≤ operations.length := by
  induction operations using List.reverseRecOn with
  | nil => exact Nat.le_refl _
  | append_singleton operations operation ih =>
      rw [contentsAfter, List.foldl_append, ← contentsAfter, List.length_append]
      cases operation with
      | add node => simpa [Contents.step] using ih
      | update address element => simpa [Contents.step] using ih.trans (Nat.le_succ _)
      | del address => exact ih.trans (Nat.le_succ _)

/-- Whatever is added, changed and deleted, in whatever order: the integrity check passes,
the count is that of the elements in the table, and an iteration visits them in the order of
their addition. -/
theorem table_intact (respects : (program keying).Respects (some ⟨[], none⟩)
    (Permitted keying) operations) :
    ∃ hash, (program keying).exec (some ⟨[], none⟩) operations = some hash ∧
      hashFsck hash = some () ∧
      hashCount hash = UInt32.ofNat (contentsAfter operations).present.length ∧
      hashIter hash = some (contentsAfter operations).present := by
  rcases holds_of_run respects with ⟨hash, reached, holds⟩
  exact ⟨hash, reached, hashFsck_passes holds.valid, hashCount_spec holds.valid,
    hashIter_spec holds.valid⟩

/-- Keys of two bytes in front of other data. -/
def shortKeying : Keying Bytes := ⟨hashJen, id, 2⟩

/-- An element with a handle of any content. -/
def rawNode (element : Bytes) : Node Bytes := ⟨element, ⟨some 3, none, some 8, some 1, 5, 0, 9⟩⟩

/-- Three elements, the third with the key of the first. -/
def sharedKey : List (Operation Bytes) :=
  [.add (rawNode [1, 1, 7]), .add (rawNode [2, 2, 7]), .add (rawNode [1, 1, 8]),
    .update 1 [2, 2, 9], .del 0]

theorem table_intact_sharedKey :
    ∃ hash, (program shortKeying).exec (some ⟨[], none⟩) sharedKey = some hash ∧
      hashFsck hash = some () ∧ hashCount hash = 2 ∧ hashIter hash = some [1, 2] :=
  table_intact (by decide +kernel)

/-- A search ends after every run, finds only elements in the table that have the key, and
misses only keys that none of them has. -/
theorem search_exact (respects : (program keying).Respects (some ⟨[], none⟩)
    (Permitted keying) operations) (keyptr : Bytes) :
    ∃ hash result, (program keying).exec (some ⟨[], none⟩) operations = some hash ∧
      hashFind keying hash keyptr = some result ∧
      (∀ address, result = some address → address ∈ (contentsAfter operations).present ∧
        (contentsAfter operations).keyAt keying address = some (keying.cut keyptr)) ∧
      (result = none → ∀ address ∈ (contentsAfter operations).present,
        (contentsAfter operations).keyAt keying address ≠ some (keying.cut keyptr)) := by
  rcases holds_of_run respects with ⟨hash, reached, holds⟩
  rcases hashFind_spec holds.valid keyptr with ⟨result, searched, finds⟩
  refine ⟨hash, result, reached, searched, ?_, ?_⟩
  · intro address isResult
    rw [← holds.keyAt_eq]
    exact finds.found address isResult
  · intro isNone address member
    rw [← holds.keyAt_eq]
    exact finds.missing isNone address member

theorem search_exact_sharedKey :
    ∃ hash result, (program shortKeying).exec (some ⟨[], none⟩) sharedKey = some hash ∧
      hashFind shortKeying hash [1, 1] = some result ∧
      (∀ address, result = some address → address ∈ (contentsAfter sharedKey).present ∧
        (contentsAfter sharedKey).keyAt shortKeying address = some [1, 1]) ∧
      (result = none → ∀ address ∈ (contentsAfter sharedKey).present,
        (contentsAfter sharedKey).keyAt shortKeying address ≠ some [1, 1]) :=
  search_exact (by decide +kernel) [1, 1]

/-- While expansion is not inhibited, every chain of every table reached is shorter than the
multiple of the threshold at which its bucket expands, or within that multiple of the ideal
chain length. -/
theorem chains_bounded (respects : (program keying).Respects (some ⟨[], none⟩)
    (Permitted keying) operations) (few : operations.length < 2 ^ 28) :
    ∃ hash, (program keying).exec (some ⟨[], none⟩) operations = some hash ∧
      ∀ root ∈ hash.root, root.2.noexpand = 0 → ∀ bucket ∈ root.2.buckets, ∃ chain,
        Chain (hhNextOf hash.memory) bucket.hhHead chain ∧
        chain.length = bucket.count.toNat ∧
        (chain.length < (bucket.expandMult.toNat + 1) * 10 ∨
          chain.length ≤ (bucket.expandMult.toNat + 1) * root.2.idealChainMaxlen.toNat) := by
  rcases holds_of_run respects with ⟨⟨memory, root⟩, reached, holds⟩
  refine ⟨_, reached, ?_⟩
  rintro ⟨head, tbl⟩ isRoot expands bucket member
  cases isRoot
  have intact : Intact keying memory head tbl _ := holds.valid.table
  rcases intact.filled with ⟨log2, order, filled, perm⟩
  have small : memory.length < 2 ^ 28 := by
    rw [holds.length]
    exact (length_elements_le operations).trans_lt few
  obtain ⟨bkt, found⟩ := List.mem_iff_getElem?.mp member
  have short := filled.length_chain_le bkt
  have counted := congrArg UInt32.toNat (filled.chained.counted bkt bucket found)
  rw [UInt32.toNat_ofNat', Nat.mod_eq_of_lt (by omega)] at counted
  refine ⟨_, (filled.chained.linked bkt bucket found).forward, counted.symm, ?_⟩
  rw [← counted]
  exact (intact.bounded small expands bucket member).1

/-- Keys that all have one hash value. -/
def collidingKeying : Keying Bytes := ⟨fun _ => 7, id, 1⟩

/-- So many elements in one bucket that the table expands. -/
def collisions : List (Operation Bytes) :=
  (List.range 12).map fun key => .add (rawNode [UInt8.ofNat key])

theorem chains_bounded_collisions :
    ∃ hash, (program collidingKeying).exec (some ⟨[], none⟩) collisions = some hash ∧
      ∀ root ∈ hash.root, root.2.noexpand = 0 → ∀ bucket ∈ root.2.buckets, ∃ chain,
        Chain (hhNextOf hash.memory) bucket.hhHead chain ∧
        chain.length = bucket.count.toNat ∧
        (chain.length < (bucket.expandMult.toNat + 1) * 10 ∨
          chain.length ≤ (bucket.expandMult.toNat + 1) * root.2.idealChainMaxlen.toNat) :=
  chains_bounded (by decide +kernel) (by decide)

end Runs

end MultiMaster.LockTable.UtHash
