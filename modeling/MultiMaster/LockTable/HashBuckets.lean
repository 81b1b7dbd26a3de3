import Mathlib.Data.Nat.Log
import MultiMaster.LockTable.UtHash

/-!
# The buckets of the hash table

The chain of every bucket holds the elements that hash to it, linked both ways and counted.
A new element goes to the front of the chain of its bucket, and expanding the table moves
every element to its new bucket.

Chains stay short: as long as expansion is not inhibited, a chain is bounded by the
multiplier of its bucket.
-/

namespace MultiMaster.LockTable.UtHash

open Foundation

variable {Element : Type}

/-! ## Memory -/

/-- A node without the links of its chain. -/
def Node.outline (node : Node Element) : Node Element :=
  { node with hh := { node.hh with hhPrev := none, hhNext := none } }

section Memory

variable {memory after : Memory Element} {address other : Address}
variable {change : UtHashHandle → UtHashHandle}

theorem handleAt_of_lt (inside : address < memory.length) :
    ∃ hh, handleAt memory address = some hh := by
  rw [handleAt, List.getElem?_eq_getElem inside]
  exact ⟨_, rfl⟩

theorem assign_of_lt (inside : address < memory.length) (change : UtHashHandle → UtHashHandle) :
    ∃ after, assign memory address change = some after := by
  rw [assign, if_pos inside]
  exact ⟨_, rfl⟩

theorem handleAt_assign (assigned : assign memory address change = some after)
    (other : Address) :
    handleAt after other =
      if other = address then (handleAt memory other).map change
      else handleAt memory other := by
  rw [assign] at assigned
  split at assigned
  · cases assigned
    by_cases same : other = address
    · subst other
      simp [handleAt, Function.comp_def]
    · rw [handleAt, handleAt, List.getElem?_modify_ne _ _ (Ne.symm same), if_neg same]
  · cases assigned

/-- What an assignment does not touch stays as it is. -/
theorem map_assign {View : Type} {view : Node Element → View}
    (assigned : assign memory address change = some after)
    (same : ∀ element hh, view ⟨element, change hh⟩ = view ⟨element, hh⟩) :
    after.map view = memory.map view := by
  rw [assign] at assigned
  split at assigned
  · cases assigned
    apply List.ext_getElem?
    intro position
    rw [List.getElem?_map, List.getElem?_map, List.getElem?_modify]
    cases memory[position]? with
    | none => rfl
    | some node =>
        split
        · exact congrArg some (same node.element node.hh)
        · rfl
  · cases assigned

theorem length_of_map {View : Type} {view : Node Element → View}
    (same : after.map view = memory.map view) : after.length = memory.length := by
  have lengths := congrArg List.length same
  rwa [List.length_map, List.length_map] at lengths

/-- Where a view of memory is the same, there is a node with that view. -/
theorem getElem?_of_map {View : Type} {view : Node Element → View}
    (same : after.map view = memory.map view) {node : Node Element}
    (found : memory[address]? = some node) :
    ∃ later, after[address]? = some later ∧ view later = view node := by
  have here := congrArg (fun views : List View => views[address]?) same
  simp only [List.getElem?_map, found, Option.map_some, Option.map_eq_some_iff] at here
  exact here

theorem handleAt_eq_some {hh : UtHashHandle} :
    handleAt memory address = some hh ↔ ∃ element, memory[address]? = some ⟨element, hh⟩ := by
  rw [handleAt, Option.map_eq_some_iff]
  constructor
  · rintro ⟨node, found, rfl⟩
    exact ⟨node.element, found⟩
  · rintro ⟨element, found⟩
    exact ⟨_, found, rfl⟩

/-- The hash value is the same where the outlines are. -/
theorem handleAt_outline (same : after.map Node.outline = memory.map Node.outline)
    {hh : UtHashHandle} (found : handleAt memory address = some hh) :
    ∃ later, handleAt after address = some later ∧ later.hashv = hh.hashv := by
  rcases handleAt_eq_some.mp found with ⟨element, atAddress⟩
  rcases getElem?_of_map same atAddress with ⟨later, atLater, outline⟩
  simp only [Node.outline, Node.mk.injEq, UtHashHandle.mk.injEq] at outline
  exact ⟨later.hh, handleAt_eq_some.mpr ⟨later.element, atLater⟩, outline.2.2.2.2.2.2.2⟩

end Memory

/-! ## Chains of buckets -/

/-- What linking an element in front of a chain has done to memory. -/
structure LinkedFirst (memory after : Memory Element) (link : Option Address)
    (addhh : Address) : Prop where
  outline : after.map Node.outline = memory.map Node.outline
  toFirst : hhNextOf after addhh = link
  fromNone : hhPrevOf after addhh = none
  sameNext : ∀ other, other ≠ addhh → hhNextOf after other = hhNextOf memory other
  backTo : ∀ head, link = some head → hhPrevOf after head = some addhh
  samePrev : ∀ other, other ≠ addhh → link ≠ some other →
    hhPrevOf after other = hhPrevOf memory other

theorem linkFirst_spec {memory : Memory Element} {bucket : UtHashBucket} {addhh : Address}
    (inside : addhh < memory.length)
    (valid : ∀ head, bucket.hhHead = some head → head < memory.length ∧ head ≠ addhh) :
    ∃ after, linkFirst memory bucket addhh = some (after, { bucket with hhHead := some addhh }) ∧
      LinkedFirst memory after bucket.hhHead addhh := by
  rcases assign_of_lt inside fun hh => { hh with hhNext := bucket.hhHead, hhPrev := none } with
    ⟨middle, assigned⟩
  have reads := handleAt_assign assigned
  have outline : middle.map Node.outline = memory.map Node.outline :=
    map_assign assigned fun _ _ => rfl
  rcases handleAt_of_lt inside with ⟨hh, found⟩
  cases link : bucket.hhHead with
  | none =>
      refine ⟨middle, ?_, outline, ?_, ?_, ?_, ?_, ?_⟩
      · rw [linkFirst, assigned, link]
        rfl
      · simp [hhNextOf, reads, found, link]
      · simp [hhPrevOf, reads, found]
      · intro other different
        simp [hhNextOf, reads, different]
      · rintro head ⟨⟩
      · intro other different _
        simp [hhPrevOf, reads, different]
  | some head =>
      rcases valid head link with ⟨headInside, headOther⟩
      have middleInside : head < middle.length := by rwa [length_of_map outline]
      rcases assign_of_lt middleInside fun hh => { hh with hhPrev := some addhh } with
        ⟨after, linked⟩
      have later := handleAt_assign linked
      rcases handleAt_of_lt headInside with ⟨headHh, headFound⟩
      have apart : addhh ≠ head := headOther.symm
      refine ⟨after, ?_, ?_, ?_, ?_, ?_, ?_, ?_⟩
      · rw [linkFirst, assigned, link]
        simp [assignLink, linked]
      · exact (map_assign linked fun _ _ => rfl).trans outline
      · simp [hhNextOf, later, apart, reads, found, link]
      · simp [hhPrevOf, later, apart, reads, found]
      · intro other different
        by_cases isHead : other = head
        · subst other
          simp [hhNextOf, later, reads, headOther, headFound]
        · simp [hhNextOf, later, reads, different, isHead]
      · rintro other ⟨⟩
        simp [hhPrevOf, later, reads, headOther, headFound]
      · intro other different notHead
        have isOther : other ≠ head := fun same => notHead (congrArg some same.symm)
        simp [hhPrevOf, later, reads, different, isOther]

/-- Different addresses in memory are at most as many as memory is long. -/
theorem length_le_of_lt {addresses : List Address} {size : Nat} (distinct : addresses.Nodup)
    (inside : ∀ address ∈ addresses, address < size) : addresses.length ≤ size := by
  have bound := distinct.length_le_of_subset fun address member =>
    List.mem_range.mpr (inside address member)
  rwa [List.length_range] at bound

/-- The buckets hold the chains that arise when the elements are put into them in the given
order. -/
structure Chained (memory : Memory Element) (bucketOf : Address → Nat)
    (buckets : List UtHashBucket) (order : List Address) : Prop where
  linked : ∀ bkt bucket, buckets[bkt]? = some bucket →
    Linked (hhNextOf memory) (hhPrevOf memory) bucket.hhHead (bucketChain bucketOf order bkt)
  counted : ∀ bkt bucket, buckets[bkt]? = some bucket →
    bucket.count = UInt32.ofNat (bucketChain bucketOf order bkt).length

theorem zeroBuckets_chained (memory : Memory Element) (bucketOf : Address → Nat) (size : Nat) :
    Chained memory bucketOf (zeroBuckets size) [] := by
  have empty : ∀ (bkt : Nat) (bucket : UtHashBucket), (zeroBuckets size)[bkt]? = some bucket →
      bucket = ⟨none, 0, 0⟩ := by
    intro bkt bucket found
    exact List.eq_of_mem_replicate (List.mem_of_getElem? found)
  constructor
  · intro bkt bucket found
    rw [empty bkt bucket found]
    exact linked_nil
  · intro bkt bucket found
    rw [empty bkt bucket found]
    rfl

theorem uint32_ofNat_succ (size : Nat) : UInt32.ofNat (size + 1) = UInt32.ofNat size + 1 := by
  rw [UInt32.ofNat_add]
  rfl

variable {memory : Memory Element} {bucketOf : Address → Nat} {buckets : List UtHashBucket}
variable {order : List Address} {add : Address}

/-- Linking a counted element in front of the chain of its bucket. -/
theorem Chained.linkFirst (chained : Chained memory bucketOf buckets order)
    (distinct : (order ++ [add]).Nodup) (inMemory : ∀ address ∈ order ++ [add],
      address < memory.length)
    {bucket : UtHashBucket} (found : buckets[bucketOf add]? = some bucket)
    (counted : UtHashBucket) (sameHead : counted.hhHead = bucket.hhHead) (count : counted.count = bucket.count + 1) :
    ∃ after, UtHash.linkFirst memory counted add =
        some (after, { counted with hhHead := some add }) ∧
      Chained after bucketOf (buckets.set (bucketOf add) { counted with hhHead := some add })
        (order ++ [add]) ∧
      LinkedFirst memory after bucket.hhHead add := by
  have fresh : add ∉ order := by
    intro member
    exact (List.nodup_append.mp distinct).2.2 add member add (by simp) rfl
  have orderDistinct : order.Nodup := (List.nodup_append.mp distinct).1
  have chain := chained.linked _ _ found
  have headMember : ∀ head, bucket.hhHead = some head → head ∈ order := by
    intro head isHead
    have front := chain.forward.head?
    rw [isHead] at front
    exact (mem_bucketChain.mp (List.mem_of_mem_head? front)).1
  have valid : ∀ head, counted.hhHead = some head → head < memory.length ∧ head ≠ add := by
    intro head isHead
    have member := headMember head (sameHead ▸ isHead)
    refine ⟨inMemory head (List.mem_append_left _ member), ?_⟩
    rintro rfl
    exact fresh member
  rcases linkFirst_spec (inMemory add (by simp)) valid with ⟨after, ran, effect⟩
  rw [sameHead] at effect
  have inRange : bucketOf add < buckets.length := (List.getElem?_eq_some_iff.mp found).1
  refine ⟨after, ran, ⟨?_, ?_⟩, effect⟩
  · intro bkt other placed
    by_cases same : bkt = bucketOf add
    · subst bkt
      rw [List.getElem?_set_self inRange, Option.some.injEq] at placed
      rw [← placed, bucketChain_concat_self]
      refine chain.push (nodup_bucketChain orderDistinct _) effect.toFirst effect.fromNone ?_
        effect.backTo ?_
      · intro address member
        exact effect.sameNext address fun same => fresh (same ▸ (mem_bucketChain.mp member).1)
      · intro address member notHead
        exact effect.samePrev address
          (fun same => fresh (same ▸ (mem_bucketChain.mp member).1)) notHead
    · rw [List.getElem?_set_ne (Ne.symm same)] at placed
      rw [bucketChain_concat_ne same]
      refine (chained.linked bkt other placed).congr ?_ ?_
      · intro address member
        exact effect.sameNext address fun same => fresh (same ▸ (mem_bucketChain.mp member).1)
      · intro address member
        refine effect.samePrev address
          (fun same => fresh (same ▸ (mem_bucketChain.mp member).1)) ?_
        intro isHead
        have front := chain.forward.head?
        rw [isHead] at front
        have own := (mem_bucketChain.mp (List.mem_of_mem_head? front)).2
        exact same ((mem_bucketChain.mp member).2.symm.trans own)
  · intro bkt other placed
    by_cases same : bkt = bucketOf add
    · subst bkt
      rw [List.getElem?_set_self inRange, Option.some.injEq] at placed
      rw [← placed, bucketChain_concat_self, List.length_cons, uint32_ofNat_succ,
        ← chained.counted _ _ found]
      exact count
    · rw [List.getElem?_set_ne (Ne.symm same)] at placed
      rw [bucketChain_concat_ne same]
      exact chained.counted bkt other placed

/-! ## Expanding -/

/-- The handles hold the hash values of the elements. -/
def Hashed (memory : Memory Element) (hashes : Address → UInt32) (addresses : List Address) :
    Prop :=
  ∀ address ∈ addresses, ∃ hh, handleAt memory address = some hh ∧ hh.hashv = hashes address

/-- The bucket of an element among so many buckets. -/
def slot (hashes : Address → UInt32) (size : Nat) (address : Address) : Nat :=
  (hashes address).toNat % size

/-- A table has two to the given power buckets. -/
structure HasSize (tbl : UtHashTable) (log2 : Nat) : Prop where
  numBuckets : tbl.numBuckets.toNat = 2 ^ log2
  buckets : tbl.buckets.length = 2 ^ log2
  log2NumBuckets : tbl.log2NumBuckets.toNat = log2

theorem hashToBkt_toNat {hashv numBkts : UInt32} {log2 : Nat}
    (size : numBkts.toNat = 2 ^ log2) :
    (hashToBkt hashv numBkts).toNat = hashv.toNat % 2 ^ log2 := by
  have positive : 1 ≤ numBkts.toNat := size ▸ Nat.one_le_two_pow
  have one : (1 : UInt32) ≤ numBkts := UInt32.le_iff_toNat_le.mpr positive
  rw [hashToBkt, UInt32.toNat_and, UInt32.toNat_sub_of_le _ _ one, size]
  exact Nat.and_two_pow_sub_one_eq_mod _ _

/-- After an expansion a chain is at most its multiplier and one more times the ideal length,
and the multiplier is not larger than the chain. -/
def Short (ideal : UInt32) (bucket : UtHashBucket) : Prop :=
  bucket.count.toNat ≤ (bucket.expandMult.toNat + 1) * ideal.toNat ∧
    bucket.expandMult.toNat ≤ bucket.count.toNat

/-- So few elements that no counter of the table wraps around. -/
def fewElements : Nat := 2 ^ 28

section Expand

variable {tbl : UtHashTable} {ideal : UInt32} {hashes : Address → UInt32} {log2 size : Nat}
variable {expansion : Expansion Element} {moved : List Address} {address : Address}

/-- How far the elements have been moved. -/
structure Moving (memory : Memory Element) (hashes : Address → UInt32) (ideal : UInt32)
    (size : Nat) (moved : List Address) (expansion : Expansion Element) : Prop where
  outline : expansion.memory.map Node.outline = memory.map Node.outline
  sized : expansion.newBuckets.length = size
  chained : Chained expansion.memory (slot hashes size) expansion.newBuckets moved
  left : ∀ address, address ∉ moved →
    hhNextOf expansion.memory address = hhNextOf memory address
  short : memory.length < fewElements → ∀ bucket ∈ expansion.newBuckets, Short ideal bucket

theorem countItem_spec (ideal : UInt32) (newbkt : UtHashBucket) :
    (countItem ideal newbkt).1.hhHead = newbkt.hhHead ∧
      (countItem ideal newbkt).1.count = newbkt.count + 1 := by
  simp only [countItem]
  split
  · split
    · exact ⟨rfl, rfl⟩
    · exact ⟨rfl, rfl⟩
  · exact ⟨rfl, rfl⟩

/-- The multiplier grows with a chain that gets longer than it should. -/
theorem Short.countItem {newbkt : UtHashBucket} (short : Short ideal newbkt)
    (few : newbkt.count.toNat < fewElements) (positive : 0 < ideal.toNat)
    (link : Option Address) :
    Short ideal { (UtHash.countItem ideal newbkt).1 with hhHead := link } := by
  rcases newbkt with ⟨head, count, expandMult⟩
  rcases short with ⟨bounded, smaller⟩
  simp only [fewElements] at few bounded smaller
  have next : (count + 1).toNat = count.toNat + 1 := by
    rw [UInt32.toNat_add]
    exact Nat.mod_eq_of_lt (by simp; omega)
  have nextMult : (expandMult + 1).toNat = expandMult.toNat + 1 := by
    rw [UInt32.toNat_add]
    exact Nat.mod_eq_of_lt (by simp; omega)
  simp only [UtHash.countItem]
  split
  · next longer =>
      split
      · refine ⟨?_, ?_⟩
        · simp only [next, nextMult]
          calc count.toNat + 1 ≤ (expandMult.toNat + 1) * ideal.toNat + ideal.toNat := by omega
            _ = (expandMult.toNat + 1 + 1) * ideal.toNat := by ring
        · simp only [next, nextMult]
          omega
      · next within =>
          have product : (expandMult * ideal).toNat ≤ expandMult.toNat * ideal.toNat := by
            rw [UInt32.toNat_mul]
            exact Nat.mod_le _ _
          have bound := UInt32.le_iff_toNat_le.mp (UInt32.not_lt.mp within)
          refine ⟨?_, ?_⟩
          · calc (count + 1).toNat ≤ expandMult.toNat * ideal.toNat := bound.trans product
              _ ≤ (expandMult.toNat + 1) * ideal.toNat := Nat.mul_le_mul_right _ (by omega)
          · simp only [next]
            omega
  · next within =>
      have bound := UInt32.le_iff_toNat_le.mp (UInt32.not_lt.mp within)
      refine ⟨?_, ?_⟩
      · exact bound.trans (Nat.le_mul_of_pos_left _ (by omega))
      · simp only [next]
        omega

/-- An element gets into the bucket of its hash value, and no other link is followed by a
later round is changed. -/
theorem expandItem_spec (numBuckets : (tbl.numBuckets * 2).toNat = 2 ^ log2)
    (positive : memory.length < fewElements → 0 < tbl.idealChainMaxlen.toNat)
    (moving : Moving memory hashes tbl.idealChainMaxlen (2 ^ log2) moved expansion)
    (hashed : Hashed memory hashes [address]) (distinct : (moved ++ [address]).Nodup)
    (inMemory : ∀ other ∈ moved ++ [address], other < memory.length) :
    ∃ after, expandItem tbl expansion address = some after ∧
      Moving memory hashes tbl.idealChainMaxlen (2 ^ log2) (moved ++ [address]) after ∧
      ∀ other, other ≠ address →
        hhNextOf after.memory other = hhNextOf expansion.memory other := by
  rcases hashed address (by simp) with ⟨hh, found, hashv⟩
  rcases handleAt_outline moving.outline found with ⟨later, foundLater, sameHash⟩
  have bkt : (hashToBkt later.hashv (tbl.numBuckets * 2)).toNat =
      slot hashes (2 ^ log2) address := by
    rw [hashToBkt_toNat numBuckets, sameHash, hashv, slot]
  have inRange : slot hashes (2 ^ log2) address < expansion.newBuckets.length := by
    rw [moving.sized]
    exact Nat.mod_lt _ (Nat.two_pow_pos log2)
  have newbkt := List.getElem?_eq_getElem inRange
  have counted := countItem_spec tbl.idealChainMaxlen
    (expansion.newBuckets[slot hashes (2 ^ log2) address])
  have sameLength := length_of_map moving.outline
  rcases moving.chained.linkFirst distinct
    (fun other member => sameLength ▸ inMemory other member) newbkt _ counted.1
    counted.2 with
    ⟨after, linked, chained, effect⟩
  refine ⟨⟨after, _, expansion.nonidealItems +
      if (countItem tbl.idealChainMaxlen
        expansion.newBuckets[slot hashes (2 ^ log2) address]).2 then 1 else 0⟩, ?_,
    ⟨effect.outline.trans moving.outline, ?_, chained, ?_, ?_⟩, effect.sameNext⟩
  · rw [expandItem, foundLater]
    simp only [Option.bind_eq_bind, Option.bind_some, bkt, newbkt, linked]
    rfl
  · rw [List.length_set, moving.sized]
  · intro other unmoved
    rw [List.mem_append, List.mem_singleton, not_or] at unmoved
    rw [effect.sameNext other unmoved.2, moving.left other unmoved.1]
  · intro few bucket member
    rcases List.mem_or_eq_of_mem_set member with earlier | rfl
    · exact moving.short few bucket earlier
    · refine (moving.short few _ (List.getElem_mem inRange)).countItem ?_ (positive few) _
      have chainLength : (bucketChain (slot hashes (2 ^ log2)) moved
          (slot hashes (2 ^ log2) address)).length ≤ memory.length :=
        length_le_of_lt (nodup_bucketChain (List.nodup_append.mp distinct).1 _)
          fun other inChain => inMemory other
            (List.mem_append_left _ (mem_bucketChain.mp inChain).1)
      rw [moving.chained.counted _ _ newbkt, UInt32.toNat_ofNat']
      exact (Nat.mod_le _ _).trans_lt (chainLength.trans_lt few)

/-- The elements of an old bucket are moved one after another. -/
theorem expandBucket_spec (numBuckets : (tbl.numBuckets * 2).toNat = 2 ^ log2) {bktI : Nat}
    {bucket : UtHashBucket} (found : tbl.buckets[bktI]? = some bucket)
    (chained : Chained memory bucketOf tbl.buckets order)
    (positive : memory.length < fewElements → 0 < tbl.idealChainMaxlen.toNat)
    (moving : Moving memory hashes tbl.idealChainMaxlen (2 ^ log2) moved expansion)
    (hashed : Hashed memory hashes order)
    (distinct : (moved ++ bucketChain bucketOf order bktI).Nodup)
    (inMemory : ∀ other ∈ moved ++ bucketChain bucketOf order bktI, other < memory.length) :
    ∃ after, expandBucket tbl expansion bktI = some after ∧
      Moving memory hashes tbl.idealChainMaxlen (2 ^ log2) (moved ++ bucketChain bucketOf order bktI) after := by
  have sameLength := length_of_map moving.outline
  have parts := List.nodup_append.mp distinct
  have chain : Chain (hhNextOf expansion.memory) bucket.hhHead
      (bucketChain bucketOf order bktI) := by
    refine (chained.linked bktI bucket found).forward.congr ?_
    intro other member
    exact moving.left other fun known => parts.2.2 other known other member rfl
  have enough : (bucketChain bucketOf order bktI).length ≤ expansion.memory.length := by
    rw [sameLength]
    exact length_le_of_lt parts.2.1
      fun other member => inMemory other (List.mem_append_right _ member)
  rw [expandBucket, found]
  refine walk_rule (Moving memory hashes tbl.idealChainMaxlen (2 ^ log2)) moved chain enough
    moving ?_
  intro front other rest state split behind reached
  have whole : moved ++ bucketChain bucketOf order bktI =
      (moved ++ front ++ [other]) ++ rest := by
    rw [split]
    simp
  have apart : (moved ++ front ++ [other] ++ rest).Nodup := whole ▸ distinct
  have member : other ∈ bucketChain bucketOf order bktI := by
    rw [split]
    simp
  rcases expandItem_spec numBuckets positive reached
    (fun address isOther => List.mem_singleton.mp isOther ▸
      hashed other (mem_bucketChain.mp member).1)
    (List.nodup_append.mp apart).1
    (fun address inside => inMemory address (whole ▸ List.mem_append_left _ inside)) with
    ⟨after, ran, kept, sameNext⟩
  refine ⟨after, ran, kept, behind.congr ?_⟩
  intro address inRest
  refine sameNext address ?_
  rintro rfl
  exact (List.nodup_append.mp apart).2.2 address (by simp) address inRest rfl

/-- The buckets of a table hold the elements, in chains that arise when they are put into
the buckets in the given order. -/
structure Filled (memory : Memory Element) (hashes : Address → UInt32) (tbl : UtHashTable)
    (log2 : Nat) (order : List Address) : Prop where
  sized : HasSize tbl log2
  chained : Chained memory (slot hashes (2 ^ log2)) tbl.buckets order
  distinct : order.Nodup
  inMemory : ∀ address ∈ order, address < memory.length
  hashed : Hashed memory hashes order
  items : tbl.numItems = UInt32.ofNat order.length

/-- No chain is longer than memory. -/
theorem Filled.length_chain_le {tbl : UtHashTable} {log2 : Nat} {order : List Address}
    (filled : Filled memory hashes tbl log2 order) (bkt : Nat) :
    (bucketChain (slot hashes (2 ^ log2)) order bkt).length ≤ memory.length :=
  length_le_of_lt (nodup_bucketChain filled.distinct bkt) fun address member =>
    filled.inMemory address (mem_bucketChain.mp member).1

/-- A chain is shorter than what makes its bucket expand, or as short as the last expansion
has left it. -/
def Bounded (ideal : UInt32) (bucket : UtHashBucket) : Prop :=
  (bucket.count.toNat < (bucket.expandMult.toNat + 1) * hashBktCapacityThresh.toNat ∨
      bucket.count.toNat ≤ (bucket.expandMult.toNat + 1) * ideal.toNat) ∧
    bucket.expandMult.toNat < fewElements

/-- As long as expansion is not inhibited all chains are bounded. -/
def BoundedTable (memory : Memory Element) (tbl : UtHashTable) : Prop :=
  memory.length < fewElements → tbl.noexpand = 0 →
    ∀ bucket ∈ tbl.buckets, Bounded tbl.idealChainMaxlen bucket

theorem Hashed.congr {after : Memory Element} {addresses : List Address}
    (hashed : Hashed memory hashes addresses)
    (same : after.map Node.outline = memory.map Node.outline) :
    Hashed after hashes addresses := by
  intro address member
  rcases hashed address member with ⟨hh, found, hashv⟩
  rcases handleAt_outline same found with ⟨later, foundLater, sameHash⟩
  exact ⟨later, foundLater, sameHash.trans hashv⟩

/-- The shifts and the mask compute the number of items divided by the number of buckets,
rounded up. -/
theorem idealLength_eq (sized : HasSize tbl log2) (small : log2 + 1 < 32) :
    (idealLength tbl).toNat =
      tbl.numItems.toNat / 2 ^ (log2 + 1) +
        if tbl.numItems.toNat % 2 ^ (log2 + 1) = 0 then 0 else 1 := by
  have power : 2 ^ (log2 + 1) < 2 ^ 32 := Nat.pow_lt_pow_right (by omega) small
  have doubled : (tbl.numBuckets * 2).toNat = 2 ^ (log2 + 1) := by
    rw [UInt32.toNat_mul, sized.numBuckets, pow_succ]
    exact Nat.mod_eq_of_lt (by simpa [pow_succ] using power)
  have masked : (tbl.numItems &&& (tbl.numBuckets * 2 - 1)).toNat =
      tbl.numItems.toNat % 2 ^ (log2 + 1) := hashToBkt_toNat doubled
  have shifted : (tbl.numItems >>> (tbl.log2NumBuckets + 1)).toNat =
      tbl.numItems.toNat / 2 ^ (log2 + 1) := by
    have next : (tbl.log2NumBuckets + 1).toNat = log2 + 1 := by
      rw [UInt32.toNat_add, sized.log2NumBuckets]
      exact Nat.mod_eq_of_lt (by simp; omega)
    rw [UInt32.toNat_shiftRight, next, Nat.mod_eq_of_lt small, Nat.shiftRight_eq_div_pow]
  have room : tbl.numItems.toNat / 2 ^ (log2 + 1) + 1 < 2 ^ 32 := by
    have half : tbl.numItems.toNat / 2 ^ (log2 + 1) ≤ tbl.numItems.toNat / 2 :=
      Nat.div_le_div_left (Nat.le_self_pow (by omega) 2) (by omega)
    have bound := UInt32.toNat_lt tbl.numItems
    omega
  have zero : tbl.numItems &&& (tbl.numBuckets * 2 - 1) ≠ 0 ↔
      tbl.numItems.toNat % 2 ^ (log2 + 1) ≠ 0 := by
    rw [← masked, ne_eq, ne_eq, ← UInt32.toNat_inj]
    rfl
  rw [idealLength, UInt32.toNat_add, shifted]
  by_cases divides : tbl.numItems.toNat % 2 ^ (log2 + 1) = 0
  · rw [if_neg (fun nonzero => zero.mp nonzero divides), if_pos divides]
    exact Nat.mod_eq_of_lt (by simp; omega)
  · rw [if_pos (zero.mpr divides), if_neg divides]
    exact Nat.mod_eq_of_lt (by simpa using room)

/-- Expanding keeps the elements and doubles the number of buckets. -/
theorem hashExpandBuckets_spec (filled : Filled memory hashes tbl log2 order)
    (small : log2 + 1 < 32) (nonempty : order ≠ []) :
    ∃ after later laterOrder,
      hashExpandBuckets memory tbl = some (after, later) ∧
      after.map Node.outline = memory.map Node.outline ∧
      Filled after hashes later (log2 + 1) laterOrder ∧ laterOrder.Perm order ∧
      later.tail = tbl.tail ∧ BoundedTable after later := by
  let start := { tbl with idealChainMaxlen := idealLength tbl }
  have power : 2 ^ (log2 + 1) < 2 ^ 32 := Nat.pow_lt_pow_right (by omega) small
  have doubled : (tbl.numBuckets * 2).toNat = 2 ^ (log2 + 1) := by
    rw [UInt32.toNat_mul, filled.sized.numBuckets, pow_succ]
    exact Nat.mod_eq_of_lt (by simpa [pow_succ] using power)
  have nextLog : (tbl.log2NumBuckets + 1).toNat = log2 + 1 := by
    rw [UInt32.toNat_add, filled.sized.log2NumBuckets]
    exact Nat.mod_eq_of_lt (by simp; omega)
  have shiftable : tbl.log2NumBuckets + 1 < 32 :=
    UInt32.lt_iff_toNat_lt.mpr (nextLog ▸ small)
  have positive : memory.length < fewElements → 0 < start.idealChainMaxlen.toNat := by
    intro few
    have atMost := length_le_of_lt filled.distinct filled.inMemory
    have atLeast := List.length_pos_iff.mpr nonempty
    have items : tbl.numItems.toNat = order.length := by
      rw [filled.items, UInt32.toNat_ofNat']
      exact Nat.mod_eq_of_lt (by simp only [fewElements] at few; omega)
    rw [show start.idealChainMaxlen = idealLength tbl from rfl,
      idealLength_eq filled.sized small, items]
    split
    · next divides =>
        have whole := Nat.div_add_mod order.length (2 ^ (log2 + 1))
        rw [divides, Nat.add_zero] at whole
        apply Nat.add_pos_left
        apply Nat.pos_of_ne_zero
        intro zero
        rw [zero, Nat.mul_zero] at whole
        omega
    · exact Nat.add_pos_right _ Nat.one_pos
  have initial : Moving memory hashes start.idealChainMaxlen (2 ^ (log2 + 1))
      (allChains (slot hashes (2 ^ log2)) order 0)
      ⟨memory, zeroBuckets (2 * tbl.numBuckets.toNat), 0⟩ := by
    refine ⟨rfl, ?_, zeroBuckets_chained _ _ _, fun _ _ => rfl, ?_⟩
    · rw [zeroBuckets, List.length_replicate, filled.sized.numBuckets, pow_succ, Nat.mul_comm]
    · intro _ bucket member
      rw [List.eq_of_mem_replicate member]
      exact ⟨Nat.zero_le _, Nat.le_refl _⟩
  have step : ∀ bktI expansion, bktI < tbl.numBuckets.toNat →
      Moving memory hashes start.idealChainMaxlen (2 ^ (log2 + 1))
        (allChains (slot hashes (2 ^ log2)) order bktI) expansion →
      ∃ after, expandBucket start expansion bktI = some after ∧
        Moving memory hashes start.idealChainMaxlen (2 ^ (log2 + 1))
          (allChains (slot hashes (2 ^ log2)) order (bktI + 1)) after := by
    intro bktI expansion inRange moving
    have inBuckets : bktI < start.buckets.length := by
      rw [show start.buckets.length = _ from filled.sized.buckets, ← filled.sized.numBuckets]
      exact inRange
    have found : start.buckets[bktI]? = some start.buckets[bktI] :=
      List.getElem?_eq_getElem inBuckets
    have doubledStart : (start.numBuckets * 2).toNat = 2 ^ (log2 + 1) := doubled
    rw [allChains_succ]
    refine expandBucket_spec doubledStart found filled.chained positive moving filled.hashed ?_ ?_
    · rw [← allChains_succ]
      exact nodup_allChains filled.distinct _
    · intro address member
      rw [← allChains_succ] at member
      exact filled.inMemory address (mem_allChains.mp member).1
  have loop := foldlM_range_rule
    (fun bktI => Moving memory hashes start.idealChainMaxlen (2 ^ (log2 + 1))
      (allChains (slot hashes (2 ^ log2)) order bktI)) initial step
  rcases loop with ⟨expansion, ran, moving⟩
  have perm : (allChains (slot hashes (2 ^ log2)) order tbl.numBuckets.toNat).Perm order := by
    rw [filled.sized.numBuckets]
    exact allChains_perm filled.distinct fun address _ => Nat.mod_lt _ (Nat.two_pow_pos log2)
  have expanded : ∃ later, hashExpandBuckets memory tbl = some (expansion.memory, later) ∧
      later.numBuckets = tbl.numBuckets * 2 ∧ later.log2NumBuckets = tbl.log2NumBuckets + 1 ∧
      later.buckets = expansion.newBuckets ∧ later.numItems = tbl.numItems ∧
      later.tail = tbl.tail ∧ later.idealChainMaxlen = start.idealChainMaxlen := by
    rw [hashExpandBuckets, if_pos shiftable]
    simp only [Option.bind_eq_bind, Option.bind_some]
    rw [show (List.range tbl.numBuckets.toNat).foldlM (expandBucket start) _ = _ from ran]
    exact ⟨_, rfl, rfl, rfl, rfl, rfl, rfl, rfl⟩
  rcases expanded with ⟨later, defined, numBuckets, log2Num, buckets, items, tail, ideal⟩
  refine ⟨expansion.memory, later, _, defined, moving.outline, ?_, perm, tail, ?_⟩
  · refine ⟨⟨numBuckets ▸ doubled, buckets ▸ moving.sized, log2Num ▸ nextLog⟩,
      buckets ▸ moving.chained, perm.nodup_iff.mpr filled.distinct, ?_, ?_, ?_⟩
    · intro address member
      rw [length_of_map moving.outline]
      exact filled.inMemory address (perm.mem_iff.mp member)
    · intro address member
      exact (filled.hashed.congr moving.outline) address (perm.mem_iff.mp member)
    · rw [perm.length_eq, items]
      exact filled.items
  · intro few _ bucket member
    rw [length_of_map moving.outline] at few
    rw [buckets] at member
    rw [ideal]
    refine ⟨.inr (moving.short few bucket member).1, ?_⟩
    rcases List.mem_iff_getElem?.mp member with ⟨bkt, found⟩
    refine (moving.short few bucket member).2.trans_lt ?_
    rw [moving.chained.counted bkt bucket found, UInt32.toNat_ofNat']
    refine (Nat.mod_le _ _).trans_lt (Nat.lt_of_le_of_lt (length_le_of_lt ?_ ?_) few)
    · exact nodup_bucketChain (perm.nodup_iff.mpr filled.distinct) _
    · intro address inChain
      exact filled.inMemory address (perm.mem_iff.mp (mem_bucketChain.mp inChain).1)

end Expand

end MultiMaster.LockTable.UtHash
