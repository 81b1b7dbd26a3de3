import MultiMaster.LockTable.HashBuckets

/-!
# The integrity of the hash table

Every addition keeps the pointers and counters of the hash table in order.  The check that
`HASH_FSCK` makes of them passes after every addition, and a search finds an element with
the key if there is one.
-/

namespace MultiMaster.LockTable.UtHash

open Foundation

variable {Element : Type} {memory after : Memory Element} {hashes : Address → UInt32}
variable {tbl later : UtHashTable} {log2 : Nat} {order added : List Address} {add : Address}

/-! ## Adding to a table -/

/-- What a table holds depends on the chain links and hash values of its elements alone. -/
theorem Filled.congr (filled : Filled memory hashes tbl log2 order)
    (longer : memory.length ≤ after.length) (hashed : Hashed after hashes order)
    (sameNext : ∀ address < memory.length, hhNextOf after address = hhNextOf memory address)
    (samePrev : ∀ address < memory.length, hhPrevOf after address = hhPrevOf memory address) :
    Filled after hashes tbl log2 order := by
  refine ⟨filled.sized, ⟨?_, filled.chained.counted⟩, filled.distinct, ?_, hashed,
    filled.items⟩
  · intro bkt bucket found
    have inside : ∀ address ∈ bucketChain (slot hashes (2 ^ log2)) order bkt,
        address < memory.length := fun address member =>
      filled.inMemory address (mem_bucketChain.mp member).1
    exact (filled.chained.linked bkt bucket found).congr
      (fun address member => sameNext address (inside address member))
      fun address member => samePrev address (inside address member)
  · intro address member
    exact (filled.inMemory address member).trans_le longer

theorem Filled.congr_hashes {other : Address → UInt32}
    (filled : Filled memory hashes tbl log2 order)
    (same : ∀ address ∈ order, other address = hashes address) :
    Filled memory other tbl log2 order := by
  have chains : ∀ bkt, bucketChain (slot other (2 ^ log2)) order bkt =
      bucketChain (slot hashes (2 ^ log2)) order bkt := by
    intro bkt
    rw [bucketChain, bucketChain]
    congr 1
    apply List.filter_congr
    intro address member
    rw [slot, slot, same address member]
  refine ⟨filled.sized, ⟨?_, ?_⟩, filled.distinct, filled.inMemory, ?_, filled.items⟩
  · intro bkt bucket found
    rw [chains]
    exact filled.chained.linked bkt bucket found
  · intro bkt bucket found
    rw [chains]
    exact filled.chained.counted bkt bucket found
  · intro address member
    rw [same address member]
    exact filled.hashed address member

/-- A bucket that need not expand is bounded. -/
theorem bounded_of_not_mustExpand {bucket : UtHashBucket} (stays : mustExpand tbl bucket = false)
    (expands : tbl.noexpand = 0) (few : bucket.expandMult.toNat < fewElements) (ideal : UInt32) :
    Bounded ideal bucket := by
  refine ⟨.inl ?_, few⟩
  simp only [fewElements] at few
  have next : (bucket.expandMult + 1).toNat = bucket.expandMult.toNat + 1 := by
    rw [UInt32.toNat_add]
    exact Nat.mod_eq_of_lt (by simp; omega)
  have product : ((bucket.expandMult + 1) * hashBktCapacityThresh).toNat =
      (bucket.expandMult.toNat + 1) * hashBktCapacityThresh.toNat := by
    rw [UInt32.toNat_mul, next]
    exact Nat.mod_eq_of_lt (by simp [hashBktCapacityThresh]; omega)
  rw [← product]
  simp only [mustExpand, expands, and_true, decide_eq_false_iff_not] at stays
  exact UInt32.lt_iff_toNat_lt.mp (UInt32.not_le.mp stays)

/-- An element that hashes to its value is added to the table, which may expand. -/
theorem hashAddToTable_spec (filled : Filled memory hashes tbl log2 order)
    (bounded : BoundedTable memory tbl) (small : log2 + 1 < 32) (fresh : add ∉ order)
    (inside : add < memory.length) (hashed : Hashed memory hashes [add]) :
    ∃ after later laterLog2 laterOrder,
      hashAddToTable memory tbl (hashes add) add = some (after, later) ∧
      after.map Node.outline = memory.map Node.outline ∧
      Filled after hashes later laterLog2 laterOrder ∧ laterOrder.Perm (order ++ [add]) ∧
      later.tail = tbl.tail ∧ BoundedTable after later := by
  have distinct : (order ++ [add]).Nodup := by
    rw [← List.concat_eq_append]
    exact filled.distinct.concat fresh
  have inMemory : ∀ address ∈ order ++ [add], address < memory.length := by
    intro address member
    rcases List.mem_append.mp member with earlier | last
    · exact filled.inMemory address earlier
    · rw [List.mem_singleton.mp last]
      exact inside
  have bkt : (hashToBkt (hashes add) tbl.numBuckets).toNat = slot hashes (2 ^ log2) add :=
    hashToBkt_toNat filled.sized.numBuckets
  have inRange : slot hashes (2 ^ log2) add < tbl.buckets.length := by
    rw [filled.sized.buckets]
    exact Nat.mod_lt _ (Nat.two_pow_pos log2)
  obtain ⟨head, found⟩ : ∃ head, tbl.buckets[slot hashes (2 ^ log2) add]? = some head :=
    ⟨_, List.getElem?_eq_getElem inRange⟩
  rcases filled.chained.linkFirst distinct inMemory found { head with count := head.count + 1 }
    rfl rfl with ⟨middle, linked, chained, effect⟩
  let bucket : UtHashBucket := ⟨some add, head.count + 1, head.expandMult⟩
  let linkedTbl := { tbl with
    numItems := tbl.numItems + 1
    buckets := tbl.buckets.set (slot hashes (2 ^ log2) add) bucket }
  have filledLinked : Filled middle hashes linkedTbl log2 (order ++ [add]) := by
    refine ⟨⟨filled.sized.numBuckets, ?_, filled.sized.log2NumBuckets⟩, chained, distinct, ?_,
      ?_, ?_⟩
    · exact List.length_set.trans filled.sized.buckets
    · intro address member
      rw [length_of_map effect.outline]
      exact inMemory address member
    · refine Hashed.congr ?_ effect.outline
      intro address member
      rcases List.mem_append.mp member with earlier | last
      · exact filled.hashed address earlier
      · exact hashed address last
    · rw [List.length_append, List.length_singleton, uint32_ofNat_succ, ← filled.items]
  have unfolded : hashAddToTable memory tbl (hashes add) add =
      if mustExpand linkedTbl bucket then hashExpandBuckets middle linkedTbl
      else some (middle, linkedTbl) := by
    rw [hashAddToTable, hashAddToBkt, bkt, found]
    simp only [Option.bind_eq_bind, Option.bind_some, linked]
    rfl
  cases expands : mustExpand linkedTbl bucket with
  | true =>
      rcases hashExpandBuckets_spec filledLinked small (by simp) with
        ⟨after, later, laterOrder, ran, outline, kept, perm, tail, bounds⟩
      refine ⟨after, later, _, laterOrder, ?_, outline.trans effect.outline, kept, perm, tail,
        bounds⟩
      rw [unfolded, if_pos expands, ran]
  | false =>
      refine ⟨middle, linkedTbl, _, _, ?_, effect.outline, filledLinked, .refl _, rfl, ?_⟩
      · rw [unfolded, if_neg (by rw [expands]; exact Bool.false_ne_true)]
      · intro few noexpand other member
        rw [length_of_map effect.outline] at few
        rcases List.mem_or_eq_of_mem_set member with earlier | rfl
        · exact bounded few noexpand other earlier
        · refine bounded_of_not_mustExpand expands noexpand ?_ _
          exact (bounded few noexpand head (List.mem_of_getElem? found)).2

/-! ## The list of all elements -/

section Assignments

variable {address other : Address} {change : UtHashHandle → UtHashHandle}

theorem field_assign (assigned : assign memory address change = some after)
    {field : UtHashHandle → Option Address} (same : ∀ hh, field (change hh) = field hh)
    (other : Address) :
    (handleAt after other).bind field = (handleAt memory other).bind field := by
  rw [handleAt_assign assigned]
  split
  · cases handleAt memory other with
    | none => rfl
    | some hh => exact same hh
  · rfl

theorem handleAt_assign_ne (assigned : assign memory address change = some after)
    (different : other ≠ address) : handleAt after other = handleAt memory other := by
  rw [handleAt_assign assigned, if_neg different]

theorem field_assign_self (assigned : assign memory address change = some after)
    {hh : UtHashHandle} (found : handleAt memory address = some hh)
    (field : UtHashHandle → Option Address) :
    (handleAt after address).bind field = field (change hh) := by
  rw [handleAt_assign assigned, if_pos rfl, found]
  rfl

end Assignments

/-- A node without the links of the list of all elements. -/
def Node.unlisted (node : Node Element) : Node Element :=
  { node with hh := { node.hh with prev := none, next := none } }

/-- What putting an element behind the last one has done to memory. -/
structure Appended (memory after : Memory Element) (tail add : Address) : Prop where
  unlisted : after.map Node.unlisted = memory.map Node.unlisted
  sameHhNext : ∀ address, hhNextOf after address = hhNextOf memory address
  sameHhPrev : ∀ address, hhPrevOf after address = hhPrevOf memory address
  sameNext : ∀ address, address ≠ add → address ≠ tail →
    nextOf after address = nextOf memory address
  toNew : nextOf after tail = some add
  toNone : nextOf after add = none
  samePrev : ∀ address, address ≠ add → prevOf after address = prevOf memory address
  toLast : prevOf after add = some tail

theorem hashAppendList_spec (inside : add < memory.length) (tailInside : tbl.tail < memory.length)
    (apart : tbl.tail ≠ add) :
    ∃ after, hashAppendList memory tbl add = some (after, { tbl with tail := add }) ∧
      Appended memory after tbl.tail add := by
  rcases assign_of_lt inside fun hh => { hh with next := none, prev := some tbl.tail } with
    ⟨middle, assigned⟩
  have middleMap : middle.map Node.unlisted = memory.map Node.unlisted :=
    map_assign assigned fun _ _ => rfl
  have tailMiddle : tbl.tail < middle.length := by rwa [length_of_map middleMap]
  rcases assign_of_lt tailMiddle fun hh => { hh with next := some add } with ⟨after, linked⟩
  rcases handleAt_of_lt inside with ⟨hh, found⟩
  rcases handleAt_of_lt tailMiddle with ⟨tailHh, tailFound⟩
  refine ⟨after, ?_, ⟨(map_assign linked fun _ _ => rfl).trans middleMap, ?_, ?_, ?_, ?_, ?_, ?_,
    ?_⟩⟩
  · rw [hashAppendList, assigned]
    simp [linked]
  · intro address
    exact (field_assign linked (fun _ => rfl) address).trans
      (field_assign assigned (fun _ => rfl) address)
  · intro address
    exact (field_assign linked (fun _ => rfl) address).trans
      (field_assign assigned (fun _ => rfl) address)
  · intro address notNew notTail
    rw [nextOf, handleAt_assign_ne linked notTail, handleAt_assign_ne assigned notNew, nextOf]
  · exact field_assign_self linked tailFound _
  · rw [nextOf, handleAt_assign_ne linked apart.symm]
    exact field_assign_self assigned found _
  · intro address notNew
    rw [prevOf, field_assign linked (fun _ => rfl) address, handleAt_assign_ne assigned notNew,
      prevOf]
  · rw [prevOf, field_assign linked (fun _ => rfl) add]
    exact field_assign_self assigned found _

/-! ## Adding an element -/

/-- The key of the element at an address. -/
def keyAt (keying : Keying Element) (memory : Memory Element) (address : Address) :
    Option Bytes :=
  memory[address]?.map fun node => keying.key node.element

/-- The hash value of that key. -/
def hashOf (keying : Keying Element) (memory : Memory Element) (address : Address) : UInt32 :=
  ((keyAt keying memory address).map keying.hashFcn).getD 0

/-- The handle at an address says what the key of its element is. -/
def Keyed (keying : Keying Element) (memory : Memory Element) (address : Address) : Prop :=
  ∃ hh key, handleAt memory address = some hh ∧ keyAt keying memory address = some key ∧
    hh.key = address ∧ hh.keylen = keying.keylen ∧ hh.hashv = keying.hashFcn key

/-- What a search reads of a node. -/
def Node.ident (node : Node Element) : Element × Address × UInt32 × UInt32 :=
  (node.element, node.hh.key, node.hh.keylen, node.hh.hashv)

/-- The pointers and counters of a table, with its elements in the order of their addition. -/
structure Intact (keying : Keying Element) (memory : Memory Element) (head : Address)
    (tbl : UtHashTable) (added : List Address) : Prop where
  filled : ∃ log2 order, Filled memory (hashOf keying memory) tbl log2 order ∧ order.Perm added
  listed : Linked (nextOf memory) (prevOf memory) (some head) added
  last : added.getLast? = some tbl.tail
  bounded : BoundedTable memory tbl

/-- A hash table that holds the elements at some addresses. -/
structure Valid (keying : Keying Element) (hash : Hash Element) (added : List Address) :
    Prop where
  keyed : ∀ address ∈ added, Keyed keying hash.memory address
  table : match hash.root with
    | none => added = []
    | some (head, tbl) => Intact keying hash.memory head tbl added

variable {keying : Keying Element} {head : Address}

theorem keyAt_congr (same : after.map Node.element = memory.map Node.element)
    (address : Address) : keyAt keying after address = keyAt keying memory address := by
  have here := congrArg (fun elements : List Element => (elements[address]?).map keying.key) same
  simp only [List.getElem?_map, Option.map_map] at here
  exact here

theorem hashOf_congr (same : after.map Node.element = memory.map Node.element) :
    hashOf keying after = hashOf keying memory := by
  funext address
  rw [hashOf, hashOf, keyAt_congr same]

theorem Keyed.congr {address : Address} (keyed : Keyed keying memory address)
    (same : after.map Node.ident = memory.map Node.ident) : Keyed keying after address := by
  rcases keyed with ⟨hh, key, found, keyFound, own⟩
  rcases handleAt_eq_some.mp found with ⟨element, atAddress⟩
  rcases getElem?_of_map same atAddress with ⟨later, atLater, ident⟩
  simp only [Node.ident, Prod.mk.injEq] at ident
  refine ⟨later.hh, key, handleAt_eq_some.mpr ⟨later.element, atLater⟩, ?_, ?_⟩
  · rw [keyAt, atAddress] at keyFound
    rw [keyAt, atLater, Option.map_some, ident.1]
    exact keyFound
  · rw [ident.2.1, ident.2.2.1, ident.2.2.2]
    exact own

theorem Keyed.hashed {addresses : List Address}
    (keyed : ∀ address ∈ addresses, Keyed keying memory address) :
    Hashed memory (hashOf keying memory) addresses := by
  intro address member
  rcases keyed address member with ⟨hh, key, found, keyFound, _, _, hashv⟩
  refine ⟨hh, found, ?_⟩
  rw [hashv, hashOf, keyFound]
  rfl

theorem ident_of_outline (same : after.map Node.outline = memory.map Node.outline) :
    after.map Node.ident = memory.map Node.ident := by
  have views := congrArg (List.map Node.ident) same
  rwa [List.map_map, List.map_map] at views

theorem ident_of_unlisted (same : after.map Node.unlisted = memory.map Node.unlisted) :
    after.map Node.ident = memory.map Node.ident := by
  have views := congrArg (List.map Node.ident) same
  rwa [List.map_map, List.map_map] at views

theorem element_of_ident (same : after.map Node.ident = memory.map Node.ident) :
    after.map Node.element = memory.map Node.element := by
  have views := congrArg (List.map Prod.fst) same
  rwa [List.map_map, List.map_map] at views

theorem nextOf_of_outline (same : after.map Node.outline = memory.map Node.outline)
    (address : Address) :
    nextOf after address = nextOf memory address ∧
      prevOf after address = prevOf memory address := by
  have here := congrArg (fun nodes : Memory Element => nodes[address]?) same
  simp only [List.getElem?_map] at here
  have next := congrArg (fun node => node.bind fun node => node.hh.next) here
  have prev := congrArg (fun node => node.bind fun node => node.hh.prev) here
  simp only [Option.bind_map] at next prev
  simp only [nextOf, prevOf, handleAt, Option.bind_map]
  exact ⟨next, prev⟩

/-- Once the list of all elements is right, the new element gets into its bucket. -/
theorem valid_of_hashAddToTable (filled : Filled memory (hashOf keying memory) tbl log2 order)
    (perm : order.Perm added) (bounded : BoundedTable memory tbl) (small : log2 + 1 < 32)
    (fresh : add ∉ added) (keyed : ∀ address ∈ added ++ [add], Keyed keying memory address)
    (listed : Linked (nextOf memory) (prevOf memory) (some head) (added ++ [add]))
    (last : tbl.tail = add) :
    ∃ after later, hashAddToTable memory tbl (hashOf keying memory add) add =
        some (after, later) ∧
      Valid keying ⟨after, some (head, later)⟩ (added ++ [add]) ∧
      after.map Node.element = memory.map Node.element := by
  have notIn : add ∉ order := fun member => fresh (perm.mem_iff.mp member)
  have inside : add < memory.length := by
    rcases keyed add (by simp) with ⟨hh, _, found, _⟩
    rcases handleAt_eq_some.mp found with ⟨element, atAdd⟩
    exact (List.getElem?_eq_some_iff.mp atAdd).1
  have hashed : Hashed memory (hashOf keying memory) [add] :=
    Keyed.hashed fun address member => keyed address (List.mem_append_right _ member)
  rcases hashAddToTable_spec filled bounded small notIn inside hashed with
    ⟨after, later, laterLog2, laterOrder, ran, outline, kept, permLater, tail, boundedLater⟩
  have elements := element_of_ident (ident_of_outline outline)
  refine ⟨after, later, ran, ⟨?_, ?_⟩, elements⟩
  · intro address member
    exact (keyed address member).congr (ident_of_outline outline)
  · refine ⟨⟨laterLog2, laterOrder, ?_, permLater.trans (perm.append_right _)⟩, ?_, ?_,
      boundedLater⟩
    · rw [hashOf_congr elements]
      exact kept
    · exact listed.congr (fun address _ => (nextOf_of_outline outline address).1)
        fun address _ => (nextOf_of_outline outline address).2
    · rw [List.getLast?_concat, tail, last]

/-- What storing the key of an element has done to memory. -/
structure KeyStored (keying : Keying Element) (memory after : Memory Element) (add : Address) :
    Prop where
  elements : after.map Node.element = memory.map Node.element
  keyed : ∀ address, address = add ∨ Keyed keying memory address → Keyed keying after address
  sameNext : ∀ address, nextOf after address = nextOf memory address
  samePrev : ∀ address, prevOf after address = prevOf memory address
  sameHhNext : ∀ address, hhNextOf after address = hhNextOf memory address
  sameHhPrev : ∀ address, hhPrevOf after address = hhPrevOf memory address

theorem storeKey_spec (keying : Keying Element) {node : Node Element} (found : memory[add]? = some node) :
    ∃ after, assign memory add (fun hh =>
        { hh with
          hashv := keying.hashFcn (keying.key node.element)
          key := add
          keylen := keying.keylen }) = some after ∧
      KeyStored keying memory after add := by
  have inside : add < memory.length := (List.getElem?_eq_some_iff.mp found).1
  refine ⟨_, if_pos inside, ?_⟩
  have assigned : assign memory add (fun hh =>
      { hh with
        hashv := keying.hashFcn (keying.key node.element)
        key := add
        keylen := keying.keylen }) = some _ := if_pos inside
  have elements : _ = memory.map Node.element := map_assign assigned fun _ _ => rfl
  refine ⟨elements, ?_, field_assign assigned fun _ => rfl, field_assign assigned fun _ => rfl,
    field_assign assigned fun _ => rfl, field_assign assigned fun _ => rfl⟩
  intro address either
  by_cases same : address = add
  · subst address
    have handle : handleAt memory add = some node.hh := by rw [handleAt, found, Option.map_some]
    refine ⟨{ node.hh with
      hashv := keying.hashFcn (keying.key node.element)
      key := add
      keylen := keying.keylen }, keying.key node.element, ?_, ?_, rfl, rfl, rfl⟩
    · rw [handleAt_assign assigned, if_pos rfl, handle]
      rfl
    · rw [keyAt_congr elements, keyAt, found, Option.map_some]
  · rcases either.resolve_left same with ⟨hh, key, atOther, keyFound, own⟩
    refine ⟨hh, key, ?_, ?_, own⟩
    · rw [handleAt_assign_ne assigned same, atOther]
    · rw [keyAt_congr elements, keyFound]

theorem hashMakeTable_filled (memory : Memory Element) (hashes : Address → UInt32)
    (head : Address) : Filled memory hashes (hashMakeTable head) 5 [] :=
  ⟨⟨rfl, rfl, rfl⟩, zeroBuckets_chained _ _ _, List.nodup_nil, by simp, by simp [Hashed], rfl⟩

theorem hashMakeTable_bounded (memory : Memory Element) (head : Address) :
    BoundedTable memory (hashMakeTable head) := by
  intro _ _ bucket member
  rw [List.eq_of_mem_replicate member]
  exact ⟨.inl (by decide), by decide⟩

/-- The table has room for twice as many buckets. -/
def CanExpand (hash : Hash Element) : Prop :=
  ∀ root ∈ hash.root, root.2.numBuckets.toNat < 2 ^ 31

instance (hash : Hash Element) : Decidable (CanExpand hash) :=
  inferInstanceAs (Decidable (∀ root ∈ hash.root, root.2.numBuckets.toNat < 2 ^ 31))

/-- Adding the first element makes the table. -/
theorem hashAdd_first (inside : add < memory.length) :
    ∃ after, hashAdd keying ⟨memory, none⟩ add = some after ∧ Valid keying after [add] ∧
      after.memory.map Node.element = memory.map Node.element := by
  obtain ⟨node, found⟩ : ∃ node, memory[add]? = some node :=
    ⟨_, List.getElem?_eq_getElem inside⟩
  rcases storeKey_spec keying found with ⟨stored, storing, effect⟩
  have storedInside : add < stored.length := by rwa [length_of_map effect.elements]
  rcases assign_of_lt storedInside fun hh => { hh with next := none, prev := none } with
    ⟨middle, assigned⟩
  rcases handleAt_of_lt storedInside with ⟨hh, foundHh⟩
  have idents : middle.map Node.ident = stored.map Node.ident :=
    map_assign assigned fun _ _ => rfl
  have elements := (element_of_ident idents).trans effect.elements
  have hashval : keying.hashFcn (keying.key node.element) = hashOf keying middle add := by
    rw [hashOf_congr elements, hashOf, keyAt, found]
    rfl
  have keyed : ∀ address ∈ [] ++ [add], Keyed keying middle address := by
    intro address member
    exact (effect.keyed address (.inl (List.mem_singleton.mp member))).congr idents
  have listed : Linked (nextOf middle) (prevOf middle) (some add) ([] ++ [add]) :=
    ⟨⟨rfl, field_assign_self assigned foundHh _⟩, field_assign_self assigned foundHh _, trivial⟩
  rcases valid_of_hashAddToTable (hashMakeTable_filled middle _ add) (.refl _)
    (hashMakeTable_bounded middle add) (by decide) List.not_mem_nil keyed listed rfl with
    ⟨after, later, ran, valid, same⟩
  refine ⟨⟨after, some (add, later)⟩, ?_, valid, same.trans elements⟩
  rw [hashAdd]
  simp only [found, Option.bind_eq_bind, Option.bind_some, storing, assigned]
  rw [hashval, ran]
  rfl

/-- Adding a further element. -/
theorem hashAdd_next (valid : Valid keying ⟨memory, some (head, tbl)⟩ added)
    (fresh : add ∉ added) (inside : add < memory.length) (room : tbl.numBuckets.toNat < 2 ^ 31) :
    ∃ after, hashAdd keying ⟨memory, some (head, tbl)⟩ add = some after ∧
      Valid keying after (added ++ [add]) ∧
      after.memory.map Node.element = memory.map Node.element := by
  have intact : Intact keying memory head tbl added := valid.table
  rcases intact.filled with ⟨log2, order, filled, perm⟩
  obtain ⟨node, found⟩ : ∃ node, memory[add]? = some node :=
    ⟨_, List.getElem?_eq_getElem inside⟩
  rcases storeKey_spec keying found with ⟨stored, storing, effect⟩
  have storedInside : add < stored.length := by rwa [length_of_map effect.elements]
  have tailMember : tbl.tail ∈ added := List.mem_of_getLast? intact.last
  have apart : tbl.tail ≠ add := fun same => fresh (same ▸ tailMember)
  have tailInside : tbl.tail < stored.length := by
    rw [length_of_map effect.elements]
    exact filled.inMemory _ (perm.mem_iff.mpr tailMember)
  rcases hashAppendList_spec storedInside tailInside apart with ⟨middle, appended, list⟩
  have idents := ident_of_unlisted list.unlisted
  have elements := (element_of_ident idents).trans effect.elements
  have keyed : ∀ address ∈ added ++ [add], Keyed keying middle address := by
    intro address member
    refine (effect.keyed address ?_).congr idents
    rcases List.mem_append.mp member with earlier | last
    · exact .inr (valid.keyed address earlier)
    · exact .inl (List.mem_singleton.mp last)
  have hashval : keying.hashFcn (keying.key node.element) = hashOf keying middle add := by
    rw [hashOf_congr elements, hashOf, keyAt, found]
    rfl
  have filledMiddle : Filled middle (hashOf keying middle) { tbl with tail := add } log2 order := by
    rw [hashOf_congr elements]
    have kept := filled.congr (length_of_map elements).ge (by
      rw [← hashOf_congr elements]
      exact Keyed.hashed fun address member =>
        keyed address (List.mem_append_left _ (perm.mem_iff.mp member)))
      (fun address _ => (list.sameHhNext address).trans (effect.sameHhNext address))
      fun address _ => (list.sameHhPrev address).trans (effect.sameHhPrev address)
    exact ⟨⟨kept.sized.numBuckets, kept.sized.buckets, kept.sized.log2NumBuckets⟩, kept.chained,
      kept.distinct, kept.inMemory, kept.hashed, kept.items⟩
  have bounded : BoundedTable middle { tbl with tail := add } := by
    intro few
    rw [length_of_map elements] at few
    exact intact.bounded few
  have small : log2 + 1 < 32 := by
    rw [filled.sized.numBuckets] at room
    have below := (Nat.pow_lt_pow_iff_right (by omega)).mp room
    omega
  have distinct : added.Nodup := perm.nodup_iff.mp filled.distinct
  have listed : Linked (nextOf middle) (prevOf middle) (some head) (added ++ [add]) := by
    rcases List.eq_nil_or_concat' added with rfl | ⟨front, last, rfl⟩
    · exact absurd tailMember List.not_mem_nil
    · have isTail : last = tbl.tail := by
        have ends := intact.last
        rwa [List.getLast?_concat, Option.some.injEq] at ends
      subst last
      rw [List.append_assoc]
      refine intact.listed.concat fresh distinct ?_ list.toNew list.toNone ?_ list.toLast
      · intro address member notTail
        rw [list.sameNext address (fun same => fresh (same ▸ member)) notTail,
          effect.sameNext address]
      · intro address member
        rw [list.samePrev address (fun same => fresh (same ▸ member)), effect.samePrev address]
  rcases valid_of_hashAddToTable filledMiddle perm bounded small fresh keyed listed rfl with
    ⟨after, later, ran, kept, same⟩
  refine ⟨⟨after, some (head, later)⟩, ?_, kept, same.trans elements⟩
  rw [hashAdd]
  simp only [found, Option.bind_eq_bind, Option.bind_some, storing, appended]
  rw [hashval, ran]
  rfl

/-- Every addition keeps the table in order. -/
theorem hashAdd_spec {hash : Hash Element} (valid : Valid keying hash added)
    (fresh : add ∉ added) (inside : add < hash.memory.length) (room : CanExpand hash) :
    ∃ after, hashAdd keying hash add = some after ∧ Valid keying after (added ++ [add]) ∧
      after.memory.map Node.element = hash.memory.map Node.element := by
  rcases hash with ⟨memory, root⟩
  cases root with
  | none =>
      rw [show added = [] from valid.table]
      exact hashAdd_first inside
  | some root =>
      exact hashAdd_next valid fresh inside (room root rfl)

/-! ## The integrity check -/

/-- Going along a list that is linked both ways finds every back link right and counts the
elements. -/
theorem fsckLink_walk {next : Address → Option Address} {back : UtHashHandle → Option Address}
    {link : Option Address} {addresses : List Address}
    (linked : Linked next (fun address => (handleAt memory address).bind back) link addresses)
    (distinct : addresses.Nodup) (inMemory : ∀ address ∈ addresses, address < memory.length) :
    ∃ prev, walk (fun _ => next) (fsckLink back memory) memory.length (none, 0) link =
      some (prev, UInt32.ofNat addresses.length) := by
  have enough := length_le_of_lt distinct inMemory
  have counted : ∃ state, walk (fun _ => next) (fsckLink back memory) memory.length (none, 0)
      link = some state ∧
        state = (addresses.getLast?, UInt32.ofNat addresses.length) := by
    refine walk_rule
      (fun visited state => state = (visited.getLast?, UInt32.ofNat visited.length)) []
      linked.forward enough rfl ?_
    rintro front address rest _ split behind rfl
    obtain ⟨hh, found⟩ := handleAt_of_lt (inMemory address (by simp [split]))
    have backLink : back hh = front.getLast? := by
      have prev := (split ▸ linked.backward).prev_eq
      rwa [found, Option.or_none] at prev
    refine ⟨(some address, UInt32.ofNat front.length + 1), ?_, ?_, behind⟩
    · simp [fsckLink, found, backLink]
    · simp [uint32_ofNat_succ]
  rcases counted with ⟨state, walked, rfl⟩
  exact ⟨_, walked⟩

/-- The check passes on every table that is in order. -/
theorem hashFsck_passes {hash : Hash Element} (valid : Valid keying hash added) :
    hashFsck hash = some () := by
  rcases hash with ⟨memory, root⟩
  cases root with
  | none => rfl
  | some root =>
      rcases root with ⟨head, tbl⟩
      have intact : Intact keying memory head tbl added := valid.table
      rcases intact.filled with ⟨log2, order, filled, perm⟩
      have total : (allChains (slot (hashOf keying memory) (2 ^ log2)) order (2 ^ log2)).length =
          added.length := by
        refine (allChains_perm filled.distinct ?_).length_eq.trans perm.length_eq
        exact fun address _ => Nat.mod_lt _ (Nat.two_pow_pos log2)
      have buckets : ∃ count, (List.range tbl.numBuckets.toNat).foldlM (fsckBucket memory tbl) 0 =
          some count ∧ count = UInt32.ofNat
            (allChains (slot (hashOf keying memory) (2 ^ log2)) order (2 ^ log2)).length := by
        rw [← filled.sized.numBuckets]
        refine foldlM_range_rule (fun bktI count => count = UInt32.ofNat
          (allChains (slot (hashOf keying memory) tbl.numBuckets.toNat) order bktI).length) rfl ?_
        rintro bktI _ inRange rfl
        obtain ⟨bucket, found⟩ : ∃ bucket, tbl.buckets[bktI]? = some bucket := by
          have inBuckets : bktI < tbl.buckets.length := by
            rwa [filled.sized.buckets, ← filled.sized.numBuckets]
          exact ⟨_, List.getElem?_eq_getElem inBuckets⟩
        have chained := filled.chained
        rw [← filled.sized.numBuckets] at chained
        obtain ⟨prev, walked⟩ := fsckLink_walk (chained.linked bktI bucket found)
          (nodup_bucketChain filled.distinct _)
          fun address member => filled.inMemory address (mem_bucketChain.mp member).1
        refine ⟨_, ?_, rfl⟩
        rw [fsckBucket, found]
        simp only [Option.bind_eq_bind, Option.bind_some, walked]
        rw [if_pos (chained.counted bktI bucket found), allChains_succ, List.length_append,
          UInt32.ofNat_add]
        rfl
      rcases buckets with ⟨count, counted, rfl⟩
      obtain ⟨prev, walked⟩ := fsckLink_walk intact.listed (perm.nodup_iff.mp filled.distinct)
        fun address member => filled.inMemory address (perm.mem_iff.mpr member)
      have items : tbl.numItems = UInt32.ofNat added.length := by
        rw [filled.items, perm.length_eq]
      rw [hashFsck]
      simp only [counted, Option.bind_eq_bind, Option.bind_some, total, items, walked, if_true]
      rfl

end MultiMaster.LockTable.UtHash
