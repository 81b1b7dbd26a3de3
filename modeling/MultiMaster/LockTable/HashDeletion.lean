import MultiMaster.LockTable.HashIntegrity

/-!
# Deleting from the hash table

An element is taken out of the chain of its bucket and out of the list of all elements.
Both are doubly linked, so that one argument about linked cells serves for both.
-/

namespace MultiMaster.LockTable.UtHash

open Foundation

variable {Element : Type} {memory after : Memory Element} {first : Option Address}
variable {front back : List Address} {del : Address}

/-! ## Taking out of a list -/

/-- A pair of links in a handle, each of which is set without the other. -/
structure Links (getNext getPrev : UtHashHandle → Option Address)
    (setNext setPrev : Option Address → UtHashHandle → UtHashHandle) : Prop where
  next_setNext : ∀ link hh, getNext (setNext link hh) = link
  prev_setNext : ∀ link hh, getPrev (setNext link hh) = getPrev hh
  next_setPrev : ∀ link hh, getNext (setPrev link hh) = getNext hh
  prev_setPrev : ∀ link hh, getPrev (setPrev link hh) = link

variable {getNext getPrev : UtHashHandle → Option Address}
variable {setNext setPrev : Option Address → UtHashHandle → UtHashHandle}

/-- Following a field of the handles. -/
def follow (field : UtHashHandle → Option Address) (memory : Memory Element)
    (address : Address) : Option Address :=
  (handleAt memory address).bind field

theorem assignLink_spec {link : Option Address} (change : UtHashHandle → UtHashHandle)
    (inside : ∀ address, link = some address → address < memory.length) :
    ∃ after, assignLink memory link change = some after ∧
      (∀ {View : Type} {view : Node Element → View},
        (∀ element hh, view ⟨element, change hh⟩ = view ⟨element, hh⟩) →
        after.map view = memory.map view) ∧
      ∀ address, handleAt after address =
        if link = some address then (handleAt memory address).map change
        else handleAt memory address := by
  cases link with
  | none => exact ⟨memory, rfl, fun _ => rfl, fun address => by rw [if_neg (by simp)]⟩
  | some target =>
      rcases assign_of_lt (inside target rfl) change with ⟨after, assigned⟩
      refine ⟨after, assigned, map_assign assigned, ?_⟩
      intro address
      rw [handleAt_assign assigned]
      by_cases same : address = target
      · rw [if_pos same, if_pos (by rw [same])]
      · rw [if_neg same, if_neg fun isTarget => same (Option.some.inj isTarget).symm]

theorem assignLink_length {link : Option Address} {change : UtHashHandle → UtHashHandle}
    (assigned : assignLink memory link change = some after) : after.length = memory.length := by
  cases link with
  | none => rw [Option.some.inj assigned]
  | some address =>
      have same : after.map Node.element = memory.map Node.element :=
        map_assign assigned fun _ _ => rfl
      exact length_of_map same

section Follow

variable {link : Option Address} {change : UtHashHandle → UtHashHandle}
variable {field : UtHashHandle → Option Address}
variable (handles : ∀ address, handleAt after address =
  if link = some address then (handleAt memory address).map change else handleAt memory address)

include handles

theorem follow_of_same (same : ∀ hh, field (change hh) = field hh) (address : Address) :
    follow field after address = follow field memory address := by
  rw [follow, handles, follow]
  split
  · cases handleAt memory address with
    | none => rfl
    | some hh => exact same hh
  · rfl

theorem follow_of_set {address : Address} {value : Option Address}
    (inside : address < memory.length) (isTarget : link = some address)
    (set : ∀ hh, field (change hh) = value) : follow field after address = value := by
  rcases handleAt_of_lt inside with ⟨hh, found⟩
  rw [follow, handles, if_pos isTarget, found]
  exact set hh

end Follow

/-- An element is taken out of its list, and nothing but links of that list is changed. -/
theorem unlink_spec (links : Links getNext getPrev setNext setPrev)
    (linked : Linked (follow getNext memory) (follow getPrev memory) first
      (front ++ del :: back))
    (distinct : (front ++ del :: back).Nodup)
    (inMemory : ∀ address ∈ front ++ del :: back, address < memory.length) :
    ∃ after, unlink setNext setPrev memory front.getLast? back.head? = some after ∧
      Linked (follow getNext after) (follow getPrev after)
        (if front = [] then back.head? else first) (front ++ back) ∧
      (∀ other ∉ front ++ back, follow getNext after other = follow getNext memory other ∧
        follow getPrev after other = follow getPrev memory other) ∧
      ∀ {View : Type} {view : Node Element → View},
        (∀ element link hh, view ⟨element, setNext link hh⟩ = view ⟨element, hh⟩) →
        (∀ element link hh, view ⟨element, setPrev link hh⟩ = view ⟨element, hh⟩) →
        after.map view = memory.map view := by
  have lastInside : ∀ address, front.getLast? = some address → address < memory.length :=
    fun address isLast => inMemory address (List.mem_append_left _ (List.mem_of_getLast? isLast))
  rcases assignLink_spec (setNext back.head?) lastInside with
    ⟨middle, skipped, sameView, handles⟩
  have headInside : ∀ address, back.head? = some address → address < middle.length := by
    intro address isHead
    rw [assignLink_length skipped]
    exact inMemory address (List.mem_append_right _
      (List.mem_cons_of_mem _ (List.mem_of_mem_head? isHead)))
  rcases assignLink_spec (setPrev front.getLast?) headInside with
    ⟨after, joined, laterView, laterHandles⟩
  have nextAfter : ∀ address, follow getNext after address = follow getNext middle address :=
    follow_of_same laterHandles (links.next_setPrev _)
  have prevMiddle : ∀ address, follow getPrev middle address = follow getPrev memory address :=
    follow_of_same handles (links.prev_setNext _)
  have sameNext : ∀ other, front.getLast? ≠ some other →
      follow getNext after other = follow getNext memory other := by
    intro other notLast
    rw [nextAfter, follow, handles, if_neg notLast, follow]
  have samePrev : ∀ other, back.head? ≠ some other →
      follow getPrev after other = follow getPrev memory other := by
    intro other notHead
    rw [follow, laterHandles, if_neg notHead]
    exact prevMiddle other
  rcases linked.neighbours with ⟨_, toNext⟩
  refine ⟨after, ?_, ?_, ?_, ?_⟩
  · rw [unlink, skipped]
    exact joined
  · rw [← toNext]
    refine linked.remove distinct ?_ ?_ ?_ ?_
    · intro last isLast
      rw [nextAfter, toNext]
      exact follow_of_set handles (lastInside last isLast) isLast (links.next_setNext _)
    · exact fun other _ => sameNext other
    · intro head isHead
      rw [linked.neighbours.1]
      exact follow_of_set laterHandles (headInside head isHead) isHead (links.prev_setPrev _)
    · exact fun other _ => samePrev other
  · intro other outside
    rw [List.mem_append, not_or] at outside
    exact ⟨sameNext other fun isLast => outside.1 (List.mem_of_getLast? isLast),
      samePrev other fun isHead => outside.2 (List.mem_of_mem_head? isHead)⟩
  · intro View view keepsNext keepsPrev
    exact (laterView fun element hh => keepsPrev element _ hh).trans
      (sameView fun element hh => keepsNext element _ hh)

/-! ## Taking out of a bucket -/

theorem erase_middle {before behind : List Address} (distinct : (before ++ del :: behind).Nodup) :
    (before ++ del :: behind).erase del = before ++ behind := by
  have notBefore : del ∉ before := fun member =>
    (List.nodup_append.mp distinct).2.2 del member del (by simp) rfl
  rw [List.erase_append_right _ notBefore, List.erase_cons_head]

theorem uint32_ofNat_pred {size : Nat} (positive : 0 < size) :
    UInt32.ofNat size - 1 = UInt32.ofNat (size - 1) := by
  obtain ⟨smaller, rfl⟩ := Nat.exists_eq_add_of_lt positive
  rw [Nat.zero_add, uint32_ofNat_succ, Nat.add_sub_cancel, UInt32.add_sub_cancel]

variable {hashes : Address → UInt32} {tbl : UtHashTable} {log2 : Nat} {order : List Address}

/-- A deleted element leaves its bucket, with one item less in it. -/
theorem hashDelInBkt_spec (filled : Filled memory hashes tbl log2 order) (member : del ∈ order)
    {bucket : UtHashBucket} (found : tbl.buckets[slot hashes (2 ^ log2) del]? = some bucket) :
    ∃ after link, hashDelInBkt memory bucket del =
        some (after, { bucket with count := bucket.count - 1, hhHead := link }) ∧
      after.map Node.outline = memory.map Node.outline ∧
      Chained after (slot hashes (2 ^ log2))
        (tbl.buckets.set (slot hashes (2 ^ log2) del)
          { bucket with count := bucket.count - 1, hhHead := link }) (order.erase del) := by
  have linked := filled.chained.linked _ bucket found
  have counted := filled.chained.counted _ bucket found
  have chainDistinct : (bucketChain (slot hashes (2 ^ log2)) order
      (slot hashes (2 ^ log2) del)).Nodup := nodup_bucketChain filled.distinct _
  have inMemory : ∀ address ∈ bucketChain (slot hashes (2 ^ log2)) order
      (slot hashes (2 ^ log2) del), address < memory.length := fun address inChain =>
    filled.inMemory address (mem_bucketChain.mp inChain).1
  have erased : bucketChain (slot hashes (2 ^ log2)) (order.erase del)
      (slot hashes (2 ^ log2) del) = (bucketChain (slot hashes (2 ^ log2)) order
        (slot hashes (2 ^ log2) del)).erase del := bucketChain_erase filled.distinct del _
  rcases List.append_of_mem (mem_bucketChain.mpr ⟨member, rfl⟩) with ⟨before, behind, split⟩
  have inBucket : ∀ other ∈ before ++ behind,
      slot hashes (2 ^ log2) other = slot hashes (2 ^ log2) del := by
    intro other inside
    have inChain : other ∈ bucketChain (slot hashes (2 ^ log2)) order
        (slot hashes (2 ^ log2) del) := by
      rw [split]
      rcases List.mem_append.mp inside with earlier | later
      · exact List.mem_append_left _ earlier
      · exact List.mem_append_right _ (List.mem_cons_of_mem _ later)
    exact (mem_bucketChain.mp inChain).2
  rw [split] at linked counted chainDistinct inMemory erased
  rw [erase_middle chainDistinct] at erased
  have links : Links UtHashHandle.hhNext UtHashHandle.hhPrev
      (fun link hh => { hh with hhNext := link }) fun link hh => { hh with hhPrev := link } :=
    ⟨fun _ _ => rfl, fun _ _ => rfl, fun _ _ => rfl, fun _ _ => rfl⟩
  rcases unlink_spec links linked chainDistinct inMemory with
    ⟨after, unlinked, rejoined, others, views⟩
  obtain ⟨hh, handle⟩ := handleAt_of_lt (inMemory del (by simp))
  rcases linked.neighbours with ⟨prev, next⟩
  rw [hhPrevOf, handle] at prev
  rw [hhNextOf, handle] at next
  have outline : after.map Node.outline = memory.map Node.outline :=
    views (fun _ _ _ => rfl) fun _ _ _ => rfl
  have isHead : bucket.hhHead = some del ↔ before = [] := by
    have front := linked.forward.head?
    rw [← front]
    cases before with
    | nil => simp
    | cons other rest =>
        have apart : other ≠ del := by
          rintro rfl
          exact (List.nodup_cons.mp chainDistinct).1 (by simp)
        simp [apart]
  refine ⟨after, if before = [] then behind.head? else bucket.hhHead, ?_, outline, ?_, ?_⟩
  · rw [hashDelInBkt, handle]
    simp only [Option.bind_eq_bind, Option.bind_some] at prev next ⊢
    rw [prev, next, unlinked]
    simp only [isHead]
    rfl
  · intro bkt other placed
    by_cases same : bkt = slot hashes (2 ^ log2) del
    · subst bkt
      rw [List.getElem?_set_self (List.getElem?_eq_some_iff.mp found).1,
        Option.some.injEq] at placed
      rw [← placed, erased]
      exact rejoined
    · rw [List.getElem?_set_ne (Ne.symm same)] at placed
      have untouched : ∀ address ∈ bucketChain (slot hashes (2 ^ log2)) order bkt,
          address ∉ before ++ behind := fun address inChain inside =>
        same ((mem_bucketChain.mp inChain).2.symm.trans (inBucket address inside))
      have notIn : del ∉ bucketChain (slot hashes (2 ^ log2)) order bkt := fun inChain =>
        same (mem_bucketChain.mp inChain).2.symm
      rw [bucketChain_erase filled.distinct, List.erase_of_not_mem notIn]
      exact (filled.chained.linked bkt other placed).congr
        (fun address inChain => (others address (untouched address inChain)).1)
        fun address inChain => (others address (untouched address inChain)).2
  · intro bkt other placed
    by_cases same : bkt = slot hashes (2 ^ log2) del
    · subst bkt
      rw [List.getElem?_set_self (List.getElem?_eq_some_iff.mp found).1,
        Option.some.injEq] at placed
      rw [← placed, erased, counted, uint32_ofNat_pred (by simp)]
      simp
    · rw [List.getElem?_set_ne (Ne.symm same)] at placed
      have notIn : del ∉ bucketChain (slot hashes (2 ^ log2)) order bkt := fun inChain =>
        same (mem_bucketChain.mp inChain).2.symm
      rw [bucketChain_erase filled.distinct, List.erase_of_not_mem notIn]
      exact filled.chained.counted bkt other placed

/-- A bucket with less elements is bounded as it was. -/
theorem Bounded.pred {ideal : UInt32} {bucket : UtHashBucket} (bounded : Bounded ideal bucket)
    (positive : 0 < bucket.count.toNat) (link : Option Address) :
    Bounded ideal { bucket with count := bucket.count - 1, hhHead := link } := by
  have one : (1 : UInt32) ≤ bucket.count := UInt32.le_iff_toNat_le.mpr positive
  have less : (bucket.count - 1).toNat ≤ bucket.count.toNat := by
    rw [UInt32.toNat_sub_of_le _ _ one]
    exact Nat.sub_le _ _
  refine ⟨?_, bounded.2⟩
  rcases bounded.1 with capacity | length
  · exact .inl (less.trans_lt capacity)
  · exact .inr (less.trans length)

/-! ## Taking out of the table -/

/-- The last element of a list from which one was taken out. -/
theorem getLast?_remove {last : Address} (distinct : (front ++ del :: back).Nodup)
    (isLast : (front ++ del :: back).getLast? = some last) :
    (if del = last then front.getLast? else some last) = (front ++ back).getLast? := by
  cases back with
  | nil =>
      rw [List.getLast?_concat, Option.some.injEq] at isLast
      rw [if_pos isLast, List.append_nil]
  | cons second rest =>
      rw [List.getLast?_append_cons, List.getLast?_cons_cons] at isLast
      have apart : del ≠ last := by
        rintro rfl
        have behind := (List.nodup_append.mp distinct).2.1
        exact (List.nodup_cons.mp behind).1 (List.mem_of_getLast? isLast)
      rw [if_neg apart, List.getLast?_append_cons, isLast]

/-- The first element of such a list. -/
theorem head?_remove {next prev : Address → Option Address}
    (linked : Linked next prev first (front ++ del :: back)) :
    (if front = [] then back.head? else first) = (front ++ back).head? := by
  cases front with
  | nil => rfl
  | cons head tail =>
      rw [if_neg (by simp)]
      exact linked.forward.1

theorem hhNextOf_of_unlisted (same : after.map Node.unlisted = memory.map Node.unlisted)
    (address : Address) :
    hhNextOf after address = hhNextOf memory address ∧
      hhPrevOf after address = hhPrevOf memory address := by
  have here := congrArg (fun nodes : Memory Element => nodes[address]?) same
  simp only [List.getElem?_map] at here
  have next := congrArg (fun node => Option.bind node fun node : Node Element => node.hh.hhNext)
    here
  have prev := congrArg (fun node => Option.bind node fun node : Node Element => node.hh.hhPrev)
    here
  simp only [Option.bind_map] at next prev
  simp only [hhNextOf, hhPrevOf, handleAt, Option.bind_map]
  exact ⟨next, prev⟩

variable {keying : Keying Element} {hash : Hash Element} {added : List Address}

/-- Deleting an element when the table has others. -/
theorem hashDelete_left {head : Address}
    (valid : Valid keying ⟨memory, some (head, tbl)⟩ added) (split : added = front ++ del :: back)
    (others : front ++ back ≠ []) :
    ∃ after, hashDelete ⟨memory, some (head, tbl)⟩ del = some after ∧
      Valid keying after (front ++ back) ∧
      after.memory.map Node.element = memory.map Node.element := by
  subst added
  have intact : Intact keying memory head tbl (front ++ del :: back) := valid.table
  rcases intact.filled with ⟨log2, order, filled, perm⟩
  have distinct : (front ++ del :: back).Nodup := perm.nodup_iff.mp filled.distinct
  have inMemory : ∀ address ∈ front ++ del :: back, address < memory.length :=
    fun address inTable => filled.inMemory address (perm.mem_iff.mpr inTable)
  obtain ⟨hh, handle⟩ := handleAt_of_lt (inMemory del (by simp))
  rcases intact.listed.neighbours with ⟨prev, next⟩
  rw [prevOf, handle, Option.bind_some] at prev
  rw [nextOf, handle, Option.bind_some] at next
  obtain ⟨newTail, tailFound⟩ : ∃ newTail, (front ++ back).getLast? = some newTail :=
    ⟨_, List.getLast?_eq_some_getLast others⟩
  obtain ⟨newHead, headFound⟩ : ∃ newHead, (front ++ back).head? = some newHead :=
    ⟨_, List.head?_eq_some_head others⟩
  have tail := (getLast?_remove distinct intact.last).trans tailFound
  have start := (head?_remove intact.listed).trans headFound
  have links : Links UtHashHandle.next UtHashHandle.prev
      (fun link hh => { hh with next := link }) fun link hh => { hh with prev := link } :=
    ⟨fun _ _ => rfl, fun _ _ => rfl, fun _ _ => rfl, fun _ _ => rfl⟩
  rcases unlink_spec links intact.listed distinct inMemory with
    ⟨middle, unlinked, listed, _, views⟩
  have unlisted : middle.map Node.unlisted = memory.map Node.unlisted :=
    views (fun _ _ _ => rfl) fun _ _ _ => rfl
  have elements := element_of_ident (ident_of_unlisted unlisted)
  -- The links of the chains are as before.
  have filledMiddle : Filled middle (hashOf keying memory) tbl log2 order := by
    refine filled.congr (length_of_map unlisted).ge ?_
      (fun address _ => (hhNextOf_of_unlisted unlisted address).1)
      fun address _ => (hhNextOf_of_unlisted unlisted address).2
    rw [← hashOf_congr elements]
    refine Keyed.hashed fun address inOrder => ?_
    exact (valid.keyed address (perm.mem_iff.mp inOrder)).congr (ident_of_unlisted unlisted)
  have inOrder : del ∈ order := perm.mem_iff.mpr (by simp)
  obtain ⟨bucket, found⟩ : ∃ bucket,
      tbl.buckets[slot (hashOf keying memory) (2 ^ log2) del]? = some bucket := by
    refine ⟨_, List.getElem?_eq_getElem ?_⟩
    rw [filled.sized.buckets]
    exact Nat.mod_lt _ (Nat.two_pow_pos log2)
  rcases hashDelInBkt_spec filledMiddle inOrder found with ⟨after, link, ran, outline, chained⟩
  have laterElements := (element_of_ident (ident_of_outline outline)).trans elements
  have keyed : ∀ address ∈ front ++ back, Keyed keying after address := by
    intro address inTable
    refine ((valid.keyed address ?_).congr (ident_of_unlisted unlisted)).congr
      (ident_of_outline outline)
    simp only [List.mem_append, List.mem_cons] at inTable ⊢
    tauto
  refine ⟨⟨after, some (newHead, { tbl with
      tail := newTail
      numItems := tbl.numItems - 1
      buckets := tbl.buckets.set (slot (hashOf keying memory) (2 ^ log2) del)
        { bucket with count := bucket.count - 1, hhHead := link } })⟩, ?_, ⟨keyed, ?_⟩,
    laterElements⟩
  · have bkt : (hashToBkt hh.hashv tbl.numBuckets).toNat =
        slot (hashOf keying memory) (2 ^ log2) del := by
      rcases filled.hashed del inOrder with ⟨_, handled, hashv⟩
      rw [handle, Option.some.injEq] at handled
      rw [handled, hashv]
      exact hashToBkt_toNat filled.sized.numBuckets
    have noPrev : front.getLast? = none ↔ front = [] := List.getLast?_eq_none_iff
    rw [hashDelete, handle]
    simp only [Option.bind_eq_bind, Option.bind_some, prev, next, noPrev, unlinked,
      bkt, found, ran]
    by_cases isTail : del = tbl.tail
    · rw [if_pos isTail] at tail
      have notFront : front ≠ [] := by
        rintro rfl
        cases tail
      rw [if_neg notFront, Option.some.injEq] at start
      simp only [notFront, if_pos isTail, tail, start, false_and, if_false, Option.bind_some]
      rfl
    · rw [if_neg isTail, Option.some.injEq] at tail
      rw [tail] at isTail
      by_cases atFront : front = []
      · rw [if_pos atFront] at start
        simp only [if_pos atFront, tail, if_neg isTail, start, reduceCtorEq, and_false, if_false,
          Option.bind_some]
        rfl
      · rw [if_neg atFront, Option.some.injEq] at start
        simp only [atFront, tail, if_neg isTail, start, false_and, if_false]
        rfl
  · refine ⟨⟨log2, order.erase del, ?_, ?_⟩, ?_, tailFound, ?_⟩
    · rw [hashOf_congr laterElements]
      refine ⟨⟨filled.sized.numBuckets, ?_, filled.sized.log2NumBuckets⟩, chained,
        filled.distinct.erase del, ?_, ?_, ?_⟩
      · exact List.length_set.trans filled.sized.buckets
      · intro address left
        rw [length_of_map laterElements]
        exact filled.inMemory address (List.mem_of_mem_erase left)
      · refine Hashed.congr ?_ outline
        exact fun address left =>
          filledMiddle.hashed address (List.mem_of_mem_erase left)
      · rw [List.length_erase_of_mem inOrder, filled.items]
        exact uint32_ofNat_pred (List.length_pos_of_mem inOrder)
    · have erased := perm.erase del
      rwa [erase_middle distinct] at erased
    · rw [start] at listed
      exact listed.congr (fun address _ => (nextOf_of_outline outline address).1)
        fun address _ => (nextOf_of_outline outline address).2
    · intro few expands other placed
      rw [length_of_map laterElements] at few
      rcases List.mem_or_eq_of_mem_set placed with earlier | rfl
      · exact intact.bounded few expands other earlier
      · refine (intact.bounded few expands bucket (List.mem_of_getElem? found)).pred ?_ link
        have short := filled.length_chain_le (slot (hashOf keying memory) (2 ^ log2) del)
        have positive := List.length_pos_of_mem (mem_bucketChain.mpr ⟨inOrder, rfl⟩ : del ∈
          bucketChain (slot (hashOf keying memory) (2 ^ log2)) order _)
        rw [filled.chained.counted _ bucket found, UInt32.toNat_ofNat',
          Nat.mod_eq_of_lt (by simp only [fewElements] at few; omega)]
        exact positive

/-- Every deletion keeps the table in order. -/
theorem hashDelete_spec (valid : Valid keying hash added) (member : del ∈ added) :
    ∃ after, hashDelete hash del = some after ∧ Valid keying after (added.erase del) ∧
      after.memory.map Node.element = hash.memory.map Node.element := by
  rcases hash with ⟨memory, root⟩
  cases root with
  | none =>
      have empty : added = [] := valid.table
      rw [empty] at member
      cases member
  | some root =>
      rcases root with ⟨head, tbl⟩
      have intact : Intact keying memory head tbl added := valid.table
      rcases intact.filled with ⟨log2, order, filled, perm⟩
      obtain ⟨front, back, split⟩ := List.append_of_mem member
      have distinct : (front ++ del :: back).Nodup := split ▸ perm.nodup_iff.mp filled.distinct
      rw [split, erase_middle distinct]
      by_cases others : front ++ back = []
      · rcases List.append_eq_nil_iff.mp others with ⟨rfl, rfl⟩
        obtain ⟨hh, handle⟩ := handleAt_of_lt
          (filled.inMemory del (perm.mem_iff.mpr member))
        rcases (split ▸ intact.listed).neighbours with ⟨prev, next⟩
        rw [prevOf, handle, Option.bind_some] at prev
        rw [nextOf, handle, Option.bind_some] at next
        refine ⟨⟨memory, none⟩, ?_, ⟨by simp, rfl⟩, rfl⟩
        rw [hashDelete, handle]
        simp [prev, next]
      · exact hashDelete_left valid split others

end MultiMaster.LockTable.UtHash
