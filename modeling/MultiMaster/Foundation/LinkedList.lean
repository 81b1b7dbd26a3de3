import Mathlib.Data.List.Basic
import Mathlib.Data.List.Induction
import Mathlib.Data.List.Nodup
import Mathlib.Data.List.Perm.Basic

/-!
# Linked lists in memory

A field of the cells in memory is a function from addresses to links.  A chain is what is
visited by following such links to the end; in a doubly linked list every cell also points
back to the one before it.

Loops along a chain read the next link before their body runs, and are bounded by a number
of rounds.  The rule for such loops gives both: that the rounds are enough and what holds
at the end.
-/

namespace MultiMaster.Foundation

universe u v

variable {Address : Type u}

/-! ## Chains -/

/-- Following `next` from a link visits the addresses one after another and ends there. -/
def Chain (next : Address → Option Address) : Option Address → List Address → Prop
  | link, [] => link = none
  | link, address :: rest => link = some address ∧ Chain next (next address) rest

/-- Every address points back to the one before it. -/
def Backed (prev : Address → Option Address) : Option Address → List Address → Prop
  | _, [] => True
  | before, address :: rest => prev address = before ∧ Backed prev (some address) rest

/-- A doubly linked list. -/
structure Linked (next prev : Address → Option Address) (first : Option Address)
    (addresses : List Address) : Prop where
  forward : Chain next first addresses
  backward : Backed prev none addresses

section Chains

variable {next next' prev prev' : Address → Option Address} {first before : Option Address}
variable {addresses : List Address}

theorem Chain.congr (chain : Chain next first addresses)
    (same : ∀ address ∈ addresses, next' address = next address) :
    Chain next' first addresses := by
  induction addresses generalizing first with
  | nil => exact chain
  | cons address rest ih =>
      refine ⟨chain.1, ?_⟩
      rw [same address List.mem_cons_self]
      exact ih chain.2 fun other member => same other (List.mem_cons_of_mem _ member)

theorem Backed.congr (backed : Backed prev before addresses)
    (same : ∀ address ∈ addresses, prev' address = prev address) :
    Backed prev' before addresses := by
  induction addresses generalizing before with
  | nil => trivial
  | cons address rest ih =>
      refine ⟨(same address List.mem_cons_self).trans backed.1, ?_⟩
      exact ih backed.2 fun other member => same other (List.mem_cons_of_mem _ member)

/-- Changes elsewhere leave a list as it is. -/
theorem Linked.congr (linked : Linked next prev first addresses)
    (sameNext : ∀ address ∈ addresses, next' address = next address)
    (samePrev : ∀ address ∈ addresses, prev' address = prev address) :
    Linked next' prev' first addresses :=
  ⟨linked.forward.congr sameNext, linked.backward.congr samePrev⟩

theorem linked_nil : Linked next prev none ([] : List Address) := ⟨rfl, trivial⟩

/-- The link to a list is the address at its front. -/
theorem Chain.head? (chain : Chain next first addresses) : addresses.head? = first := by
  cases addresses with
  | nil => exact chain.symm
  | cons address rest => exact chain.1.symm

/-- Linking a cell in front of a list. -/
theorem Linked.push {address : Address} (linked : Linked next prev first addresses)
    (distinct : addresses.Nodup) (toFirst : next' address = first)
    (fromNone : prev' address = none)
    (sameNext : ∀ other ∈ addresses, next' other = next other)
    (backTo : ∀ head, first = some head → prev' head = some address)
    (samePrev : ∀ other ∈ addresses, first ≠ some other → prev' other = prev other) :
    Linked next' prev' (some address) (address :: addresses) := by
  refine ⟨⟨rfl, toFirst ▸ linked.forward.congr sameNext⟩, fromNone, ?_⟩
  cases addresses with
  | nil => trivial
  | cons head rest =>
      have front : first = some head := linked.forward.1
      refine ⟨backTo head front, linked.backward.2.congr ?_⟩
      intro other member
      refine samePrev other (List.mem_cons_of_mem _ member) ?_
      rw [front]
      rintro ⟨⟩
      exact (List.nodup_cons.mp distinct).1 member

/-- An address points back to the one visited before it. -/
theorem Backed.prev_eq {address : Address} {rest : List Address}
    (backed : Backed prev before (addresses ++ address :: rest)) :
    prev address = addresses.getLast?.or before := by
  induction addresses generalizing before with
  | nil => exact backed.1
  | cons head tail ih =>
      rw [ih backed.2, List.getLast?_cons]
      cases tail.getLast? with
      | none => rfl
      | some last => rfl

theorem Chain.concat {last address : Address}
    (chain : Chain next first (addresses ++ [last])) (fresh : address ∉ addresses ++ [last])
    (distinct : (addresses ++ [last]).Nodup)
    (sameNext : ∀ other ∈ addresses ++ [last], other ≠ last → next' other = next other)
    (toNew : next' last = some address) (toNone : next' address = none) :
    Chain next' first (addresses ++ [last, address]) := by
  induction addresses generalizing first with
  | nil =>
      refine ⟨chain.1, toNew, ?_⟩
      rw [toNone]
      rfl
  | cons head rest ih =>
      have apart : head ≠ last := by
        rintro rfl
        exact (List.nodup_cons.mp distinct).1 (by simp)
      refine ⟨chain.1, ?_⟩
      rw [sameNext head (by simp) apart]
      exact ih chain.2 (fun member => fresh (List.mem_cons_of_mem _ member))
        (List.nodup_cons.mp distinct).2
        fun other member => sameNext other (List.mem_cons_of_mem _ member)

theorem Backed.concat {last address : Address}
    (backed : Backed prev before (addresses ++ [last]))
    (samePrev : ∀ other ∈ addresses ++ [last], prev' other = prev other)
    (toLast : prev' address = some last) :
    Backed prev' before (addresses ++ [last, address]) := by
  induction addresses generalizing before with
  | nil => exact ⟨(samePrev last (by simp)).trans backed.1, toLast, trivial⟩
  | cons head rest ih =>
      refine ⟨(samePrev head (by simp)).trans backed.1, ?_⟩
      exact ih backed.2 fun other member => samePrev other (List.mem_cons_of_mem _ member)

/-- Linking a cell behind the last one of a list. -/
theorem Linked.concat {last address : Address}
    (linked : Linked next prev first (addresses ++ [last]))
    (fresh : address ∉ addresses ++ [last]) (distinct : (addresses ++ [last]).Nodup)
    (sameNext : ∀ other ∈ addresses ++ [last], other ≠ last → next' other = next other)
    (toNew : next' last = some address) (toNone : next' address = none)
    (samePrev : ∀ other ∈ addresses ++ [last], prev' other = prev other)
    (toLast : prev' address = some last) :
    Linked next' prev' first (addresses ++ [last, address]) :=
  ⟨linked.forward.concat fresh distinct sameNext toNew toNone,
    linked.backward.concat samePrev toLast⟩

/-- A list with a cell taken out begins where it did, or behind the cell. -/
theorem Chain.remove {front back : List Address} {address : Address}
    (chain : Chain next first (front ++ address :: back))
    (distinct : (front ++ address :: back).Nodup)
    (skip : ∀ last, front.getLast? = some last → next' last = next address)
    (sameNext : ∀ other ∈ front ++ back, front.getLast? ≠ some other →
      next' other = next other) :
    Chain next' (if front = [] then next address else first) (front ++ back) := by
  induction front generalizing first with
  | nil =>
      rw [if_pos rfl]
      exact chain.2.congr fun other member => sameNext other member (by simp)
  | cons head tail ih =>
      rw [if_neg (by simp)]
      refine ⟨chain.1, ?_⟩
      cases tail with
      | nil =>
          have toBack := chain.2.2.congr fun other member =>
            sameNext other (List.mem_cons_of_mem _ member) (by
              rintro ⟨⟩
              exact (List.nodup_cons.mp distinct).1 (List.mem_cons_of_mem _ member))
          rw [skip head rfl]
          exact toBack
      | cons second rest =>
          have ends : (head :: second :: rest).getLast? = (second :: rest).getLast? :=
            List.getLast?_cons_cons
          have later := ih chain.2 (List.nodup_cons.mp distinct).2
            (fun last isLast => skip last (ends.trans isLast))
            fun other member notLast => sameNext other (List.mem_cons_of_mem _ member)
              (ends ▸ notLast)
          rw [if_neg (by simp)] at later
          rw [sameNext head (by simp) (by
            rw [ends]
            intro isLast
            exact (List.nodup_cons.mp distinct).1
              (List.mem_append_left _ (List.mem_of_getLast? isLast)))]
          exact later

theorem Backed.remove {front back : List Address} {address : Address}
    (backed : Backed prev before (front ++ address :: back))
    (distinct : (front ++ address :: back).Nodup)
    (skip : ∀ head, back.head? = some head → prev' head = prev address)
    (samePrev : ∀ other ∈ front ++ back, back.head? ≠ some other →
      prev' other = prev other) :
    Backed prev' before (front ++ back) := by
  induction front generalizing before with
  | nil =>
      cases back with
      | nil => trivial
      | cons head rest =>
          refine ⟨(skip head rfl).trans backed.1, backed.2.2.congr ?_⟩
          intro other member
          refine samePrev other (List.mem_cons_of_mem _ member) ?_
          rintro ⟨⟩
          exact (List.nodup_cons.mp (List.nodup_cons.mp distinct).2).1 member
  | cons head tail ih =>
      refine ⟨(samePrev head (by simp) ?_).trans backed.1, ?_⟩
      · intro isHead
        exact (List.nodup_cons.mp distinct).1 (List.mem_append_right _
          (List.mem_cons_of_mem _ (List.mem_of_mem_head? isHead)))
      · exact ih backed.2 (List.nodup_cons.mp distinct).2
          fun other member => samePrev other (List.mem_cons_of_mem _ member)

/-- Taking a cell out of a list. -/
theorem Linked.remove {front back : List Address} {address : Address}
    (linked : Linked next prev first (front ++ address :: back))
    (distinct : (front ++ address :: back).Nodup)
    (skipNext : ∀ last, front.getLast? = some last → next' last = next address)
    (sameNext : ∀ other ∈ front ++ back, front.getLast? ≠ some other →
      next' other = next other)
    (skipPrev : ∀ head, back.head? = some head → prev' head = prev address)
    (samePrev : ∀ other ∈ front ++ back, back.head? ≠ some other →
      prev' other = prev other) :
    Linked next' prev' (if front = [] then next address else first) (front ++ back) :=
  ⟨linked.forward.remove distinct skipNext sameNext,
    linked.backward.remove distinct skipPrev samePrev⟩

/-- The links of a cell lead to its neighbours. -/
theorem Linked.neighbours {front back : List Address} {address : Address}
    (linked : Linked next prev first (front ++ address :: back)) :
    prev address = front.getLast? ∧ next address = back.head? := by
  constructor
  · rw [linked.backward.prev_eq, Option.or_none]
  · have chain := linked.forward
    clear linked
    induction front generalizing first with
    | nil => exact chain.2.head?.symm
    | cons head tail ih => exact ih chain.2

end Chains

/-! ## Loops along a chain -/

section Loops

variable {State : Type v}

/-- `while (link) { link' = link->next; body(link); link = link'; }`, for at most so many
rounds.  A body without a result ends the program. -/
def walk (next : State → Address → Option Address) (body : State → Address → Option State) :
    Nat → State → Option Address → Option State
  | _, state, none => some state
  | 0, _, some _ => none
  | rounds + 1, state, some address => do
      let after ← body state address
      walk next body rounds after (next state address)

variable {next : State → Address → Option Address} {body : State → Address → Option State}

/-- The rule for loops along a chain: the body keeps what holds of the addresses visited so
far, and leaves the rest of the chain in place. -/
theorem walk_rule (inv : List Address → State → Prop) (visited : List Address)
    {addresses : List Address} {state : State} {link : Option Address} {rounds : Nat}
    (chain : Chain (next state) link addresses) (enough : addresses.length ≤ rounds)
    (initial : inv visited state)
    (step : ∀ front address rest state, addresses = front ++ address :: rest →
      Chain (next state) (next state address) rest → inv (visited ++ front) state →
      ∃ after, body state address = some after ∧ inv (visited ++ front ++ [address]) after ∧
        Chain (next after) (next state address) rest) :
    ∃ after, walk next body rounds state link = some after ∧
      inv (visited ++ addresses) after := by
  induction addresses generalizing visited state link rounds with
  | nil =>
      rw [show link = none from chain, List.append_nil]
      exact ⟨state, by cases rounds <;> rfl, initial⟩
  | cons address rest ih =>
      cases rounds with
      | zero => simp at enough
      | succ rounds =>
          rcases step [] address rest state rfl chain.2 (by simpa using initial) with
            ⟨middle, ran, kept, left⟩
          have later := ih (visited ++ [address]) left (by simpa using enough)
            (by simpa using kept) (by
              intro front other tail current split behind holds
              have whole : address :: rest = (address :: front) ++ other :: tail := by
                rw [split, List.cons_append]
              simpa using step (address :: front) other tail current whole behind
                (by simpa using holds))
          rcases later with ⟨after, walked, holds⟩
          refine ⟨after, ?_, by simpa using holds⟩
          rw [chain.1, walk, ran]
          exact walked

/-- The rule for loops that count up: the body keeps what holds after so many rounds. -/
theorem foldlM_range_rule (inv : Nat → State → Prop) {body : State → Nat → Option State}
    {size : Nat} {state : State} (initial : inv 0 state)
    (step : ∀ index state, index < size → inv index state →
      ∃ after, body state index = some after ∧ inv (index + 1) after) :
    ∃ after, (List.range size).foldlM body state = some after ∧ inv size after := by
  induction size with
  | zero => exact ⟨state, rfl, initial⟩
  | succ size ih =>
      rcases ih fun index state inside => step index state (by omega) with ⟨middle, ran, holds⟩
      rcases step size middle (by omega) holds with ⟨after, last, kept⟩
      refine ⟨after, ?_, kept⟩
      rw [List.range_succ, List.foldlM_append, ran]
      simp [last]

/-- The first address of a chain that passes a test, in at most so many rounds.  A test
without a result ends the program. -/
def searchChain (next : Address → Option Address) (test : Address → Option Bool) :
    Nat → Option Address → Option (Option Address)
  | _, none => some none
  | 0, some _ => none
  | rounds + 1, some address =>
      (test address).bind fun passed =>
        if passed then some (some address) else searchChain next test rounds (next address)

/-- The search is the one through the list of addresses. -/
theorem searchChain_eq {next : Address → Option Address} {test : Address → Option Bool}
    {decide : Address → Bool} {addresses : List Address} {link : Option Address} {rounds : Nat}
    (chain : Chain next link addresses) (enough : addresses.length ≤ rounds)
    (defined : ∀ address ∈ addresses, test address = some (decide address)) :
    searchChain next test rounds link = some (addresses.find? decide) := by
  induction addresses generalizing link rounds with
  | nil =>
      rw [show link = none from chain]
      cases rounds <;> rfl
  | cons address rest ih =>
      cases rounds with
      | zero => simp at enough
      | succ rounds =>
          have later := ih chain.2 (by simpa using enough) fun other member =>
            defined other (List.mem_cons_of_mem _ member)
          rw [chain.1, searchChain, defined address List.mem_cons_self]
          cases accepted : decide address with
          | true => simp [accepted]
          | false => simpa [accepted] using later

end Loops

/-! ## Chains of a hash table -/

section Buckets

variable {bucketOf : Address → Nat}

/-- The chain of a bucket, when every address was put in front of the chain of its own
bucket, in the given order. -/
def bucketChain (bucketOf : Address → Nat) (order : List Address) (bucket : Nat) :
    List Address :=
  (order.filter fun address => bucketOf address = bucket).reverse

@[simp] theorem mem_bucketChain {order : List Address} {bucket : Nat} {address : Address} :
    address ∈ bucketChain bucketOf order bucket ↔ address ∈ order ∧ bucketOf address = bucket := by
  simp [bucketChain]

theorem nodup_bucketChain {order : List Address} (distinct : order.Nodup) (bucket : Nat) :
    (bucketChain bucketOf order bucket).Nodup :=
  List.nodup_reverse.mpr (distinct.filter _)

theorem bucketChain_concat_self (order : List Address) (address : Address) :
    bucketChain bucketOf (order ++ [address]) (bucketOf address) =
      address :: bucketChain bucketOf order (bucketOf address) := by
  simp [bucketChain]

theorem bucketChain_concat_ne {order : List Address} {address : Address} {bucket : Nat}
    (other : bucket ≠ bucketOf address) :
    bucketChain bucketOf (order ++ [address]) bucket = bucketChain bucketOf order bucket := by
  simp [bucketChain, other.symm]

/-- Taking an address out leaves the chain of its bucket without it. -/
theorem bucketChain_erase [DecidableEq Address] {order : List Address} (distinct : order.Nodup)
    (address : Address) (bucket : Nat) :
    bucketChain bucketOf (order.erase address) bucket =
      (bucketChain bucketOf order bucket).erase address := by
  rw [(nodup_bucketChain distinct bucket).erase_eq_filter, distinct.erase_eq_filter, bucketChain,
    bucketChain, List.filter_reverse, List.filter_comm]

/-- The chains of all buckets one after another. -/
def allChains (bucketOf : Address → Nat) (order : List Address) (size : Nat) : List Address :=
  (List.range size).flatMap (bucketChain bucketOf order)

theorem allChains_succ (order : List Address) (size : Nat) :
    allChains bucketOf order (size + 1) =
      allChains bucketOf order size ++ bucketChain bucketOf order size := by
  rw [allChains, List.range_succ, List.flatMap_append, List.flatMap_singleton]
  rfl

theorem mem_allChains {order : List Address} {size : Nat} {address : Address} :
    address ∈ allChains bucketOf order size ↔ address ∈ order ∧ bucketOf address < size := by
  rw [allChains, List.mem_flatMap]
  constructor
  · rintro ⟨bucket, inRange, member⟩
    rcases mem_bucketChain.mp member with ⟨inOrder, rfl⟩
    exact ⟨inOrder, List.mem_range.mp inRange⟩
  · rintro ⟨inOrder, inside⟩
    exact ⟨bucketOf address, List.mem_range.mpr inside, mem_bucketChain.mpr ⟨inOrder, rfl⟩⟩

theorem nodup_allChains {order : List Address} (distinct : order.Nodup) (size : Nat) :
    (allChains bucketOf order size).Nodup := by
  refine List.nodup_flatMap.mpr ⟨fun bucket _ => nodup_bucketChain distinct bucket, ?_⟩
  refine List.nodup_range.pairwise_of_forall_ne ?_
  intro first _ second _ different
  refine List.disjoint_left.mpr ?_
  intro address inFirst inSecond
  exact different ((mem_bucketChain.mp inFirst).2.symm.trans (mem_bucketChain.mp inSecond).2)

/-- Every address is in one chain, once. -/
theorem allChains_perm {order : List Address} {size : Nat} (distinct : order.Nodup)
    (inside : ∀ address ∈ order, bucketOf address < size) :
    (allChains bucketOf order size).Perm order := by
  refine (List.perm_ext_iff_of_nodup (nodup_allChains distinct size) distinct).mpr ?_
  intro address
  rw [mem_allChains]
  exact and_iff_left_of_imp (inside address)

end Buckets

end MultiMaster.Foundation
