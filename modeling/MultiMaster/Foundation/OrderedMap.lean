import Mathlib.Order.Lattice
import Mathlib.Data.List.Pairwise

/-!
# Maps that iterate in the order of their keys

The entries of a map are kept sorted, so that a key has at most one value and
iteration visits the keys in ascending order.
-/

namespace MultiMaster.Foundation

universe u v

variable {Key : Type u} {Value : Type v} [LinearOrder Key]

/-- Put an entry where its key belongs, in the place of an entry of that key. -/
def insertEntry (key : Key) (value : Value) : List (Key × Value) → List (Key × Value)
  | [] => [(key, value)]
  | entry :: rest =>
      if key < entry.1 then (key, value) :: entry :: rest
      else if entry.1 = key then (key, value) :: rest
      else entry :: insertEntry key value rest

/-- The value of the first entry of a key. -/
def lookupEntry (key : Key) : List (Key × Value) → Option Value
  | [] => none
  | entry :: rest => if entry.1 = key then some entry.2 else lookupEntry key rest

theorem mem_insertEntry {key : Key} {value : Value} {entries : List (Key × Value)}
    {entry : Key × Value} (member : entry ∈ insertEntry key value entries) :
    entry = (key, value) ∨ entry ∈ entries := by
  induction entries with
  | nil => exact .inl (List.mem_singleton.mp member)
  | cons first rest ih =>
      rw [insertEntry] at member
      split_ifs at member with before same
      · exact List.mem_cons.mp member
      · rcases List.mem_cons.mp member with new | old
        · exact .inl new
        · exact .inr (List.mem_cons_of_mem _ old)
      · rcases List.mem_cons.mp member with head | tail
        · exact .inr (head ▸ List.mem_cons_self)
        · rcases ih tail with new | old
          · exact .inl new
          · exact .inr (List.mem_cons_of_mem _ old)

theorem sorted_insertEntry (key : Key) (value : Value) {entries : List (Key × Value)}
    (sorted : entries.Pairwise fun first second => first.1 < second.1) :
    (insertEntry key value entries).Pairwise fun first second => first.1 < second.1 := by
  induction entries with
  | nil => exact List.pairwise_singleton _ _
  | cons entry rest ih =>
      rcases List.pairwise_cons.mp sorted with ⟨least, tail⟩
      rw [insertEntry]
      split_ifs with before same
      · refine List.pairwise_cons.mpr ⟨?_, sorted⟩
        intro other member
        rcases List.mem_cons.mp member with rfl | later
        · exact before
        · exact before.trans (least other later)
      · subst same
        exact List.pairwise_cons.mpr ⟨least, tail⟩
      · refine List.pairwise_cons.mpr ⟨?_, ih tail⟩
        intro other member
        rcases mem_insertEntry member with rfl | later
        · exact lt_of_le_of_ne (not_lt.mp before) same
        · exact least other later

theorem lookupEntry_eq_none {key : Key} {entries : List (Key × Value)}
    (missing : ∀ entry ∈ entries, entry.1 ≠ key) : lookupEntry key entries = none := by
  induction entries with
  | nil => rfl
  | cons entry rest ih =>
      rw [lookupEntry, if_neg (missing entry List.mem_cons_self)]
      exact ih fun later member => missing later (List.mem_cons_of_mem _ member)

theorem find?_insertEntry {key : Key} {value old : Value} {entries : List (Key × Value)}
    {found : Key × Value → Bool}
    (sorted : entries.Pairwise fun first second => first.1 < second.1)
    (present : lookupEntry key entries = some old)
    (alike : found (key, value) = found (key, old)) :
    (insertEntry key value entries).find? found =
      (entries.find? found).map fun entry =>
        if entry.1 = key then (key, value) else entry := by
  induction entries with
  | nil => simp [lookupEntry] at present
  | cons entry rest ih =>
      rcases List.pairwise_cons.mp sorted with ⟨least, tail⟩
      rw [lookupEntry] at present
      by_cases same : entry.1 = key
      · rcases entry with ⟨first, current⟩
        cases same
        rw [if_pos rfl] at present
        cases present
        have others : ∀ later ∈ rest, ¬later.1 = first :=
          fun later member => (ne_of_lt (least later member)).symm
        simp only [insertEntry, lt_irrefl, if_false, if_true, List.find?_cons, alike]
        cases found (first, current) with
        | true => simp
        | false =>
            cases search : rest.find? found with
            | none => rfl
            | some later =>
                have member := List.mem_of_find?_eq_some search
                simp [others later member]
      · rw [if_neg same] at present
        have behind : ¬key < entry.1 := by
          intro before
          have absent : lookupEntry key rest = none := lookupEntry_eq_none
            fun later member => (ne_of_lt (before.trans (least later member))).symm
          rw [absent] at present
          cases present
        rw [insertEntry, if_neg behind, if_neg same, List.find?_cons, List.find?_cons]
        cases found entry with
        | true => simp [same]
        | false => exact ih tail present

/-- An entry of a key that is there takes the place of the old one. -/
theorem insertEntry_present {key : Key} {value : Value} {entries : List (Key × Value)}
    (sorted : entries.Pairwise fun first second => first.1 < second.1)
    (present : ∃ entry ∈ entries, entry.1 = key) :
    insertEntry key value entries =
      entries.map fun entry => if entry.1 = key then (key, value) else entry := by
  induction entries with
  | nil =>
      rcases present with ⟨entry, member, _⟩
      cases member
  | cons entry rest ih =>
      rcases List.pairwise_cons.mp sorted with ⟨least, tail⟩
      by_cases same : entry.1 = key
      · have others : rest.map (fun later => if later.1 = key then (key, value) else later) =
            rest := by
          rw [List.map_congr_left (g := id), List.map_id]
          intro later member
          exact if_neg fun equal => ne_of_lt (least later member) (same.trans equal.symm)
        rw [insertEntry, if_neg (by rw [same]; exact lt_irrefl key), if_pos same, List.map_cons,
          if_pos same, others]
      · rcases present with ⟨found, member, sameKey⟩
        rcases List.mem_cons.mp member with rfl | later
        · exact absurd sameKey same
        · have behind : ¬key < entry.1 := by
            rw [← sameKey]
            exact not_lt_of_gt (least found later)
          rw [insertEntry, if_neg behind, if_neg same, List.map_cons, if_neg same,
            ih tail ⟨found, later, sameKey⟩]

theorem lookupEntry_eq_some_iff {key : Key} {value : Value} {entries : List (Key × Value)}
    (sorted : entries.Pairwise fun first second => first.1 < second.1) :
    lookupEntry key entries = some value ↔ (key, value) ∈ entries := by
  induction entries with
  | nil => simp [lookupEntry]
  | cons entry rest ih =>
      rcases List.pairwise_cons.mp sorted with ⟨least, tail⟩
      rw [lookupEntry]
      by_cases same : entry.1 = key
      · rw [if_pos same, List.mem_cons, Option.some.injEq]
        constructor
        · intro equal
          exact .inl (Prod.ext same.symm equal.symm)
        · intro member
          rcases member with head | later
          · rw [← head]
          · exact absurd same (ne_of_lt (least _ later))
      · rw [if_neg same, ih tail, List.mem_cons]
        constructor
        · exact .inr
        · intro member
          rcases member with head | later
          · exact absurd (by rw [← head]) same
          · exact later

/-- An entry with a new largest key goes to the end. -/
theorem insertEntry_last {key : Key} {value : Value} {entries : List (Key × Value)}
    (last : ∀ entry ∈ entries, entry.1 < key) :
    insertEntry key value entries = entries ++ [(key, value)] := by
  induction entries with
  | nil => rfl
  | cons entry rest ih =>
      have before := last entry List.mem_cons_self
      rw [insertEntry, if_neg (not_lt_of_gt before), if_neg (ne_of_lt before),
        ih fun later member => last later (List.mem_cons_of_mem _ member)]
      rfl

/-- A map as its sorted entries. -/
structure OrderedMap (Key : Type u) (Value : Type v) [LinearOrder Key] where
  entries : List (Key × Value)
  sorted : entries.Pairwise fun first second => first.1 < second.1

namespace OrderedMap

def empty : OrderedMap Key Value := ⟨[], List.Pairwise.nil⟩

def lookup (map : OrderedMap Key Value) (key : Key) : Option Value :=
  lookupEntry key map.entries

def insert (map : OrderedMap Key Value) (key : Key) (value : Value) :
    OrderedMap Key Value :=
  ⟨insertEntry key value map.entries, sorted_insertEntry key value map.sorted⟩

/-- Remove the entry of a key. -/
def erase (map : OrderedMap Key Value) (key : Key) : OrderedMap Key Value :=
  ⟨map.entries.filter fun entry => entry.1 ≠ key, map.sorted.filter _⟩

variable {map : OrderedMap Key Value} {key other : Key} {value : Value}

@[simp] theorem lookup_insert : (map.insert key value).lookup key = some value := by
  simp only [lookup, insert]
  induction map.entries with
  | nil => simp [insertEntry, lookupEntry]
  | cons entry rest ih =>
      rw [insertEntry]
      split_ifs with before same
      · simp [lookupEntry]
      · simp [lookupEntry]
      · rw [lookupEntry, if_neg same]
        exact ih

theorem lookup_insert_ne (different : other ≠ key) :
    (map.insert key value).lookup other = map.lookup other := by
  simp only [lookup, insert]
  induction map.entries with
  | nil => simp [insertEntry, lookupEntry, Ne.symm different]
  | cons entry rest ih =>
      rw [insertEntry]
      split_ifs with before same
      · simp [lookupEntry, Ne.symm different]
      · subst same
        simp [lookupEntry, Ne.symm different]
      · simp only [lookupEntry]
        rw [ih]

/-- Replacing a value by one that a search cannot tell from it does not change where
the search ends. -/
theorem find?_insert {old : Value} {found : Key × Value → Bool}
    (present : map.lookup key = some old) (alike : found (key, value) = found (key, old)) :
    (map.insert key value).entries.find? found =
      (map.entries.find? found).map fun entry =>
        if entry.1 = key then (key, value) else entry :=
  find?_insertEntry map.sorted present alike

theorem entries_insert_present (present : ∃ entry ∈ map.entries, entry.1 = key) :
    (map.insert key value).entries =
      map.entries.map fun entry => if entry.1 = key then (key, value) else entry :=
  insertEntry_present map.sorted present

theorem lookup_eq_some_iff : map.lookup key = some value ↔ (key, value) ∈ map.entries :=
  lookupEntry_eq_some_iff map.sorted

/-- All other entries are left after an entry was removed. -/
theorem lookup_erase_eq_some_iff :
    (map.erase key).lookup other = some value ↔ other ≠ key ∧ map.lookup other = some value := by
  rw [lookup_eq_some_iff, lookup_eq_some_iff, erase, List.mem_filter, decide_eq_true_iff,
    and_comm]

/-- What is left after an entry was removed was there before. -/
theorem lookup_of_erase (found : (map.erase key).lookup other = some value) :
    map.lookup other = some value :=
  (lookup_erase_eq_some_iff.mp found).2

/-- No key stands twice. -/
theorem nodup_keys (map : OrderedMap Key Value) : (map.entries.map Prod.fst).Nodup := by
  rw [List.Nodup, List.pairwise_map]
  exact map.sorted.imp ne_of_lt

theorem entries_insert_last (last : ∀ entry ∈ map.entries, entry.1 < key) :
    (map.insert key value).entries = map.entries ++ [(key, value)] :=
  insertEntry_last last

end OrderedMap

end MultiMaster.Foundation
