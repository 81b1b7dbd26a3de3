import Mathlib.Data.List.AList
import Mathlib.Data.List.Induction

/-!
# Maps filled by assignments

A map that is filled by assignments holds for each key the value that was assigned last.
Where the assignments are read from other values one after another, they can all be read
before the first of them is made.
-/

namespace MultiMaster.Foundation

universe u v w

variable {Key : Type u} {Value : Type v} [DecidableEq Key]

/-- The value of the last entry of a key. -/
def lastEntry (entries : List (Key × Value)) (key : Key) : Option Value :=
  entries.reverse.lookup key

@[simp] theorem lastEntry_nil (key : Key) : lastEntry ([] : List (Key × Value)) key = none := rfl

theorem lastEntry_concat (entries : List (Key × Value)) (entry : Key × Value) (key : Key) :
    lastEntry (entries ++ [entry]) key =
      if key = entry.1 then some entry.2 else lastEntry entries key := by
  rw [lastEntry, List.reverse_append, List.reverse_singleton, List.singleton_append,
    List.lookup_cons]
  by_cases same : key = entry.1
  · rw [if_pos same, beq_iff_eq.mpr same]
  · rw [if_neg same, beq_eq_false_iff_ne.mpr same]
    rfl

/-- The values of the last entries, computed from what the entries are made of. -/
theorem lastEntry_map {Item : Type w} (items : List Item) (name : Item → Key)
    (value : Item → Value) (key : Key) :
    lastEntry (items.map fun item => (name item, value item)) key =
      (lastEntry (items.map fun item => (name item, item)) key).map value := by
  induction items using List.reverseRecOn with
  | nil => rfl
  | append_singleton items item ih =>
      rw [List.map_append, List.map_append, List.map_singleton, List.map_singleton,
        lastEntry_concat, lastEntry_concat, ih]
      by_cases same : key = name item
      · rw [if_pos same, if_pos same]
        rfl
      · rw [if_neg same, if_neg same]

/-- Assign the entries one after another. -/
def assign (map : AList fun _ : Key => Value) (entries : List (Key × Value)) :
    AList fun _ : Key => Value :=
  entries.foldl (fun map entry => map.insert entry.1 entry.2) map

@[simp] theorem assign_nil (map : AList fun _ : Key => Value) : assign map [] = map := rfl

theorem assign_concat (map : AList fun _ : Key => Value) (entries : List (Key × Value))
    (entry : Key × Value) :
    assign map (entries ++ [entry]) = (assign map entries).insert entry.1 entry.2 := by
  rw [assign, List.foldl_append]
  rfl

/-- The last assignment to a key counts. -/
theorem lookup_assign (map : AList fun _ : Key => Value) (entries : List (Key × Value))
    (key : Key) :
    (assign map entries).lookup key = (lastEntry entries key).or (map.lookup key) := by
  induction entries using List.reverseRecOn with
  | nil => rfl
  | append_singleton entries entry ih =>
      rw [assign_concat, lastEntry_concat]
      by_cases same : key = entry.1
      · rw [if_pos same, same, AList.lookup_insert]
        rfl
      · rw [if_neg same, AList.lookup_insert_ne same, ih]

theorem lookup_assign_empty (entries : List (Key × Value)) (key : Key) :
    (assign ∅ entries).lookup key = lastEntry entries key := by
  rw [lookup_assign, AList.lookup_empty, Option.or_none]

section Reading

variable {Item : Type u} {Entry : Type v} {State : Type w}

/-- A loop that reads each item and puts what it has read into the state reads all items or
fails. -/
theorem foldlM_read {enter : State → Item → Option State} {read : Item → Option Entry}
    {put : State → Entry → State}
    (reads : ∀ state item, enter state item = (read item).map (put state))
    (items : List Item) (start : State) :
    items.foldlM enter start = (items.mapM read).map (List.foldl put start) := by
  induction items generalizing start with
  | nil => rfl
  | cons item rest ih =>
      rw [List.foldlM_cons, List.mapM_cons, reads]
      cases read item with
      | none => rfl
      | some entry =>
          change rest.foldlM enter (put start entry) = _
          rw [ih]
          cases rest.mapM read with
          | none => rfl
          | some entries => rfl

end Reading

end MultiMaster.Foundation
