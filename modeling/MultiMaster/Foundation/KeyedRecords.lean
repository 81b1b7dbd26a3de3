import Mathlib.Data.Finset.Card
import Mathlib.Data.List.Nodup
import MultiMaster.Foundation.Machine

/-!
# Records that carry their keys

An intrusive table is the list of its records in the order in which they were added.  The
key of a record is part of the record, so the table itself does not keep keys apart: a
record can be added under a key that is in use, and a change to a record can change its
key.

The search may compare less than what the records are meant to be told apart by.  A record
has a name, the search compares the encoding of names, and the names that are ever asked
for are known to have different encodings.
-/

namespace MultiMaster.Foundation

universe u v w x

/-! ## Lists without repetitions -/

section Distinct

variable {Key : Type u} [DecidableEq Key]

/-- A key that was there already leaves the distinct keys as they are, a new one goes to
their end. -/
theorem eraseDups_concat (keys : List Key) (key : Key) :
    (keys ++ [key]).eraseDups =
      if key ∈ keys then keys.eraseDups else keys.eraseDups ++ [key] := by
  rw [List.eraseDups_append]
  by_cases known : key ∈ keys
  · simp [List.removeAll, known]
  · simp [List.removeAll, known, List.eraseDups_cons]

theorem nodup_eraseDups (keys : List Key) : keys.eraseDups.Nodup := by
  induction keys using List.reverseRecOn with
  | nil => exact List.nodup_nil
  | append_singleton keys key ih =>
      rw [eraseDups_concat]
      split
      · exact ih
      · next new =>
          rw [← List.concat_eq_append]
          exact ih.concat fun known => new (List.mem_eraseDups.mp known)

/-- There are as many keys left as there are different keys. -/
theorem length_eraseDups (keys : List Key) :
    keys.eraseDups.length = keys.toFinset.card := by
  rw [← List.toFinset_card_of_nodup (nodup_eraseDups keys)]
  congr 1
  ext key
  rw [List.mem_toFinset, List.mem_toFinset, List.mem_eraseDups]

end Distinct

/-! ## Searching -/

variable {Record : Type u} {Key : Type v} {keyOf : Record → Key}

/-- A search by key.  When several records have the key, any of them may be found. -/
structure KeySearch (keyOf : Record → Key) where
  find : (records : List Record) → Key → Option (Fin records.length)
  found : ∀ {records key place}, find records key = some place →
    keyOf (records.get place) = key
  missing : ∀ {records key}, find records key = none →
    ∀ record ∈ records, keyOf record ≠ key

namespace KeySearch

/-- Search from the beginning. -/
def first [DecidableEq Key] (keyOf : Record → Key) : KeySearch keyOf where
  find records key := records.findFinIdx? fun record => keyOf record = key
  found := by
    intro records key place found
    have facts := List.findFinIdx?_eq_some_iff.mp found
    simpa using facts.1
  missing := by
    intro records key missing record member
    simpa using List.findFinIdx?_eq_none_iff.mp missing record member

variable (search : KeySearch keyOf)

/-- The record that is found. -/
def lookup (records : List Record) (key : Key) : Option Record :=
  (search.find records key).map records.get

/-- Change the record of a key, or add one at the end when there is none. -/
def upsert (records : List Record) (key : Key) (change : Option Record → Record) :
    List Record :=
  match search.find records key with
  | none => records ++ [change none]
  | some place => records.set place (change (some (records.get place)))

variable {search} {records : List Record} {key : Key} {change : Option Record → Record}

theorem find_eq_none_iff : search.find records key = none ↔ key ∉ records.map keyOf := by
  constructor
  · intro missing member
    rcases List.mem_map.mp member with ⟨record, inTable, sameKey⟩
    exact search.missing missing record inTable sameKey
  · intro absent
    cases result : search.find records key with
    | none => rfl
    | some place =>
        have member := List.mem_map_of_mem (f := keyOf) (List.get_mem records place)
        rw [search.found result] at member
        exact absurd member absent

/-- Where no key stands twice, a key has one place. -/
theorem place_eq (distinct : (records.map keyOf).Nodup) {first second : Fin records.length}
    (sameKey : keyOf (records.get first) = keyOf (records.get second)) : first = second := by
  have inRange : first.val < (records.map keyOf).length := by
    rw [List.length_map]
    exact first.isLt
  apply Fin.ext
  apply (List.getElem?_inj inRange distinct).mp
  rw [List.getElem?_map, List.getElem?_map, List.getElem?_eq_getElem first.isLt,
    List.getElem?_eq_getElem second.isLt]
  exact congrArg some sameKey

/-- Where no key stands twice, a record is found by its key. -/
theorem find_eq_some_iff (distinct : (records.map keyOf).Nodup)
    {place : Fin records.length} :
    search.find records key = some place ↔ keyOf (records.get place) = key := by
  constructor
  · exact search.found
  · intro sameKey
    cases result : search.find records key with
    | none => exact absurd sameKey (search.missing result _ (List.get_mem records place))
    | some other =>
        rw [place_eq distinct ((search.found result).trans sameKey.symm)]

/-- An upsert adds a record under a new key, or changes one that has the key. -/
theorem upsert_cases (search : KeySearch keyOf) (records : List Record) (key : Key)
    (change : Option Record → Record) :
    (key ∉ records.map keyOf ∧
        search.upsert records key change = records ++ [change none]) ∨
      ∃ place, search.find records key = some place ∧
        search.upsert records key change =
          records.set place (change (some (records.get place))) := by
  cases result : search.find records key with
  | none => exact .inl ⟨find_eq_none_iff.mp result, by rw [upsert, result]⟩
  | some place => exact .inr ⟨place, rfl, by rw [upsert, result]⟩

/-- A property of new records that changes keep is one of all records. -/
theorem forall_mem_upsert {property : Record → Prop} (created : property (change none))
    (kept : ∀ record, property record → property (change (some record)))
    (every : ∀ record ∈ records, property record) :
    ∀ record ∈ search.upsert records key change, property record := by
  intro record member
  rcases upsert_cases search records key change with
    ⟨_, result⟩ | ⟨place, _, result⟩
  · rw [result, List.mem_append, List.mem_singleton] at member
    rcases member with earlier | rfl
    · exact every record earlier
    · exact created
  · rw [result] at member
    rcases List.mem_or_eq_of_mem_set member with earlier | rfl
    · exact every record earlier
    · exact kept _ (every _ (List.get_mem records place))

section Views

variable {View : Type w} {view : Record → View}

/-- A new record comes behind the others. -/
theorem map_upsert_new (new : key ∉ records.map keyOf) :
    (search.upsert records key change).map view =
      records.map view ++ [view (change none)] := by
  rw [upsert, find_eq_none_iff.mpr new]
  exact List.map_append

/-- What a change leaves alone in a record stays where it is in the table. -/
theorem map_upsert_known (same : ∀ record, view (change (some record)) = view record)
    (known : key ∈ records.map keyOf) :
    (search.upsert records key change).map view = records.map view := by
  rcases upsert_cases search records key change with
    ⟨new, _⟩ | ⟨place, _, result⟩
  · exact absurd known new
  · have unchanged : records.set place (records.get place) = records :=
      List.set_getElem_self place.isLt
    rw [result, List.map_set, same, ← List.map_set, unchanged]

theorem map_prefix_upsert (same : ∀ record, view (change (some record)) = view record) :
    records.map view <+: (search.upsert records key change).map view := by
  by_cases known : key ∈ records.map keyOf
  · rw [map_upsert_known same known]
  · rw [map_upsert_new known]
    exact List.prefix_append _ _

end Views

/-- A new record with the key of the search, and changes that leave keys alone, keep the
keys distinct. -/
theorem distinct_upsert (created : keyOf (change none) = key)
    (kept : ∀ record, keyOf (change (some record)) = keyOf record)
    (distinct : (records.map keyOf).Nodup) :
    ((search.upsert records key change).map keyOf).Nodup := by
  by_cases known : key ∈ records.map keyOf
  · rwa [map_upsert_known kept known]
  · rw [map_upsert_new known, created, ← List.concat_eq_append]
    exact distinct.concat known

/-! ## The table as a finite map -/

theorem lookup_eq_some_iff (distinct : (records.map keyOf).Nodup) {record : Record} :
    search.lookup records key = some record ↔ record ∈ records ∧ keyOf record = key := by
  rw [lookup, Option.map_eq_some_iff]
  constructor
  · rintro ⟨place, found, rfl⟩
    exact ⟨List.get_mem records place, search.found found⟩
  · rintro ⟨member, sameKey⟩
    rcases List.get_of_mem member with ⟨place, rfl⟩
    exact ⟨place, (find_eq_some_iff distinct).mpr sameKey, rfl⟩

section FiniteMap

variable (created : keyOf (change none) = key)
variable (kept : ∀ record, keyOf (change (some record)) = keyOf record)
variable (distinct : (records.map keyOf).Nodup)

include created kept distinct

/-- The record of the key is the changed one. -/
theorem lookup_upsert :
    search.lookup (search.upsert records key change) key =
      some (change (search.lookup records key)) := by
  rw [lookup_eq_some_iff (distinct_upsert created kept distinct)]
  rcases upsert_cases search records key change with
    ⟨absent, result⟩ | ⟨place, found, result⟩
  · rw [result, lookup, find_eq_none_iff.mpr absent]
    exact ⟨List.mem_append_right _ (List.mem_singleton.mpr rfl), created⟩
  · rw [result, lookup, found]
    exact ⟨List.mem_set place.isLt _, (kept _).trans (search.found found)⟩

/-- The records of other keys stay as they are. -/
theorem lookup_upsert_ne {other : Key} (different : other ≠ key) :
    search.lookup (search.upsert records key change) other =
      search.lookup records other := by
  apply Option.ext
  intro record
  rw [lookup_eq_some_iff distinct,
    lookup_eq_some_iff (distinct_upsert created kept distinct)]
  refine and_congr_left fun otherKey => ?_
  have notKey : keyOf record ≠ key := fun sameKey => different (otherKey.symm.trans sameKey)
  rcases upsert_cases search records key change with
    ⟨absent, result⟩ | ⟨place, found, result⟩
  · rw [result, List.mem_append, List.mem_singleton]
    apply or_iff_left
    rintro rfl
    exact notKey created
  · rw [result]
    constructor
    · intro member
      rcases List.mem_or_eq_of_mem_set member with earlier | rfl
      · exact earlier
      · exact absurd ((kept _).trans (search.found found)) notKey
    · intro member
      rcases List.mem_iff_getElem.mp member with ⟨index, inTable, rfl⟩
      have elsewhere : place.val ≠ index := by
        rintro rfl
        exact notKey (search.found found)
      rw [List.mem_iff_getElem]
      refine ⟨index, by rwa [List.length_set], ?_⟩
      rw [List.getElem_set_ne elsewhere]

end FiniteMap

end KeySearch

/-! ## Machines over named records -/

variable {Name : Type w} {nameOf : Record → Name} {encode : Name → Key}
variable {Input Output : Type x}

/-- Every input asks for the record of a name, which it changes or adds.  The search
compares the encodings of names, which tell apart the names that are asked for. -/
structure Machine.Named (machine : Machine (List Record) Input Output)
    (search : KeySearch fun record => encode (nameOf record)) (nameFor : Input → Name)
    (change : Input → Option Record → Record) : Prop where
  step_eq : ∀ records input, (machine.step records input).1 =
    search.upsert records (encode (nameFor input)) (change input)
  created : ∀ input, nameOf (change input none) = nameFor input
  kept : ∀ input record, nameOf (change input (some record)) = nameOf record
  apart : ∀ left right, encode (nameFor left) = encode (nameFor right) →
    nameFor left = nameFor right

namespace Machine.Named

variable {machine : Machine (List Record) Input Output}
variable {search : KeySearch fun record => encode (nameOf record)} {nameFor : Input → Name}
variable {change : Input → Option Record → Record}
variable (named : Machine.Named machine search nameFor change)

include named

/-- Later inputs leave the records where they are, and leave alone what no change
touches. -/
theorem map_prefix_exec {View : Type w} {view : Record → View}
    (same : ∀ input record, view (change input (some record)) = view record)
    (inputs later : List Input) :
    (machine.exec [] inputs).map view <+: (machine.exec [] (inputs ++ later)).map view := by
  induction later using List.reverseRecOn with
  | nil => rw [List.append_nil]
  | append_singleton later input ih =>
      rw [← List.append_assoc, Machine.exec_concat, named.step_eq]
      exact ih.trans (KeySearch.map_prefix_upsert (same input))

/-- A record stays at its place for good, with everything that no change touches. -/
theorem getElem?_exec_append {View : Type w} {view : Record → View}
    (same : ∀ input record, view (change input (some record)) = view record)
    {inputs : List Input} (later : List Input) {place : Nat} {record : Record}
    (inTable : (machine.exec [] inputs)[place]? = some record) :
    ∃ after, (machine.exec [] (inputs ++ later))[place]? = some after ∧
      view after = view record := by
  have known : ((machine.exec [] inputs).map view)[place]? = some (view record) := by
    rw [List.getElem?_map, inTable, Option.map_some]
  have inRange : place < ((machine.exec [] inputs).map view).length :=
    (List.getElem?_eq_some_iff.mp known).1
  have stays : ((machine.exec [] (inputs ++ later)).map view)[place]? =
      some (view record) := by
    rcases named.map_prefix_exec same inputs later with ⟨rest, whole⟩
    rw [← whole, List.getElem?_append_left inRange, known]
  rw [List.getElem?_map] at stays
  exact Option.map_eq_some_iff.mp stays

/-- The rule for properties of records. -/
theorem forall_mem_exec {property : Record → Prop}
    (created : ∀ input, property (change input none))
    (kept : ∀ input record, property record → property (change input (some record)))
    (inputs : List Input) : ∀ record ∈ machine.exec [] inputs, property record := by
  induction inputs using List.reverseRecOn with
  | nil => simp
  | append_singleton inputs input ih =>
      rw [Machine.exec_concat, named.step_eq]
      exact KeySearch.forall_mem_upsert (created input) (kept input) ih

variable [DecidableEq Name]

/-- An input meets a record with its key exactly when its name was asked for before. -/
theorem key_mem_iff {records : List Record} {inputs : List Input} (input : Input)
    (names : records.map nameOf = (inputs.map nameFor).eraseDups) :
    encode (nameFor input) ∈ records.map (fun record => encode (nameOf record)) ↔
      nameFor input ∈ inputs.map nameFor := by
  have asked : nameFor input ∈ inputs.map nameFor ↔ nameFor input ∈ records.map nameOf := by
    rw [names, List.mem_eraseDups]
  rw [asked]
  constructor
  · intro member
    rcases List.mem_map.mp member with ⟨record, inTable, sameKey⟩
    have recordName := List.mem_map_of_mem (f := nameOf) inTable
    rw [names, List.mem_eraseDups] at recordName
    rcases List.mem_map.mp recordName with ⟨earlier, _, earlierName⟩
    rw [← earlierName] at sameKey
    rw [← named.apart earlier input sameKey, earlierName]
    exact List.mem_map_of_mem inTable
  · intro member
    rcases List.mem_map.mp member with ⟨record, inTable, sameName⟩
    rw [← sameName]
    exact List.mem_map_of_mem inTable

/-- The table holds one record for each name that was asked for, in the order in which they
were asked for first. -/
theorem names_exec (inputs : List Input) :
    (machine.exec [] inputs).map nameOf = (inputs.map nameFor).eraseDups := by
  induction inputs using List.reverseRecOn with
  | nil => rfl
  | append_singleton inputs input ih =>
      rw [Machine.exec_concat, named.step_eq, List.map_append, List.map_singleton,
        eraseDups_concat]
      by_cases known : nameFor input ∈ inputs.map nameFor
      · rw [if_pos known,
          KeySearch.map_upsert_known (named.kept input) ((named.key_mem_iff input ih).mpr known),
          ih]
      · rw [if_neg known,
          KeySearch.map_upsert_new (mt (named.key_mem_iff input ih).mp known),
          named.created, ih]

/-- No name stands twice. -/
theorem nodup_names (inputs : List Input) : ((machine.exec [] inputs).map nameOf).Nodup := by
  rw [named.names_exec]
  exact nodup_eraseDups _

/-- Every record has a name that was asked for. -/
theorem exists_input {inputs : List Input} {record : Record}
    (member : record ∈ machine.exec [] inputs) :
    ∃ input ∈ inputs, nameFor input = nameOf record := by
  have recordName := List.mem_map_of_mem (f := nameOf) member
  rw [named.names_exec, List.mem_eraseDups] at recordName
  exact List.mem_map.mp recordName

/-- An encoding is as good as the name itself. -/
theorem encode_eq_iff {inputs : List Input} {record : Record}
    (member : record ∈ machine.exec [] inputs) (input : Input) :
    encode (nameOf record) = encode (nameFor input) ↔ nameOf record = nameFor input := by
  rcases named.exists_input member with ⟨earlier, _, earlierName⟩
  rw [← earlierName]
  exact ⟨named.apart earlier input, congrArg encode⟩

/-- No key stands twice. -/
theorem nodup_keys (inputs : List Input) :
    ((machine.exec [] inputs).map fun record => encode (nameOf record)).Nodup := by
  have names := named.nodup_names inputs
  apply (List.nodup_map_iff_inj_on names.of_map).mpr
  intro left inLeft right inRight sameKey
  rcases named.exists_input inRight with ⟨input, _, rightName⟩
  rw [← rightName, named.encode_eq_iff inLeft, rightName] at sameKey
  exact List.inj_on_of_nodup_map names inLeft inRight sameKey

/-- The search by key finds the record of a name and no other. -/
theorem find_eq_some_iff (inputs : List Input) (input : Input)
    {place : Fin (machine.exec [] inputs).length} :
    search.find (machine.exec [] inputs) (encode (nameFor input)) = some place ↔
      nameOf ((machine.exec [] inputs).get place) = nameFor input := by
  rw [KeySearch.find_eq_some_iff (named.nodup_keys inputs)]
  exact named.encode_eq_iff (List.get_mem _ place) input

/-- There are as many records as different names were asked for. -/
theorem length_exec (inputs : List Input) :
    (machine.exec [] inputs).length = (inputs.map nameFor).toFinset.card := by
  rw [← length_eraseDups, ← named.names_exec, List.length_map]

end Machine.Named

end MultiMaster.Foundation
