import MultiMaster.Packet.Parsing

/-!
# Round trip of packets

Parsing a built packet puts header and items into the buffer as they were given,
except for the slots that notes name, and each of these slots holds the address of
the note's bytes in the buffer.
-/

namespace MultiMaster.Packet

open Foundation

/-! ## Positions of entries -/

namespace Stored

variable {stored : Stored} {index : Nat}

theorem contents_split (inside : index < stored.length) :
    stored.contents = contents (stored.take index) ++ stored[index].2 ++
      contents (stored.drop (index + 1)) := by
  conv_lhs => rw [← List.take_append_drop index stored, List.drop_eq_getElem_cons inside]
  rw [contents_append, List.append_assoc]
  rfl

/-- The bytes of an entry are found at its offset. -/
theorem getElem?_contents {position : Nat} (inside : index < stored.length)
    (within : position < stored[index].2.length) :
    stored.contents[stored.offsetOf index + position]? = stored[index].2[position]? := by
  rw [contents_split inside, List.append_assoc, List.getElem?_append_right (by
    rw [offsetOf]
    omega), List.getElem?_append_left (by
    rw [offsetOf]
    omega)]
  rw [offsetOf]
  congr 1
  omega

theorem offsetOf_succ (inside : index < stored.length) :
    stored.offsetOf (index + 1) = stored.offsetOf index + stored[index].2.length := by
  rw [offsetOf, offsetOf, ← List.take_concat_get inside, List.concat_eq_append,
    contents_append, List.length_append]
  exact congrArg _ (congrArg List.length (contents_singleton _ _))

theorem offsetOf_mono {first second : Nat} (order : first ≤ second) :
    stored.offsetOf first ≤ stored.offsetOf second := by
  rw [offsetOf, offsetOf, ← Nat.min_eq_left order, ← List.take_take]
  generalize stored.take second = front
  conv_rhs => rw [← List.take_append_drop first front, contents_append, List.length_append]
  omega

theorem offsetOf_le (stored : Stored) (index : Nat) :
    stored.offsetOf index ≤ stored.contents.length := by
  rw [offsetOf]
  conv_rhs => rw [← List.take_append_drop index stored, contents_append, List.length_append]
  omega

/-- An entry ends before the next one begins. -/
theorem offsetOf_end_le {next : Nat} (inside : index < stored.length) (order : index < next) :
    stored.offsetOf index + stored[index].2.length ≤ stored.offsetOf next := by
  rw [← offsetOf_succ inside]
  exact offsetOf_mono order

theorem offsetOf_end_le_length (inside : index < stored.length) :
    stored.offsetOf index + stored[index].2.length ≤ stored.contents.length := by
  rw [← offsetOf_succ inside]
  exact offsetOf_le stored (index + 1)

/-- Two entries do not overlap. -/
theorem entries_apart {other : Nat} (inside : index < stored.length)
    (otherInside : other < stored.length) (different : index ≠ other) :
    stored.offsetOf index + stored[index].2.length ≤ stored.offsetOf other ∨
      stored.offsetOf other + stored[other].2.length ≤ stored.offsetOf index := by
  rcases Nat.lt_or_gt_of_ne different with before | behind
  · exact .inl (offsetOf_end_le inside before)
  · exact .inr (offsetOf_end_le otherInside behind)

end Stored

/-! ## What notes leave in the buffer -/

namespace BufferReadHandler

variable {address size : Nat} {stored : Stored} {content : Bytes} {notes : List PacketNote}

/-- A position that belongs to no slot of the notes. -/
def Unnoted (stored : Stored) (notes : List PacketNote) (position : Nat) : Prop :=
  ∀ note ∈ notes, position < notePosition stored note ∨ notePosition stored note + 8 ≤ position

theorem addNotes_cons (address : Nat) (stored : Stored) (content : Bytes) (note : PacketNote)
    (notes : List PacketNote) :
    addNotes address stored content (note :: notes) =
      addNotes address stored (addNote address content (notePosition stored note) note.value)
        notes := rfl

theorem length_addNotes (address : Nat) (applicable : AllApplicable size stored content notes) :
    (addNotes address stored content notes).length =
      content.length + (notes.flatMap PacketNote.value).length := by
  induction notes generalizing content with
  | nil => simp [addNotes]
  | cons note notes ih =>
      rw [addNotes_cons, ih (applicable.tail address), length_addNote address
        applicable.head.inside, List.flatMap_cons, List.length_append]
      omega

theorem getElem?_addNote {position slot : Nat} {value : Bytes}
    (inside : slot + 8 ≤ content.length)
    (outside : position < slot ∨ slot + 8 ≤ position) :
    (addNote address content slot value)[position]? = (content ++ value)[position]? := by
  rw [addNote, getElem?_overwrite]
  · rw [length_leBytes, List.length_append]
    omega
  · rw [length_leBytes]
    exact outside

/-- Bytes outside of the slots are as they were. -/
theorem getElem?_addNotes {position : Nat}
    (applicable : AllApplicable size stored content notes)
    (inside : position < content.length) (unnoted : Unnoted stored notes position) :
    (addNotes address stored content notes)[position]? = content[position]? := by
  induction notes generalizing content with
  | nil => rfl
  | cons note notes ih =>
      have longer : position <
          (addNote address content (notePosition stored note) note.value).length := by
        rw [length_addNote address applicable.head.inside]
        omega
      rw [addNotes_cons, ih (applicable.tail address) longer fun other member =>
        unnoted other (List.mem_cons_of_mem _ member),
        getElem?_addNote applicable.head.inside (unnoted note List.mem_cons_self),
        List.getElem?_append_left inside]

/-- The slot of a note holds the address of its bytes. -/
def Resolved (address : Nat) (stored : Stored) (start : Nat) (final : Bytes)
    (note : PacketNote) : Prop :=
  ∃ offset, start ≤ offset ∧ offset + note.value.length ≤ final.length ∧
    slice final (notePosition stored note) 8 = leBytes 8 (address + offset) ∧
    slice final offset note.value.length = note.value

theorem addNotes_resolved (applicable : AllApplicable size stored content notes)
    (disjoint : notes.Pairwise fun first second =>
      notePosition stored first + 8 ≤ notePosition stored second ∨
        notePosition stored second + 8 ≤ notePosition stored first) :
    ∀ note ∈ notes,
      Resolved address stored content.length (addNotes address stored content notes) note := by
  induction notes generalizing content with
  | nil => simp
  | cons note notes ih =>
      rcases List.pairwise_cons.mp disjoint with ⟨apart, disjointRest⟩
      have tail := applicable.tail address
      have inside := applicable.head.inside
      have length : (addNote address content (notePosition stored note) note.value).length = _ :=
        length_addNote address inside
      have total := length_addNotes address tail
      intro other member
      rw [addNotes_cons]
      rcases List.mem_cons.mp member with rfl | later
      · refine ⟨content.length, Nat.le_refl _, by omega, ?_, ?_⟩
        · have written : slice (addNote address content (notePosition stored other) other.value)
              (notePosition stored other) (leBytes 8 (address + content.length)).length = _ :=
            slice_overwrite (by
              rw [length_leBytes, List.length_append]
              omega)
          rw [length_leBytes] at written
          rw [← written]
          apply slice_congr
          intro position from_ to_
          apply getElem?_addNotes tail (by omega)
          intro another among
          rcases apart another among with before | behind
          · exact .inl (by omega)
          · exact .inr (by omega)
        · have placed := slice_append content other.value []
          rw [List.append_nil] at placed
          conv_rhs => rw [← placed]
          apply slice_congr
          intro position from_ to_
          rw [getElem?_addNotes tail (by omega)]
          · exact getElem?_addNote inside (.inr (by omega))
          · intro another among
            have := applicable.inside another (List.mem_cons_of_mem _ among)
            exact .inr (by omega)
      · rcases ih tail disjointRest other later with ⟨offset, start, rest⟩
        exact ⟨offset, by omega, rest⟩

/-! ## The slots of an entry -/

/-- A note names an entry and its slot is inside the entry. -/
structure Names (stored : Stored) (note : PacketNote) (index : Nat) : Prop where
  inside : index < stored.length
  named : stored[index].1 = note.key.val
  within : note.offset + 8 ≤ stored[index].2.length

theorem idxOf_name {index : Nat} (distinct : (stored.map Prod.fst).Nodup)
    (inside : index < stored.length) : (stored.map Prod.fst).idxOf stored[index].1 = index := by
  have found := distinct.idxOf_getElem index (by simpa using inside)
  rw [List.getElem_map] at found
  exact found

theorem Names.notePosition_eq {note : PacketNote} {index : Nat}
    (names : Names stored note index) (distinct : (stored.map Prod.fst).Nodup) :
    notePosition stored note = stored.offsetOf index + note.offset := by
  rw [notePosition, ← names.named, idxOf_name distinct names.inside]

theorem Names.index_eq {note : PacketNote} {index other : Nat}
    (names : Names stored note other) (distinct : (stored.map Prod.fst).Nodup)
    (inside : index < stored.length) (same : note.key.val = stored[index].1) :
    other = index := by
  rw [← idxOf_name distinct names.inside, names.named, same, idxOf_name distinct inside]

theorem Names.known {note : PacketNote} {index : Nat} (names : Names stored note index) :
    note.key.val ∈ stored.map Prod.fst := by
  rw [← names.named]
  exact List.mem_map_of_mem (List.getElem_mem names.inside)

/-- Slots of two notes do not overlap when they are apart inside of one entry. -/
theorem Names.apart {first second : PacketNote} {index other : Nat}
    (names : Names stored first index) (otherNames : Names stored second other)
    (distinct : (stored.map Prod.fst).Nodup)
    (same : first.key = second.key →
      first.offset + 8 ≤ second.offset ∨ second.offset + 8 ≤ first.offset) :
    notePosition stored first + 8 ≤ notePosition stored second ∨
      notePosition stored second + 8 ≤ notePosition stored first := by
  rw [names.notePosition_eq distinct, otherNames.notePosition_eq distinct]
  have within := names.within
  have otherWithin := otherNames.within
  by_cases equal : index = other
  · subst equal
    have key : first.key = second.key :=
      Subtype.ext (names.named.symm.trans otherNames.named)
    rcases same key with before | behind
    · exact .inl (by omega)
    · exact .inr (by omega)
  · rcases Stored.entries_apart names.inside otherNames.inside equal with before | behind
    · exact .inl (by omega)
    · exact .inr (by omega)

/-- A position of an entry is in no slot when no note that names the entry covers it. -/
theorem unnoted_of_entry {index position : Nat} (distinct : (stored.map Prod.fst).Nodup)
    (named : ∀ note ∈ notes, ∃ other, Names stored note other)
    (inside : index < stored.length) (within : position < stored[index].2.length)
    (clear : ∀ note ∈ notes, note.key.val = stored[index].1 →
      position < note.offset ∨ note.offset + 8 ≤ position) :
    Unnoted stored notes (stored.offsetOf index + position) := by
  intro note member
  rcases named note member with ⟨other, names⟩
  have noteWithin := names.within
  rw [names.notePosition_eq distinct]
  by_cases equal : index = other
  · subst equal
    rcases clear note member names.named.symm with before | behind
    · exact .inl (by omega)
    · exact .inr (by omega)
  · rcases Stored.entries_apart inside names.inside equal with before | behind
    · exact .inl (by omega)
    · exact .inr (by omega)

end BufferReadHandler

namespace JsonRpcPacket

open BufferReadHandler

variable {address size : Nat} {stored : Stored} {content : Bytes}
variable {stack : List ParseItem} {handler : BufferReadHandler}

/-! ## Reading a parsed packet -/

theorem objectPtr_appendTailOffset {index : Nat} {offset : Int}
    (found : handler.objectPtr index = some offset) :
    handler.appendTailOffset.objectPtr index = some offset := by
  rw [objectPtr, if_pos (by omega)] at found ⊢
  exact List.getElem?_append_left (List.getElem?_eq_some_iff.mp found).1 ▸ found

theorem getPacketItemPtr_finish {index : Nat} (packet : JsonRpcPacket)
    (loaded : Loaded address size stored content stack handler)
    (inside : index < stored.length) :
    (packet.finish handler).getPacketItemPtr index =
      some ((address + stored.offsetOf index : Nat) : Int) := by
  have found := objectPtr_appendTailOffset (loaded.objectPtr_eq inside)
  have buffer : handler.appendTailOffset.objectBuffer = .holding address size content :=
    loaded.buffer
  rw [getPacketItemPtr, finish, found]
  simp [FixedBuffer.getAddress, buffer, FixedBuffer.holding]

/-- The handler lists the entries under their names, and `tail` bytes are in use. -/
structure Listed (stored : Stored) (tail : Nat) (handler : BufferReadHandler) : Prop where
  ptrs : handler.objectPtrs =
    (List.range stored.length).map fun index => (stored.offsetOf index : Int)
  ids : ∀ index (inside : index < stored.length),
    handler.nameIdMap.lookup stored[index].1 = some (index : Int)
  used : handler.objectBuffer.tailOffset = tail

/-- Where an entry ends: the next one begins there, or the use of the buffer ends. -/
def listedEnd (stored : Stored) (tail index : Nat) : Nat :=
  if index + 1 < stored.length then stored.offsetOf (index + 1) else tail

theorem Listed.objectPtr_start {tail index : Nat} (listed : Listed stored tail handler)
    (inside : index < stored.length) :
    handler.appendTailOffset.objectPtr index = some (stored.offsetOf index : Int) := by
  apply objectPtr_appendTailOffset
  rw [objectPtr, if_pos (by omega), listed.ptrs, Int.toNat_natCast]
  simp [inside]

theorem Listed.objectPtr_end {tail index : Nat} (listed : Listed stored tail handler)
    (inside : index < stored.length) :
    handler.appendTailOffset.objectPtr (index + 1) =
      some (listedEnd stored tail index : Int) := by
  rw [listedEnd]
  split
  · rename_i next
    exact listed.objectPtr_start next
  · have last : index + 1 = handler.objectPtrs.length := by
      rw [listed.ptrs, List.length_map, List.length_range]
      omega
    rw [objectPtr, if_pos (by omega), show ((index : Int) + 1).toNat = _ from last,
      appendTailOffset, List.getElem?_concat_length, FixedBuffer.size, listed.used]

theorem Listed.itemSize {tail index : Nat} (listed : Listed stored tail handler)
    (inside : index < stored.length) (packet : JsonRpcPacket) :
    (packet.finish handler).getPacketItemSize index =
      some ((listedEnd stored tail index : Int) - stored.offsetOf index) := by
  rw [getPacketItemSize, finish]
  simp [listed.objectPtr_end inside, listed.objectPtr_start inside]

theorem Listed.itemSizeByKey {tail index : Nat} (listed : Listed stored tail handler)
    (inside : index < stored.length) (packet : JsonRpcPacket) :
    (packet.finish handler).getPacketItemSizeByKey stored[index].1 =
      some (packet.finish handler,
        (listedEnd stored tail index : Int) - stored.offsetOf index) := by
  have found : handler.appendTailOffset.nameId stored[index].1 =
      (handler.appendTailOffset, (index : Int)) := by
    rw [nameId, show handler.appendTailOffset.nameIdMap.lookup _ = _ from
      listed.ids index inside]
  rw [getPacketItemSizeByKey, finish]
  simp [found, listed.objectPtr_end inside, listed.objectPtr_start inside]

theorem nameId_appendTailOffset {name : Bytes}
    (loaded : Loaded address size stored content stack handler)
    (known : name ∈ stored.map Prod.fst) :
    handler.appendTailOffset.nameId name =
      (handler.appendTailOffset, ((stored.map Prod.fst).idxOf name : Int)) := by
  rw [nameId, show handler.appendTailOffset.nameIdMap.lookup name = _ from
    loaded.lookup_eq known]

theorem getPacketItemPtrByKey_finish {name : Bytes} (packet : JsonRpcPacket)
    (loaded : Loaded address size stored content stack handler)
    (known : name ∈ stored.map Prod.fst) :
    (packet.finish handler).getPacketItemPtrByKey name =
      some (packet.finish handler,
        ((address + stored.offsetOf ((stored.map Prod.fst).idxOf name) : Nat) : Int)) := by
  have inside : (stored.map Prod.fst).idxOf name < stored.length := by
    simpa using List.idxOf_lt_length_of_mem known
  have found := objectPtr_appendTailOffset (loaded.objectPtr_eq inside)
  have buffer : handler.appendTailOffset.objectBuffer = .holding address size content :=
    loaded.buffer
  rw [getPacketItemPtrByKey, finish]
  simp [nameId_appendTailOffset loaded known, found, FixedBuffer.getAddress, buffer,
    FixedBuffer.holding]

theorem bytesAt_finish {offset length : Nat} (packet : JsonRpcPacket)
    (loaded : Loaded address size stored content stack handler)
    (inside : offset + length ≤ content.length) :
    (packet.finish handler).bytesAt ((address + offset : Nat) : Int) length =
      some (slice content offset length) := by
  have buffer : handler.appendTailOffset.objectBuffer = .holding address size content :=
    loaded.buffer
  have distance : ((address + offset : Nat) : Int) - address = offset := by omega
  simp only [bytesAt, finish, buffer, FixedBuffer.holding, distance, Int.toNat_natCast,
    List.length_append]
  rw [if_pos (by omega)]
  congr 1
  apply slice_congr
  intro position _ before
  exact List.getElem?_append_left (by omega)

/-! ## Valid packets -/

variable {header : Bytes} {groups : List (List PacketItem)} {notes : List PacketNote}

/-- Items have keys of their own, and the slots that notes name are inside of items and
do not overlap. -/
structure ValidPacket (groups : List (List PacketItem)) (notes : List PacketNote) : Prop where
  nonempty : ∀ group ∈ groups, group ≠ []
  distinct : (groups.flatten.map PacketItem.key).Nodup
  free : ∀ item ∈ groups.flatten,
    item.key.val ∉ [literal "PacketHeader", literal "ptr_key", literal "ptr_val"]
  noted : notes ≠ []
  slots : ∀ note ∈ notes, ∃ item ∈ groups.flatten,
    item.key = note.key ∧ note.offset + 8 ≤ item.value.length
  apart : notes.Pairwise fun first second => first.key = second.key →
    first.offset + 8 ≤ second.offset ∨ second.offset + 8 ≤ first.offset

/-- The caller's memory is large enough for all values. -/
structure Room (header : Bytes) (groups : List (List PacketItem)) (notes : List PacketNote)
    (address size : Nat) : Prop where
  room : header.length + (groups.flatten.flatMap PacketItem.value).length +
    (notes.flatMap PacketNote.value).length ≤ size
  small : size < 2 ^ 31
  addressable : address + size < 2 ^ 64

/-- The entries of a packet: the header, then the items. -/
def layout (header : Bytes) (groups : List (List PacketItem)) : Stored :=
  [(literal "PacketHeader", header)] ++ entries groups.flatten

theorem contents_layout (header : Bytes) (groups : List (List PacketItem)) :
    (layout header groups).contents =
      header ++ groups.flatten.flatMap PacketItem.value := by
  rw [layout, Stored.contents_append, Stored.contents_singleton, Stored.contents, entries,
    List.map_map, List.flatMap_def]
  rfl

theorem length_layout (header : Bytes) (groups : List (List PacketItem)) :
    (layout header groups).length = groups.flatten.length + 1 := by
  rw [layout, List.length_append, entries, List.length_map, List.length_singleton, Nat.add_comm]

theorem layout_item {index : Nat} (inside : index < groups.flatten.length)
    (insideLayout : index + 1 < (layout header groups).length) :
    (layout header groups)[index + 1] =
      (groups.flatten[index].key.val, groups.flatten[index].value) := by
  simp only [layout, List.singleton_append, List.getElem_cons_succ, entries, List.getElem_map]

/-- Items have keys of their own. -/
structure OwnKeys (groups : List (List PacketItem)) : Prop where
  distinct : (groups.flatten.map PacketItem.key).Nodup
  free : ∀ item ∈ groups.flatten,
    item.key.val ∉ [literal "PacketHeader", literal "ptr_key", literal "ptr_val"]

theorem OwnKeys.layout_distinct (keys : OwnKeys groups) :
    ((layout header groups).map Prod.fst).Nodup := by
  have names : (entries groups.flatten).map Prod.fst =
      (groups.flatten.map PacketItem.key).map (fun key : CString => key.val) := by
    rw [entries, List.map_map, List.map_map]
    rfl
  rw [layout, List.singleton_append, List.map_cons, names, List.nodup_cons]
  refine ⟨?_, keys.distinct.map fun _ _ => Subtype.ext⟩
  intro member
  rcases List.mem_map.mp member with ⟨key, among, same⟩
  rcases List.mem_map.mp among with ⟨item, itemAmong, rfl⟩
  exact keys.free item itemAmong (same ▸ List.mem_cons_self)

theorem OwnKeys.storable (keys : OwnKeys groups) :
    ∀ item ∈ groups.flatten, Storable item.key.val := by
  intro item member
  have free := keys.free item member
  exact ⟨fun same => free (by simp [same]), fun same => free (by simp [same])⟩

/-- Header and items are read one after another into the buffer. -/
theorem OwnKeys.reads_items {memory : ParseType} (keys : OwnKeys groups) (address : Nat)
    (room : header.length + (groups.flatten.flatMap PacketItem.value).length ≤ size)
    (small : size < 2 ^ 31) (uninitialised : memory ≠ .key) :
    ∃ after, Reads memory (BufferReadHandler.new.withBuffer address size)
        (headerEvents header ++ groups.flatMap groupEvents) after ∧
      Loaded address size (layout header groups) (layout header groups).contents
        [⟨.array, []⟩] after := by
  have fitting : Fitting size [(literal "PacketHeader", header)] groups.flatten := by
    refine ⟨keys.storable, keys.layout_distinct, ?_⟩
    rw [← layout, contents_layout, List.length_append]
    exact room
  have headerRoom : header.length ≤ size := by omega
  rcases reads_header address uninitialised headerRoom small with
    ⟨headed, headerReads, loadedHeader⟩
  rcases loadedHeader.reads_groups memory fitting small with ⟨after, groupsRead, loaded⟩
  exact ⟨after, headerReads.append groupsRead, loaded⟩

theorem ValidPacket.ownKeys (valid : ValidPacket groups notes) : OwnKeys groups :=
  ⟨valid.distinct, valid.free⟩

theorem ValidPacket.layout_distinct (valid : ValidPacket groups notes) :
    ((layout header groups).map Prod.fst).Nodup := valid.ownKeys.layout_distinct

theorem ValidPacket.names (valid : ValidPacket groups notes) :
    ∀ note ∈ notes, ∃ index, Names (layout header groups) note index := by
  intro note member
  rcases valid.slots note member with ⟨item, among, key, within⟩
  rcases List.getElem_of_mem among with ⟨index, inside, rfl⟩
  have insideLayout : index + 1 < (layout header groups).length := by
    rw [length_layout]
    omega
  have entry := layout_item inside insideLayout
  exact ⟨index + 1, insideLayout, by rw [entry, key], by rw [entry]; exact within⟩

theorem ValidPacket.applicable (valid : ValidPacket groups notes)
    (room : Room header groups notes address size) :
    AllApplicable size (layout header groups) (layout header groups).contents notes := by
  refine ⟨fun note member => ?_, fun note member => ?_, ?_⟩
  · rcases valid.names note member with ⟨index, names⟩
    exact names.known
  · rcases valid.names note member with ⟨index, names⟩
    rw [names.notePosition_eq valid.layout_distinct]
    have within := names.within
    have ending := Stored.offsetOf_end_le_length names.inside
    omega
  · rw [contents_layout, List.length_append]
    exact room.room

/-- Reading a built packet succeeds and ends with an empty stack. -/
theorem ValidPacket.reads_build {memory : ParseType} (valid : ValidPacket groups notes)
    (room : Room header groups notes address size) (uninitialised : memory ≠ .key) :
    ∃ after, Reads memory (BufferReadHandler.new.withBuffer address size)
        (build header groups notes).json after ∧
      Loaded address size (layout header groups)
        (addNotes address (layout header groups) (layout header groups).contents notes)
        [] after := by
  have total := room.room
  have itemsRoom : header.length + (groups.flatten.flatMap PacketItem.value).length ≤ size := by
    omega
  rcases valid.ownKeys.reads_items address itemsRoom room.small uninitialised with
    ⟨filled, itemsRead, loadedItems⟩
  rcases loadedItems.reads_notesObject memory (valid.applicable room) room.small with
    ⟨after, notesRead, loadedNotes⟩
  refine ⟨after, ?_, loadedNotes⟩
  rw [build_json header valid.nonempty valid.noted]
  exact itemsRead.append notesRead

/-! ## The round trip -/

/-- The bytes of a parsed item: outside of noted slots they are those of the item, and a
noted slot holds a pointer to the note's bytes. -/
structure ItemRestored (parsed : JsonRpcPacket) (notes : List PacketNote) (item : PacketItem)
    (bytes : Bytes) : Prop where
  unnoted : ∀ position,
    (∀ note ∈ notes, note.key = item.key →
      position < note.offset ∨ note.offset + 8 ≤ position) →
    bytes[position]? = item.value[position]?
  noted : ∀ note ∈ notes, note.key = item.key →
    ∃ target < 2 ^ 64, slice bytes note.offset 8 = leBytes 8 target ∧
      parsed.bytesAt target note.value.length = some note.value

/-- A parsed packet gives back what a packet was built from. -/
structure Restored (parsed : JsonRpcPacket) (header : Bytes)
    (groups : List (List PacketItem)) (notes : List PacketNote) : Prop where
  closed : parsed.readHandler.parseStack = []
  header : ∃ pointer, parsed.getPacketHeaderPtr = some (parsed, pointer) ∧
    parsed.bytesAt pointer header.length = some header
  items : ∀ index (inside : index < groups.flatten.length), ∃ pointer bytes,
    parsed.getPacketItemPtr (index + 1) = some pointer ∧
    parsed.getPacketItemPtrByKey groups.flatten[index].key.val = some (parsed, pointer) ∧
    parsed.bytesAt pointer groups.flatten[index].value.length = some bytes ∧
    ItemRestored parsed notes groups.flatten[index] bytes

section

variable (valid : ValidPacket groups notes) (room : Room header groups notes address size)
include valid room

theorem ValidPacket.length_content :
    (layout header groups).contents.length ≤
      (addNotes address (layout header groups) (layout header groups).contents notes).length := by
  rw [length_addNotes address (valid.applicable room)]
  omega

/-- The bytes of an entry outside of noted slots. -/
theorem ValidPacket.entry_getElem? {index position : Nat}
    (inside : index < (layout header groups).length)
    (clear : ∀ note ∈ notes, note.key.val = (layout header groups)[index].1 →
      position < note.offset ∨ note.offset + 8 ≤ position) :
    (slice (addNotes address (layout header groups) (layout header groups).contents notes)
      ((layout header groups).offsetOf index)
      (layout header groups)[index].2.length)[position]? =
        (layout header groups)[index].2[position]? := by
  by_cases within : position < (layout header groups)[index].2.length
  · have ending := Stored.offsetOf_end_le_length inside
    rw [slice, List.getElem?_take_of_lt within, List.getElem?_drop,
      getElem?_addNotes (valid.applicable room) (by omega)
        (unnoted_of_entry valid.layout_distinct valid.names inside within clear),
      Stored.getElem?_contents inside within]
  · rw [slice, List.getElem?_take_eq_none (Nat.not_lt.mp within),
      List.getElem?_eq_none (Nat.not_lt.mp within)]

variable {after : BufferReadHandler}
variable (loaded : Loaded address size (layout header groups)
  (addNotes address (layout header groups) (layout header groups).contents notes) [] after)
include loaded

/-- The slot of a note is in the entry it names. -/
theorem ValidPacket.slot_restored (receiver : JsonRpcPacket) {index : Nat}
    (inside : index < (layout header groups).length) {note : PacketNote}
    (member : note ∈ notes) (key : note.key.val = (layout header groups)[index].1) :
    ∃ target < 2 ^ 64,
      slice (slice
        (addNotes address (layout header groups) (layout header groups).contents notes)
        ((layout header groups).offsetOf index) (layout header groups)[index].2.length)
        note.offset 8 = leBytes 8 target ∧
      (receiver.finish after).bytesAt target note.value.length = some note.value := by
  have distinct : ((layout header groups).map Prod.fst).Nodup := valid.layout_distinct
  have disjoint : notes.Pairwise fun first second =>
      notePosition (layout header groups) first + 8 ≤
          notePosition (layout header groups) second ∨
        notePosition (layout header groups) second + 8 ≤
          notePosition (layout header groups) first := by
    refine valid.apart.imp_of_mem fun {first second} firstAmong secondAmong same => ?_
    rcases valid.names first firstAmong with ⟨_, names⟩
    rcases valid.names second secondAmong with ⟨_, otherNames⟩
    exact names.apart otherNames distinct same
  rcases valid.names note member with ⟨other, names⟩
  cases names.index_eq distinct inside key
  have resolved : Resolved address (layout header groups) _ _ note :=
    addNotes_resolved (valid.applicable room) disjoint note member
  have length := length_addNotes address (valid.applicable room)
  rcases resolved with ⟨offset, _, bound, slot, value⟩
  have total := (valid.applicable room).room
  have addressable := room.addressable
  refine ⟨address + offset, by omega, ?_, ?_⟩
  · rw [slice_slice _ names.within, ← names.notePosition_eq distinct, slot]
  · rw [bytesAt_finish receiver loaded bound, value]

theorem ValidPacket.header_restored (receiver : JsonRpcPacket) :
    ∃ pointer, (receiver.finish after).getPacketHeaderPtr =
        some (receiver.finish after, pointer) ∧
      (receiver.finish after).bytesAt pointer header.length = some header := by
  have inside : 0 < (layout header groups).length := by simp [length_layout]
  have ending := Stored.offsetOf_end_le_length inside
  have total := valid.length_content room
  have found := getPacketItemPtrByKey_finish receiver loaded
    (List.mem_map_of_mem (List.getElem_mem inside))
  rw [idxOf_name valid.layout_distinct inside] at found
  have clear : ∀ position, ∀ note ∈ notes,
      note.key.val = (layout header groups)[0].1 →
        position < note.offset ∨ note.offset + 8 ≤ position := by
    intro position note member same
    rcases valid.slots note member with ⟨item, among, key, _⟩
    refine absurd ?_ (valid.free item among)
    rw [key, same]
    exact List.mem_cons_self
  refine ⟨_, found, ?_⟩
  have read : (receiver.finish after).bytesAt _ (layout header groups)[0].2.length = _ :=
    bytesAt_finish receiver loaded (Nat.le_trans ending total)
  refine read.trans (congrArg some (List.ext_getElem? fun position => ?_))
  exact valid.entry_getElem? room inside (clear position)

theorem ValidPacket.item_restored (receiver : JsonRpcPacket) {index : Nat}
    (inside : index < groups.flatten.length) :
    ∃ pointer bytes,
      (receiver.finish after).getPacketItemPtr (index + 1) = some pointer ∧
      (receiver.finish after).getPacketItemPtrByKey groups.flatten[index].key.val =
        some (receiver.finish after, pointer) ∧
      (receiver.finish after).bytesAt pointer groups.flatten[index].value.length =
        some bytes ∧
      ItemRestored (receiver.finish after) notes groups.flatten[index] bytes := by
  have insideLayout : index + 1 < (layout header groups).length := by
    rw [length_layout]
    omega
  have entry := layout_item inside insideLayout
  have ending := Stored.offsetOf_end_le_length insideLayout
  have total := valid.length_content room
  have numbered := getPacketItemPtr_finish receiver loaded insideLayout
  have named := getPacketItemPtrByKey_finish receiver loaded
    (List.mem_map_of_mem (List.getElem_mem insideLayout))
  have read : (receiver.finish after).bytesAt _ (layout header groups)[index + 1].2.length = _ :=
    bytesAt_finish receiver loaded (Nat.le_trans ending total)
  rw [idxOf_name valid.layout_distinct insideLayout] at named
  simp only [entry] at named read
  refine ⟨_, _, numbered, named, read, fun position clear => ?_, fun note member key => ?_⟩
  · have restored := valid.entry_getElem? room insideLayout fun note member same =>
      clear note member (Subtype.ext (by rw [same, entry]))
    simp only [entry] at restored
    exact restored
  · have restored := valid.slot_restored room loaded receiver insideLayout member
      (by rw [entry, key])
    simp only [entry] at restored
    exact restored

end

/-- A valid packet that is built and then parsed into memory with room for it is read
without an error, and the header, the items and the noted bytes are where the parsed
packet says. -/
theorem packet_roundTrip (valid : ValidPacket groups notes)
    (room : Room header groups notes address size) {receiver : JsonRpcPacket}
    (fresh : receiver.readHandler = .new) {memory : ParseType} (uninitialised : memory ≠ .key) :
    ∃ parsed, receiver.parse (build header groups notes).json address size memory =
        some (parsed, true) ∧
      Restored parsed header groups notes := by
  rcases valid.reads_build room uninitialised with ⟨after, reads, loaded⟩
  refine ⟨receiver.finish after, ?_, loaded.stack, valid.header_restored room loaded receiver,
    fun _ inside => valid.item_restored room loaded receiver inside⟩
  rw [← fresh] at reads
  exact receiver.parse_of_reads reads

/-- Two groups of items, and two notes for slots of the last item. -/
theorem packet_roundTrip_example :
    ∃ parsed, new.parse
        (build [1, 0, 2]
          [[⟨.ofString "a", [7, 8]⟩, ⟨.ofString "b", []⟩],
            [⟨.ofString "c", List.replicate 16 5⟩]]
          [⟨.ofString "c", 8, [3]⟩, ⟨.ofString "c", 0, [4, 0]⟩]).json 4096 24 .object =
        some (parsed, true) ∧
      Restored parsed [1, 0, 2]
        [[⟨.ofString "a", [7, 8]⟩, ⟨.ofString "b", []⟩],
          [⟨.ofString "c", List.replicate 16 5⟩]]
        [⟨.ofString "c", 8, [3]⟩, ⟨.ofString "c", 0, [4, 0]⟩] := by
  refine packet_roundTrip ⟨by decide, by decide, by decide, by decide, by decide, by decide⟩
    ⟨by decide, by decide, by decide⟩ rfl (by decide)

end JsonRpcPacket

end MultiMaster.Packet
