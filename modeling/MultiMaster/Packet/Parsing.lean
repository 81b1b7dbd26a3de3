import MultiMaster.Packet.Building

/-!
# Parsing a built packet

The handler's stack returns to what it was at the end of every scope.  Items are
laid out one after another in the buffer, each entered under its name and number.
A note appends its bytes and stores their address in the item it names.
-/

namespace MultiMaster.Packet

open Foundation

/-- Names with their bytes, in the order in which they were stored. -/
abbrev Stored := List (Bytes × Bytes)

namespace Stored

/-- The bytes of all entries. -/
def contents (stored : Stored) : Bytes := (stored.map Prod.snd).flatten

/-- Where the bytes of an entry begin. -/
def offsetOf (stored : Stored) (index : Nat) : Nat := (contents (stored.take index)).length

@[simp] theorem contents_append (first second : Stored) :
    contents (first ++ second) = contents first ++ contents second := by
  simp [contents]

@[simp] theorem contents_singleton (name value : Bytes) :
    contents [(name, value)] = value := by
  simp [contents]

theorem offsetOf_append {first second : Stored} {index : Nat}
    (inside : index ≤ first.length) :
    offsetOf (first ++ second) index = offsetOf first index := by
  rw [offsetOf, offsetOf, List.take_append_of_le_length inside]

@[simp] theorem offsetOf_length (stored : Stored) :
    offsetOf stored stored.length = (contents stored).length := by
  rw [offsetOf, List.take_length]

end Stored

namespace BufferReadHandler

variable {address size : Nat} {stored : Stored} {content : Bytes}
variable {stack : List ParseItem} {handler : BufferReadHandler} {memory : ParseType}

/-- The handler with an empty buffer of `size` bytes. -/
def withBuffer (handler : BufferReadHandler) (address size : Nat) : BufferReadHandler :=
  { handler with objectBuffer := .holding address size [] }

theorem setBuffer_natCast (handler : BufferReadHandler) (address size : Nat) :
    handler.setBuffer address size = some (handler.withBuffer address size) := by
  rw [setBuffer, FixedBuffer.setBuffer_natCast]
  rfl

/-- Only a length that is not negative gives a buffer. -/
theorem withBuffer_of_setBuffer {after : BufferReadHandler} {length : Int}
    (opened : handler.setBuffer address length = some after) :
    ∃ size : Nat, length = size ∧ after = handler.withBuffer address size := by
  rcases Option.bind_eq_some_iff.mp opened with ⟨buffer, taken, _⟩
  have nonneg : 0 ≤ length := by
    by_contra negative
    rw [FixedBuffer.setBuffer, if_neg negative] at taken
    cases taken
  rcases Int.eq_ofNat_of_zero_le nonneg with ⟨size, rfl⟩
  rw [setBuffer_natCast] at opened
  exact ⟨size, rfl, (Option.some.inj opened).symm⟩

/-- The handler has stored the entries and the buffer begins with `content`. -/
structure Loaded (address size : Nat) (stored : Stored) (content : Bytes)
    (stack : List ParseItem) (handler : BufferReadHandler) : Prop where
  ptrs : handler.objectPtrs =
    (List.range stored.length).map fun index => (stored.offsetOf index : Int)
  ids : ∀ index (inside : index < stored.length),
    handler.nameIdMap.lookup stored[index].1 = some (index : Int)
  stack : handler.parseStack = stack
  buffer : handler.objectBuffer = .holding address size content

theorem Loaded.withStack (loaded : Loaded address size stored content stack handler)
    (other : List ParseItem) :
    Loaded address size stored content other { handler with parseStack := other } :=
  ⟨loaded.ptrs, loaded.ids, rfl, loaded.buffer⟩

/-- Storing a new entry. -/
theorem Loaded.store {name value : Bytes}
    (loaded : Loaded address size stored stored.contents stack handler)
    (fresh : name ∉ stored.map Prod.fst)
    (room : stored.contents.length + value.length ≤ size) (small : size < 2 ^ 31) :
    ∃ after, handler.store name value = some after ∧
      Loaded address size (stored ++ [(name, value)])
        (Stored.contents (stored ++ [(name, value)])) stack after := by
  have count : handler.objectPtrs.length = stored.length := by simp [loaded.ptrs]
  have wrapped : wrapInt value.length = value.length :=
    FixedBuffer.wrapInt_of_lt (Nat.lt_of_le_of_lt (Nat.le_of_add_left_le room) small)
  have appended : (FixedBuffer.holding address size stored.contents).append value
      value.length = _ := FixedBuffer.append_holding room small
  refine ⟨{ handler with
    objectBuffer := .holding address size (stored.contents ++ value)
    objectPtrs := handler.objectPtrs ++ [(stored.contents.length : Int)]
    nameIdMap := handler.nameIdMap.insert name handler.objectPtrs.length },
    ?_, ?_, ?_, loaded.stack, ?_⟩
  · simp only [BufferReadHandler.store, loaded.buffer, wrapped, appended,
      Option.bind_eq_bind, Option.bind_some, Option.pure_def]
  · have earlier : ∀ index ∈ List.range stored.length,
        (Stored.offsetOf (stored ++ [(name, value)]) index : Int) = stored.offsetOf index := by
      intro index member
      rw [Stored.offsetOf_append (Nat.le_of_lt (List.mem_range.mp member))]
    simp only [loaded.ptrs, List.length_append, List.length_singleton, List.range_succ,
      List.map_append, List.map_singleton]
    rw [List.map_congr_left earlier, Stored.offsetOf_append (Nat.le_refl _),
      Stored.offsetOf_length]
  · intro index inside
    rw [List.length_append, List.length_singleton] at inside
    by_cases last : index = stored.length
    · subst last
      rw [List.getElem_concat_length rfl, AList.lookup_insert, count]
    · have earlier : index < stored.length := by omega
      have different : stored[index].1 ≠ name := by
        intro same
        exact fresh (same ▸ List.mem_map_of_mem (List.getElem_mem earlier))
      rw [List.getElem_append_left earlier, AList.lookup_insert_ne different]
      exact loaded.ids index earlier
  · simp

/-! ## Scopes -/

/-- Reading what the events wrote leads to `after`, without a call returning false. -/
def Reads (memory : ParseType) (handler : BufferReadHandler) (events : List JsonEvent)
    (after : BufferReadHandler) : Prop :=
  handler.read memory (events.map JsonEvent.replay) = some (after, true)

/-- Events that are read without an error lead to what follows. -/
theorem Reads.read_append {middle : BufferReadHandler} {events : List JsonEvent}
    (reads : Reads memory handler events middle) (rest : List JsonEvent) :
    handler.read memory (events.map JsonEvent.replay ++ rest) = middle.read memory rest := by
  rw [Reads] at reads
  generalize events.map JsonEvent.replay = replayed at reads ⊢
  induction replayed generalizing handler with
  | nil =>
      cases reads
      rfl
  | cons event others ih =>
      rw [List.cons_append, read]
      rw [read] at reads
      rcases Option.bind_eq_some_iff.mp reads with ⟨called, handled, continued⟩
      rw [handled]
      split at continued
      · rename_i succeeded
        simp only [Option.bind_eq_bind, Option.bind_some, succeeded, if_true]
        exact ih continued
      · cases continued

theorem Reads.append {middle after : BufferReadHandler} {first second : List JsonEvent}
    (firstReads : Reads memory handler first middle)
    (secondReads : Reads memory middle second after) :
    Reads memory handler (first ++ second) after := by
  rw [Reads, List.map_append, firstReads.read_append]
  exact secondReads

theorem reads_segment (segment : PacketSegmentType) :
    Reads memory handler (.startObject :: JsonRpcPacket.segmentType segment)
      { handler with parseStack := ⟨.object, []⟩ :: handler.parseStack } := by
  have other : literal "SegmentType" ≠ literal "ptr_offset" := by decide
  have number : 0 ≤ segment.number := by cases segment <;> decide
  simp [Reads, JsonRpcPacket.segmentType, JsonEvent.replay, number, read, handle, startObject,
    key, uint, other]

theorem reads_endObject (memory : ParseType) {name : Bytes}
    (scope : handler.parseStack = ⟨.object, name⟩ :: stack) :
    Reads memory handler [.endObject] { handler with parseStack := stack } := by
  simp [Reads, JsonEvent.replay, read, handle, endObject, endScope, scope]

theorem reads_endArray (memory : ParseType) {name : Bytes}
    (scope : handler.parseStack = ⟨.array, name⟩ :: stack) :
    Reads memory handler [.endArray] { handler with parseStack := stack } := by
  simp [Reads, JsonEvent.replay, read, handle, endArray, endScope, scope]

/-! ## Items -/

/-- Names that the handler does not store under. -/
def Storable (name : Bytes) : Prop := name ≠ literal "ptr_key" ∧ name ≠ literal "ptr_val"

instance (name : Bytes) : Decidable (Storable name) := inferInstanceAs (Decidable (_ ∧ _))

/-- A string member is stored under its name. -/
theorem Loaded.reads_string (memory : ParseType) {name value : Bytes}
    (loaded : Loaded address size stored stored.contents stack handler)
    (storable : Storable name) (fresh : name ∉ stored.map Prod.fst)
    (room : stored.contents.length + value.length ≤ size) (small : size < 2 ^ 31) :
    ∃ after, Reads memory handler [.key name, .string value] after ∧
      Loaded address size (stored ++ [(name, value)])
        (Stored.contents (stored ++ [(name, value)])) stack after := by
  rcases (loaded.withStack handler.parseStack).store fresh room small with
    ⟨after, storing, loadedAfter⟩
  refine ⟨after, ?_, loaded.stack ▸ loadedAfter⟩
  simp [Reads, JsonEvent.replay, read, handle, key, string, storable.1, storable.2, storing]

/-- The entries that items are stored as. -/
def entries (items : List PacketItem) : Stored :=
  items.map fun item => (item.key.val, item.value)

/-- Items can be stored behind what is there. -/
structure Fitting (size : Nat) (stored : Stored) (items : List PacketItem) : Prop where
  storable : ∀ item ∈ items, Storable item.key.val
  distinct : ((stored ++ entries items).map Prod.fst).Nodup
  room : (Stored.contents (stored ++ entries items)).length ≤ size

theorem Loaded.reads_items (memory : ParseType) {items : List PacketItem}
    (loaded : Loaded address size stored stored.contents stack handler)
    (fitting : Fitting size stored items) (small : size < 2 ^ 31) :
    ∃ after, Reads memory handler (items.flatMap JsonRpcPacket.itemEvents) after ∧
      Loaded address size (stored ++ entries items)
        (Stored.contents (stored ++ entries items)) stack after := by
  induction items generalizing handler stored with
  | nil => exact ⟨handler, rfl, by simpa [entries] using loaded⟩
  | cons item rest ih =>
      have split : stored ++ entries (item :: rest) =
          (stored ++ [(item.key.val, item.value)]) ++ entries rest := by
        simp [entries]
      have room := fitting.room
      have distinct := fitting.distinct
      rw [split] at room distinct ⊢
      have fresh : item.key.val ∉ stored.map Prod.fst := by
        intro member
        rw [List.map_append, List.map_append, List.append_assoc] at distinct
        exact (List.disjoint_of_nodup_append distinct) member (by simp)
      have roomHere : stored.contents.length + item.value.length ≤ size := by
        simp only [Stored.contents_append, Stored.contents_singleton, List.length_append]
          at room
        omega
      rcases loaded.reads_string memory
        (fitting.storable item List.mem_cons_self) fresh roomHere small with
        ⟨middle, first, loadedMiddle⟩
      rcases ih loadedMiddle
        ⟨fun other member => fitting.storable other (List.mem_cons_of_mem _ member),
          distinct, room⟩ with ⟨after, second, loadedAfter⟩
      refine ⟨after, ?_, loadedAfter⟩
      rw [List.flatMap_cons]
      exact first.append second

theorem Loaded.reads_group (memory : ParseType) {group : List PacketItem}
    (loaded : Loaded address size stored stored.contents stack handler)
    (fitting : Fitting size stored group) (small : size < 2 ^ 31) :
    ∃ after, Reads memory handler (JsonRpcPacket.groupEvents group) after ∧
      Loaded address size (stored ++ entries group)
        (Stored.contents (stored ++ entries group)) stack after := by
  have opened := loaded.withStack (⟨.object, []⟩ :: handler.parseStack)
  rcases opened.reads_items memory fitting small with
    ⟨middle, items, loadedMiddle⟩
  have closed := reads_endObject memory loadedMiddle.stack
  refine ⟨_, ((reads_segment .body).append items).append closed, ?_⟩
  rw [← loaded.stack]
  exact loadedMiddle.withStack _

theorem Loaded.reads_groups (memory : ParseType) {groups : List (List PacketItem)}
    (loaded : Loaded address size stored stored.contents stack handler)
    (fitting : Fitting size stored groups.flatten) (small : size < 2 ^ 31) :
    ∃ after, Reads memory handler (groups.flatMap JsonRpcPacket.groupEvents) after ∧
      Loaded address size (stored ++ entries groups.flatten)
        (Stored.contents (stored ++ entries groups.flatten)) stack after := by
  induction groups generalizing handler stored with
  | nil => exact ⟨handler, rfl, by simpa [entries] using loaded⟩
  | cons group groups ih =>
      have split : stored ++ entries (group :: groups).flatten =
          (stored ++ entries group) ++ entries groups.flatten := by
        simp [entries]
      have room := fitting.room
      have distinct := fitting.distinct
      rw [split] at room distinct ⊢
      have fittingGroup : Fitting size stored group := by
        refine ⟨fun item member => fitting.storable item (by simp [member]), ?_, ?_⟩
        · rw [List.map_append] at distinct
          exact (List.nodup_append.mp distinct).1
        · rw [Stored.contents_append, List.length_append] at room
          omega
      have fittingRest : Fitting size (stored ++ entries group) groups.flatten :=
        ⟨fun item member => fitting.storable item (by
          rw [List.flatten_cons]
          exact List.mem_append_right _ member), distinct, room⟩
      rcases loaded.reads_group memory fittingGroup small with ⟨middle, first, loadedMiddle⟩
      rcases ih loadedMiddle fittingRest with ⟨after, second, loadedAfter⟩
      refine ⟨after, ?_, loadedAfter⟩
      rw [List.flatMap_cons]
      exact first.append second

/-- The header is the first entry; the outermost array stays open. -/
theorem reads_header (address : Nat) {header : Bytes} (uninitialised : memory ≠ .key)
    (room : header.length ≤ size) (small : size < 2 ^ 31) :
    ∃ after, Reads memory (new.withBuffer address size)
        (JsonRpcPacket.headerEvents header) after ∧
      Loaded address size [(literal "PacketHeader", header)]
        (Stored.contents [(literal "PacketHeader", header)]) [⟨.array, []⟩] after := by
  let empty : BufferReadHandler :=
    { new.withBuffer address size with parseStack := [⟨.array, []⟩] }
  have opened : Reads memory (new.withBuffer address size) [.startArray] empty := by
    simp [Reads, JsonEvent.replay, read, handle, startArray, withBuffer, new, uninitialised,
      empty]
  have loaded : Loaded address size [] (Stored.contents []) [⟨.array, []⟩] empty :=
    ⟨rfl, fun index inside => absurd inside (Nat.not_lt_zero _), rfl, rfl⟩
  have scope := loaded.withStack [⟨.object, []⟩, ⟨.array, []⟩]
  have storable : Storable (literal "PacketHeader") := ⟨by decide, by decide⟩
  rcases scope.reads_string memory storable (by simp) (by simpa [Stored.contents] using room)
    small with ⟨middle, stored, loadedMiddle⟩
  have closed := reads_endObject memory loadedMiddle.stack
  refine ⟨_, ((opened.append (reads_segment .header)).append stored).append closed, ?_⟩
  exact loadedMiddle.withStack [⟨.array, []⟩]

/-! ## Notes -/

/-- The content after a note: its bytes are appended and their address is stored at a
position. -/
def addNote (address : Nat) (content : Bytes) (position : Nat) (value : Bytes) : Bytes :=
  overwrite (content ++ value) position (leBytes 8 (address + content.length))

/-- The position of the slot a note names. -/
def notePosition (stored : Stored) (note : PacketNote) : Nat :=
  stored.offsetOf ((stored.map Prod.fst).idxOf note.key.val) + note.offset

theorem readOffset_leBytes {offset : Nat} (fits : offset < 2 ^ 32) :
    readOffset ⟨.ptrOffset, leBytes 4 offset⟩ = some offset := by
  have front : (leBytes 4 offset ++ [0]).take 4 = leBytes 4 offset := by
    rw [List.take_append_of_le_length (by simp), List.take_of_length_le (by simp)]
  simp only [readOffset, length_leBytes, front, leValue_leBytes]
  rw [if_pos (by omega), Nat.mod_eq_of_lt (by omega)]

theorem Loaded.lookup_eq {name : Bytes}
    (loaded : Loaded address size stored content stack handler)
    (known : name ∈ stored.map Prod.fst) :
    handler.nameIdMap.lookup name = some ((stored.map Prod.fst).idxOf name : Int) := by
  have inside : (stored.map Prod.fst).idxOf name < stored.length := by
    simpa using List.idxOf_lt_length_of_mem known
  have entry : stored[(stored.map Prod.fst).idxOf name].1 = name := by
    have same := List.getElem_idxOf (List.idxOf_lt_length_of_mem known)
    rw [List.getElem_map] at same
    exact same
  have found := loaded.ids _ inside
  rw [entry] at found
  exact found

theorem Loaded.nameId_eq {name : Bytes}
    (loaded : Loaded address size stored content stack handler)
    (known : name ∈ stored.map Prod.fst) :
    handler.nameId name = (handler, ((stored.map Prod.fst).idxOf name : Int)) := by
  rw [nameId, loaded.lookup_eq known]

theorem Loaded.objectPtr_eq {index : Nat}
    (loaded : Loaded address size stored content stack handler)
    (inside : index < stored.length) :
    handler.objectPtr index = some (stored.offsetOf index : Int) := by
  rw [objectPtr, if_pos (by omega), loaded.ptrs, Int.toNat_natCast]
  simp [inside]

/-- A note can be applied: it names an entry, its slot is inside the content and there
is room for its bytes. -/
structure Applicable (size : Nat) (stored : Stored) (content : Bytes) (note : PacketNote) :
    Prop where
  known : note.key.val ∈ stored.map Prod.fst
  inside : notePosition stored note + 8 ≤ content.length
  room : content.length + note.value.length ≤ size

/-- The value of a note is appended and its address stored in the slot. -/
theorem Loaded.string_ptrVal {note : PacketNote} {kind : ParseType}
    (loaded : Loaded address size stored content
      (⟨kind, literal "ptr_val"⟩ :: ⟨.ptrOffset, leBytes 4 note.offset⟩ ::
        ⟨.ptrKey, note.key.val⟩ :: stack) handler)
    (applicable : Applicable size stored content note) (small : size < 2 ^ 31) :
    ∃ after, handler.string note.value = some (after, true) ∧
      Loaded address size stored
        (addNote address content (notePosition stored note) note.value) stack after := by
  have other : literal "ptr_val" ≠ literal "ptr_key" := by decide
  have inside := applicable.inside
  have room := applicable.room
  have offsetFits : note.offset < 2 ^ 32 := by
    rw [notePosition] at inside
    omega
  have wrapped : wrapInt note.value.length = note.value.length :=
    FixedBuffer.wrapInt_of_lt (by omega)
  have appended : (FixedBuffer.holding address size content).append note.value
      note.value.length = _ := FixedBuffer.append_holding room small
  let middle : BufferReadHandler := { handler with
    parseStack := stack
    objectBuffer := .holding address size (content ++ note.value) }
  have loadedMiddle : Loaded address size stored (content ++ note.value) stack middle :=
    ⟨loaded.ptrs, loaded.ids, rfl, rfl⟩
  have named := loadedMiddle.nameId_eq applicable.known
  have started := loadedMiddle.objectPtr_eq
    (show (stored.map Prod.fst).idxOf note.key.val < stored.length by
      simpa using List.idxOf_lt_length_of_mem applicable.known)
  have position : wrapInt
      ((stored.offsetOf ((stored.map Prod.fst).idxOf note.key.val) : Int) + note.offset) =
        (notePosition stored note : Int) := by
    rw [notePosition] at inside ⊢
    rw [← Nat.cast_add, FixedBuffer.wrapInt_of_lt (by omega)]
  have target : ((FixedBuffer.holding address size (content ++ note.value)).getAddress
      content.length).toNat = address + content.length := by
    simp only [FixedBuffer.getAddress, FixedBuffer.holding]
    omega
  have written : (FixedBuffer.holding address size (content ++ note.value)).put
      (leBytes 8 (address + content.length)) (notePosition stored note)
      (leBytes 8 (address + content.length)).length = _ :=
    FixedBuffer.put_holding (by
      rw [length_leBytes, List.length_append]
      omega) (by rw [List.length_append]; exact room) small
  rw [length_leBytes, Nat.cast_ofNat] at written
  refine ⟨{ middle with
    objectBuffer := FixedBuffer.holding address size
      (addNote address content (notePosition stored note) note.value) },
    ?_, loaded.ptrs, loaded.ids, rfl, rfl⟩
  rw [string, loaded.stack]
  simp only [other, if_false, if_true, readOffset_leBytes offsetFits, loaded.buffer, wrapped,
    appended, Option.bind_eq_bind, Option.bind_some]
  simp only [middle] at named started
  rw [named, started, Option.bind_some, position, target]
  exact Option.bind_eq_some_iff.mpr ⟨_, written, rfl⟩

theorem Loaded.reads_note (memory : ParseType) {note : PacketNote}
    (loaded : Loaded address size stored content stack handler)
    (applicable : Applicable size stored content note) (small : size < 2 ^ 31) :
    ∃ after, Reads memory handler (JsonRpcPacket.noteEvents note) after ∧
      Loaded address size stored
        (addNote address content (notePosition stored note) note.value) stack after := by
  have offsetFits : note.offset < 2 ^ 32 := by
    have inside := applicable.inside
    have room := applicable.room
    rw [notePosition] at inside
    omega
  have offset : (UInt32.ofNat note.offset).toNat = note.offset := by
    rw [UInt32.toNat_ofNat', Nat.mod_eq_of_lt offsetFits]
  let pushed : BufferReadHandler := { handler with
    parseStack := ⟨.key, literal "ptr_val"⟩ :: ⟨.ptrOffset, leBytes 4 note.offset⟩ ::
      ⟨.ptrKey, note.key.val⟩ :: ⟨.object, []⟩ :: stack }
  have opened : Reads memory handler
      [.startObject, .key (literal "ptr_key"), .string note.key.val,
        .key (literal "ptr_offset"), .int note.offset, .key (literal "ptr_val")] pushed := by
    simp [Reads, JsonEvent.replay, read, handle, startObject, key, string, uint, offset,
      loaded.stack, pushed]
  have loadedPushed : Loaded address size stored content _ pushed := loaded.withStack _
  rcases loadedPushed.string_ptrVal applicable small with ⟨middle, applied, loadedMiddle⟩
  have noted : Reads memory pushed [.string note.value] middle := by
    simp [Reads, JsonEvent.replay, read, handle, applied]
  have closed := reads_endObject memory loadedMiddle.stack
  exact ⟨_, (opened.append noted).append closed, loadedMiddle.withStack stack⟩

/-- The content after notes. -/
def addNotes (address : Nat) (stored : Stored) (content : Bytes) (notes : List PacketNote) :
    Bytes :=
  notes.foldl (fun content note =>
    addNote address content (notePosition stored note) note.value) content

/-- Notes can be applied one after another. -/
structure AllApplicable (size : Nat) (stored : Stored) (content : Bytes)
    (notes : List PacketNote) : Prop where
  known : ∀ note ∈ notes, note.key.val ∈ stored.map Prod.fst
  inside : ∀ note ∈ notes, notePosition stored note + 8 ≤ content.length
  room : content.length + (notes.flatMap PacketNote.value).length ≤ size

theorem length_addNote (address : Nat) {position : Nat} {value : Bytes}
    (inside : position + 8 ≤ content.length) :
    (addNote address content position value).length = content.length + value.length := by
  rw [addNote, length_overwrite, List.length_append]
  rw [length_leBytes, List.length_append]
  omega

theorem AllApplicable.head {note : PacketNote} {notes : List PacketNote}
    (applicable : AllApplicable size stored content (note :: notes)) :
    Applicable size stored content note := by
  refine ⟨applicable.known note List.mem_cons_self, applicable.inside note List.mem_cons_self,
    ?_⟩
  have room := applicable.room
  rw [List.flatMap_cons, List.length_append] at room
  omega

theorem AllApplicable.tail {note : PacketNote} {notes : List PacketNote}
    (applicable : AllApplicable size stored content (note :: notes)) (address : Nat) :
    AllApplicable size stored
      (addNote address content (notePosition stored note) note.value) notes := by
  have length : (addNote address content (notePosition stored note) note.value).length = _ :=
    length_addNote address applicable.head.inside
  refine ⟨fun other member => applicable.known other (List.mem_cons_of_mem _ member),
    fun other member => ?_, ?_⟩
  · have inside := applicable.inside other (List.mem_cons_of_mem _ member)
    omega
  · have room := applicable.room
    rw [List.flatMap_cons, List.length_append] at room
    omega

theorem Loaded.reads_notes (memory : ParseType) {notes : List PacketNote}
    (loaded : Loaded address size stored content stack handler)
    (applicable : AllApplicable size stored content notes) (small : size < 2 ^ 31) :
    ∃ after, Reads memory handler (notes.flatMap JsonRpcPacket.noteEvents) after ∧
      Loaded address size stored (addNotes address stored content notes) stack after := by
  induction notes generalizing handler content with
  | nil => exact ⟨handler, rfl, loaded⟩
  | cons note notes ih =>
      rcases loaded.reads_note memory applicable.head small with ⟨middle, first, loadedMiddle⟩
      rcases ih loadedMiddle (applicable.tail address) with ⟨after, second, loadedAfter⟩
      refine ⟨after, ?_, loadedAfter⟩
      rw [List.flatMap_cons]
      exact first.append second

/-- The notes object, which also closes the packet. -/
theorem Loaded.reads_notesObject (memory : ParseType) {notes : List PacketNote}
    {name : Bytes} (loaded : Loaded address size stored content [⟨.array, name⟩] handler)
    (applicable : AllApplicable size stored content notes) (small : size < 2 ^ 31) :
    ∃ after, Reads memory handler (JsonRpcPacket.notesEvents notes) after ∧
      Loaded address size stored (addNotes address stored content notes) [] after := by
  let opened : BufferReadHandler := { handler with
    parseStack := [⟨.array, []⟩, ⟨.object, []⟩, ⟨.array, name⟩] }
  have segment : Reads memory handler
      (.startObject :: JsonRpcPacket.segmentType .ptrNote)
      { handler with parseStack := ⟨.object, []⟩ :: handler.parseStack } :=
    reads_segment .ptrNote
  have array : Reads memory
      { handler with parseStack := ⟨.object, []⟩ :: handler.parseStack }
      [.key (literal "note_arry"), .startArray] opened := by
    simp [Reads, JsonEvent.replay, read, handle, key, startArray, loaded.stack, opened]
  have loadedOpened : Loaded address size stored content _ opened := loaded.withStack _
  rcases loadedOpened.reads_notes memory applicable small with ⟨middle, noted, loadedMiddle⟩
  have endArray := reads_endArray memory loadedMiddle.stack
  have loadedObject := loadedMiddle.withStack [⟨.object, []⟩, ⟨.array, name⟩]
  have endObject := reads_endObject memory loadedObject.stack
  have loadedArray := loadedObject.withStack [⟨.array, name⟩]
  have endPacket := reads_endArray memory loadedArray.stack
  refine ⟨_, ?_, loadedArray.withStack []⟩
  exact ((segment.append array).append noted).append
    ((endArray.append endObject).append endPacket)

end BufferReadHandler

/-! ## Parsing a document -/

namespace JsonRpcPacket

open BufferReadHandler

variable {json : List JsonEvent} {address : Nat} {memory : ParseType} {complete : Bool}

/-- The packet after its reader has finished. -/
def finish (packet : JsonRpcPacket) (handler : BufferReadHandler) : JsonRpcPacket :=
  { packet with readHandler := handler.appendTailOffset }

theorem parse_natCast (packet : JsonRpcPacket) (json : List JsonEvent) (address size : Nat)
    (memory : ParseType) :
    packet.parse json address size memory =
      ((packet.readHandler.withBuffer address size).read memory
        (json.map JsonEvent.replay)).map fun result => (packet.finish result.1, result.2) := by
  rw [parse, setBuffer_natCast, Option.bind_eq_bind, Option.bind_some]
  exact Option.map_eq_bind.symm

theorem parse_of_reads {size : Nat} {after : BufferReadHandler} (packet : JsonRpcPacket)
    (reads : Reads memory (packet.readHandler.withBuffer address size) json after) :
    packet.parse json address size memory = some (packet.finish after, true) := by
  rw [parse_natCast, reads]
  rfl

/-- What a parse has done when it returns. -/
theorem read_of_parse {packet after : JsonRpcPacket} {length : Int}
    (parsed : packet.parse json address length memory = some (after, complete)) :
    ∃ (size : Nat) (handler : BufferReadHandler), length = size ∧
      (packet.readHandler.withBuffer address size).read memory (json.map JsonEvent.replay) =
        some (handler, complete) ∧
      after = packet.finish handler := by
  rcases Option.bind_eq_some_iff.mp parsed with ⟨opened, taken, _⟩
  rcases withBuffer_of_setBuffer taken with ⟨size, rfl, _⟩
  rw [parse_natCast] at parsed
  rcases Option.map_eq_some_iff.mp parsed with ⟨⟨handler, proceed⟩, read, same⟩
  cases same
  exact ⟨size, handler, rfl, read, rfl⟩

end JsonRpcPacket

end MultiMaster.Packet
