import MultiMaster.Packet.TextReading

/-!
# Uses of a packet

A packet object is built, cleared, given texts to parse and asked for what it parsed,
in any order.  Clearing and parsing keep the handler's list of offsets and its map of
names.  The numbers in the map stay positions in the list.
-/

namespace MultiMaster.Packet

open Foundation

namespace JsonRpcPacket

/-- Clears the text that is built; the handler is not cleared. -/
def clearPacket (packet : JsonRpcPacket) : JsonRpcPacket := { packet with json := [] }

end JsonRpcPacket

/-- Calls on a packet object. -/
inductive PacketUse where
  | setPacketHeader (header : Bytes)
  | setPacketItem (key : CString) (value : Bytes) (type : PacketItemType)
  | setNoteForPtr (key : CString) (offset : Int) (value : Bytes) (type : PacketItemType)
  | clearPacket
  | parse (json : List JsonEvent) (address : Nat) (size : Int) (memory : ParseType)
  | getPacketItemPtr (key : Bytes)
  | getPacketItemSize (key : Bytes)

def PacketUse.IsParse : PacketUse → Prop
  | .parse _ _ _ _ => True
  | _ => False

namespace JsonRpcPacket

variable {packet after : JsonRpcPacket}

def use (packet : JsonRpcPacket) : PacketUse → Option JsonRpcPacket
  | .setPacketHeader header => some (packet.setPacketHeader header)
  | .setPacketItem key value type => some (packet.setPacketItem key value type)
  | .setNoteForPtr key offset value type => some (packet.setNoteForPtr key offset value type)
  | .clearPacket => some packet.clearPacket
  | .parse json address size memory => (packet.parse json address size memory).map Prod.fst
  | .getPacketItemPtr key => (packet.getPacketItemPtrByKey key).map Prod.fst
  | .getPacketItemSize key => (packet.getPacketItemSizeByKey key).map Prod.fst

/-- The packet after a sequence of uses, if all of them have results. -/
def useAll (packet : JsonRpcPacket) (uses : List PacketUse) : Option JsonRpcPacket :=
  uses.foldlM use packet

end JsonRpcPacket

/-! ## Numbers of names -/

namespace BufferReadHandler

variable {handler after : BufferReadHandler} {memory : ParseType}

theorem indexed_new : Indexed new := by
  intro name index found
  simp [new] at found

/-- What every call of the handler keeps is kept by a reading. -/
theorem read_invariant (Kept : BufferReadHandler → Prop) {events : List JsonEvent}
    {complete : Bool}
    (step : ∀ {handler after : BufferReadHandler} {event : JsonEvent} {proceed : Bool},
      Kept handler → handler.handle memory event = some (after, proceed) → Kept after)
    (kept : Kept handler) (done : handler.read memory events = some (after, complete)) :
    Kept after := by
  induction events generalizing handler with
  | nil =>
      cases done
      exact kept
  | cons event rest ih =>
      rw [BufferReadHandler.read] at done
      rcases Option.bind_eq_some_iff.mp done with ⟨⟨middle, proceed⟩, handled, continued⟩
      cases proceed with
      | false =>
          cases continued
          exact step kept handled
      | true => exact ih (step kept handled) continued

theorem Indexed.mono {longer : BufferReadHandler} (indexed : Indexed handler)
    (names : longer.nameIdMap = handler.nameIdMap)
    (length : handler.objectPtrs.length ≤ longer.objectPtrs.length) : Indexed longer := by
  intro name index found
  rw [names] at found
  rcases indexed name index found with ⟨nonneg, zero | below⟩
  · exact ⟨nonneg, .inl zero⟩
  · exact ⟨nonneg, .inr (by omega)⟩

theorem Indexed.nameId (indexed : Indexed handler) (name : Bytes) :
    Indexed (handler.nameId name).1 := by
  rw [BufferReadHandler.nameId]
  split
  · exact indexed
  · exact IdsBelow.insert indexed (Nat.le_refl _) (Int.le_refl 0) (.inl rfl)

theorem Indexed.afterStore {name value : Bytes} (indexed : Indexed handler)
    (stored : handler.store name value = some after) : Indexed after := by
  rw [store_eq] at stored
  rcases Option.map_eq_some_iff.mp stored with ⟨written, _, rfl⟩
  have below : IdsBelow (handler.nameIdMap.insert name handler.objectPtrs.length)
      (handler.objectPtrs.length + 1) :=
    IdsBelow.insert indexed (Nat.le_succ _) (Int.natCast_nonneg _) (.inr (by omega))
  rw [← List.length_concat (a := handler.objectBuffer.tailOffset), List.concat_eq_append]
    at below
  exact below

theorem Indexed.afterNote {name value : Bytes} {ptrOffset : Nat} (indexed : Indexed handler)
    (noted : handler.note name value ptrOffset = some after) : Indexed after := by
  rw [note_eq] at noted
  rcases Option.bind_eq_some_iff.mp noted with ⟨appended, _, noted⟩
  rcases Option.bind_eq_some_iff.mp noted with ⟨startOffset, _, noted⟩
  rcases Option.map_eq_some_iff.mp noted with ⟨written, _, rfl⟩
  exact (indexed.nameId name).mono rfl (Nat.le_refl _)

/-- What a reading keeps: numbers of names stay positions, and the list only grows. -/
theorem Indexed.handle {event : JsonEvent} {proceed : Bool} (indexed : Indexed handler)
    (handled : handler.handle memory event = some (after, proceed)) :
    Indexed after ∧ handler.objectPtrs.length ≤ after.objectPtrs.length := by
  rcases handle_cases handled with onlyStack | ⟨name, value, stores⟩ |
    ⟨name, value, ptrOffset, notes⟩
  · rw [onlyStack.after]
    exact ⟨indexed.mono rfl (Nat.le_refl _), Nat.le_refl _⟩
  · have same : Indexed { handler with parseStack := after.parseStack } := indexed
    refine ⟨same.afterStore stores.after, ?_⟩
    rw [store_objectPtrs stores.after, List.length_append]
    exact Nat.le_add_right _ _
  · have same : Indexed { handler with parseStack := after.parseStack } := indexed
    refine ⟨same.afterNote notes.after, ?_⟩
    have noted := notes.after
    rw [note_eq] at noted
    rcases Option.bind_eq_some_iff.mp noted with ⟨appended, _, noted⟩
    rcases Option.bind_eq_some_iff.mp noted with ⟨startOffset, _, noted⟩
    rcases Option.map_eq_some_iff.mp noted with ⟨written, _, result⟩
    rw [← result]
    simp

theorem Indexed.read {events : List JsonEvent} {complete : Bool} (indexed : Indexed handler)
    (done : handler.read memory events = some (after, complete)) :
    Indexed after ∧ handler.objectPtrs.length ≤ after.objectPtrs.length := by
  refine read_invariant
    (fun other => Indexed other ∧ handler.objectPtrs.length ≤ other.objectPtrs.length)
    (fun kept handled => ?_) ⟨indexed, Nat.le_refl _⟩ done
  rcases kept.1.handle handled with ⟨indexedAfter, longer⟩
  exact ⟨indexedAfter, Nat.le_trans kept.2 longer⟩

end BufferReadHandler

/-! ## Runs of uses -/

namespace JsonRpcPacket

open BufferReadHandler

variable {packet after : JsonRpcPacket}

/-- A parse adds the end of the buffer to the list of offsets. -/
theorem parse_keeps {json : List JsonEvent} {address : Nat} {size : Int} {memory : ParseType}
    {complete : Bool} (indexed : Indexed packet.readHandler)
    (parsed : packet.parse json address size memory = some (after, complete)) :
    Indexed after.readHandler ∧
      packet.readHandler.objectPtrs.length < after.readHandler.objectPtrs.length := by
  rcases read_of_parse parsed with ⟨room, handler, _, done, rfl⟩
  have opened : Indexed (packet.readHandler.withBuffer address room) := indexed
  rcases opened.read done with ⟨indexedAfter, longer⟩
  have added : handler.appendTailOffset.objectPtrs.length = handler.objectPtrs.length + 1 := by
    rw [appendTailOffset, List.length_append, List.length_singleton]
  refine ⟨indexedAfter.mono rfl (Nat.le_of_lt (added ▸ Nat.lt_succ_self _)), ?_⟩
  exact added ▸ Nat.lt_succ_of_le longer

/-- Looking a key up only enters the key. -/
theorem getPacketItemPtrByKey_readHandler {key : Bytes} {pointer : Int}
    (found : packet.getPacketItemPtrByKey key = some (after, pointer)) :
    after.readHandler = (packet.readHandler.nameId key).1 := by
  rcases Option.bind_eq_some_iff.mp found with ⟨offset, _, same⟩
  cases same
  rfl

theorem getPacketItemSizeByKey_readHandler {key : Bytes} {size : Int}
    (found : packet.getPacketItemSizeByKey key = some (after, size)) :
    after.readHandler = (packet.readHandler.nameId key).1 := by
  rcases Option.bind_eq_some_iff.mp found with ⟨next, _, found⟩
  rcases Option.bind_eq_some_iff.mp found with ⟨offset, _, same⟩
  cases same
  rfl

/-- What a use does to the handler: a parse makes the list of offsets longer, another use
keeps it. -/
structure UseKeeps (packet after : JsonRpcPacket) (use : PacketUse) : Prop where
  indexed : Indexed after.readHandler
  parsed : use.IsParse →
    packet.readHandler.objectPtrs.length < after.readHandler.objectPtrs.length
  length : packet.readHandler.objectPtrs.length ≤ after.readHandler.objectPtrs.length
  fresh : ¬use.IsParse → packet.readHandler = .new → after.readHandler = .new

theorem use_keeps {use : PacketUse} (indexed : Indexed packet.readHandler)
    (used : packet.use use = some after) : UseKeeps packet after use := by
  cases use with
  | setPacketHeader header =>
      cases used
      exact ⟨indexed, False.elim, Nat.le_refl _, fun _ fresh => fresh⟩
  | setPacketItem key value type =>
      cases used
      exact ⟨indexed, False.elim, Nat.le_refl _, fun _ fresh => fresh⟩
  | setNoteForPtr key offset value type =>
      cases used
      exact ⟨indexed, False.elim, Nat.le_refl _, fun _ fresh => fresh⟩
  | clearPacket =>
      cases used
      exact ⟨indexed, False.elim, Nat.le_refl _, fun _ fresh => fresh⟩
  | parse json address size memory =>
      rcases Option.map_eq_some_iff.mp used with ⟨⟨parsed, complete⟩, parsing, rfl⟩
      rcases parse_keeps indexed parsing with ⟨indexedAfter, longer⟩
      exact ⟨indexedAfter, fun _ => longer, Nat.le_of_lt longer,
        fun notParse => absurd trivial notParse⟩
  | getPacketItemPtr key =>
      rcases Option.map_eq_some_iff.mp used with ⟨⟨asked, pointer⟩, asking, rfl⟩
      have same := getPacketItemPtrByKey_readHandler asking
      refine ⟨same ▸ indexed.nameId key, False.elim, ?_, fun _ fresh => ?_⟩
      · rw [same, nameId_objectPtrs]
      · simp [getPacketItemPtrByKey, fresh, BufferReadHandler.new, objectPtr] at asking
  | getPacketItemSize key =>
      rcases Option.map_eq_some_iff.mp used with ⟨⟨asked, size⟩, asking, rfl⟩
      have same := getPacketItemSizeByKey_readHandler asking
      refine ⟨same ▸ indexed.nameId key, False.elim, ?_, fun _ fresh => ?_⟩
      · rw [same, nameId_objectPtrs]
      · simp [getPacketItemSizeByKey, fresh, BufferReadHandler.new, objectPtr] at asking

/-- What every use keeps is kept by a sequence of uses. -/
theorem useAll_invariant (Kept : JsonRpcPacket → Prop) {uses : List PacketUse}
    (step : ∀ {packet after : JsonRpcPacket} {use : PacketUse},
      Kept packet → packet.use use = some after → Kept after)
    (kept : Kept packet) (used : packet.useAll uses = some after) : Kept after := by
  induction uses generalizing packet with
  | nil =>
      cases used
      exact kept
  | cons use uses ih =>
      rw [useAll, List.foldlM_cons] at used
      rcases Option.bind_eq_some_iff.mp used with ⟨middle, first, others⟩
      exact ih (step kept first) others

/-- Every use keeps the numbers of names in range and only adds to the offsets. -/
theorem useAll_keeps {uses : List PacketUse} (indexed : Indexed packet.readHandler)
    (used : packet.useAll uses = some after) :
    Indexed after.readHandler ∧
      packet.readHandler.objectPtrs.length ≤ after.readHandler.objectPtrs.length := by
  refine useAll_invariant (fun other => Indexed other.readHandler ∧
    packet.readHandler.objectPtrs.length ≤ other.readHandler.objectPtrs.length)
    (fun kept one => ?_) ⟨indexed, Nat.le_refl _⟩ used
  have next := use_keeps kept.1 one
  exact ⟨next.indexed, Nat.le_trans kept.2 next.length⟩

theorem useAll_indexed {uses : List PacketUse} (indexed : Indexed packet.readHandler)
    (used : packet.useAll uses = some after) : Indexed after.readHandler :=
  (useAll_keeps indexed used).1

/-- Without a parse the handler stays as it was made. -/
theorem useAll_fresh {uses : List PacketUse} (fresh : packet.readHandler = .new)
    (unparsed : ∀ use ∈ uses, ¬use.IsParse) (used : packet.useAll uses = some after) :
    after.readHandler = .new := by
  induction uses generalizing packet with
  | nil =>
      cases used
      exact fresh
  | cons use uses ih =>
      rw [useAll, List.foldlM_cons] at used
      rcases Option.bind_eq_some_iff.mp used with ⟨middle, first, others⟩
      have indexed : Indexed packet.readHandler := fresh ▸ indexed_new
      exact ih ((use_keeps indexed first).fresh (unparsed use List.mem_cons_self) fresh)
        (fun other member => unparsed other (List.mem_cons_of_mem _ member)) others

/-- A parse among the uses leaves offsets in the list. -/
theorem useAll_parsed {uses : List PacketUse} {use : PacketUse}
    (indexed : Indexed packet.readHandler) (member : use ∈ uses) (parse : use.IsParse)
    (used : packet.useAll uses = some after) : 0 < after.readHandler.objectPtrs.length := by
  induction uses generalizing packet with
  | nil => cases member
  | cons first uses ih =>
      rw [useAll, List.foldlM_cons] at used
      rcases Option.bind_eq_some_iff.mp used with ⟨middle, using_, others⟩
      have kept := use_keeps indexed using_
      rcases List.mem_cons.mp member with rfl | later
      · have more := (useAll_keeps kept.indexed others).2
        exact Nat.lt_of_lt_of_le (Nat.zero_lt_of_lt (kept.parsed parse)) more
      · exact ih kept.indexed later others

end JsonRpcPacket

end MultiMaster.Packet
