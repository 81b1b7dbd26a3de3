import Mathlib.Data.Set.Finite.List
import MultiMaster.Packet.WriteBounds

/-!
# Keys that a packet does not have

A lookup of an unknown key enters the key with the number zero.  The first offset in
the handler's list is always the beginning of the buffer, where the header stands, so
every unknown key names the header.
-/

namespace MultiMaster.Packet

open Foundation

namespace BufferReadHandler

variable {handler after : BufferReadHandler} {memory : ParseType}

/-- The first offset is the beginning of the buffer; nothing is in use before it is
entered. -/
structure FromStart (handler : BufferReadHandler) : Prop where
  unused : handler.objectPtrs = [] → handler.objectBuffer.tailOffset = 0
  first : ∀ offset ∈ handler.objectPtrs.head?, offset = 0

theorem FromStart.push (fromStart : FromStart handler) :
    ∀ offset ∈ (handler.objectPtrs ++ [handler.objectBuffer.tailOffset]).head?,
      offset = 0 := by
  intro offset member
  cases empty : handler.objectPtrs with
  | nil =>
      rw [empty, List.nil_append, List.head?_cons, Option.mem_some_iff] at member
      rw [← member, fromStart.unused empty]
  | cons earliest rest =>
      rw [empty, List.cons_append, List.head?_cons] at member
      exact fromStart.first offset (by rw [empty, List.head?_cons]; exact member)

theorem FromStart.handle {event : JsonEvent} {proceed : Bool} (fromStart : FromStart handler)
    (handled : handler.handle memory event = some (after, proceed)) : FromStart after := by
  rcases handle_cases handled with onlyStack | ⟨name, value, stores⟩ |
    ⟨name, value, ptrOffset, notes⟩
  · rw [onlyStack.after]
    exact ⟨fromStart.unused, fromStart.first⟩
  · have ptrs := store_objectPtrs stores.after
    refine ⟨fun empty => ?_, ?_⟩
    · rw [ptrs] at empty
      simp at empty
    · rw [ptrs]
      exact fromStart.push
  · have noted := notes.after
    rw [note_eq] at noted
    rcases Option.bind_eq_some_iff.mp noted with ⟨appended, _, noted⟩
    rcases Option.bind_eq_some_iff.mp noted with ⟨startOffset, started, noted⟩
    rcases Option.map_eq_some_iff.mp noted with ⟨written, _, result⟩
    have same : after.objectPtrs = handler.objectPtrs := by
      rw [← result]
      exact nameId_objectPtrs _ _
    refine ⟨fun empty => ?_, ?_⟩
    · rw [same] at empty
      rw [startOf_withStack, startOf, objectPtr, empty] at started
      simp at started
    · rw [same]
      exact fromStart.first

end BufferReadHandler

namespace JsonRpcPacket

open BufferReadHandler

variable {packet after parsed : JsonRpcPacket} {address size : Nat} {memory : ParseType}

/-- The first offset of a packet's handler is the beginning of the buffer. -/
def FirstAtStart (packet : JsonRpcPacket) : Prop :=
  ∀ offset ∈ packet.readHandler.objectPtrs.head?, offset = 0

theorem FirstAtStart.parse {json : List JsonEvent} {length : Int} {complete : Bool}
    (first : FirstAtStart packet)
    (parsed : packet.parse json address length memory = some (after, complete)) :
    FirstAtStart after := by
  rcases read_of_parse parsed with ⟨size, handler, _, done, rfl⟩
  have opened : FromStart (packet.readHandler.withBuffer address size) := ⟨fun _ => rfl, first⟩
  exact (read_invariant FromStart FromStart.handle opened done).push

theorem FirstAtStart.use {use : PacketUse} (first : FirstAtStart packet)
    (used : packet.use use = some after) : FirstAtStart after := by
  cases use with
  | setPacketHeader _ | setPacketItem _ _ _ | setNoteForPtr _ _ _ _ | clearPacket =>
      cases used
      exact first
  | parse json address size memory =>
      rcases Option.map_eq_some_iff.mp used with ⟨⟨parsed, complete⟩, parsing, rfl⟩
      exact first.parse parsing
  | getPacketItemPtr key =>
      rcases Option.map_eq_some_iff.mp used with ⟨⟨asked, pointer⟩, asking, rfl⟩
      rw [FirstAtStart, getPacketItemPtrByKey_readHandler asking, nameId_objectPtrs]
      exact first
  | getPacketItemSize key =>
      rcases Option.map_eq_some_iff.mp used with ⟨⟨asked, size⟩, asking, rfl⟩
      rw [FirstAtStart, getPacketItemSizeByKey_readHandler asking, nameId_objectPtrs]
      exact first

/-- The header and the items of a text. -/
def textEntries (text : PacketText) : List (Bytes × Bytes) :=
  text.headerEntry :: text.groups.flatten

/-- Keys that are not in a text touch nothing.  The offsets of the text follow `earlier`
other ones in the list of the object that parsed it. -/
structure UnknownKeysTouchNothing (earlier : Nat) (text : PacketText)
    (parsed : JsonRpcPacket) : Prop where
  bytes : ∀ index (inside : index < (textEntries text).length) pointer,
    parsed.getPacketItemPtr (earlier + index : Nat) = some pointer →
    ∀ position < (textEntries text)[index].2.length,
      (∀ note ∈ text.notes, note.key = (textEntries text)[index].1 →
        position < note.offset.toNat ∨ note.offset.toNat + 8 ≤ position) →
      parsed.bytesAt (pointer + position) 1 =
        some (slice (textEntries text)[index].2 position 1)
  absent : ∀ key ∉ (textEntries text).map Prod.fst, ∀ index < (textEntries text).length,
    (parsed.getPacketItemPtrByKey key).map Prod.snd ≠
      parsed.getPacketItemPtr (earlier + index : Nat)

/-- A key that was never entered is found at the first offset. -/
theorem getPacketItemPtrByKey_unknown {key : Bytes}
    (unknown : packet.readHandler.nameIdMap.lookup key = none) :
    (packet.getPacketItemPtrByKey key).map Prod.snd = packet.getPacketItemPtr (0 : Nat) := by
  rw [getPacketItemPtrByKey, getPacketItemPtr, nameId, unknown]
  simp only [Option.bind_eq_bind, Option.map_bind]
  rfl

theorem getPacketItemPtr_eq {index : Nat} {offset : Int}
    (found : packet.readHandler.objectPtrs[index]? = some offset) :
    packet.getPacketItemPtr index =
      some (packet.readHandler.objectBuffer.getAddress offset) := by
  rw [getPacketItemPtr, objectPtr, if_pos (Int.natCast_nonneg _), Int.toNat_natCast, found]
  rfl

/-- Some key is neither in a list nor known to a handler. -/
theorem exists_unknown (handler : BufferReadHandler) (names : List Bytes) :
    ∃ key, key ∉ names ∧ handler.nameIdMap.lookup key = none := by
  rcases Infinite.exists_notMem_finset
    (names.toFinset ∪ handler.nameIdMap.keys.toFinset) with ⟨key, absent⟩
  rw [Finset.mem_union, List.mem_toFinset, List.mem_toFinset, not_or] at absent
  exact ⟨key, absent.1, AList.lookup_eq_none.mpr absent.2⟩

/-- Every text that is parsed, and every history of the object that parses it: some key
that is not in the text is found at the address of the header. -/
theorem unknownKeys_never_harmless {uses : List PacketUse}
    (reached : new.useAll uses = some packet) {text : PacketText} {complete : Bool}
    (small : size < 2 ^ 31) (uninitialised : memory ≠ .key)
    (parsing : packet.parse text.events address size memory = some (parsed, complete)) :
    ¬UnknownKeysTouchNothing packet.readHandler.objectPtrs.length text parsed := by
  intro harmless
  have indexed := useAll_indexed indexed_new reached
  have firstFresh : FirstAtStart new := by
    intro offset member
    cases member
  have first : FirstAtStart packet :=
    useAll_invariant FirstAtStart FirstAtStart.use firstFresh reached
  have inside := writesInside_of_safe indexed small (fun _ => uninitialised)
    (safe_of_parse small parsing)
  rcases parse_of_writesInside indexed small (fun _ => uninitialised) inside with
    ⟨after, textRead, again⟩
  have firstParsed := first.parse parsing
  rw [again] at parsing
  cases parsing
  rcases exists_unknown after.appendTailOffset ((textEntries text).map Prod.fst) with
    ⟨key, absent, unknown⟩
  apply harmless.absent key absent 0 (Nat.zero_lt_succ _)
  rw [getPacketItemPtrByKey_unknown unknown]
  rcases textRead.ptrs with ⟨offsets, ptrs, _⟩
  have header : after.appendTailOffset.objectPtrs[packet.readHandler.objectPtrs.length]? =
      some 0 := by
    have whole : after.appendTailOffset.objectPtrs =
        packet.readHandler.objectPtrs ++ (0 :: offsets ++ [after.objectBuffer.size]) := by
      rw [← List.append_assoc]
      exact congrArg (· ++ [after.objectBuffer.size]) ptrs
    rw [whole, List.getElem?_append_right (Nat.le_refl _), Nat.sub_self]
    rfl
  have start : after.appendTailOffset.objectPtrs[0]? = some 0 := by
    rw [← List.head?_eq_getElem?]
    cases head : after.appendTailOffset.objectPtrs.head? with
    | none =>
        rw [List.head?_eq_none_iff] at head
        rw [head] at header
        cases header
    | some offset => rw [firstParsed offset head]
  rw [getPacketItemPtr_eq start, getPacketItemPtr_eq header]

/-- A packet with one item. -/
theorem unknownKeys_never_harmless_item :
    ∃ parsed, new.parse (PacketText.events
        ⟨[9], [[(literal "a", [5])]], [⟨literal "b", 0, []⟩], by decide⟩) 4096 (64 : Nat)
        .object = some (parsed, true) ∧
      ¬UnknownKeysTouchNothing 0
        ⟨[9], [[(literal "a", [5])]], [⟨literal "b", 0, []⟩], by decide⟩ parsed := by
  let text : PacketText := ⟨[9], [[(literal "a", [5])]], [⟨literal "b", 0, []⟩], by decide⟩
  have inside : new.WritesInside 64 text := by decide +kernel
  have passed : ∃ after, TextRead .object 4096 64 text _ after ∧ _ = some (_, true) :=
    parse_of_writesInside indexed_new (by decide) (by decide) inside
  rcases passed with ⟨after, _, parsing⟩
  have reached : new.useAll [] = some new := rfl
  exact ⟨_, parsing, unknownKeys_never_harmless reached (by decide) (by decide) parsing⟩

/-- A note with a misspelt key overwrites the header, and a key that is not in the packet
is found at the header's address. -/
theorem unknownKey_overwrites_header :
    ((new.parse (PacketText.events
        ⟨List.replicate 8 9, [[(literal "a", [5])]], [⟨literal "b", 0, [7]⟩], by decide⟩)
        4096 64 .object).bind fun result => result.1.bytesAt 4096 8) =
      some (leBytes 8 4105) ∧
    ((new.parse (PacketText.events
        ⟨List.replicate 8 9, [[(literal "a", [5])]], [⟨literal "b", 0, [7]⟩], by decide⟩)
        4096 64 .object).bind fun result =>
          (result.1.getPacketItemPtrByKey (literal "c")).map Prod.snd) = some 4096 ∧
    ((new.parse (PacketText.events
        ⟨List.replicate 8 9, [[(literal "a", [5])]], [⟨literal "b", 0, [7]⟩], by decide⟩)
        4096 64 .object).bind fun result =>
          result.1.getPacketHeaderPtr.map Prod.snd) = some 4096 := by
  decide +kernel

end JsonRpcPacket

end MultiMaster.Packet
