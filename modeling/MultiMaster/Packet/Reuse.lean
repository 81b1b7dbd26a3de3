import MultiMaster.Packet.WriteBounds

/-!
# Packet objects that are used again

A parse adds to the offsets and names that earlier parses left.  The results that an
object gives after a parse are those of a fresh object exactly when it has not parsed
anything before.
-/

namespace MultiMaster.Packet

open Foundation

namespace JsonRpcPacket

open BufferReadHandler

variable {packet used fresh : JsonRpcPacket} {address size : Nat} {memory : ParseType}

/-- Two parsed packets give the same results for the header, every index and every key. -/
structure SameResults (used fresh : JsonRpcPacket) : Prop where
  headerPtr : used.getPacketHeaderPtr.map Prod.snd = fresh.getPacketHeaderPtr.map Prod.snd
  headerSize : used.getPacketHeaderSize.map Prod.snd = fresh.getPacketHeaderSize.map Prod.snd
  itemPtr : ∀ index, used.getPacketItemPtr index = fresh.getPacketItemPtr index
  itemSize : ∀ index, used.getPacketItemSize index = fresh.getPacketItemSize index
  itemPtrByKey : ∀ key, (used.getPacketItemPtrByKey key).map Prod.snd =
    (fresh.getPacketItemPtrByKey key).map Prod.snd
  itemSizeByKey : ∀ key, (used.getPacketItemSizeByKey key).map Prod.snd =
    (fresh.getPacketItemSizeByKey key).map Prod.snd

/-- The results depend on the handler only. -/
theorem SameResults.of_readHandler (same : used.readHandler = fresh.readHandler) :
    SameResults used fresh := by
  have byKeyPtr : ∀ key, (used.getPacketItemPtrByKey key).map Prod.snd =
      (fresh.getPacketItemPtrByKey key).map Prod.snd := by
    intro key
    simp [getPacketItemPtrByKey, same, Option.map_bind]
  have byKeySize : ∀ key, (used.getPacketItemSizeByKey key).map Prod.snd =
      (fresh.getPacketItemSizeByKey key).map Prod.snd := by
    intro key
    simp [getPacketItemSizeByKey, same, Option.map_bind]
  refine ⟨byKeyPtr _, byKeySize _, fun index => ?_, fun index => ?_, byKeyPtr, byKeySize⟩
  · simp only [getPacketItemPtr, same]
  · simp only [getPacketItemSize, same]

/-- The offsets of a parsed text: those that were there, one for each value and the end. -/
theorem parse_length {text : PacketText} {complete : Bool} (indexed : Indexed packet.readHandler)
    (small : size < 2 ^ 31) (uninitialised : memory ≠ .key)
    (parsed : packet.parse text.events address size memory = some (used, complete)) :
    used.readHandler.objectPtrs.length =
      packet.readHandler.objectPtrs.length + text.groups.flatten.length + 2 := by
  have inside := writesInside_of_safe indexed small (fun _ => uninitialised)
    (safe_of_parse small parsed)
  rcases parse_of_writesInside indexed small (fun _ => uninitialised) inside with
    ⟨after, textRead, again⟩
  rw [again] at parsed
  cases parsed
  rcases textRead.ptrs with ⟨offsets, ptrs, length⟩
  rw [withBuffer] at ptrs
  simp only [finish, appendTailOffset, ptrs, List.length_append, List.length_cons, length,
    List.length_nil]
  omega

/-- A text that a fresh object can parse gives the same results on a used object exactly
when the object has parsed nothing before.  A used object that has parsed the same layout
before differs only at indices at which the fresh object has no result. -/
theorem parse_independent_iff {uses : List PacketUse} (reached : new.useAll uses = some packet)
    {text : PacketText} {complete : Bool} (small : size < 2 ^ 31) (uninitialised : memory ≠ .key)
    (parsedFresh : new.parse text.events address size memory = some (fresh, complete)) :
    (∃ used complete, packet.parse text.events address size memory = some (used, complete) ∧
      SameResults used fresh) ↔ ∀ use ∈ uses, ¬use.IsParse := by
  constructor
  · rintro ⟨used, completeUsed, parsed, same⟩ use member parse
    have indexed := useAll_indexed indexed_new reached
    have left := useAll_parsed indexed_new member parse reached
    have length := parse_length indexed small uninitialised parsed
    have lengthFresh : fresh.readHandler.objectPtrs.length =
        0 + text.groups.flatten.length + 2 :=
      parse_length indexed_new small uninitialised parsedFresh
    -- The used object has an offset at the index behind the last one of the fresh object.
    have index := same.itemPtr (text.groups.flatten.length + 2 : Nat)
    simp only [getPacketItemPtr, objectPtr, Int.toNat_natCast,
      if_pos (Int.natCast_nonneg _)] at index
    rw [List.getElem?_eq_getElem (show _ < used.readHandler.objectPtrs.length by omega),
      List.getElem?_eq_none (show fresh.readHandler.objectPtrs.length ≤ _ by omega)] at index
    cases index
  · intro unparsed
    have untouched := useAll_fresh rfl unparsed reached
    rw [parse_natCast] at parsedFresh
    rcases Option.map_eq_some_iff.mp parsedFresh with ⟨⟨after, proceed⟩, done, same⟩
    cases same
    refine ⟨packet.finish after, proceed, ?_, SameResults.of_readHandler rfl⟩
    rw [parse_natCast, untouched]
    exact Option.map_eq_some_iff.mpr ⟨_, done, rfl⟩

/-- An object that was built and cleared, but has parsed nothing. -/
theorem parse_independent_rebuilt :
    ∃ packet fresh used complete,
      new.useAll [.setPacketHeader [1], .clearPacket] = some packet ∧
      new.parse (PacketText.events
        ⟨[9], [[(literal "a", [5])]], [⟨literal "a", 0, []⟩], by decide⟩) 4096 (64 : Nat)
        .object = some (fresh, true) ∧
      packet.parse (PacketText.events
        ⟨[9], [[(literal "a", [5])]], [⟨literal "a", 0, []⟩], by decide⟩) 4096 (64 : Nat)
        .object = some (used, complete) ∧
      SameResults used fresh := by
  have reached : new.useAll [.setPacketHeader [1], .clearPacket] = some new := rfl
  let text : PacketText := ⟨[9], [[(literal "a", [5])]], [⟨literal "a", 0, []⟩], by decide⟩
  have inside : new.WritesInside 64 text := by decide +kernel
  have passed : ∃ after, TextRead .object 4096 64 text _ after ∧ _ = some (_, true) :=
    parse_of_writesInside indexed_new (by decide) (by decide) inside
  rcases passed with ⟨after, _, parsedFresh⟩
  have unparsed : ∀ use ∈ [PacketUse.setPacketHeader [1], .clearPacket], ¬use.IsParse := by
    simp [PacketUse.IsParse]
  rcases (parse_independent_iff reached (by decide) (by decide) parsedFresh).mpr unparsed with
    ⟨used, complete, again, same⟩
  exact ⟨new, _, used, complete, reached, parsedFresh, again, same⟩

/-- After a parse of a packet with a longer header, the first item of the next packet is
looked for at the offset of the first item of the earlier one. -/
theorem parse_finds_earlier_item :
    ((new.useAll [.parse (PacketText.events
        ⟨[1, 2, 3], [[(literal "b", [4])]], [], by decide⟩) 4096 64 .object]).bind fun packet =>
      (packet.parse (PacketText.events ⟨[], [[(literal "a", [5])]], [], by decide⟩) 4096 64
        .object).bind fun result => result.1.getPacketItemPtr 1) = some 4099 ∧
    ((new.parse (PacketText.events ⟨[], [[(literal "a", [5])]], [], by decide⟩) 4096 64
        .object).bind fun result => result.1.getPacketItemPtr 1) = some 4096 := by
  decide +kernel

end JsonRpcPacket

end MultiMaster.Packet
