import MultiMaster.Packet.RoundTrip
import MultiMaster.Packet.ReadingDocuments

/-!
# Packets as texts

What a packet writes is a document, so that the reader gives the calls for its text.  A packet
that is sent as a text and parsed from it gives back what it was built from.
-/

namespace MultiMaster.Packet

open Foundation

namespace JsonRpcPacket

/-- `parse` for the text of a document.  The reader calls the handler until that returns
false. -/
def parseText (double : Bytes → Except ParseErrorCode Nat) (packet : JsonRpcPacket)
    (text : Bytes) (address : Nat) (size : Int) (memory : ParseType) :
    Option (JsonRpcPacket × Bool) := do
  let handler ← packet.readHandler.setBuffer address size
  let result ← handler.read memory (JsonReader.readText double text).1
  return ({ packet with readHandler := result.1.appendTailOffset }, result.2)

end JsonRpcPacket

/-! ## The document of a packet -/

def WrittenElements.ofList : List WrittenValue → WrittenElements
  | [] => .nil
  | first :: rest => .cons first (ofList rest)

def WrittenMembers.ofList : List (Bytes × WrittenValue) → WrittenMembers
  | [] => .nil
  | first :: rest => .cons first.1 first.2 (ofList rest)

theorem WrittenElements.events_ofList (elements : List WrittenValue) :
    (ofList elements).events = elements.flatMap WrittenValue.events := by
  induction elements with
  | nil => rfl
  | cons first rest ih => rw [ofList, events, ih, List.flatMap_cons]

theorem WrittenMembers.events_ofList (members : List (Bytes × WrittenValue)) :
    (ofList members).events =
      members.flatMap fun member => .key member.1 :: member.2.events := by
  induction members with
  | nil => rfl
  | cons first rest ih => rw [ofList, events, ih, List.flatMap_cons, List.cons_append]

namespace JsonRpcPacket

def segmentDocument (segment : PacketSegmentType) (members : List (Bytes × WrittenValue)) :
    WrittenValue :=
  .object (.ofList ((literal "SegmentType", .int (.ofInt segment.number)) :: members))

def groupDocument (group : List PacketItem) : WrittenValue :=
  segmentDocument .body (group.map fun item => (item.key.val, .string item.value))

def noteDocument (note : PacketNote) : WrittenValue :=
  .object (.ofList [(literal "ptr_key", .string note.key.val),
    (literal "ptr_offset", .int (.ofInt note.offset)),
    (literal "ptr_val", .string note.value)])

/-- What the calls that build a packet write. -/
def document (header : Bytes) (groups : List (List PacketItem)) (notes : List PacketNote) :
    WrittenValue :=
  .array (.ofList (segmentDocument .header [(literal "PacketHeader", .string header)] ::
    groups.map groupDocument ++
    [segmentDocument .ptrNote [(literal "note_arry", .array (.ofList (notes.map noteDocument)))]]))

theorem events_segmentDocument (segment : PacketSegmentType)
    (members : List (Bytes × WrittenValue)) :
    (segmentDocument segment members).events =
      .startObject :: segmentType segment ++
        members.flatMap (fun member => .key member.1 :: member.2.events) ++ [.endObject] := by
  have number : (Int32.ofInt segment.number).toInt = segment.number := by
    cases segment with
    | header => rfl
    | body => rfl
    | ptrNote => rfl
  rw [segmentDocument, WrittenValue.events, WrittenMembers.events_ofList, List.flatMap_cons,
    WrittenValue.events, number]
  rfl

theorem events_groupDocument (group : List PacketItem) :
    (groupDocument group).events = groupEvents group := by
  rw [groupDocument, events_segmentDocument, List.flatMap_map]
  rfl

theorem events_noteDocument {note : PacketNote} (small : note.offset < 2 ^ 31) :
    (noteDocument note).events = noteEvents note := by
  have offset : (Int32.ofInt note.offset).toInt = note.offset := by
    have size : Int32.size = 2 ^ 32 := rfl
    rw [Int32.toInt_ofInt, size, Int.bmod_eq_iff (by decide)]
    omega
  rw [noteDocument, WrittenValue.events, WrittenMembers.events_ofList]
  simp only [List.flatMap_cons, List.flatMap_nil, WrittenValue.events, offset]
  rfl

variable {header : Bytes} {groups : List (List PacketItem)} {notes : List PacketNote}

theorem events_document (nonempty : ∀ group ∈ groups, group ≠ []) (noted : notes ≠ [])
    (small : ∀ note ∈ notes, note.offset < 2 ^ 31) :
    (document header groups notes).events = (build header groups notes).json := by
  have each : (notes.map noteDocument).flatMap WrittenValue.events = notes.flatMap noteEvents := by
    rw [List.flatMap_map]
    exact List.flatMap_congr fun note member => events_noteDocument (small note member)
  have grouped : (groups.map groupDocument).flatMap WrittenValue.events =
      groups.flatMap groupEvents := by
    rw [List.flatMap_map]
    exact List.flatMap_congr fun group _ => events_groupDocument group
  rw [build_json header nonempty noted, document, WrittenValue.events,
    WrittenElements.events_ofList, List.flatMap_append, List.flatMap_cons, grouped,
    List.flatMap_singleton, events_segmentDocument, events_segmentDocument]
  simp only [List.flatMap_singleton, WrittenValue.events, WrittenElements.events_ofList, each]
  simp [headerEvents, notesEvents]

/-! ## Parsing the text -/

/-- The text of a packet is parsed as its calls are. -/
theorem parseText_getString (double : Bytes → Except ParseErrorCode Nat)
    (receiver : JsonRpcPacket) (nonempty : ∀ group ∈ groups, group ≠ [])
    (noted : notes ≠ []) (small : ∀ note ∈ notes, note.offset < 2 ^ 31) (address : Nat)
    (size : Int) (memory : ParseType) :
    receiver.parseText double (build header groups notes).getString address size memory =
      receiver.parse (build header groups notes).json address size memory := by
  rw [parseText, parse, getString, ← events_document nonempty noted small, textOf_events,
    readText_text]

variable {address size : Nat}

/-- Slots inside of items that have room are at offsets of 31 bits. -/
theorem ValidPacket.offset_small (valid : ValidPacket groups notes)
    (room : Room header groups notes address size) :
    ∀ note ∈ notes, note.offset < 2 ^ 31 := by
  intro note member
  rcases valid.slots note member with ⟨item, among, _, within⟩
  have inside : item.value ∈ groups.flatten.map PacketItem.value := List.mem_map_of_mem among
  have whole : item.value.length ≤ (groups.flatten.flatMap PacketItem.value).length := by
    rw [List.flatMap]
    exact (List.sublist_flatten_of_mem inside).length_le
  have total := room.room
  have bounded := room.small
  omega

/-- A packet that is parsed from its text gives back what it was built from. -/
theorem text_roundTrip (double : Bytes → Except ParseErrorCode Nat)
    (valid : ValidPacket groups notes) (room : Room header groups notes address size)
    {receiver : JsonRpcPacket} (fresh : receiver.readHandler = .new) {memory : ParseType}
    (uninitialised : memory ≠ .key) :
    ∃ parsed, receiver.parseText double (build header groups notes).getString address size
        memory = some (parsed, true) ∧
      Restored parsed header groups notes := by
  rcases valid.reads_build room uninitialised with ⟨after, reads, loaded⟩
  refine ⟨receiver.finish after, ?_, loaded.stack, valid.header_restored room loaded receiver,
    fun _ inside => valid.item_restored room loaded receiver inside⟩
  rw [parseText_getString double receiver valid.nonempty valid.noted (valid.offset_small room)]
  rw [← fresh] at reads
  exact receiver.parse_of_reads reads

/-- A packet with an item that has a zero byte, a quotation mark and a slot. -/
theorem text_roundTrip_note :
    ∃ parsed, new.parseText (fun _ => .error .numberTooBig)
        (build [1, 0, 34] [[⟨.ofString "a", [7, 8, 92, 10, 0, 0, 0, 0, 200, 201]⟩]]
          [⟨.ofString "a", 1, [3]⟩]).getString 4096 24 .object = some (parsed, true) ∧
      Restored parsed [1, 0, 34] [[⟨.ofString "a", [7, 8, 92, 10, 0, 0, 0, 0, 200, 201]⟩]]
        [⟨.ofString "a", 1, [3]⟩] :=
  text_roundTrip _ ⟨by decide, by decide, by decide, by decide, by decide, by decide⟩
    ⟨by decide, by decide, by decide⟩ rfl (by decide)

end JsonRpcPacket

end MultiMaster.Packet
