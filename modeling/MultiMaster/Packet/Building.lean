import MultiMaster.Packet.JsonRpcPacket

/-!
# Building a packet

A packet is built by a header, groups of items and one group of notes.  The first
call of a group opens its object and the last one closes it; a call for a group of
one does both.  This module gives the events that all calls together write.
-/

namespace MultiMaster.Packet

open Foundation

structure PacketItem where
  key : CString
  value : Bytes
  deriving DecidableEq

structure PacketNote where
  key : CString
  offset : Nat
  value : Bytes
  deriving DecidableEq

variable {Entry : Type}

/-- The entries of a group behind its first one with their positions. -/
def placedRest : List Entry → List (Entry × PacketItemType)
  | [] => []
  | [entry] => [(entry, .last)]
  | entry :: next :: rest => (entry, .normal) :: placedRest (next :: rest)

/-- The entries of a group with their positions: single, or first, normal and last. -/
def placed : List Entry → List (Entry × PacketItemType)
  | [] => []
  | [entry] => [(entry, .single)]
  | entry :: next :: rest => (entry, .first) :: placedRest (next :: rest)

namespace JsonRpcPacket

def setGroup (packet : JsonRpcPacket) (group : List PacketItem) : JsonRpcPacket :=
  (placed group).foldl
    (fun packet entry => packet.setPacketItem entry.1.key entry.1.value entry.2) packet

def setNotes (packet : JsonRpcPacket) (notes : List PacketNote) : JsonRpcPacket :=
  (placed notes).foldl
    (fun packet entry =>
      packet.setNoteForPtr entry.1.key entry.1.offset entry.1.value entry.2) packet

/-- Build a packet from its header, its groups of items and its notes. -/
def build (header : Bytes) (groups : List (List PacketItem)) (notes : List PacketNote) :
    JsonRpcPacket :=
  (groups.foldl setGroup (new.setPacketHeader header)).setNotes notes

@[simp] theorem write_write (packet : JsonRpcPacket) (first second : List JsonEvent) :
    (packet.write first).write second = packet.write (first ++ second) := by
  simp [write]

/-! ## What a group writes -/

/-- A call that writes an entry, opens the group's object before the first entry and
closes it behind the last. -/
def Delimits (set : JsonRpcPacket → Entry × PacketItemType → JsonRpcPacket)
    (opening closing : List JsonEvent) (body : Entry → List JsonEvent) : Prop :=
  ∀ packet entry type, set packet (entry, type) = packet.write (
    (if type = .first ∨ type = .single then opening else []) ++ body entry ++
      (if type = .last ∨ type = .single then closing else []))

variable {set : JsonRpcPacket → Entry × PacketItemType → JsonRpcPacket}
variable {opening closing : List JsonEvent} {body : Entry → List JsonEvent}

theorem foldl_placedRest (delimits : Delimits set opening closing body)
    (packet : JsonRpcPacket) (entry : Entry) (rest : List Entry) :
    (placedRest (entry :: rest)).foldl set packet =
      packet.write ((entry :: rest).flatMap body ++ closing) := by
  induction rest generalizing packet entry with
  | nil => simp [placedRest, delimits packet entry .last]
  | cons next rest ih =>
      rw [placedRest, List.foldl_cons, delimits packet entry .normal, ih]
      simp

theorem foldl_placed (delimits : Delimits set opening closing body)
    (packet : JsonRpcPacket) {group : List Entry} (nonempty : group ≠ []) :
    (placed group).foldl set packet =
      packet.write (opening ++ group.flatMap body ++ closing) := by
  cases group with
  | nil => exact absurd rfl nonempty
  | cons entry rest =>
      cases rest with
      | nil => simp [placed, delimits packet entry .single]
      | cons next rest =>
          rw [placed, List.foldl_cons, delimits packet entry .first,
            foldl_placedRest delimits]
          simp

def itemEvents (item : PacketItem) : List JsonEvent :=
  [.key item.key.val, .string item.value]

def groupEvents (group : List PacketItem) : List JsonEvent :=
  (.startObject :: segmentType .body) ++ group.flatMap itemEvents ++ [.endObject]

def noteEvents (note : PacketNote) : List JsonEvent :=
  [.startObject, .key (literal "ptr_key"), .string note.key.val,
    .key (literal "ptr_offset"), .int note.offset, .key (literal "ptr_val"),
    .string note.value, .endObject]

def notesEvents (notes : List PacketNote) : List JsonEvent :=
  (.startObject :: segmentType .ptrNote ++ [.key (literal "note_arry"), .startArray]) ++
    notes.flatMap noteEvents ++ [.endArray, .endObject, .endArray]

def headerEvents (header : Bytes) : List JsonEvent :=
  [.startArray, .startObject] ++ segmentType .header ++
    [.key (literal "PacketHeader"), .string header, .endObject]

theorem setGroup_eq (packet : JsonRpcPacket) {group : List PacketItem}
    (nonempty : group ≠ []) : packet.setGroup group = packet.write (groupEvents group) := by
  have delimits : Delimits
      (fun packet (entry : PacketItem × PacketItemType) =>
        packet.setPacketItem entry.1.key entry.1.value entry.2)
      (.startObject :: segmentType .body) [.endObject] itemEvents :=
    fun _ _ _ => rfl
  exact foldl_placed delimits packet nonempty

theorem setNotes_eq (packet : JsonRpcPacket) {notes : List PacketNote}
    (nonempty : notes ≠ []) : packet.setNotes notes = packet.write (notesEvents notes) := by
  have delimits : Delimits
      (fun packet (entry : PacketNote × PacketItemType) =>
        packet.setNoteForPtr entry.1.key entry.1.offset entry.1.value entry.2)
      (.startObject :: segmentType .ptrNote ++ [.key (literal "note_arry"), .startArray])
      [.endArray, .endObject, .endArray] noteEvents :=
    fun _ _ _ => rfl
  exact foldl_placed delimits packet nonempty

theorem foldl_setGroup (packet : JsonRpcPacket) {groups : List (List PacketItem)}
    (nonempty : ∀ group ∈ groups, group ≠ []) :
    groups.foldl setGroup packet = packet.write (groups.flatMap groupEvents) := by
  induction groups generalizing packet with
  | nil => simp [write]
  | cons group groups ih =>
      rw [List.foldl_cons, setGroup_eq packet (nonempty group List.mem_cons_self),
        ih _ fun other member => nonempty other (List.mem_cons_of_mem _ member)]
      simp

/-- The events of a built packet. -/
theorem build_json (header : Bytes) {groups : List (List PacketItem)}
    {notes : List PacketNote} (nonempty : ∀ group ∈ groups, group ≠ [])
    (noted : notes ≠ []) :
    (build header groups notes).json =
      headerEvents header ++ groups.flatMap groupEvents ++ notesEvents notes := by
  rw [build, setNotes_eq _ noted, foldl_setGroup _ nonempty]
  rfl

end JsonRpcPacket

end MultiMaster.Packet
