import MultiMaster.Packet.PacketUses

/-!
# Writes outside of the caller's buffer

Parsing writes a pointer to the place that a note names.  The place is computed in
32-bit arithmetic, and the test of `put` compares only its end with the length of the
buffer, so places that wrap around to negative offsets pass the test.
-/

namespace MultiMaster.Packet

open Foundation

namespace JsonRpcPacket

open BufferReadHandler

variable {packet : JsonRpcPacket} {address size : Nat} {memory : ParseType}

/-- The calls of `put` that a parse makes. -/
def parseCalls (packet : JsonRpcPacket) (json : List JsonEvent) (address : Nat) (size : Int)
    (memory : ParseType) : List PutCall :=
  match packet.readHandler.setBuffer address size with
  | none => []
  | some handler => handler.readCalls memory (json.map JsonEvent.replay)

theorem parseCalls_natCast (packet : JsonRpcPacket) (json : List JsonEvent) (address size : Nat)
    (memory : ParseType) :
    packet.parseCalls json address size memory =
      (packet.readHandler.withBuffer address size).readCalls memory
        (json.map JsonEvent.replay) := by
  rw [parseCalls, setBuffer_natCast]

/-- The reader gives the events of a text as they are. -/
theorem replay_events (text : PacketText) :
    text.events.map JsonEvent.replay = text.events := by
  have members : ∀ entries : List (Bytes × Bytes),
      (entries.flatMap PacketText.memberEvents).map JsonEvent.replay =
        entries.flatMap PacketText.memberEvents := by
    intro entries
    rw [List.map_flatMap]
    rfl
  have groups : (text.groups.flatMap fun group =>
        PacketText.objectEvents 1 (group.flatMap PacketText.memberEvents)).map JsonEvent.replay =
      text.groups.flatMap fun group =>
        PacketText.objectEvents 1 (group.flatMap PacketText.memberEvents) := by
    rw [List.map_flatMap]
    simp only [PacketText.objectEvents, List.map_append, members]
    rfl
  have notes : (text.notes.flatMap PacketText.noteEvents).map JsonEvent.replay =
      text.notes.flatMap PacketText.noteEvents := by
    rw [List.map_flatMap]
    rfl
  simp only [PacketText.events, List.map_append, groups]
  simp only [PacketText.objectEvents, List.map_append, notes]
  rfl

/-- A parse has a result exactly when every call writes inside of the buffer. -/
theorem safe_of_parse {json : List JsonEvent} {result : JsonRpcPacket × Bool}
    (small : size < 2 ^ 31) (parsed : packet.parse json address size memory = some result) :
    ∀ call ∈ packet.parseCalls json address size memory, call.Safe size := by
  rw [parse_natCast] at parsed
  rcases Option.map_eq_some_iff.mp parsed with ⟨⟨after, complete⟩, done, _⟩
  rw [parseCalls_natCast]
  exact (performs_safe (FixedBuffer.holding_filled address size) small (read_performs done)).1

/-- A text all of whose writes are inside of a buffer of `size` bytes or refused: every
value ends below the largest `int`, and every slot is in range. -/
def WritesInside (packet : JsonRpcPacket) (size : Nat) (text : PacketText) : Prop :=
  packet.readHandler.initialAccount.InRange size (textSteps text)

instance (packet : JsonRpcPacket) (size : Nat) (text : PacketText) :
    Decidable (packet.WritesInside size text) :=
  inferInstanceAs (Decidable (PacketAccount.InRange _ _ _))

/-- A text with writes inside of the buffer is parsed to its end. -/
theorem parse_of_writesInside {text : PacketText} (indexed : Indexed packet.readHandler)
    (small : size < 2 ^ 31) (defined : packet.readHandler.parseStack = [] → memory ≠ .key)
    (inside : packet.WritesInside size text) :
    ∃ after,
      TextRead memory address size text (packet.readHandler.withBuffer address size) after ∧
      packet.parse text.events address size memory = some (packet.finish after, true) := by
  have indexedHandler : Indexed (packet.readHandler.withBuffer address size) := indexed
  rcases (indexedHandler.reads_text rfl small defined text).1 inside with ⟨after, textRead⟩
  refine ⟨after, textRead, ?_⟩
  apply packet.parse_of_reads
  rw [Reads, replay_events]
  exact textRead.read

theorem writesInside_of_safe {text : PacketText} (indexed : Indexed packet.readHandler)
    (small : size < 2 ^ 31) (defined : packet.readHandler.parseStack = [] → memory ≠ .key)
    (safe : ∀ call ∈ packet.parseCalls text.events address size memory, call.Safe size) :
    packet.WritesInside size text := by
  have indexedHandler : Indexed (packet.readHandler.withBuffer address size) := indexed
  by_contra outside
  rcases (indexedHandler.reads_text rfl small defined text).2 outside with
    ⟨call, member, escaping⟩
  rw [parseCalls_natCast, replay_events] at safe
  exact escaping (safe call member)

/-- Every write of a parse stays inside of the caller's buffer exactly when the values
and slots of the text are in range. -/
theorem parse_writesInside_iff {uses : List PacketUse} (reached : new.useAll uses = some packet)
    (text : PacketText) (address : Nat) (small : size < 2 ^ 31)
    (defined : packet.readHandler.parseStack = [] → memory ≠ .key) :
    (∀ call ∈ packet.parseCalls text.events address size memory, call.Safe size) ↔
      packet.WritesInside size text := by
  have indexed := useAll_indexed indexed_new reached
  constructor
  · exact writesInside_of_safe indexed small defined
  · intro inside
    rcases parse_of_writesInside indexed small defined inside with ⟨after, _, parsed⟩
    exact safe_of_parse small parsed

/-- A note that names no item, and one whose slot does not fit. -/
def refusedNotes : PacketText :=
  ⟨[], [[(literal "a", List.replicate 8 0)]], [⟨literal "b", 0, [7]⟩, ⟨literal "a", 60, []⟩],
    by decide⟩

theorem parse_writesInside_refused :
    new.WritesInside 64 refusedNotes ∧
      ∀ call ∈ new.parseCalls refusedNotes.events 4096 (64 : Nat) .object,
        call.Safe (64 : Nat) := by
  have unused : new.useAll [] = some new := rfl
  have inside : new.WritesInside 64 refusedNotes := by decide +kernel
  exact ⟨inside,
    (parse_writesInside_iff unused refusedNotes 4096 (by decide) (by decide)).mpr inside⟩

/-- A slot eight bytes before the item wraps around and passes the test. -/
theorem parse_writes_before_buffer :
    ¬∀ call ∈ new.parseCalls
        (PacketText.events
          ⟨[], [[(literal "a", List.replicate 8 0)]], [⟨literal "a", 4294967288, []⟩],
            by decide⟩) 4096 64 .object, call.Safe 64 := by
  decide +kernel

end JsonRpcPacket

end MultiMaster.Packet
