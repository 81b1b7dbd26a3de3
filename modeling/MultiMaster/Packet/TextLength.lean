import MultiMaster.Packet.JsonWriter
import MultiMaster.Packet.Sizes

/-!
# The length of a packet's text

A buffer with the length of the text has room for all values of a packet, because
every byte of a value is written as one character or more.  The length is returned as
an `int`, which does not hold the lengths of all texts.
-/

namespace MultiMaster.Packet

open Foundation

namespace PacketAccount

variable {address size : Nat} {account : PacketAccount}

/-- The bytes that steps append. -/
def appended : PacketStep → Nat
  | .store _ value => value.length
  | .note note => note.value.length

/-- Values of an account so far, and the entries they were stored as. -/
def Holds (account : PacketAccount) (seen : List (Bytes × Bytes)) : Prop :=
  ∀ entry ∈ seen, 0 ≤ account.starts entry.1 ∧
    account.starts entry.1 + entry.2.length ≤ account.tail

/-- With room for all values every value is stored. -/
theorem stores_succeed (address : Nat) {entries seen : List (Bytes × Bytes)}
    (holds : account.Holds seen)
    (distinct : ((seen ++ entries).map Prod.fst).Nodup)
    (room : account.tail + (entries.flatMap Prod.snd).length ≤ size) (small : size < 2 ^ 31) :
    account.InRange size (entries.map fun entry => .store entry.1 entry.2) ∧
      (∀ call ∈ account.calls address size (entries.map fun entry => .store entry.1 entry.2),
        call.Succeeds size) ∧
      (account.run size (entries.map fun entry => .store entry.1 entry.2)).tail =
        account.tail + (entries.flatMap Prod.snd).length ∧
      (account.run size (entries.map fun entry => .store entry.1 entry.2)).Holds
        (seen ++ entries) := by
  induction entries generalizing account seen with
  | nil => simpa [InRange, calls, run] using holds
  | cons entry entries ih =>
      rw [List.flatMap_cons, List.length_append] at room
      have fits : copied entry.2 = entry.2.length := Nat.mod_eq_of_lt (by omega)
      have grown : (account.step size (.store entry.1 entry.2)).tail =
          account.tail + entry.2.length := by
        change grow size account.tail entry.2 = _
        rw [grow, fits, if_pos (by omega)]
      have split : seen ++ entry :: entries = (seen ++ [entry]) ++ entries := by simp
      rw [split] at distinct ⊢
      have fresh : ∀ other ∈ seen, other.1 ≠ entry.1 := by
        intro other member same
        rw [List.map_append, List.map_append, List.append_assoc] at distinct
        exact (List.disjoint_of_nodup_append distinct) (List.mem_map_of_mem member)
          (by simp [same])
      have holdsNext : (account.step size (.store entry.1 entry.2)).Holds (seen ++ [entry]) := by
        intro other member
        rw [grown]
        rcases List.mem_append.mp member with earlier | last
        · have kept : (account.step size (.store entry.1 entry.2)).starts other.1 =
              account.starts other.1 := Function.update_of_ne (fresh other earlier) _ _
          have before := holds other earlier
          rw [kept]
          omega
        · rw [List.mem_singleton.mp last]
          have here : (account.step size (.store entry.1 entry.2)).starts entry.1 =
              account.tail := Function.update_self _ _ _
          rw [here]
          omega
      rcases ih holdsNext distinct (by omega) with ⟨inRange, succeed, tail, holdsAfter⟩
      refine ⟨⟨?_, inRange⟩, ?_, ?_, holdsAfter⟩
      · rw [StepInRange, fits]
        omega
      · intro call member
        rcases List.mem_append.mp member with first | later
        · rw [List.mem_singleton.mp first]
          simp only [PutCall.Succeeds]
          rw [FixedBuffer.wrapInt_of_lt (by omega), wrapInt_of_range (by omega) (by omega)]
          omega
        · exact succeed call later
      · rw [List.flatMap_cons, List.length_append]
        change ((account.step size (.store entry.1 entry.2)).run size
          (entries.map fun entry => .store entry.1 entry.2)).tail = _
        rw [tail, grown]
        omega

/-- Notes for slots inside of values, with room for their own values. -/
theorem notes_succeed (address : Nat) {notes : List TextNote} {seen : List (Bytes × Bytes)}
    (holds : account.Holds seen)
    (slots : ∀ note ∈ notes, ∃ entry ∈ seen,
      entry.1 = note.key ∧ note.offset.toNat + 8 ≤ entry.2.length)
    (room : account.tail + (notes.flatMap TextNote.value).length ≤ size) (small : size < 2 ^ 31) :
    account.InRange size (notes.map .note) ∧
      ∀ call ∈ account.calls address size (notes.map .note), call.Succeeds size := by
  induction notes generalizing account with
  | nil => simp [InRange, calls]
  | cons note notes ih =>
      rw [List.flatMap_cons, List.length_append] at room
      have fits : copied note.value = note.value.length := Nat.mod_eq_of_lt (by omega)
      rcases slots note List.mem_cons_self with ⟨entry, among, key, within⟩
      have held := holds entry among
      rw [key] at held
      have slot : (slotOf (account.starts note.key) note.offset : Int) =
          account.starts note.key + note.offset.toNat := by
        rw [slotOf, Int.emod_eq_of_lt (by omega) (by omega)]
        omega
      have grown : grow size account.tail note.value = account.tail + note.value.length := by
        rw [grow, fits, if_pos (by omega)]
      have tail : (account.step size (.note note)).tail =
          account.tail + note.value.length := by
        change afterSlot size (grow size account.tail note.value) _ = _
        rw [grown, afterSlot, if_pos (by omega)]
        omega
      have holdsNext : (account.step size (.note note)).Holds seen := by
        intro other member
        have before := holds other member
        rw [tail]
        change 0 ≤ account.starts other.1 ∧ account.starts other.1 + _ ≤ _
        omega
      rcases ih holdsNext (fun other member => slots other (List.mem_cons_of_mem _ member))
        (by omega) with ⟨inRange, succeed⟩
      refine ⟨⟨⟨?_, .inl (by omega)⟩, inRange⟩, ?_⟩
      · omega
      · intro call member
        rcases List.mem_append.mp member with first | later
        · simp only [stepCalls, List.mem_cons, List.not_mem_nil, or_false] at first
          rcases first with rfl | rfl
          · simp only [PutCall.Succeeds]
            rw [FixedBuffer.wrapInt_of_lt (by omega), wrapInt_of_range (by omega) (by omega)]
            omega
          · have place : wrapInt (account.starts note.key + note.offset.toNat) =
                account.starts note.key + note.offset.toNat :=
              wrapInt_of_range (by omega) (by omega)
            simp only [PutCall.Succeeds]
            rw [place, wrapInt_of_range (by omega) (by omega)]
            omega
        · exact succeed call later

theorem grow_of_succeeds {tail : Nat} {value : Bytes} (fits : tail + copied value < 2 ^ 31)
    (short : value.length < 2 ^ 31)
    (succeeds : PutCall.Succeeds size ⟨value, tail, wrapInt value.length⟩) :
    grow size tail value = tail + value.length := by
  have whole : copied value = value.length := Nat.mod_eq_of_lt (by omega)
  simp only [PutCall.Succeeds] at succeeds
  rw [FixedBuffer.wrapInt_of_lt short, wrapInt_of_range (by omega) (by omega)] at succeeds
  rw [grow, whole, if_pos (by omega)]

/-- When every call succeeds, all bytes of the values are in use. -/
theorem tail_of_succeed {steps : List PacketStep} (inRange : account.InRange size steps)
    (short : ∀ step ∈ steps, appended step < 2 ^ 31)
    (succeed : ∀ call ∈ account.calls address size steps, call.Succeeds size) :
    account.tail + (steps.map appended).sum ≤ (account.run size steps).tail := by
  induction steps generalizing account with
  | nil => exact Nat.le_refl _
  | cons step steps ih =>
      have later := ih inRange.2 (fun other member => short other (List.mem_cons_of_mem _ member))
        fun call member => succeed call (List.mem_append_right _ member)
      have here : account.tail + appended step ≤ (account.step size step).tail := by
        have length := short step List.mem_cons_self
        cases step with
        | store name value =>
            have call := succeed _ (List.mem_append_left _ (List.mem_singleton_self _))
            exact Nat.le_of_eq (grow_of_succeeds inRange.1 length call).symm
        | note note =>
            have call := succeed _ (List.mem_append_left _ List.mem_cons_self)
            have grown := grow_of_succeeds inRange.1.1 length call
            exact Nat.le_trans (Nat.le_of_eq grown.symm) (afterSlot_le _ _ _)
      rw [List.map_cons, List.sum_cons]
      change _ ≤ ((account.step size step).run size steps).tail
      omega

end PacketAccount

namespace JsonRpcPacket

open BufferReadHandler

variable {header : Bytes} {groups : List (List PacketItem)} {notes : List PacketNote}
variable {address : Nat} {memory : ParseType} {receiver : JsonRpcPacket}

/-- A packet whose notes name slots inside of items; sizes and offsets are given as
`int`s. -/
structure SlottedPacket (header : Bytes) (groups : List (List PacketItem))
    (notes : List PacketNote) : Prop where
  nonempty : ∀ group ∈ groups, group ≠ []
  keys : OwnKeys groups
  noted : notes ≠ []
  slots : ∀ note ∈ notes, ∃ item ∈ groups.flatten,
    item.key = note.key ∧ note.offset + 8 ≤ item.value.length
  header : header.length < 2 ^ 31
  items : ∀ item ∈ groups.flatten, item.value.length < 2 ^ 31
  notes : ∀ note ∈ notes, note.value.length < 2 ^ 31

theorem entries_flatten (groups : List (List PacketItem)) :
    (groups.map entries).flatten = entries groups.flatten :=
  List.map_flatten.symm

/-- The text of a built packet. -/
def builtText (header : Bytes) (notes : List PacketNote) (keys : OwnKeys groups) :
    PacketText where
  header := header
  groups := groups.map entries
  notes := notes.map PacketNote.inText
  storable := by
    intro entry member
    rw [entries_flatten] at member
    rcases List.mem_map.mp member with ⟨item, among, rfl⟩
    exact keys.storable item among

theorem replay_build (nonempty : ∀ group ∈ groups, group ≠ []) (noted : notes ≠ [])
    (keys : OwnKeys groups) :
    (build header groups notes).json.map JsonEvent.replay =
      (builtText header notes keys).events := by
  have members : ∀ items : List PacketItem,
      (items.flatMap itemEvents).map JsonEvent.replay =
        (entries items).flatMap PacketText.memberEvents := by
    intro items
    rw [List.map_flatMap, entries, List.flatMap_map]
    rfl
  have each : (groups.flatMap groupEvents).map JsonEvent.replay =
      (groups.map entries).flatMap fun group =>
        PacketText.objectEvents 1 (group.flatMap PacketText.memberEvents) := by
    rw [List.map_flatMap, List.flatMap_map]
    simp only [groupEvents, List.map_append, members]
    rfl
  rw [build_json header nonempty noted, List.map_append, List.map_append, each,
    replay_notesEvents, PacketText.events, List.append_assoc, List.append_assoc]
  simp [headerEvents, builtText, PacketText.headerEntry, PacketText.objectEvents,
    PacketText.memberEvents, notesObjectEvents, segmentType, PacketSegmentType.number,
    JsonEvent.replay]

/-- The bytes of all values of a packet. -/
def valueTotal (header : Bytes) (groups : List (List PacketItem)) (notes : List PacketNote) :
    Nat :=
  header.length + (groups.flatten.flatMap PacketItem.value).length +
    (notes.flatMap PacketNote.value).length

theorem sum_appended (header : Bytes) (notes : List PacketNote) (keys : OwnKeys groups) :
    ((textSteps (builtText header notes keys)).map PacketAccount.appended).sum =
      valueTotal header groups notes := by
  have items : (((groups.map entries).flatten.map fun entry =>
      PacketStep.store entry.1 entry.2).map PacketAccount.appended).sum =
        (groups.flatten.flatMap PacketItem.value).length := by
    rw [entries_flatten, entries, List.map_map, List.map_map, List.length_flatMap]
    rfl
  have values : (((notes.map PacketNote.inText).map PacketStep.note).map
      PacketAccount.appended).sum = (notes.flatMap PacketNote.value).length := by
    rw [List.map_map, List.map_map, List.length_flatMap]
    rfl
  rw [textSteps, List.map_cons, List.sum_cons, PacketText.steps, List.map_append,
    List.sum_append, valueTotal]
  change header.length + (_ + _) = _
  rw [← Nat.add_assoc]
  exact congrArg₂ (fun items notes => header.length + items + notes) items values

/-- A parse whose calls of `put` all succeed and which uses no more than the buffer. -/
def StoresAll (receiver : JsonRpcPacket) (json : List JsonEvent) (address : Nat) (length : Int)
    (memory : ParseType) : Prop :=
  ∃ parsed, receiver.parse json address length memory = some (parsed, true) ∧
    (∀ call ∈ receiver.parseCalls json address length memory, call.Succeeds length) ∧
    parsed.readHandler.objectBuffer.tailOffset ≤ length

theorem textSteps_builtText (header : Bytes) (notes : List PacketNote) (keys : OwnKeys groups) :
    textSteps (builtText header notes keys) =
      ((layout header groups).map fun entry => .store entry.1 entry.2) ++
        (notes.map PacketNote.inText).map .note := by
  rw [textSteps, PacketText.steps, layout, List.map_append, List.append_assoc]
  change _ :: (((groups.map entries).flatten.map _) ++ _) = _
  rw [entries_flatten]
  rfl

section

variable (packet : SlottedPacket header groups notes)
include packet

theorem SlottedPacket.parse_builtText (address : Nat) (length : Int) (memory : ParseType) :
    receiver.parse (build header groups notes).json address length memory =
        receiver.parse (builtText header notes packet.keys).events address length memory ∧
      receiver.parseCalls (build header groups notes).json address length memory =
        receiver.parseCalls (builtText header notes packet.keys).events address length
          memory := by
  simp only [parse, parseCalls, replay_build packet.nonempty packet.noted packet.keys,
    replay_events, and_self]

/-- Slots of notes are inside of the values of a text. -/
theorem SlottedPacket.text_slots : ∀ text ∈ notes.map PacketNote.inText,
    ∃ entry ∈ layout header groups,
      entry.1 = text.key ∧ text.offset.toNat + 8 ≤ entry.2.length := by
  intro text member
  rcases List.mem_map.mp member with ⟨note, among, rfl⟩
  rcases packet.slots note among with ⟨item, inside, key, within⟩
  have short := packet.items item inside
  have number : (UInt32.ofNat note.offset).toNat = note.offset := by
    rw [UInt32.toNat_ofNat', Nat.mod_eq_of_lt (by omega)]
  refine ⟨(item.key.val, item.value), ?_, congrArg Subtype.val key, ?_⟩
  · exact List.mem_append_right _ (List.mem_map_of_mem inside)
  · simp only [PacketNote.inText, number]
    exact within

/-- A buffer with room for all values takes all of them. -/
theorem SlottedPacket.storesAll_of_room {size : Nat} (fresh : receiver.readHandler = .new)
    (uninitialised : memory ≠ .key) (small : size < 2 ^ 31)
    (room : valueTotal header groups notes ≤ size) :
    receiver.StoresAll (build header groups notes).json address size memory := by
  have indexed : Indexed receiver.readHandler := fresh ▸ indexed_new
  have layoutLength : ((layout header groups).flatMap Prod.snd).length =
      header.length + (groups.flatten.flatMap PacketItem.value).length := by
    rw [← List.length_append, ← contents_layout, Stored.contents, List.flatMap_def]
  rw [valueTotal, ← layoutLength] at room
  have empty : receiver.readHandler.initialAccount.Holds [] :=
    fun _ member => absurd member List.not_mem_nil
  have distinct : (([] ++ layout header groups).map Prod.fst).Nodup :=
    packet.keys.layout_distinct
  have storesRoom : receiver.readHandler.initialAccount.tail +
      ((layout header groups).flatMap Prod.snd).length ≤ size := by
    change 0 + _ ≤ size
    omega
  rcases PacketAccount.stores_succeed address empty distinct storesRoom small with
    ⟨storesInRange, storesSucceed, tail, holds⟩
  rw [List.nil_append] at holds
  have notesRoom : (receiver.readHandler.initialAccount.run size
      ((layout header groups).map fun entry => .store entry.1 entry.2)).tail +
        ((notes.map PacketNote.inText).flatMap TextNote.value).length ≤ size := by
    rw [tail, List.flatMap_map]
    change 0 + _ + (notes.flatMap PacketNote.value).length ≤ size
    omega
  rcases PacketAccount.notes_succeed address holds packet.text_slots notesRoom small with
    ⟨notesInRange, notesSucceed⟩
  have inside : receiver.WritesInside size (builtText header notes packet.keys) := by
    rw [WritesInside, textSteps_builtText, PacketAccount.inRange_append]
    exact ⟨storesInRange, notesInRange⟩
  rcases parse_of_writesInside indexed small (fun _ => uninitialised) inside with
    ⟨after, textRead, parsed⟩
  rcases packet.parse_builtText address size memory with ⟨sameParse, sameCalls⟩
  refine ⟨_, sameParse.trans parsed, ?_, ?_⟩
  · rw [sameCalls, parseCalls_natCast, replay_events, textRead.calls, textSteps_builtText,
      PacketAccount.calls_append]
    intro call member
    rcases List.mem_append.mp member with storing | noting
    · exact storesSucceed call storing
    · exact notesSucceed call noting
  · have filled := textRead.accounted.filled
    change after.objectBuffer.tailOffset ≤ _
    rw [filled.offset]
    exact_mod_cast filled.within

/-- When every call succeeds, the buffer has room for all values. -/
theorem SlottedPacket.room_of_storesAll {length : Int} (fresh : receiver.readHandler = .new)
    (uninitialised : memory ≠ .key) (small : length < 2 ^ 31)
    (stores : receiver.StoresAll (build header groups notes).json address length memory) :
    (valueTotal header groups notes : Int) ≤ length := by
  have indexed : Indexed receiver.readHandler := fresh ▸ indexed_new
  rcases stores with ⟨parsed, parsing, succeed, _⟩
  rcases packet.parse_builtText address length memory with ⟨sameParse, sameCalls⟩
  rw [sameParse] at parsing
  rw [sameCalls] at succeed
  -- A negative length is not accepted.
  rcases read_of_parse parsing with ⟨size, _, rfl, _, _⟩
  have smallSize : size < 2 ^ 31 := by omega
  have inside := writesInside_of_safe indexed smallSize (fun _ => uninitialised)
    (safe_of_parse smallSize parsing)
  rcases parse_of_writesInside indexed smallSize (fun _ => uninitialised) inside with
    ⟨after, textRead, _⟩
  rw [parseCalls_natCast, replay_events, textRead.calls] at succeed
  have short : ∀ step ∈ textSteps (builtText header notes packet.keys),
      PacketAccount.appended step < 2 ^ 31 := by
    rw [textSteps_builtText]
    intro step member
    rcases List.mem_append.mp member with storing | noting
    · rcases List.mem_map.mp storing with ⟨entry, among, rfl⟩
      rcases List.mem_append.mp among with first | later
      · rw [List.mem_singleton.mp first]
        exact packet.header
      · rcases List.mem_map.mp later with ⟨item, inItems, rfl⟩
        exact packet.items item inItems
    · rcases List.mem_map.mp noting with ⟨text, among, rfl⟩
      rcases List.mem_map.mp among with ⟨note, inNotes, rfl⟩
      exact packet.notes note inNotes
  have used := PacketAccount.tail_of_succeed inside short succeed
  rw [sum_appended] at used
  have within := textRead.accounted.filled.within
  change 0 + _ ≤ _ at used
  have whole : valueTotal header groups notes ≤ size := by
    rw [Nat.zero_add] at used
    exact Nat.le_trans used within
  exact_mod_cast whole

end

theorem sum_valueBytes_flatMap {Entry : Type} (events : Entry → List JsonEvent)
    (value : Entry → Bytes) (entries : List Entry)
    (each : ∀ entry, (value entry).length ≤ ((events entry).map JsonWriter.valueBytes).sum) :
    (entries.flatMap value).length ≤
      ((entries.flatMap events).map JsonWriter.valueBytes).sum := by
  induction entries with
  | nil => exact Nat.le_refl _
  | cons entry entries ih =>
      have first := each entry
      rw [List.flatMap_cons, List.flatMap_cons, List.length_append, List.map_append,
        List.sum_append]
      omega

/-- The text of a packet is at least as long as its values together. -/
theorem valueTotal_le_text (header : Bytes) (nonempty : ∀ group ∈ groups, group ≠ [])
    (noted : notes ≠ []) :
    valueTotal header groups notes ≤ (build header groups notes).getString.length := by
  have inText := (JsonWriter.textOf_spec (build header groups notes).json).2
  have headerBytes : header.length ≤
      ((headerEvents header).map JsonWriter.valueBytes).sum := by
    simp [headerEvents, segmentType, JsonWriter.valueBytes]
  have itemBytes : ∀ group : List PacketItem, (group.flatMap PacketItem.value).length ≤
      ((groupEvents group).map JsonWriter.valueBytes).sum := by
    intro group
    have inside := sum_valueBytes_flatMap itemEvents PacketItem.value group fun item => by
      simp [itemEvents, JsonWriter.valueBytes]
    rw [groupEvents, List.map_append, List.map_append, List.sum_append, List.sum_append]
    omega
  have groupBytes : (groups.flatten.flatMap PacketItem.value).length ≤
      ((groups.flatMap groupEvents).map JsonWriter.valueBytes).sum := by
    have flattened : groups.flatten.flatMap PacketItem.value =
        groups.flatMap fun group => group.flatMap PacketItem.value := by
      simp only [List.flatMap_def, List.map_flatten, List.flatten_flatten, List.map_map]
      rfl
    rw [flattened]
    exact sum_valueBytes_flatMap groupEvents _ groups itemBytes
  have noteBytes : (notes.flatMap PacketNote.value).length ≤
      ((notesEvents notes).map JsonWriter.valueBytes).sum := by
    have inside := sum_valueBytes_flatMap noteEvents PacketNote.value notes fun note => by
      simp [noteEvents, JsonWriter.valueBytes]
    rw [notesEvents, List.map_append, List.map_append, List.sum_append, List.sum_append]
    omega
  rw [build_json header nonempty noted, List.map_append, List.map_append, List.sum_append,
    List.sum_append] at inText
  rw [valueTotal, getString, build_json header nonempty noted]
  omega

theorem SlottedPacket.getStringLength_eq (packet : SlottedPacket header groups notes) :
    (build header groups notes).getStringLength =
      some (wrapInt ((build header groups notes).getString.length + 1 : Nat)) := by
  apply JsonRpcPacket.getStringLength_eq
  rw [getString, build_json header packet.nonempty packet.noted]
  exact JsonWriter.textOf_startArray _

/-- A buffer of the returned length is enough exactly when it has room for the values. -/
theorem SlottedPacket.enough_iff_room (packet : SlottedPacket header groups notes)
    (address : Nat) (fresh : receiver.readHandler = .new) (uninitialised : memory ≠ .key) :
    (∃ length, (build header groups notes).getStringLength = some length ∧
        receiver.StoresAll (build header groups notes).json address length memory) ↔
      (valueTotal header groups notes : Int) ≤
        wrapInt ((build header groups notes).getString.length + 1 : Nat) := by
  have upper : wrapInt ((build header groups notes).getString.length + 1 : Nat) < 2 ^ 31 := by
    rw [wrapInt]
    exact Int.bmod_lt (by decide)
  rw [packet.getStringLength_eq]
  generalize wrapInt ((build header groups notes).getString.length + 1 : Nat) = limit
    at upper ⊢
  constructor
  · rintro ⟨length, same, stores⟩
    rw [← Option.some.inj same] at stores
    exact packet.room_of_storesAll fresh uninitialised upper stores
  · intro room
    refine ⟨limit, rfl, ?_⟩
    rcases Int.eq_ofNat_of_zero_le (Int.le_trans (Int.natCast_nonneg _) room) with ⟨size, rfl⟩
    exact packet.storesAll_of_room fresh uninitialised (by omega) (by omega)

/-- A buffer of `get_string_length` bytes is enough exactly when the length of the text
and its terminator is an `int`, or wraps around to one that is still large enough. -/
theorem stringLength_enough_iff (packet : SlottedPacket header groups notes)
    (address : Nat) (fresh : receiver.readHandler = .new) (uninitialised : memory ≠ .key) :
    (∃ length, (build header groups notes).getStringLength = some length ∧
        receiver.StoresAll (build header groups notes).json address length memory) ↔
      (build header groups notes).getString.length + 1 < 2 ^ 31 ∨
        2 ^ 32 ≤ (build header groups notes).getString.length + 1 ∧
          (valueTotal header groups notes : Int) ≤
            wrapInt ((build header groups notes).getString.length + 1 : Nat) := by
  rw [packet.enough_iff_room address fresh uninitialised]
  have total := valueTotal_le_text header packet.nonempty packet.noted
  generalize (build header groups notes).getString.length = text at total ⊢
  by_cases fits : text + 1 < 2 ^ 31
  · rw [FixedBuffer.wrapInt_of_lt fits]
    omega
  · by_cases wraps : 2 ^ 32 ≤ text + 1
    · simp only [fits, wraps, false_or, true_and]
    · rw [PacketAccount.wrapInt_of_ge (by omega) (by omega)]
      omega

/-- A packet with a note. -/
theorem stringLength_enough_note :
    ∃ length, (build [1, 0] [[⟨.ofString "a", List.replicate 8 5⟩]]
        [⟨.ofString "a", 0, [3, 34]⟩]).getStringLength = some length ∧
      new.StoresAll (build [1, 0] [[⟨.ofString "a", List.replicate 8 5⟩]]
        [⟨.ofString "a", 0, [3, 34]⟩]).json 4096 length .object := by
  refine (stringLength_enough_iff ⟨by decide, ⟨by decide, by decide⟩, by decide, by decide,
    by decide, by decide, by decide⟩ 4096 rfl (by decide)).mpr (.inl ?_)
  decide +kernel

/-- The items of a packet with eight equal values. -/
def sevenItems (value : Bytes) : List (List PacketItem) :=
  [["a", "b", "c", "d", "e", "f", "g"].map fun key => ⟨.ofString key, value⟩]

theorem not_enough_sevenItems {value : Bytes} (size : value.length = 600000000) :
    ¬∃ length, (build value (sevenItems value)
        [⟨.ofString "a", 0, []⟩]).getStringLength = some length ∧
      new.StoresAll (build value (sevenItems value) [⟨.ofString "a", 0, []⟩]).json 4096 length
        .object := by
  have packet : SlottedPacket value (sevenItems value) [⟨.ofString "a", 0, []⟩] := by
    have names : ∀ key ∈ ["a", "b", "c", "d", "e", "f", "g"], (CString.ofString key).val ∉
        [literal "PacketHeader", literal "ptr_key", literal "ptr_val"] := by decide
    have distinct : (["a", "b", "c", "d", "e", "f", "g"].map CString.ofString).Nodup := by decide
    refine ⟨by simp [sevenItems], ⟨?_, ?_⟩, by simp, ?_, by omega, ?_, by simp⟩
    · rw [sevenItems, List.flatten_singleton, List.map_map]
      exact distinct
    · intro item member
      rw [sevenItems, List.flatten_singleton] at member
      rcases List.mem_map.mp member with ⟨key, among, rfl⟩
      exact names key among
    · intro note member
      rw [List.mem_singleton.mp member]
      exact ⟨⟨.ofString "a", value⟩, by simp [sevenItems], rfl, by simp only; omega⟩
    · intro item member
      rw [sevenItems, List.flatten_singleton] at member
      rcases List.mem_map.mp member with ⟨key, _, rfl⟩
      simp only
      omega
  rw [packet.enough_iff_room 4096 rfl (by decide), not_le]
  have upper : ∀ length : Nat, wrapInt length < 2 ^ 31 := fun _ => Int.bmod_lt (by decide)
  refine Int.lt_of_lt_of_le (upper _) ?_
  have total : valueTotal value (sevenItems value) [⟨.ofString "a", 0, []⟩] =
      8 * value.length := by
    simp only [valueTotal, sevenItems, List.flatten_singleton, List.flatMap_map, List.flatMap_cons,
      List.flatMap_nil, List.length_append, List.length_nil]
    omega
  rw [total]
  omega

/-- Eight values of 600000000 bytes have more bytes together than an `int` can count. -/
theorem stringLength_wraps :
    ¬∃ length, (build (List.replicate 600000000 97) (sevenItems (List.replicate 600000000 97))
        [⟨.ofString "a", 0, []⟩]).getStringLength = some length ∧
      new.StoresAll (build (List.replicate 600000000 97)
        (sevenItems (List.replicate 600000000 97)) [⟨.ofString "a", 0, []⟩]).json 4096 length
        .object :=
  not_enough_sevenItems List.length_replicate

end JsonRpcPacket

end MultiMaster.Packet
