import MultiMaster.Packet.RoundTrip
import MultiMaster.Packet.WriteBounds

/-!
# Sizes of items

The size of an item is the distance to the next offset.  Behind the last item that is
the end of the buffer's use, which the values of notes and slots behind the items move.
-/

namespace MultiMaster.Packet

open Foundation

/-- A note of the builder as it stands in the text. -/
def PacketNote.inText (note : PacketNote) : TextNote :=
  ⟨note.key.val, UInt32.ofNat note.offset, note.value⟩

namespace PacketAccount

variable {size : Nat} {account : PacketAccount}

theorem grow_le (size tail : Nat) (value : Bytes) : tail ≤ grow size tail value := by
  rw [grow]
  split
  · omega
  · omega

theorem afterSlot_le (size tail slot : Nat) : tail ≤ afterSlot size tail slot := by
  rw [afterSlot]
  split
  · omega
  · omega

theorem step_tail_le (size : Nat) (account : PacketAccount) (step : PacketStep) :
    account.tail ≤ (account.step size step).tail := by
  cases step with
  | store name value => exact grow_le size account.tail value
  | note note => exact Nat.le_trans (grow_le size account.tail note.value) (afterSlot_le _ _ _)

theorem run_tail_le (size : Nat) (account : PacketAccount) (steps : List PacketStep) :
    account.tail ≤ (account.run size steps).tail := by
  induction steps generalizing account with
  | nil => exact Nat.le_refl _
  | cons step steps ih => exact Nat.le_trans (step_tail_le size account step) (ih _)

/-- A slot that moves the end of the buffer's use or is written outside of the buffer. -/
def SlotBehind (size tail slot : Nat) : Prop :=
  tail < slot + 8 ∧ (slot + 8 ≤ size ∨ 2 ^ 31 ≤ slot + 8)

instance (size tail slot : Nat) : Decidable (SlotBehind size tail slot) :=
  inferInstanceAs (Decidable (_ ∧ _))

/-- A note that fits leaves the use of the buffer as it is when its value is empty and its
slot does not reach behind it. -/
theorem note_keeps_tail_iff {note : TextNote} (small : size < 2 ^ 31)
    (room : account.tail + note.value.length ≤ size)
    (slot : slotOf (account.starts note.key) note.offset < 2 ^ 31 + account.tail) :
    account.StepInRange size (.note note) ∧ account.step size (.note note) = account ↔
      note.value = [] ∧
        ¬SlotBehind size account.tail (slotOf (account.starts note.key) note.offset) := by
  have fits : copied note.value = note.value.length := Nat.mod_eq_of_lt (by omega)
  have grown : grow size account.tail note.value = account.tail + note.value.length := by
    rw [grow, fits, if_pos (by omega)]
  constructor
  · rintro ⟨inRange, same⟩
    have stays : afterSlot size (grow size account.tail note.value)
        (slotOf (account.starts note.key) note.offset) = account.tail :=
      congrArg PacketAccount.tail same
    have emptied := afterSlot_le size (grow size account.tail note.value)
      (slotOf (account.starts note.key) note.offset)
    rw [stays, grown] at emptied
    have empty : note.value.length = 0 := by omega
    rw [grown, empty, afterSlot] at stays
    refine ⟨List.length_eq_zero_iff.mp empty, ?_⟩
    rcases inRange.2 with low | high
    · rintro ⟨behind, within | beyond⟩
      · rw [if_pos within] at stays
        omega
      · omega
    · omega
  · rintro ⟨empty, inside⟩
    rw [empty, List.length_nil, Nat.add_zero] at grown
    rw [SlotBehind] at inside
    have stays : (account.step size (.note note)).tail = account.tail := by
      change afterSlot size (grow size account.tail note.value) _ = _
      rw [empty, grown, afterSlot]
      split
      · omega
      · rfl
    exact ⟨⟨by omega, .inl (by omega)⟩, congrArg (PacketAccount.mk account.starts) stays⟩

/-- Notes leave the use of the buffer as it is when their values are empty and no slot
reaches behind it. -/
theorem notes_keep_tail_iff {notes : List TextNote} (small : size < 2 ^ 31)
    (room : account.tail + (notes.flatMap TextNote.value).length ≤ size)
    (slots : ∀ note ∈ notes,
      slotOf (account.starts note.key) note.offset < 2 ^ 31 + account.tail) :
    (account.InRange size (notes.map .note) ∧
        (account.run size (notes.map .note)).tail = account.tail) ↔
      ∀ note ∈ notes, note.value = [] ∧
        ¬SlotBehind size account.tail (slotOf (account.starts note.key) note.offset) := by
  induction notes generalizing account with
  | nil => simp [InRange, run]
  | cons note notes ih =>
      rw [List.flatMap_cons, List.length_append] at room
      have restRoom : account.tail + (notes.flatMap TextNote.value).length ≤ size := by omega
      have restSlots := fun other member => slots other (List.mem_cons_of_mem _ member)
      have firstRoom : account.tail + note.value.length ≤ size := by omega
      have first := note_keeps_tail_iff small firstRoom (slots note List.mem_cons_self)
      have whole : (account.run size ((note :: notes).map .note)).tail =
          ((account.step size (.note note)).run size (notes.map .note)).tail := rfl
      rw [whole, List.map_cons, InRange, List.forall_mem_cons, ← first,
        ← ih restRoom restSlots]
      constructor
      · rintro ⟨⟨inRange, rest⟩, kept⟩
        have later := run_tail_le size (account.step size (.note note)) (notes.map .note)
        have stays : (account.step size (.note note)).tail = account.tail :=
          Nat.le_antisymm (kept ▸ later) (step_tail_le size account (.note note))
        have same : account.step size (.note note) = account :=
          congrArg (PacketAccount.mk account.starts) stays
        rw [same] at rest kept
        exact ⟨⟨inRange, same⟩, rest, kept⟩
      · rintro ⟨⟨inRange, same⟩, rest, kept⟩
        rw [same]
        exact ⟨⟨inRange, rest⟩, kept⟩

end PacketAccount

namespace BufferReadHandler

variable {address size : Nat} {stored : Stored} {content : Bytes} {stack : List ParseItem}
variable {handler after : BufferReadHandler}

/-- The account of a handler that has stored entries. -/
def startsAccount (handler : BufferReadHandler) (tail : Nat) : PacketAccount :=
  ⟨fun name => (handler.startOf name).getD 0, tail⟩

theorem Loaded.accounted (loaded : Loaded address size stored content stack handler)
    (indexed : Indexed handler) (nonempty : 0 < stored.length) (fits : content.length ≤ size) :
    Accounted address size (handler.startsAccount content.length) handler := by
  refine ⟨⟨?_, ?_, ?_, fits⟩, ?_, fun name => ?_⟩
  · rw [loaded.buffer]
    rfl
  · rw [loaded.buffer, FixedBuffer.holding, List.length_append, List.length_replicate]
    omega
  · rw [loaded.buffer]
    rfl
  · rw [loaded.buffer]
    rfl
  · have length : handler.objectPtrs.length = stored.length := by simp [loaded.ptrs]
    have inside : 0 ≤ (handler.nameIdMap.lookup name).getD 0 ∧
        ((handler.nameIdMap.lookup name).getD 0).toNat < handler.objectPtrs.length := by
      cases found : handler.nameIdMap.lookup name with
      | none =>
          simp only [Option.getD_none]
          omega
      | some index =>
          rcases indexed name index found with ⟨nonneg, zero | below⟩
          · rw [Option.getD_some]
            omega
          · rw [Option.getD_some]
            omega
    have found : ∃ offset, handler.startOf name = some offset := by
      rw [startOf, objectPtr, nameId_snd, if_pos inside.1]
      exact ⟨_, List.getElem?_eq_getElem inside.2⟩
    rcases found with ⟨offset, found⟩
    simp only [startsAccount, found, Option.getD_some]

theorem Loaded.startOf_eq {name : Bytes}
    (loaded : Loaded address size stored content stack handler)
    (known : name ∈ stored.map Prod.fst) :
    handler.startOf name = some (stored.offsetOf ((stored.map Prod.fst).idxOf name) : Int) := by
  rw [startOf, loaded.nameId_eq known]
  exact loaded.objectPtr_eq (by simpa using List.idxOf_lt_length_of_mem known)

/-- Notes change neither the offsets nor the numbers of entries. -/
theorem Loaded.listed_extended {tail : Nat}
    (loaded : Loaded address size stored content stack handler)
    (extended : Extended [] handler after)
    (used : after.objectBuffer.tailOffset = tail) : JsonRpcPacket.Listed stored tail after := by
  refine ⟨?_, fun index inside => ?_, used⟩
  · rcases extended.ptrs with ⟨offsets, ptrs, none⟩
    rw [ptrs, List.length_eq_zero_iff.mp none, List.append_nil, loaded.ptrs]
  · exact extended.ids _ List.not_mem_nil _ (loaded.ids index inside)

end BufferReadHandler

namespace JsonRpcPacket

open BufferReadHandler

variable {header : Bytes} {groups : List (List PacketItem)} {notes : List PacketNote}
variable {address size : Nat} {memory : ParseType} {receiver : JsonRpcPacket}

theorem replay_notesEvents (notes : List PacketNote) :
    (notesEvents notes).map JsonEvent.replay =
      notesObjectEvents (notes.map PacketNote.inText) ++ [.endArray] := by
  have each : (notes.flatMap noteEvents).map JsonEvent.replay =
      (notes.map PacketNote.inText).flatMap PacketText.noteEvents := by
    rw [List.map_flatMap, List.flatMap_map]
    rfl
  rw [notesEvents, List.map_append, List.map_append, each]
  simp [notesObjectEvents, PacketText.objectEvents, segmentType, PacketSegmentType.number,
    JsonEvent.replay]

/-- Notes for items, with any offsets. -/
structure NotedPacket (groups : List (List PacketItem)) (notes : List PacketNote) : Prop where
  nonempty : ∀ group ∈ groups, group ≠ []
  keys : OwnKeys groups
  noted : notes ≠ []
  named : ∀ note ∈ notes, note.key ∈ groups.flatten.map PacketItem.key
  offsets : ∀ note ∈ notes, note.offset < 2 ^ 31

/-- A parsed packet reports the sizes of the header and of the items, by number and by
key. -/
structure SizesSurvive (header : Bytes) (groups : List (List PacketItem))
    (parsed : JsonRpcPacket) : Prop where
  header : parsed.getPacketHeaderSize.map Prod.snd = some (header.length : Int)
  byIndex : ∀ index (inside : index < groups.flatten.length),
    parsed.getPacketItemSize (index + 1) = some (groups.flatten[index].value.length : Int)
  byKey : ∀ index (inside : index < groups.flatten.length),
    (parsed.getPacketItemSizeByKey groups.flatten[index].key.val).map Prod.snd =
      some (groups.flatten[index].value.length : Int)

theorem NotedPacket.known (packet : NotedPacket groups notes) :
    ∀ note ∈ notes, note.key.val ∈ (layout header groups).map Prod.fst := by
  intro note member
  rcases List.mem_map.mp (packet.named note member) with ⟨item, among, key⟩
  rw [← key, layout, List.map_append, List.mem_append]
  exact .inr (List.mem_map_of_mem (List.mem_map_of_mem among))

/-- The sizes are right when the use of the buffer ends where the last item ends. -/
theorem sizesSurvive_iff {tail : Nat} {after : BufferReadHandler}
    (listed : Listed (layout header groups) tail after) (items : groups.flatten ≠ []) :
    SizesSurvive header groups (receiver.finish after) ↔
      tail = (layout header groups).contents.length := by
  have length := length_layout header groups
  have positive := List.length_pos_of_ne_nil items
  constructor
  · intro survive
    have inside : groups.flatten.length - 1 < groups.flatten.length := by omega
    have insideLayout : groups.flatten.length - 1 + 1 < (layout header groups).length := by
      omega
    have reported := survive.byIndex _ inside
    rw [show ((groups.flatten.length - 1 : Nat) : Int) + 1 =
        ((groups.flatten.length - 1 + 1 : Nat) : Int) by omega,
      listed.itemSize insideLayout receiver, listedEnd, if_neg (by omega)] at reported
    have ending := Stored.offsetOf_succ insideLayout
    rw [layout_item inside insideLayout,
      show groups.flatten.length - 1 + 1 + 1 = (layout header groups).length by omega,
      Stored.offsetOf_length] at ending
    have difference := Option.some.inj reported
    simp only at ending
    omega
  · intro ends
    have sizes : ∀ index (inside : index < (layout header groups).length),
        (listedEnd (layout header groups) tail index : Int) -
            (layout header groups).offsetOf index =
          ((layout header groups)[index].2.length : Int) := by
      intro index inside
      have next := Stored.offsetOf_succ inside
      rw [listedEnd]
      split
      · omega
      · rw [show index + 1 = (layout header groups).length by omega,
          Stored.offsetOf_length] at next
        omega
    refine ⟨?_, fun index inside => ?_, fun index inside => ?_⟩
    · have inside : 0 < (layout header groups).length := by omega
      have named := listed.itemSizeByKey inside receiver
      rw [sizes 0 inside] at named
      exact congrArg (Option.map Prod.snd) named
    · have insideLayout : index + 1 < (layout header groups).length := by omega
      have numbered := listed.itemSize insideLayout receiver
      rw [sizes _ insideLayout] at numbered
      simp only [layout_item inside insideLayout] at numbered
      exact numbered
    · have insideLayout : index + 1 < (layout header groups).length := by omega
      have named := listed.itemSizeByKey insideLayout receiver
      rw [sizes _ insideLayout] at named
      simp only [layout_item inside insideLayout] at named
      exact congrArg (Option.map Prod.snd) named

theorem storedNames_notes (notes : List TextNote) : storedNames (notes.map .note) = [] := by
  simp [storedNames, List.filterMap_map]

section

variable {stored : Stored} {content : Bytes} {middle : BufferReadHandler}
variable (loaded : Loaded address size stored content [⟨.array, []⟩] middle)
variable (indexed : Indexed middle) (nonempty : 0 < stored.length)
variable (fits : content.length ≤ size) (small : size < 2 ^ 31) (texts : List TextNote)
include loaded indexed nonempty fits small

/-- Notes in range are read behind the header and the items. -/
theorem reads_notes
    (inRange : (middle.startsAccount content.length).InRange size (texts.map .note)) :
    ∃ after, middle.read memory (notesObjectEvents texts ++ [.endArray]) = some (after, true) ∧
      Listed stored ((middle.startsAccount content.length).run size (texts.map .note)).tail
        after := by
  have accounted := loaded.accounted indexed nonempty fits
  have takes : Takes memory _ _ := takes_notesObject texts
  rcases (takes address size _ middle small accounted).1 inRange with
    ⟨after, passes, accountedAfter, extended⟩
  rw [storedNames_notes] at extended
  have closed : Passes memory after [.endArray] [] { after with parseStack := [] } :=
    passes_endArray [] (extended.stack.trans loaded.stack)
  have done := (passes.append closed).read []
  rw [List.append_nil] at done
  have listed := loaded.listed_extended extended accountedAfter.filled.offset
  exact ⟨{ after with parseStack := [] }, done, listed.ptrs, listed.ids, listed.used⟩

theorem inRange_of_reads {result : BufferReadHandler × Bool}
    (done : middle.read memory (notesObjectEvents texts ++ [.endArray]) = some result) :
    (middle.startsAccount content.length).InRange size (texts.map .note) := by
  have accounted := loaded.accounted indexed nonempty fits
  have takes : Takes memory _ _ := takes_notesObject texts
  by_contra notInRange
  rcases (takes address size _ middle small accounted).2 notInRange [.endArray] with
    ⟨call, member, escaping⟩
  exact escaping ((performs_safe accounted.filled small (read_performs done)).1 call member)

end

/-- The place of a note's slot. -/
theorem NotedPacket.slotOf_eq {middle : BufferReadHandler} {stack : List ParseItem}
    (packet : NotedPacket groups notes)
    (loaded : Loaded address size (layout header groups) (layout header groups).contents stack
      middle)
    (small : size < 2 ^ 31) (fits : (layout header groups).contents.length ≤ size)
    {note : PacketNote} (member : note ∈ notes) (tail : Nat) :
    slotOf ((middle.startsAccount tail).starts note.inText.key) note.inText.offset =
      notePosition (layout header groups) note := by
  have known : note.key.val ∈ (layout header groups).map Prod.fst := packet.known note member
  have start := Stored.offsetOf_le (layout header groups)
    (((layout header groups).map Prod.fst).idxOf note.key.val)
  have offset := packet.offsets note member
  have number : (UInt32.ofNat note.offset).toNat = note.offset := by
    rw [UInt32.toNat_ofNat', Nat.mod_eq_of_lt (by omega)]
  simp only [slotOf, startsAccount, PacketNote.inText, loaded.startOf_eq known,
    Option.getD_some, number, notePosition]
  rw [Int.emod_eq_of_lt (by omega) (by omega)]
  omega

/-- Notes leave the use of the buffer where the items end when their values are empty and
no slot reaches behind the items. -/
theorem NotedPacket.keep_iff {middle : BufferReadHandler} {stack : List ParseItem}
    (packet : NotedPacket groups notes)
    (loaded : Loaded address size (layout header groups) (layout header groups).contents stack
      middle)
    (small : size < 2 ^ 31)
    (room : (layout header groups).contents.length +
      (notes.flatMap PacketNote.value).length ≤ size) :
    ((middle.startsAccount (layout header groups).contents.length).InRange size
          ((notes.map PacketNote.inText).map .note) ∧
        ((middle.startsAccount (layout header groups).contents.length).run size
          ((notes.map PacketNote.inText).map .note)).tail =
            (layout header groups).contents.length) ↔
      ∀ note ∈ notes, note.value = [] ∧
        ¬PacketAccount.SlotBehind size (layout header groups).contents.length
          (notePosition (layout header groups) note) := by
  have fits : (layout header groups).contents.length ≤ size := by omega
  have roomText : (layout header groups).contents.length +
      ((notes.map PacketNote.inText).flatMap TextNote.value).length ≤ size := by
    rw [List.flatMap_map]
    exact room
  have slots : ∀ text ∈ notes.map PacketNote.inText,
      slotOf ((middle.startsAccount (layout header groups).contents.length).starts text.key)
        text.offset < 2 ^ 31 + (layout header groups).contents.length := by
    intro text member
    rcases List.mem_map.mp member with ⟨note, among, rfl⟩
    rw [packet.slotOf_eq loaded small fits among, notePosition]
    have start := Stored.offsetOf_le (layout header groups)
      (((layout header groups).map Prod.fst).idxOf note.key.val)
    have offset := packet.offsets note among
    omega
  refine (PacketAccount.notes_keep_tail_iff small roomText slots).trans ?_
  rw [List.forall_mem_map]
  refine forall₂_congr fun note member => ?_
  rw [packet.slotOf_eq loaded small fits member]
  rfl

/-- Header and items are stored first, whatever the notes are. -/
theorem NotedPacket.parse_eq (packet : NotedPacket groups notes)
    (room : header.length + (groups.flatten.flatMap PacketItem.value).length ≤ size)
    (small : size < 2 ^ 31) (address : Nat) (fresh : receiver.readHandler = .new)
    (uninitialised : memory ≠ .key) :
    ∃ middle, Loaded address size (layout header groups) (layout header groups).contents
        [⟨.array, []⟩] middle ∧ Indexed middle ∧
      receiver.parse (build header groups notes).json address size memory =
        (middle.read memory (notesObjectEvents (notes.map PacketNote.inText) ++
          [.endArray])).map fun result => (receiver.finish result.1, result.2) := by
  rcases packet.keys.reads_items address room small uninitialised with
    ⟨middle, itemsRead, loaded⟩
  have opened : Indexed (BufferReadHandler.new.withBuffer address size) := indexed_new
  refine ⟨middle, loaded, (opened.read itemsRead).1, ?_⟩
  rw [parse_natCast, fresh, build_json header packet.nonempty packet.noted, List.map_append,
    replay_notesEvents, itemsRead.read_append]

/-- The sizes survive the packet exactly when the values of the notes are empty and no
slot reaches behind the items. -/
theorem sizes_survive_iff (packet : NotedPacket groups notes)
    (room : header.length + (groups.flatten.flatMap PacketItem.value).length +
      (notes.flatMap PacketNote.value).length ≤ size)
    (small : size < 2 ^ 31) (address : Nat) (fresh : receiver.readHandler = .new)
    (uninitialised : memory ≠ .key) :
    (∃ parsed complete, receiver.parse (build header groups notes).json address size memory =
        some (parsed, complete) ∧ SizesSurvive header groups parsed) ↔
      ∀ note ∈ notes, note.value = [] ∧
        ¬PacketAccount.SlotBehind size (layout header groups).contents.length
          (notePosition (layout header groups) note) := by
  have contents : (layout header groups).contents.length =
      header.length + (groups.flatten.flatMap PacketItem.value).length := by
    rw [contents_layout, List.length_append]
  have nonempty : 0 < (layout header groups).length := by
    rw [length_layout]
    omega
  have items : groups.flatten ≠ [] := by
    rcases List.exists_mem_of_ne_nil notes packet.noted with ⟨note, member⟩
    rcases List.mem_map.mp (packet.named note member) with ⟨item, among, _⟩
    exact List.ne_nil_of_mem among
  have itemsRoom : header.length + (groups.flatten.flatMap PacketItem.value).length ≤ size := by
    omega
  rcases packet.parse_eq itemsRoom small address fresh uninitialised with
    ⟨middle, loaded, indexed, parsing⟩
  rw [parsing, ← packet.keep_iff loaded small (by omega)]
  constructor
  · rintro ⟨parsed, complete, result, survive⟩
    rcases Option.map_eq_some_iff.mp result with ⟨⟨ended, _⟩, done, same⟩
    cases same
    have inRange := inRange_of_reads loaded indexed nonempty (by omega) small _ done
    rcases reads_notes loaded indexed nonempty (by omega) small _ inRange with
      ⟨after, again, listed⟩
    rw [again] at done
    cases done
    exact ⟨inRange, (sizesSurvive_iff listed items).mp survive⟩
  · rintro ⟨inRange, kept⟩
    rcases reads_notes loaded indexed nonempty (by omega) small _ inRange with
      ⟨after, done, listed⟩
    refine ⟨receiver.finish after, true, ?_, (sizesSurvive_iff listed items).mpr kept⟩
    rw [done]
    rfl

/-- Notes without bytes, one of them for a slot that is refused. -/
theorem sizes_survive_empty_notes :
    ∃ parsed complete, new.parse
        (build [1] [[⟨.ofString "a", List.replicate 8 5⟩], [⟨.ofString "b", [6, 7]⟩]]
          [⟨.ofString "a", 0, []⟩, ⟨.ofString "b", 100, []⟩]).json 4096 (16 : Nat) .object =
        some (parsed, complete) ∧
      SizesSurvive [1] [[⟨.ofString "a", List.replicate 8 5⟩], [⟨.ofString "b", [6, 7]⟩]]
        parsed := by
  refine (sizes_survive_iff ⟨by decide, ⟨by decide, by decide⟩, by decide, by decide, by decide⟩
    (by decide) (by decide) 4096 rfl (by decide)).mpr ?_
  decide +kernel

/-- The size of the only item includes the note's byte. -/
theorem size_includes_note :
    ((new.parse (build [1] [[⟨.ofString "a", List.replicate 8 5⟩]]
        [⟨.ofString "a", 0, [3]⟩]).json 4096 16 .object).bind fun result =>
      result.1.getPacketItemSize 1) = some 9 := by
  decide +kernel

end JsonRpcPacket

end MultiMaster.Packet
