import MultiMaster.Packet.PacketTexts

/-!
# Reading a text and its account

The handler follows the account of a text: while the steps are in range every call
of `put` is made as the account says, and the first step that is not in range makes
a call that writes outside of the buffer.
-/

namespace MultiMaster.Packet

open Foundation

namespace BufferReadHandler

variable {address size : Nat} {account : PacketAccount} {memory : ParseType}
variable {handler middle after : BufferReadHandler}

/-! ## Handlers with an account -/

/-- The account describes the handler's buffer and what it finds under names. -/
structure Accounted (address size : Nat) (account : PacketAccount)
    (handler : BufferReadHandler) : Prop where
  filled : handler.objectBuffer.Filled size account.tail
  bytes : handler.objectBuffer.bytes = address
  starts : ∀ name, handler.startOf name = some (account.starts name)

/-- The names that steps store values under. -/
def storedNames (steps : List PacketStep) : List Bytes :=
  steps.filterMap fun
    | .store name _ => some name
    | .note _ => none

/-- What is kept while values are stored under names. -/
structure Extended (names : List Bytes) (before after : BufferReadHandler) : Prop where
  ptrs : ∃ offsets, after.objectPtrs = before.objectPtrs ++ offsets ∧
    offsets.length = names.length
  ids : ∀ name ∉ names, ∀ index, before.nameIdMap.lookup name = some index →
    after.nameIdMap.lookup name = some index
  stack : after.parseStack = before.parseStack

theorem Extended.refl (handler : BufferReadHandler) : Extended [] handler handler :=
  ⟨⟨[], (List.append_nil _).symm, rfl⟩, fun _ _ _ found => found, rfl⟩

theorem Extended.trans {first second : List Bytes} (extended : Extended first handler middle)
    (next : Extended second middle after) : Extended (first ++ second) handler after := by
  rcases extended.ptrs with ⟨offsets, ptrs, length⟩
  rcases next.ptrs with ⟨more, morePtrs, moreLength⟩
  refine ⟨⟨offsets ++ more, ?_, ?_⟩, ?_, next.stack.trans extended.stack⟩
  · rw [morePtrs, ptrs, List.append_assoc]
  · rw [List.length_append, List.length_append, length, moreLength]
  · intro name absent index found
    rw [List.mem_append, not_or] at absent
    exact next.ids name absent.2 index (extended.ids name absent.1 index found)

theorem nameId_snd (handler : BufferReadHandler) (name : Bytes) :
    (handler.nameId name).2 = (handler.nameIdMap.lookup name).getD 0 := by
  rw [nameId]
  cases handler.nameIdMap.lookup name with
  | none => rfl
  | some index => rfl

theorem store_eq (handler : BufferReadHandler) (name value : Bytes) :
    handler.store name value =
      (perform handler.objectBuffer (handler.appendCall value)).map fun buffer =>
        { handler with
          objectBuffer := buffer
          objectPtrs := handler.objectPtrs ++ [handler.objectBuffer.tailOffset]
          nameIdMap := handler.nameIdMap.insert name handler.objectPtrs.length } := by
  rw [store, append_eq_perform]
  cases perform handler.objectBuffer (handler.appendCall value) with
  | none => rfl
  | some buffer => rfl

theorem store_objectPtrs {name value : Bytes}
    (stored : handler.store name value = some after) :
    after.objectPtrs = handler.objectPtrs ++ [handler.objectBuffer.tailOffset] := by
  rw [store_eq] at stored
  rcases Option.map_eq_some_iff.mp stored with ⟨written, _, rfl⟩
  rfl

/-- A safe call on an accounted buffer. -/
theorem perform_safe {tail : Nat} {buffer : FixedBuffer} {call : PutCall}
    (filled : buffer.Filled size tail) (safe : call.Safe size) (small : size < 2 ^ 31) :
    ∃ written, perform buffer call = some written ∧
      written.Filled size (call.tailAfter size tail) ∧ written.bytes = buffer.bytes := by
  rcases filled.put safe small with ⟨written, put, filledAfter, bytes⟩
  exact ⟨written, by rw [perform, put]; rfl, filledAfter, bytes⟩

/-- A value is stored under a name; the offset is found there and other names keep
theirs. -/
theorem store_inRange {tail : Nat} {starts : Bytes → Int} {name value : Bytes}
    (filled : handler.objectBuffer.Filled size tail)
    (others : ∀ other, other ≠ name →
      (handler.objectPtrs ++ [(tail : Int)])[((handler.nameIdMap.lookup other).getD 0).toNat]? =
        some (starts other) ∧ 0 ≤ (handler.nameIdMap.lookup other).getD 0)
    (fits : tail + copied value < 2 ^ 31) (small : size < 2 ^ 31) :
    ∃ after, handler.store name value = some after ∧
      Accounted handler.objectBuffer.bytes size
        ⟨Function.update starts name tail, PacketAccount.grow size tail value⟩ after ∧
      Extended [name] handler after := by
  have call : handler.appendCall value = ⟨value, tail, wrapInt value.length⟩ := by
    rw [appendCall, filled.offset]
  have safe : (handler.appendCall value).Safe size := by
    rw [call]
    exact (PacketAccount.append_safe_iff value filled.within small).mpr fits
  rcases perform_safe filled safe small with ⟨written, performed, filledAfter, bytes⟩
  rw [call, PacketAccount.append_tailAfter fits] at filledAfter
  refine ⟨{ handler with
    objectBuffer := written
    objectPtrs := handler.objectPtrs ++ [handler.objectBuffer.tailOffset]
    nameIdMap := handler.nameIdMap.insert name handler.objectPtrs.length }, ?_,
    ⟨filledAfter, bytes, fun other => ?_⟩, ⟨[handler.objectBuffer.tailOffset], rfl, rfl⟩, ?_, rfl⟩
  · rw [store_eq, performed]
    rfl
  · simp only [startOf, nameId_snd, objectPtr, filled.offset]
    by_cases same : other = name
    · subst same
      rw [AList.lookup_insert, Function.update_self]
      simp
    · rcases others other same with ⟨found, nonneg⟩
      rw [AList.lookup_insert_ne same, Function.update_of_ne same, if_pos nonneg]
      exact found
  · intro other absent index found
    rw [AList.lookup_insert_ne (List.ne_of_not_mem_cons absent)]
    exact found

theorem Accounted.store {name value : Bytes} (accounted : Accounted address size account handler)
    (inRange : account.StepInRange size (.store name value)) (small : size < 2 ^ 31) :
    ∃ after, handler.store name value = some after ∧
      Accounted address size (account.step size (.store name value)) after ∧
      Extended [name] handler after := by
  have others : ∀ other, other ≠ name →
      (handler.objectPtrs ++
        [(account.tail : Int)])[((handler.nameIdMap.lookup other).getD 0).toNat]? =
        some (account.starts other) ∧ 0 ≤ (handler.nameIdMap.lookup other).getD 0 := by
    intro other _
    have found := accounted.starts other
    rw [startOf, objectPtr, nameId_snd] at found
    split at found
    · rename_i nonneg
      have inside := (List.getElem?_eq_some_iff.mp found).1
      exact ⟨by rw [List.getElem?_append_left inside, found], nonneg⟩
    · cases found
  rcases store_inRange accounted.filled others inRange small with
    ⟨after, stored, accountedAfter, extended⟩
  rw [accounted.bytes] at accountedAfter
  exact ⟨after, stored, accountedAfter, extended⟩

/-- Entering an unknown name with zero changes no number that is found. -/
theorem nameId_lookup (handler : BufferReadHandler) (name other : Bytes) :
    ((handler.nameId name).1.nameIdMap.lookup other).getD 0 =
      (handler.nameIdMap.lookup other).getD 0 := by
  rw [nameId]
  cases unknown : handler.nameIdMap.lookup name with
  | some index => rfl
  | none =>
      by_cases same : other = name
      · subst same
        rw [AList.lookup_insert, unknown]
        rfl
      · rw [AList.lookup_insert_ne same]

theorem nameId_keeps {name other : Bytes} {index : Int}
    (found : handler.nameIdMap.lookup other = some index) :
    (handler.nameId name).1.nameIdMap.lookup other = some index := by
  rw [nameId]
  cases unknown : handler.nameIdMap.lookup name with
  | some known => exact found
  | none =>
      have different : other ≠ name := by
        intro same
        rw [same, unknown] at found
        cases found
      rw [AList.lookup_insert_ne different]
      exact found

/-- The calls of a note are those of the account. -/
theorem Accounted.noteCalls {written : FixedBuffer} {note : TextNote}
    (accounted : Accounted address size account handler)
    (performed : perform handler.objectBuffer (handler.appendCall note.value) = some written)
    (bytes : written.bytes = handler.objectBuffer.bytes) :
    handler.appendCall note.value ::
        handler.slotCalls note.key note.value note.offset.toNat =
      account.stepCalls address (.note note) := by
  have target : (written.getAddress account.tail).toNat = address + account.tail := by
    rw [FixedBuffer.getAddress, bytes, accounted.bytes]
    omega
  rw [slotCalls_eq, performed, accounted.starts]
  simp only [slotCall, appendCall, accounted.filled.offset, target]
  rfl

theorem Accounted.appendCall_eq (accounted : Accounted address size account handler)
    (value : Bytes) :
    handler.appendCall value = ⟨value, account.tail, wrapInt value.length⟩ := by
  rw [appendCall, accounted.filled.offset]

theorem Accounted.append_safe_iff (accounted : Accounted address size account handler)
    (value : Bytes) (small : size < 2 ^ 31) :
    (handler.appendCall value).Safe size ↔ account.tail + copied value < 2 ^ 31 := by
  rw [accounted.appendCall_eq, PacketAccount.append_safe_iff value accounted.filled.within small]

theorem Accounted.note {note : TextNote} (accounted : Accounted address size account handler)
    (inRange : account.StepInRange size (.note note)) (small : size < 2 ^ 31) :
    ∃ after, handler.note note.key note.value note.offset.toNat = some after ∧
      handler.appendCall note.value ::
          handler.slotCalls note.key note.value note.offset.toNat =
        account.stepCalls address (.note note) ∧
      Accounted address size (account.step size (.note note)) after ∧
      Extended [] handler after := by
  have safe := (accounted.append_safe_iff note.value small).mpr inRange.1
  rcases perform_safe accounted.filled safe small with ⟨written, performed, filled, bytes⟩
  rw [accounted.appendCall_eq, PacketAccount.append_tailAfter inRange.1] at filled
  let call := slotCall written handler.objectBuffer.tailOffset (account.starts note.key)
    note.offset.toNat
  have slotSafe : call.Safe size :=
    (PacketAccount.slot_safe_iff _ (account.starts note.key) note.offset small).mpr inRange.2
  rcases perform_safe filled slotSafe small with ⟨noted, put, filledAfter, bytesAfter⟩
  have tail : call.tailAfter size (PacketAccount.grow size account.tail note.value) = _ :=
    PacketAccount.slot_tailAfter _ inRange.2
  rw [tail] at filledAfter
  refine ⟨{ (handler.nameId note.key).1 with objectBuffer := noted }, ?_,
    accounted.noteCalls performed bytes,
    ⟨filledAfter, by rw [bytesAfter, bytes, accounted.bytes], fun other => ?_⟩,
    ⟨[], ?_, rfl⟩, fun other _ index found => nameId_keeps found, nameId_parseStack _ _⟩
  · rw [note_eq, performed, Option.bind_some, accounted.starts, Option.bind_some, put]
    rfl
  · have found := accounted.starts other
    rw [startOf, objectPtr, nameId_snd] at found
    rw [startOf, objectPtr, nameId_snd]
    simp only [nameId_lookup, nameId_objectPtrs]
    exact found
  · rw [List.append_nil]
    exact nameId_objectPtrs _ _

/-- A note whose step is not in range makes a call that writes outside of the buffer. -/
theorem Accounted.note_escapes {note : TextNote}
    (accounted : Accounted address size account handler)
    (outside : ¬account.StepInRange size (.note note)) (small : size < 2 ^ 31) :
    ∃ call ∈ handler.appendCall note.value ::
        handler.slotCalls note.key note.value note.offset.toNat, ¬call.Safe size := by
  by_cases appended : account.tail + copied note.value < 2 ^ 31
  · have safe := (accounted.append_safe_iff note.value small).mpr appended
    rcases perform_safe accounted.filled safe small with ⟨written, performed, _, bytes⟩
    refine ⟨_, ?_, mt (PacketAccount.slot_safe_iff (leBytes 8 (address + account.tail))
      (account.starts note.key) note.offset small).mp fun slot => outside ⟨appended, slot⟩⟩
    rw [accounted.noteCalls performed bytes]
    exact List.mem_cons_of_mem _ List.mem_cons_self
  · exact ⟨_, List.mem_cons_self, mt (accounted.append_safe_iff note.value small).mp appended⟩

/-! ## Texts and their steps -/

/-- Reading the events takes the steps: it goes through when these are in range, and
makes a call that writes outside of the buffer when they are not. -/
def Takes (memory : ParseType) (events : List JsonEvent) (steps : List PacketStep) : Prop :=
  ∀ address size account handler, size < 2 ^ 31 → Accounted address size account handler →
    (account.InRange size steps → ∃ after,
      Passes memory handler events (account.calls address size steps) after ∧
      Accounted address size (account.run size steps) after ∧
      Extended (storedNames steps) handler after) ∧
    (¬account.InRange size steps → Escapes memory size handler events)

theorem takes_nil : Takes memory [] [] := by
  intro address size account handler _ accounted
  exact ⟨fun _ => ⟨handler, .refl handler, accounted, .refl handler⟩,
    fun outside => absurd trivial outside⟩

theorem Takes.append {first second : List JsonEvent} {steps later : List PacketStep}
    (takes : Takes memory first steps) (next : Takes memory second later) :
    Takes memory (first ++ second) (steps ++ later) := by
  intro address size account handler small accounted
  rcases takes address size account handler small accounted with ⟨within, outside⟩
  rw [PacketAccount.inRange_append, PacketAccount.calls_append, PacketAccount.run_append,
    storedNames, List.filterMap_append]
  by_cases inRange : account.InRange size steps
  · rcases within inRange with ⟨middle, passes, accountedMiddle, extended⟩
    rcases next address size _ middle small accountedMiddle with ⟨withinLater, outsideLater⟩
    constructor
    · rintro ⟨_, laterInRange⟩
      rcases withinLater laterInRange with ⟨after, passesLater, accountedAfter, extendedLater⟩
      exact ⟨after, passes.append passesLater, accountedAfter, extended.trans extendedLater⟩
    · intro notAll
      exact passes.escapes (outsideLater fun laterInRange => notAll ⟨inRange, laterInRange⟩)
  · exact ⟨fun both => absurd both.1 inRange, fun _ => (outside inRange).append second⟩

theorem takes_flatMap {Entry : Type} {events : Entry → List JsonEvent}
    {steps : Entry → List PacketStep} {entries : List Entry}
    (each : ∀ entry ∈ entries, Takes memory (events entry) (steps entry)) :
    Takes memory (entries.flatMap events) (entries.flatMap steps) := by
  induction entries with
  | nil => exact takes_nil
  | cons entry rest ih =>
      rw [List.flatMap_cons, List.flatMap_cons]
      exact (each entry List.mem_cons_self).append
        (ih fun other member => each other (List.mem_cons_of_mem _ member))

theorem Accounted.withStack (accounted : Accounted address size account handler)
    (stack : List ParseItem) :
    Accounted address size account { handler with parseStack := stack } :=
  ⟨accounted.filled, accounted.bytes, fun name =>
    (startOf_withStack handler stack name).trans (accounted.starts name)⟩

/-- Events between an opening that pushes on the stack and a closing that pops. -/
theorem Takes.scope {opening closing events : List JsonEvent} {steps : List PacketStep}
    {item : ParseItem} (takes : Takes memory events steps)
    (opens : ∀ handler, Passes memory handler opening []
      { handler with parseStack := item :: handler.parseStack })
    (closes : ∀ handler stack, handler.parseStack = item :: stack →
      Passes memory handler closing [] { handler with parseStack := stack }) :
    Takes memory (opening ++ events ++ closing) steps := by
  intro address size account handler small accounted
  rcases takes address size account _ small
    (accounted.withStack (item :: handler.parseStack)) with ⟨within, outside⟩
  constructor
  · intro inRange
    rcases within inRange with ⟨after, passes, accountedAfter, extended⟩
    refine ⟨_, ?_, accountedAfter.withStack handler.parseStack,
      ⟨extended.ptrs, extended.ids, rfl⟩⟩
    have whole := ((opens handler).append passes).append
      (closes after handler.parseStack extended.stack)
    rwa [List.nil_append, List.append_nil] at whole
  · intro notInRange
    exact ((opens handler).escapes (outside notInRange)).append closing

theorem passes_endObject (stack : List ParseItem)
    (scope : handler.parseStack = ⟨.object, []⟩ :: stack) :
    Passes memory handler [.endObject] [] { handler with parseStack := stack } := by
  refine passes_onlyStack ?_ rfl
  simp [handle, endObject, endScope, scope]

theorem passes_endArray (stack : List ParseItem)
    (scope : handler.parseStack = ⟨.array, []⟩ :: stack) :
    Passes memory handler [.endArray] [] { handler with parseStack := stack } := by
  refine passes_onlyStack ?_ rfl
  simp [handle, endArray, endScope, scope]

theorem passes_key (handler : BufferReadHandler) (name : Bytes) :
    Passes memory handler [.key name] []
      { handler with parseStack := ⟨.key, name⟩ :: handler.parseStack } :=
  passes_onlyStack rfl rfl

theorem passes_startObject (handler : BufferReadHandler) :
    Passes memory handler [.startObject] []
      { handler with parseStack := ⟨.object, []⟩ :: handler.parseStack } :=
  passes_onlyStack rfl rfl

theorem passes_segment (segment : UInt32) (handler : BufferReadHandler) :
    Passes memory handler
      [.startObject, .key (literal "SegmentType"), .uint segment] []
      { handler with parseStack := ⟨.object, []⟩ :: handler.parseStack } := by
  have other : literal "SegmentType" ≠ literal "ptr_offset" := by decide
  have number : Passes memory
      { handler with
        parseStack := ⟨.key, literal "SegmentType"⟩ :: ⟨.object, []⟩ :: handler.parseStack }
      [.uint segment] []
      { handler with parseStack := ⟨.object, []⟩ :: handler.parseStack } := by
    refine passes_onlyStack ?_ ?_
    · simp [handle, uint, other]
    · simp [putCalls, other]
  exact ((passes_startObject handler).append (passes_key _ _)).append number

/-- An object takes the steps of its members. -/
theorem Takes.object {members : List JsonEvent} {steps : List PacketStep}
    (takes : Takes memory members steps) (segment : UInt32) :
    Takes memory (PacketText.objectEvents segment members) steps :=
  takes.scope (passes_segment segment) fun _ => passes_endObject

/-- A member that is an array takes the steps of its elements. -/
theorem Takes.arrayMember {elements : List JsonEvent} {steps : List PacketStep}
    (takes : Takes memory elements steps) (name : Bytes) :
    Takes memory ([.key name, .startArray] ++ elements ++ [.endArray]) steps := by
  refine takes.scope (fun handler => ?_) fun _ => passes_endArray
  have opened : Passes memory
      { handler with parseStack := ⟨.key, name⟩ :: handler.parseStack } [.startArray] []
      { handler with parseStack := ⟨.array, []⟩ :: handler.parseStack } := by
    refine passes_onlyStack ?_ rfl
    simp [handle, startArray]
  exact (passes_key handler name).append opened

theorem member_calls {name : Bytes} (storable : Storable name) (value : Bytes) :
    { handler with parseStack := ⟨.key, name⟩ :: handler.parseStack }.putCalls
      (.string value) = [handler.appendCall value] := by
  simp [putCalls, storable.1, storable.2, appendCall]

/-- A string member is stored under its name. -/
theorem passes_member {name value : Bytes} (storable : Storable name)
    (stored : handler.store name value = some after) :
    Passes memory handler [.key name, .string value] [handler.appendCall value] after := by
  have handled : { handler with parseStack := ⟨.key, name⟩ :: handler.parseStack }.handle memory
      (.string value) = some (after, true) := by
    simp [handle, string, storable.1, storable.2, stored]
  have passes := (passes_key handler name).append (passes_of_handle handled)
  rwa [member_calls storable] at passes

theorem escapes_member {name value : Bytes} (storable : Storable name)
    (escaping : ¬(handler.appendCall value).Safe size) :
    Escapes memory size handler [.key name, .string value] := by
  refine (passes_key handler name).escapes (escapes_of_call ?_ escaping)
  rw [member_calls storable]
  exact List.mem_singleton_self _

theorem takes_member {name : Bytes} (storable : Storable name) (value : Bytes) :
    Takes memory [.key name, .string value] [.store name value] := by
  intro address size account handler small accounted
  constructor
  · rintro ⟨inRange, _⟩
    rcases accounted.store inRange small with ⟨after, stored, accountedAfter, extended⟩
    have passes : Passes memory handler _ _ after := passes_member storable stored
    rw [accounted.appendCall_eq] at passes
    exact ⟨after, passes, accountedAfter, extended⟩
  · intro outside
    apply escapes_member storable
    rw [accounted.append_safe_iff value small]
    exact fun inRange => outside ⟨inRange, trivial⟩

/-- The events of a note up to its value leave the key and the offset on the stack. -/
theorem passes_notePointer (handler : BufferReadHandler) (note : TextNote) :
    Passes memory handler
      [.startObject, .key (literal "ptr_key"), .string note.key, .key (literal "ptr_offset"),
        .uint note.offset, .key (literal "ptr_val")] []
      { handler with parseStack := ⟨.key, literal "ptr_val"⟩ ::
          ⟨.ptrOffset, leBytes 4 note.offset.toNat⟩ :: ⟨.ptrKey, note.key⟩ ::
          ⟨.object, []⟩ :: handler.parseStack } := by
  let scope : BufferReadHandler :=
    { handler with parseStack := ⟨.object, []⟩ :: handler.parseStack }
  have named : Passes memory
      { scope with parseStack := ⟨.key, literal "ptr_key"⟩ :: scope.parseStack }
      [.string note.key] []
      { scope with parseStack := ⟨.ptrKey, note.key⟩ :: scope.parseStack } :=
    passes_onlyStack (by simp [handle, string]) (by simp [putCalls])
  have placed : Passes memory
      { scope with
        parseStack := ⟨.key, literal "ptr_offset"⟩ :: ⟨.ptrKey, note.key⟩ :: scope.parseStack }
      [.uint note.offset] []
      { scope with
        parseStack := ⟨.ptrOffset, leBytes 4 note.offset.toNat⟩ :: ⟨.ptrKey, note.key⟩ ::
          scope.parseStack } :=
    passes_onlyStack (by simp [handle, uint]) (by simp [putCalls])
  exact (((((passes_startObject handler).append (passes_key scope _)).append named).append
    (passes_key _ _)).append placed).append (passes_key _ _)

theorem takes_note (note : TextNote) :
    Takes memory (PacketText.noteEvents note) [.note note] := by
  intro address size account handler small accounted
  let scope : BufferReadHandler :=
    { handler with parseStack := ⟨.object, []⟩ :: handler.parseStack }
  let pushed : BufferReadHandler := { handler with
    parseStack := ⟨.key, literal "ptr_val"⟩ :: ⟨.ptrOffset, leBytes 4 note.offset.toNat⟩ ::
      ⟨.ptrKey, note.key⟩ :: scope.parseStack }
  have opened : Passes memory handler _ [] pushed := passes_notePointer handler note
  have offset : readOffset ⟨.ptrOffset, leBytes 4 note.offset.toNat⟩ = some note.offset.toNat :=
    readOffset_leBytes note.offset.toNat_lt
  have accountedScope : Accounted address size account scope := accounted.withStack _
  have calls : pushed.putCalls (.string note.value) =
      scope.appendCall note.value :: scope.slotCalls note.key note.value note.offset.toNat := by
    have other : literal "ptr_val" ≠ literal "ptr_key" := by decide
    simp only [putCalls, pushed, other, if_false, if_true, offset, slotCalls,
      startOf_withStack, scope, appendCall]
  constructor
  · rintro ⟨inRange, _⟩
    rcases accountedScope.note inRange small with
      ⟨after, noted, listed, accountedAfter, extended⟩
    have handled : pushed.handle memory (.string note.value) = some (after, true) := by
      rw [handle, string_ptrVal rfl rfl offset]
      exact Option.map_eq_some_iff.mpr ⟨after, noted, rfl⟩
    have passes := (opened.append (passes_of_handle handled)).append
      (passes_endObject handler.parseStack extended.stack)
    rw [calls, listed, List.append_nil, List.nil_append] at passes
    refine ⟨_, ?_, accountedAfter.withStack handler.parseStack,
      ⟨extended.ptrs, extended.ids, rfl⟩⟩
    rw [PacketAccount.calls, PacketAccount.calls, List.append_nil]
    exact passes
  · intro outside
    rcases accountedScope.note_escapes (fun inRange => outside ⟨inRange, trivial⟩) small with
      ⟨call, member, escaping⟩
    exact (opened.escapes (escapes_of_call (calls ▸ member) escaping)).append [.endObject]

/-! ## Whole texts -/

/-- The numbers of the names are positions in the list of offsets, or zero. -/
def Indexed (handler : BufferReadHandler) : Prop :=
  ∀ name index, handler.nameIdMap.lookup name = some index →
    0 ≤ index ∧ (index = 0 ∨ index < handler.objectPtrs.length)

/-- What the handler finds under names once a value stands at the beginning of the
buffer, and no use of the buffer yet. -/
def initialAccount (handler : BufferReadHandler) : PacketAccount :=
  { starts := fun name =>
      (handler.objectPtrs ++ [0]).getD ((handler.nameIdMap.lookup name).getD 0).toNat 0
    tail := 0 }

theorem Indexed.initial_starts (indexed : Indexed handler) (name : Bytes) :
    (handler.objectPtrs ++ [0])[((handler.nameIdMap.lookup name).getD 0).toNat]? =
        some (handler.initialAccount.starts name) ∧
      0 ≤ (handler.nameIdMap.lookup name).getD 0 := by
  have inside : 0 ≤ (handler.nameIdMap.lookup name).getD 0 ∧
      ((handler.nameIdMap.lookup name).getD 0).toNat <
        (handler.objectPtrs ++ [0]).length := by
    rw [List.length_append, List.length_singleton]
    cases found : handler.nameIdMap.lookup name with
    | none => simp
    | some index =>
        rcases indexed name index found with ⟨nonneg, zero | below⟩
        · simp [zero]
        · rw [Option.getD_some]
          omega
  refine ⟨?_, inside.1⟩
  simp only [initialAccount, List.getD_eq_getElem?_getD]
  rw [List.getElem?_eq_getElem inside.2]
  rfl

/-- Storing the first value of a text. -/
theorem Indexed.store (indexed : Indexed handler)
    (filled : handler.objectBuffer.Filled size 0) {name value : Bytes}
    (inRange : handler.initialAccount.StepInRange size (.store name value))
    (small : size < 2 ^ 31) :
    ∃ after, handler.store name value = some after ∧
      Accounted handler.objectBuffer.bytes size
        (handler.initialAccount.step size (.store name value)) after ∧
      Extended [name] handler after :=
  store_inRange filled (fun other _ => indexed.initial_starts other) inRange small

/-- The steps of a text, the storing of the header included. -/
def textSteps (text : PacketText) : List PacketStep :=
  .store (literal "PacketHeader") text.header :: text.steps

/-- The stack when a text was read: a key on its top is replaced by the outermost array. -/
def outerStack (handler : BufferReadHandler) : List ParseItem :=
  match handler.parseStack with
  | [] => []
  | item :: stack => if item.type = .key then stack else item :: stack

theorem passes_startArray (defined : handler.parseStack = [] → memory ≠ .key) :
    Passes memory handler [.startArray] []
      { handler with parseStack := ⟨.array, []⟩ :: handler.outerStack } := by
  refine passes_onlyStack ?_ rfl
  rw [handle, startArray, outerStack]
  cases scope : handler.parseStack with
  | nil => simp [defined scope]
  | cons item stack =>
      dsimp only
      split
      · rfl
      · rfl

/-- The object with the notes. -/
def notesObjectEvents (notes : List TextNote) : List JsonEvent :=
  PacketText.objectEvents 2 ([.key (literal "note_arry"), .startArray] ++
    notes.flatMap PacketText.noteEvents ++ [.endArray])

theorem takes_notesObject (notes : List TextNote) :
    Takes memory (notesObjectEvents notes) (notes.map .note) := by
  have each : Takes memory (notes.flatMap PacketText.noteEvents)
      (notes.flatMap fun note => [.note note]) :=
    takes_flatMap fun note _ => takes_note note
  rw [← List.map_eq_flatMap] at each
  exact (each.arrayMember (literal "note_arry")).object 2

/-- The steps of a text behind its header. -/
theorem takes_steps (text : PacketText) :
    Takes memory
      (text.groups.flatMap (fun group =>
          PacketText.objectEvents 1 (group.flatMap PacketText.memberEvents)) ++
        notesObjectEvents text.notes) text.steps := by
  have items : Takes memory
      (text.groups.flatMap fun group =>
        PacketText.objectEvents 1 (group.flatMap PacketText.memberEvents))
      (text.groups.flatMap fun group =>
        group.flatMap fun entry => [.store entry.1 entry.2]) := by
    apply takes_flatMap
    intro group member
    refine (takes_flatMap fun entry inGroup => ?_).object 1
    exact takes_member (text.storable entry (List.mem_flatten.mpr ⟨group, member, inGroup⟩)) _
  have steps : (text.groups.flatMap fun group =>
        group.flatMap fun entry => [PacketStep.store entry.1 entry.2]) =
      text.groups.flatten.map fun entry => .store entry.1 entry.2 := by
    simp only [← List.map_eq_flatMap]
    rw [List.map_flatten, List.flatMap_def]
  rw [steps] at items
  exact items.append (takes_notesObject text.notes)

/-- The beginning of a text, with its header. -/
def headerEvents (text : PacketText) : List JsonEvent :=
  [.startArray] ++ PacketText.objectEvents 0 (PacketText.memberEvents text.headerEntry)

theorem passes_opening (defined : handler.parseStack = [] → memory ≠ .key) :
    Passes memory handler
      ([.startArray] ++ [.startObject, .key (literal "SegmentType"), .uint 0]) []
      { handler with parseStack := ⟨.object, []⟩ :: ⟨.array, []⟩ :: handler.outerStack } :=
  (passes_startArray defined).append (passes_segment 0 _)

theorem Indexed.reads_header (indexed : Indexed handler)
    (buffer : handler.objectBuffer = .holding address size []) (small : size < 2 ^ 31)
    (defined : handler.parseStack = [] → memory ≠ .key) (text : PacketText) :
    (handler.initialAccount.StepInRange size (.store (literal "PacketHeader") text.header) →
      ∃ after, Passes memory handler (headerEvents text)
          (handler.initialAccount.stepCalls address
            (.store (literal "PacketHeader") text.header)) after ∧
        Accounted address size
          (handler.initialAccount.step size (.store (literal "PacketHeader") text.header))
          after ∧
        after.objectPtrs = handler.objectPtrs ++ [0] ∧
        after.parseStack = ⟨.array, []⟩ :: handler.outerStack) ∧
    (¬handler.initialAccount.StepInRange size (.store (literal "PacketHeader") text.header) →
      Escapes memory size handler (headerEvents text)) := by
  let opened : BufferReadHandler := { handler with
    parseStack := ⟨.object, []⟩ :: ⟨.array, []⟩ :: handler.outerStack }
  have opening : Passes memory handler _ [] opened := passes_opening defined
  have filled : opened.objectBuffer.Filled size 0 := by
    rw [show opened.objectBuffer = _ from buffer]
    exact FixedBuffer.holding_filled address size
  have bytes : opened.objectBuffer.bytes = address := by
    rw [show opened.objectBuffer = _ from buffer]
    rfl
  have call : opened.appendCall text.header = ⟨text.header, 0, wrapInt text.header.length⟩ := by
    rw [appendCall, filled.offset]
    rfl
  have storable : Storable (literal "PacketHeader") := ⟨by decide, by decide⟩
  constructor
  · intro inRange
    have indexedOpened : Indexed opened := indexed
    rcases indexedOpened.store filled inRange small with
      ⟨stored, storing, accounted, extended⟩
    rw [bytes] at accounted
    have member : Passes memory opened _ _ stored := passes_member storable storing
    have closed : Passes memory stored [.endObject] [] _ :=
      passes_endObject _ extended.stack
    have passes := (opening.append member).append closed
    rw [call] at passes
    have ptrs := store_objectPtrs storing
    rw [filled.offset] at ptrs
    exact ⟨_, passes, accounted.withStack _, ptrs, rfl⟩
  · intro outside
    have escaping : ¬(opened.appendCall text.header).Safe size := by
      rw [call]
      exact mt (PacketAccount.append_safe_iff text.header filled.within small).mp outside
    exact (opening.escapes (escapes_member storable escaping)).append [.endObject]

/-- A text whose steps are in range is read to its end. -/
structure TextRead (memory : ParseType) (address size : Nat) (text : PacketText)
    (handler after : BufferReadHandler) : Prop where
  read : handler.read memory text.events = some (after, true)
  calls : handler.readCalls memory text.events =
    handler.initialAccount.calls address size (textSteps text)
  accounted : Accounted address size (handler.initialAccount.run size (textSteps text)) after
  ptrs : ∃ offsets, after.objectPtrs = handler.objectPtrs ++ 0 :: offsets ∧
    offsets.length = text.groups.flatten.length
  stack : after.parseStack = handler.outerStack

theorem storedNames_steps (text : PacketText) :
    (storedNames text.steps).length = text.groups.flatten.length := by
  simp [storedNames, PacketText.steps, List.filterMap_append, List.filterMap_map,
    Function.comp_def]

/-- Reading a text goes through when its steps are in range, and makes a call that writes
outside of the buffer when they are not. -/
theorem Indexed.reads_text (indexed : Indexed handler)
    (buffer : handler.objectBuffer = .holding address size []) (small : size < 2 ^ 31)
    (defined : handler.parseStack = [] → memory ≠ .key) (text : PacketText) :
    (handler.initialAccount.InRange size (textSteps text) →
      ∃ after, TextRead memory address size text handler after) ∧
    (¬handler.initialAccount.InRange size (textSteps text) →
      ∃ call ∈ handler.readCalls memory text.events, ¬call.Safe size) := by
  rcases indexed.reads_header buffer small defined text with ⟨within, outside⟩
  have events : text.events = headerEvents text ++
      (text.groups.flatMap (fun group =>
          PacketText.objectEvents 1 (group.flatMap PacketText.memberEvents)) ++
        notesObjectEvents text.notes) ++ [.endArray] := by
    simp only [PacketText.events, headerEvents, notesObjectEvents, List.append_assoc]
  rw [textSteps, PacketAccount.InRange, events]
  by_cases headerInRange : handler.initialAccount.StepInRange size
      (.store (literal "PacketHeader") text.header)
  · rcases within headerInRange with ⟨middle, passes, accounted, ptrs, stack⟩
    have takes : Takes memory _ text.steps := takes_steps text
    rcases takes address size _ middle small accounted with ⟨stepsWithin, stepsOutside⟩
    constructor
    · rintro ⟨_, inRange⟩
      rcases stepsWithin inRange with ⟨after, passesSteps, accountedAfter, extended⟩
      have closed : Passes memory after [.endArray] [] _ :=
        passes_endArray handler.outerStack (extended.stack.trans stack)
      have whole := (passes.append passesSteps).append closed
      rcases extended.ptrs with ⟨offsets, added, length⟩
      refine ⟨{ after with parseStack := handler.outerStack }, ?_, ?_,
        accountedAfter.withStack _, ⟨offsets, ?_, ?_⟩, rfl⟩
      · have done := whole.read []
        rwa [List.append_nil, ← events] at done
      · have listed := whole.calls []
        rw [List.append_nil, List.append_nil, ← events] at listed
        rw [listed]
        exact List.append_nil _
      · rw [added, ptrs, List.append_assoc]
        rfl
      · rw [length, storedNames_steps]
    · intro notBoth
      have escapes := (passes.escapes
        (stepsOutside fun inRange => notBoth ⟨headerInRange, inRange⟩)).append [.endArray] []
      rwa [List.append_nil] at escapes
  · refine ⟨fun both => absurd both.1 headerInRange, fun _ => ?_⟩
    rw [List.append_assoc]
    exact outside headerInRange _

end BufferReadHandler

end MultiMaster.Packet
