import MultiMaster.Packet.TextRoundTrip

/-!
# Packets without notes

The last note closes the array of a packet, so that a packet without notes is not a document.
The reader makes the calls for all of its text before it ends with an error, and parsing does
not look at the error: the header and the items are there all the same.
-/

namespace MultiMaster.Packet

open Foundation JsonWriter JsonReader

/-! ## An array that is not closed -/

section Reader

variable (double : Bytes → Except ParseErrorCode Nat)

theorem separated_elements (rest : WrittenElements) : Separated (rest.text true) := by
  intro byte head
  cases rest with
  | nil => cases head
  | cons first others =>
      cases head
      exact .inl rfl

/-- Behind the last element the end of the text is no comma and no bracket. -/
theorem parseElements_unclosed : ∀ (first : WrittenValue) (rest : WrittenElements) {bound : Nat},
    2 * (first.text.length + (rest.text true).length) + 1 < bound →
      parseElements double bound (first.text ++ rest.text true) =
        ((first.events ++ rest.events).map JsonEvent.replay,
          .error (.error .arrayMissCommaOrSquareBracket))
  | _, _, 0, room => absurd room (Nat.not_lt_zero _)
  | first, rest, bound + 1, room => by
      have value : parseValue double bound (first.text ++ rest.text true) =
          (first.events.map JsonEvent.replay, .ok ((), rest.text true)) :=
        reads_value double first (by omega) _ (separated_elements rest)
      have behind : parseElementEnd (parseElements double bound) (rest.text true) =
          (rest.events.map JsonEvent.replay, .error (.error .arrayMissCommaOrSquareBracket)) := by
        cases rest with
        | nil => rfl
        | cons second others =>
            rw [WrittenElements.text_behind, WrittenElements.text_first, List.length_cons,
              List.length_append] at room
            rw [WrittenElements.text_behind, WrittenElements.text_first,
              parseElementEnd_comma (second.begins.append (others.text true))]
            exact parseElements_unclosed second others (by omega)
      rw [parseElements, Scanner.bind_of_ok value, behind, List.map_append]

/-- The reader makes the calls for all elements before it ends with an error. -/
theorem readText_unclosed (first : WrittenValue) (rest : WrittenElements) :
    readText double (leftBracket :: (WrittenElements.cons first rest).text false) =
      (.startArray :: (first.events ++ rest.events).map JsonEvent.replay,
        .error (.error .arrayMissCommaOrSquareBracket)) := by
  have visible : isWhitespace leftBracket = false := by decide
  have value {bound : Nat}
      (room : 2 * (first.text.length + (rest.text true).length) + 1 < bound) :
      parseValue double (bound + 1) (leftBracket :: (first.text ++ rest.text true)) =
        (.startArray :: (first.events ++ rest.events).map JsonEvent.replay,
          .error (.error .arrayMissCommaOrSquareBracket)) := by
    have elements := parseElements_unclosed double first rest room
    rcases first.begins.append (rest.text true) with ⟨byte, tail, text, opens⟩
    rw [text] at elements ⊢
    rw [parseValue, peek, Scanner.peek_bind]
    rw [if_neg (by decide), if_neg (by decide), if_neg (by decide), if_neg (by decide),
      if_neg (by decide), if_pos rfl, parseArray, parseScope, take, Scanner.take_bind,
      Scanner.call_bind, skipWhitespace_visible opens.visible.1,
      consume_other opens.visible.2.1, if_neg Bool.false_ne_true, elements]
  have parsed : parse double (leftBracket :: (first.text ++ rest.text true)) =
      (.startArray :: (first.events ++ rest.events).map JsonEvent.replay,
        .error (.error .arrayMissCommaOrSquareBracket)) := by
    have room : 2 * (first.text.length + (rest.text true).length) + 1 <
        2 * (leftBracket :: (first.text ++ rest.text true)).length + 1 := by
      rw [List.length_cons, List.length_append]
      omega
    have whole : (Scanner.bounded fun bound => parseValue double (2 * bound))
        (leftBracket :: (first.text ++ rest.text true)) = _ := value room
    rw [parse, skipWhitespace_visible visible, peek, Scanner.peek_bind, if_neg (by decide),
      Scanner.bind_of_error whole]
  rw [WrittenElements.text_first, readText, parsed]
  rfl

end Reader

/-! ## A packet without notes -/

/-- The calls for an array up to its end write the text up to its end. -/
theorem textOf_unclosed (elements : WrittenElements) :
    textOf (.startArray :: elements.events) = leftBracket :: elements.text false := by
  have opened : write JsonWriter.State.new .startArray = insideArray [] 0 [leftBracket] := rfl
  rw [textOf, List.foldl_cons, opened, write_elements, insideArray,
    decide_eq_false (Nat.lt_irrefl 0)]
  rfl

namespace JsonRpcPacket

variable {header : Bytes} {groups : List (List PacketItem)}

theorem build_unnoted (nonempty : ∀ group ∈ groups, group ≠ []) :
    (build header groups []).json = headerEvents header ++ groups.flatMap groupEvents := by
  rw [build, foldl_setGroup _ nonempty]
  rfl

/-- What the calls that build a packet without notes write into the array. -/
def openDocument (header : Bytes) (groups : List (List PacketItem)) : WrittenElements :=
  .cons (segmentDocument .header [(literal "PacketHeader", .string header)])
    (.ofList (groups.map groupDocument))

theorem events_openDocument (nonempty : ∀ group ∈ groups, group ≠ []) :
    .startArray :: (openDocument header groups).events = (build header groups []).json := by
  have grouped : (groups.map groupDocument).flatMap WrittenValue.events =
      groups.flatMap groupEvents := by
    rw [List.flatMap_map]
    exact List.flatMap_congr fun group _ => events_groupDocument group
  rw [build_unnoted nonempty, openDocument, WrittenElements.events,
    WrittenElements.events_ofList, grouped, events_segmentDocument]
  simp [headerEvents, WrittenValue.events]

/-- The reader ends with an error, behind the calls for the whole text. -/
theorem readText_unnoted (double : Bytes → Except ParseErrorCode Nat)
    (nonempty : ∀ group ∈ groups, group ≠ []) :
    readText double (build header groups []).getString =
      ((build header groups []).json.map JsonEvent.replay,
        .error (.error .arrayMissCommaOrSquareBracket)) := by
  rw [getString, ← events_openDocument nonempty, textOf_unclosed]
  exact readText_unclosed double _ _

/-- Parsing does not look at the error of the reader. -/
theorem parseText_unnoted (double : Bytes → Except ParseErrorCode Nat)
    (receiver : JsonRpcPacket) (nonempty : ∀ group ∈ groups, group ≠ []) (address : Nat)
    (size : Int) (memory : ParseType) :
    receiver.parseText double (build header groups []).getString address size memory =
      receiver.parse (build header groups []).json address size memory := by
  rw [parseText, parse, readText_unnoted double nonempty]

/-- A packet that was parsed before its array was closed gives back the header and the
items. -/
structure RestoredOpen (parsed : JsonRpcPacket) (header : Bytes)
    (groups : List (List PacketItem)) : Prop where
  opened : parsed.readHandler.parseStack = [⟨.array, []⟩]
  header : ∃ pointer, parsed.getPacketHeaderPtr = some (parsed, pointer) ∧
    parsed.bytesAt pointer header.length = some header
  items : ∀ index (inside : index < groups.flatten.length), ∃ pointer,
    parsed.getPacketItemPtr (index + 1) = some pointer ∧
    parsed.getPacketItemPtrByKey groups.flatten[index].key.val = some (parsed, pointer) ∧
    parsed.bytesAt pointer groups.flatten[index].value.length =
      some groups.flatten[index].value

section Restoring

variable {address size : Nat} {after : BufferReadHandler}

/-- The bytes of an entry are where its name leads to. -/
theorem entry_restored (keys : OwnKeys groups) (receiver : JsonRpcPacket)
    (loaded : BufferReadHandler.Loaded address size (layout header groups)
      (layout header groups).contents [⟨.array, []⟩] after) {index : Nat}
    (inside : index < (layout header groups).length) :
    ∃ pointer, (receiver.finish after).getPacketItemPtr index = some pointer ∧
      (receiver.finish after).getPacketItemPtrByKey (layout header groups)[index].1 =
        some (receiver.finish after, pointer) ∧
      (receiver.finish after).bytesAt pointer (layout header groups)[index].2.length =
        some (layout header groups)[index].2 := by
  have ending := Stored.offsetOf_end_le_length inside
  have named := getPacketItemPtrByKey_finish receiver loaded
    (List.mem_map_of_mem (List.getElem_mem inside))
  rw [BufferReadHandler.idxOf_name keys.layout_distinct inside] at named
  refine ⟨_, getPacketItemPtr_finish receiver loaded inside, named, ?_⟩
  rw [bytesAt_finish receiver loaded ending]
  refine congrArg some (List.ext_getElem? fun position => ?_)
  by_cases within : position < (layout header groups)[index].2.length
  · rw [slice, List.getElem?_take_of_lt within, List.getElem?_drop,
      Stored.getElem?_contents inside within]
  · rw [slice, List.getElem?_take_eq_none (Nat.not_lt.mp within),
      List.getElem?_eq_none (Nat.not_lt.mp within)]

/-- The text of a packet without notes is not a document, and the reader says so, but parsing
it restores the header and the items. -/
theorem unnoted_restored (double : Bytes → Except ParseErrorCode Nat)
    (nonempty : ∀ group ∈ groups, group ≠ []) (keys : OwnKeys groups)
    (room : Room header groups [] address size) {receiver : JsonRpcPacket}
    (fresh : receiver.readHandler = .new) {memory : ParseType} (uninitialised : memory ≠ .key) :
    (readText double (build header groups []).getString).2 =
        .error (.error .arrayMissCommaOrSquareBracket) ∧
      ∃ parsed, receiver.parseText double (build header groups []).getString address size
          memory = some (parsed, true) ∧
        RestoredOpen parsed header groups := by
  have total : header.length + (groups.flatten.flatMap PacketItem.value).length ≤ size :=
    room.room
  rcases keys.reads_items address total room.small uninitialised with ⟨after, reads, loaded⟩
  refine ⟨?_, receiver.finish after, ?_, loaded.stack, ?_, ?_⟩
  · rw [readText_unnoted double nonempty]
  · rw [parseText_unnoted double receiver nonempty, build_unnoted nonempty]
    rw [← fresh] at reads
    exact receiver.parse_of_reads reads
  · have inside : 0 < (layout header groups).length := by simp [length_layout]
    rcases entry_restored keys receiver loaded inside with ⟨pointer, _, named, bytes⟩
    exact ⟨pointer, named, bytes⟩
  · intro index inside
    have insideLayout : index + 1 < (layout header groups).length := by
      rw [length_layout]
      omega
    have entry := layout_item inside insideLayout
    rcases entry_restored keys receiver loaded insideLayout with
      ⟨pointer, numbered, named, bytes⟩
    simp only [entry] at named bytes
    exact ⟨pointer, numbered, named, bytes⟩

/-- Two items of one group. -/
theorem unnoted_restored_twoItems :
    (readText (fun _ => .error .numberTooBig)
        (build [1] [[⟨.ofString "a", [7, 8]⟩, ⟨.ofString "b", [0]⟩]] []).getString).2 =
        .error (.error .arrayMissCommaOrSquareBracket) ∧
      ∃ parsed, new.parseText (fun _ => .error .numberTooBig)
          (build [1] [[⟨.ofString "a", [7, 8]⟩, ⟨.ofString "b", [0]⟩]] []).getString 4096 16
          .object = some (parsed, true) ∧
        RestoredOpen parsed [1] [[⟨.ofString "a", [7, 8]⟩, ⟨.ofString "b", [0]⟩]] :=
  unnoted_restored _ (by decide) ⟨by decide, by decide⟩ ⟨by decide, by decide, by decide⟩ rfl
    (by decide)

end Restoring

end JsonRpcPacket

end MultiMaster.Packet
