import MultiMaster.Packet.ReadingScalars
import MultiMaster.Packet.WrittenText

/-!
# Reading documents

The reader gives the calls that have written the text of a document, and ends without an
error.
-/

namespace MultiMaster.Packet

open Foundation JsonWriter JsonReader

variable (double : Bytes → Except ParseErrorCode Nat)
variable {follow : Bytes → Prop} {text : Bytes} {calls : List JsonEvent}

/-! ## Values -/

/-- Bytes that values begin with. -/
def Opens (byte : UInt8) : Prop :=
  byte = quotationMark ∨ byte = leftBracket ∨ byte = leftCurlyBracket ∨ byte = 45 ∨
    isDigit byte = true

theorem Opens.visible {byte : UInt8} (opens : Opens byte) :
    isWhitespace byte = false ∧ byte ≠ rightBracket ∧ byte ≠ 0 := by
  rcases opens with rfl | rfl | rfl | rfl | digit
  · decide
  · decide
  · decide
  · decide
  · refine ⟨?_, ?_, ?_⟩
    · rw [isWhitespace, decide_eq_false_iff_not]
      rintro (rfl | rfl | rfl | rfl)
      · cases digit
      · cases digit
      · cases digit
      · cases digit
    · rintro rfl
      cases digit
    · rintro rfl
      cases digit

theorem writeInt_begins (value : Int) : ∃ first rest,
    writeInt value = first :: rest ∧ (first = 45 ∨ isDigit first = true) := by
  rw [writeInt, ← decimal]
  by_cases negative : value < 0
  · rw [if_pos negative]
    exact ⟨45, _, rfl, .inl rfl⟩
  · rcases decimal_begins value.natAbs with ⟨first, rest, written, digit⟩
    rw [if_neg negative, written]
    exact ⟨first, rest, rfl, .inr digit⟩

/-- A text begins as values do. -/
def Begins (text : Bytes) : Prop := ∃ first rest, text = first :: rest ∧ Opens first

theorem Begins.append {text : Bytes} (begins : Begins text) (rest : Bytes) :
    Begins (text ++ rest) := by
  rcases begins with ⟨first, middle, rfl, opens⟩
  exact ⟨first, middle ++ rest, rfl, opens⟩

theorem begins_writeString (string : Bytes) : Begins (writeString string) :=
  ⟨quotationMark, _, rfl, .inl rfl⟩

theorem WrittenValue.begins (value : WrittenValue) : Begins value.text := by
  cases value with
  | string value => exact begins_writeString value
  | array elements => exact ⟨leftBracket, _, rfl, .inr (.inl rfl)⟩
  | object members => exact ⟨leftCurlyBracket, _, rfl, .inr (.inr (.inl rfl))⟩
  | int value =>
      rcases writeInt_begins value.toInt with ⟨first, rest, written, begins⟩
      exact ⟨first, rest, written, .inr (.inr (.inr begins))⟩

theorem reads_int {bound : Nat} (value : Int32) :
    (parseValue double (bound + 1)).Reads (writeInt value.toInt)
      [JsonEvent.replay (.int value.toInt)] () Separated := by
  have reads := reads_parseNumber double value
  rcases writeInt_begins value.toInt with ⟨first, rest, written, begins⟩
  rw [parseValue]
  rw [written] at reads ⊢
  apply Scanner.Reads.peek
  have other (byte : UInt8) (notMinus : byte ≠ 45) (notDigit : isDigit byte = false) :
      first ≠ byte := by
    rintro rfl
    rcases begins with minus | digit
    · exact notMinus minus
    · rw [notDigit] at digit
      cases digit
  rw [if_neg (other 110 (by decide) rfl), if_neg (other 116 (by decide) rfl),
    if_neg (other 102 (by decide) rfl), if_neg (other quotationMark (by decide) rfl),
    if_neg (other leftCurlyBracket (by decide) rfl), if_neg (other leftBracket (by decide) rfl)]
  exact reads

theorem reads_string {bound : Nat} (value : Bytes) :
    (parseValue double (bound + 1)).Reads (writeString value) [.string value] () Separated := by
  rw [parseValue]
  apply Scanner.Reads.peek
  rw [if_neg (by decide), if_neg (by decide), if_neg (by decide)]
  exact reads_parseString false value

section Scopes

variable {double} {bound : Nat} {later : Bytes} {more : List JsonEvent}

/-! ## Scopes -/

section Parts

variable {opened closed : JsonEvent} {bracket close first : UInt8} {inside : JsonReader Unit}

theorem reads_parseScope (visible : isWhitespace first = false) (different : first ≠ close)
    (reads : inside.Reads (first :: text) calls () follow) :
    (parseScope opened closed close inside).Reads (bracket :: first :: text) (opened :: calls)
      () follow := by
  apply Scanner.Reads.take
  apply Scanner.Reads.call
  apply reads_skipWhitespace visible
  exact reads_consume_other different reads

theorem reads_emptyScope (visible : isWhitespace close = false) :
    (parseScope opened closed close inside).Reads [bracket, close] [opened, closed] ()
      follow := by
  apply Scanner.Reads.take
  apply Scanner.Reads.call
  apply reads_skipWhitespace visible
  exact reads_consume (Scanner.reads_call _)

end Parts

theorem reads_array
    (reads : (parseArray (parseElements double bound)).Reads (leftBracket :: text) calls ()
      follow) :
    (parseValue double (bound + 1)).Reads (leftBracket :: text) calls () follow := by
  rw [parseValue]
  apply Scanner.Reads.peek
  rw [if_neg (by decide), if_neg (by decide), if_neg (by decide), if_neg (by decide),
    if_neg (by decide), if_pos rfl]
  exact reads

theorem reads_object
    (reads : (parseObject (parseMembers double bound)).Reads (leftCurlyBracket :: text) calls ()
      follow) :
    (parseValue double (bound + 1)).Reads (leftCurlyBracket :: text) calls () follow := by
  rw [parseValue]
  apply Scanner.Reads.peek
  rw [if_neg (by decide), if_neg (by decide), if_neg (by decide), if_neg (by decide),
    if_pos rfl]
  exact reads

theorem reads_startArray (begins : Begins text)
    (elements : (parseElements double bound).Reads text calls () follow) :
    (parseValue double (bound + 1)).Reads (leftBracket :: text) (.startArray :: calls) ()
      follow := by
  rcases begins with ⟨first, rest, rfl, opens⟩
  exact reads_array (reads_parseScope opens.visible.1 opens.visible.2.1 elements)

theorem reads_startObject {string : Bytes}
    (members : (parseMembers double bound).Reads (writeString string ++ text) calls () follow) :
    (parseValue double (bound + 1)).Reads (leftCurlyBracket :: (writeString string ++ text))
      (.startObject :: calls) () follow :=
  reads_object (reads_parseScope (by decide) (by decide) members)

/-! ## Behind a value -/

theorem separated_rightBracket (rest : Bytes) : Separated ([rightBracket] ++ rest) := by
  intro byte head
  cases head
  exact .inr (.inl rfl)

theorem separated_rightCurlyBracket (rest : Bytes) :
    Separated ([rightCurlyBracket] ++ rest) := by
  intro byte head
  cases head
  exact .inr (.inr rfl)

theorem separated_comma (later rest : Bytes) : Separated (comma :: later ++ rest) := by
  intro byte head
  cases head
  exact .inl rfl

/-! ## Elements -/

theorem parseElementEnd_comma {elements : JsonReader Unit} (begins : Begins text) :
    parseElementEnd elements (comma :: text) = elements text := by
  rcases begins with ⟨first, rest, rfl, opens⟩
  rw [parseElementEnd, skipWhitespace_visible (by decide), consume_expected, if_pos rfl,
    skipWhitespace_visible opens.visible.1]

theorem reads_lastElement (value : (parseValue double bound).Reads text calls () Separated) :
    (parseElements double (bound + 1)).Reads (text ++ [rightBracket]) (calls ++ [.endArray]) ()
      follow := by
  rw [parseElements]
  refine value.bind ?_ fun rest _ => separated_rightBracket rest
  rw [parseElementEnd]
  apply reads_skipWhitespace (by decide)
  apply reads_consume_other (by decide)
  exact reads_consume (Scanner.reads_call _)

theorem reads_nextElement (value : (parseValue double bound).Reads text calls () Separated)
    (begins : Begins later) (elements : (parseElements double bound).Reads later more () follow) :
    (parseElements double (bound + 1)).Reads (text ++ comma :: later) (calls ++ more) ()
      follow := by
  rw [parseElements]
  refine value.bind ?_ fun rest _ => separated_comma _ rest
  rintro rest follows
  rw [List.cons_append, parseElementEnd_comma (begins.append rest)]
  exact elements rest follows

/-! ## Members -/

/-- The name and the value of a member, with what comes behind them. -/
theorem reads_member (name : Bytes) (begins : Begins text)
    (value : (parseValue double bound).Reads text calls () Separated)
    (separated : ∀ rest, follow rest → Separated (later ++ rest))
    (rest : (parseMemberEnd (parseMembers double bound)).Reads later more () follow) :
    (parseMembers double (bound + 1)).Reads (writeString name ++ colon :: (text ++ later))
      (.key name :: (calls ++ more)) () follow := by
  rcases begins with ⟨first, tail, rfl, opens⟩
  rw [parseMembers]
  apply Scanner.Reads.peek
  rw [if_pos (by decide)]
  refine Scanner.Reads.always (reads_parseString true name) ?_
  apply reads_skipWhitespace (by decide)
  apply reads_consume
  apply reads_skipWhitespace opens.visible.1
  exact value.bind rest separated

theorem reads_lastMember (name : Bytes) (begins : Begins text)
    (value : (parseValue double bound).Reads text calls () Separated) :
    (parseMembers double (bound + 1)).Reads
      (writeString name ++ colon :: (text ++ [rightCurlyBracket]))
      (.key name :: (calls ++ [.endObject])) () follow := by
  refine reads_member name begins value (fun rest _ => separated_rightCurlyBracket rest) ?_
  rw [parseMemberEnd]
  apply reads_skipWhitespace (by decide)
  apply Scanner.Reads.peek
  rw [if_neg (by decide), if_pos rfl]
  exact Scanner.Reads.take (Scanner.reads_call _)

theorem reads_nextMember {string : Bytes} (name : Bytes) (begins : Begins text)
    (value : (parseValue double bound).Reads text calls () Separated)
    (members : (parseMembers double bound).Reads (writeString string ++ later) more ()
      follow) :
    (parseMembers double (bound + 1)).Reads
      (writeString name ++ colon :: (text ++ comma :: (writeString string ++ later)))
      (.key name :: (calls ++ more)) () follow := by
  refine reads_member name begins value (fun rest _ => separated_comma _ rest) ?_
  rw [parseMemberEnd]
  apply reads_skipWhitespace (by decide)
  apply Scanner.Reads.peek
  rw [if_pos rfl]
  apply Scanner.Reads.take
  exact reads_skipWhitespace (by decide) members

end Scopes

/-! ## Documents -/

namespace WrittenElements

variable (first : WrittenValue) (rest : WrittenElements)

theorem text_first : (cons first rest).text false = first.text ++ rest.text true := rfl

theorem text_behind : (cons first rest).text true = comma :: (cons first rest).text false := rfl

end WrittenElements

namespace WrittenMembers

variable (name : Bytes) (first : WrittenValue) (rest : WrittenMembers)

theorem text_first : (cons name first rest).text false =
    writeString name ++ colon :: (first.text ++ rest.text true) :=
  List.append_assoc (writeString name) (colon :: first.text) (rest.text true)

theorem text_behind : (cons name first rest).text true =
    comma :: (cons name first rest).text false := rfl

end WrittenMembers

mutual

/-- A value is read with the calls that wrote it. -/
theorem reads_value : ∀ (value : WrittenValue) {bound : Nat},
    2 * value.text.length < bound →
      (parseValue double bound).Reads value.text (value.events.map JsonEvent.replay) ()
        Separated
  | _, 0, room => absurd room (Nat.not_lt_zero _)
  | .string value, _ + 1, _ => reads_string double value
  | .int value, _ + 1, _ => reads_int double value
  | .array .nil, _ + 1, _ => reads_array (reads_emptyScope rfl)
  | .array (.cons first rest), bound + 1, room => by
      rw [WrittenValue.text, WrittenElements.text_first, List.length_cons, List.length_append,
        List.length_append, List.length_singleton] at room
      refine reads_startArray ?_ (reads_elements first rest (by omega))
      exact (first.begins.append _).append _
  | .object .nil, _ + 1, _ => reads_object (reads_emptyScope rfl)
  | .object (.cons name first rest), bound + 1, room => by
      rw [WrittenValue.text, WrittenMembers.text_first, List.length_cons, List.length_append,
        List.length_append, List.length_cons, List.length_append] at room
      rw [WrittenValue.text, WrittenMembers.text_first, List.append_assoc]
      exact reads_startObject (reads_members name first rest (by omega))

/-- The elements of an array up to its end. -/
theorem reads_elements {follow : Bytes → Prop} :
    ∀ (first : WrittenValue) (rest : WrittenElements) {bound : Nat},
      2 * (first.text.length + (rest.text true).length) + 1 < bound →
        (parseElements double bound).Reads
          ((WrittenElements.cons first rest).text false ++ [rightBracket])
          (((WrittenElements.cons first rest).events ++ [JsonEvent.endArray]).map
            JsonEvent.replay) () follow
  | _, _, 0, room => absurd room (Nat.not_lt_zero _)
  | first, .nil, bound + 1, room => by
      rw [WrittenElements.text_first, WrittenElements.text, List.append_nil,
        WrittenElements.events, WrittenElements.events, List.append_nil, List.map_append]
      exact reads_lastElement (reads_value first (by omega))
  | first, .cons second others, bound + 1, room => by
      have value : (parseValue double bound).Reads first.text _ () Separated :=
        reads_value first (by omega)
      rw [WrittenElements.text_behind, WrittenElements.text_first, List.length_cons,
        List.length_append] at room
      rw [WrittenElements.text_first, WrittenElements.text_behind, List.append_assoc,
        List.cons_append, WrittenElements.events, List.append_assoc, List.map_append]
      refine reads_nextElement value ?_ (reads_elements second others (by omega))
      exact (second.begins.append _).append _

/-- The members of an object up to its end. -/
theorem reads_members {follow : Bytes → Prop} :
    ∀ (name : Bytes) (first : WrittenValue) (rest : WrittenMembers) {bound : Nat},
      2 * (first.text.length + (rest.text true).length) + 1 < bound →
        (parseMembers double bound).Reads
          (writeString name ++ (colon :: (first.text ++ rest.text true) ++ [rightCurlyBracket]))
          (((WrittenMembers.cons name first rest).events ++ [JsonEvent.endObject]).map
            JsonEvent.replay) () follow
  | _, _, _, 0, room => absurd room (Nat.not_lt_zero _)
  | name, first, .nil, bound + 1, room => by
      rw [WrittenMembers.text, List.append_nil, WrittenMembers.events, WrittenMembers.events,
        List.append_nil, List.cons_append, List.cons_append, List.map_cons, List.map_append]
      exact reads_lastMember name first.begins (reads_value first (by omega))
  | name, first, .cons second other others, bound + 1, room => by
      have value : (parseValue double bound).Reads first.text _ () Separated :=
        reads_value first (by omega)
      have calls : ((WrittenMembers.cons name first (.cons second other others)).events ++
            [JsonEvent.endObject]).map JsonEvent.replay =
          .key name :: (first.events.map JsonEvent.replay ++
            ((WrittenMembers.cons second other others).events ++
              [JsonEvent.endObject]).map JsonEvent.replay) := by
        rw [WrittenMembers.events, List.cons_append, List.append_assoc, List.map_cons,
          List.map_append]
        rfl
      rw [WrittenMembers.text_behind, WrittenMembers.text_first, List.length_cons,
        List.length_append, List.length_cons, List.length_append] at room
      rw [WrittenMembers.text_behind, WrittenMembers.text_first, List.cons_append,
        List.append_assoc first.text, List.cons_append, List.append_assoc (writeString second),
        calls]
      exact reads_nextMember name first.begins value (reads_members second other others (by omega))

end

/-- A document of the writer is read as a whole. -/
theorem reads_parse (value : WrittenValue) :
    (parse double).Reads value.text (value.events.map JsonEvent.replay) () fun rest =>
      rest = [] := by
  have whole : (Scanner.bounded fun bound => parseValue double (2 * bound)).Reads value.text
      (value.events.map JsonEvent.replay) () fun rest => rest = [] := by
    apply Scanner.reads_bounded
    intro bound room
    refine (reads_value double value (by omega)).weaken ?_
    rintro rest rfl byte head
    cases head
  have ended : (do
      skipWhitespace
      if (← peek) = 0 then return () else error .documentRootNotSingular : JsonReader Unit).Reads
        [] [] () fun rest => rest = [] := by
    rintro rest rfl
    rfl
  rcases value.begins with ⟨first, rest, text, opens⟩
  rw [text, ← List.append_nil (value.events.map JsonEvent.replay)]
  rw [text] at whole
  apply reads_skipWhitespace opens.visible.1
  apply Scanner.Reads.peek
  rw [if_neg opens.visible.2.2]
  exact whole.last ended

theorem readText_text (value : WrittenValue) :
    readText double value.text = (value.events.map JsonEvent.replay, .ok ()) := by
  have read := reads_parse double value [] rfl
  rw [List.append_nil] at read
  rw [readText, read]
  rfl

/-- Reading the text that the writer makes for a document gives the calls that made it, with
numbers that are not negative reported as unsigned, and no error. -/
theorem reader_inverts_writer (value : WrittenValue) :
    readText double (textOf value.events) = (value.events.map JsonEvent.replay, .ok ()) := by
  rw [textOf_events, readText_text]

end MultiMaster.Packet
