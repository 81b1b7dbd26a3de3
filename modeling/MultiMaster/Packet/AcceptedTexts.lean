import MultiMaster.Packet.AnyJson
import MultiMaster.Packet.ReaderEnds

/-!
# What the reader accepts

Whatever the text is, the calls of the reader are those of a JSON document when it ends without
an error, and otherwise the first calls for some document.
-/

namespace MultiMaster.Packet

open Foundation Scanner

namespace JsonReader

variable {whole part : List JsonEvent → Prop}

/-! ## Letters and strings -/

theorem makes_error {Value : Type} (code : ParseErrorCode) (empty : part []) :
    Makes (error code : JsonReader Value) whole part := makes_fail _ empty

theorem silent_consume (expect : UInt8) : Silent (consume expect) := by
  refine silent_peek.bind (fun byte => ?_) rfl
  by_cases found : byte = expect
  · rw [if_pos found]
    exact silent_take.bind (fun _ => silent_pure) rfl
  · rw [if_neg found]
    exact silent_pure

theorem silent_consumeAll : ∀ expected : Bytes, Silent (consumeAll expected)
  | [] => silent_pure
  | expect :: expected => by
      refine (silent_consume expect).bind (fun found => ?_) rfl
      cases found with
      | true => exact silent_consumeAll expected
      | false => exact silent_pure

theorem makes_parseLiteral {letters : String} {event : JsonEvent} (empty : part []) :
    Makes (parseLiteral letters event) (· = [event]) part := by
  refine silent_take.bind (fun _ => ?_) empty
  refine (silent_consumeAll _).bind (fun found => ?_) empty
  cases found with
  | true => exact makes_call event
  | false => exact makes_error _ empty

theorem silent_parseHex : ∀ digits codepoint : Nat, Silent (parseHex digits codepoint)
  | 0, _ => silent_pure
  | digits + 1, codepoint => by
      refine silent_peek.bind (fun byte => ?_) rfl
      cases hexDigit? byte with
      | some digit => exact silent_take.bind (fun _ => silent_parseHex digits _) rfl
      | none => exact makes_error _ rfl

theorem silent_parseUnicode : Silent parseUnicode := by
  refine (silent_parseHex 4 0).bind (fun codepoint => ?_) rfl
  by_cases surrogate : 0xD800 ≤ codepoint ∧ codepoint ≤ 0xDBFF
  · rw [if_pos surrogate]
    refine (silent_consumeAll _).bind (fun found => ?_) rfl
    cases found with
    | false => exact makes_error _ rfl
    | true =>
        refine (silent_parseHex 4 0).bind (fun second => ?_) rfl
        by_cases low : second < 0xDC00 ∨ 0xDFFF < second
        · rw [if_pos low]
          exact makes_error _ rfl
        · rw [if_neg low]
          exact silent_pure
  · rw [if_neg surrogate]
    exact silent_pure

theorem silent_parseStringToStream : ∀ (bound : Nat) (os : Bytes),
    Silent (parseStringToStream bound os)
  | 0, _ => makes_fail _ rfl
  | bound + 1, os => by
      rw [parseStringToStream]
      refine silent_peek.bind (fun byte => ?_) rfl
      split_ifs
      · refine silent_take.bind (fun _ => silent_peek.bind (fun escaped => ?_) rfl) rfl
        cases escape escaped with
        | some meant =>
            exact silent_take.bind (fun _ => silent_parseStringToStream bound _) rfl
        | none =>
            dsimp only
            split_ifs
            · refine silent_take.bind (fun _ => ?_) rfl
              refine silent_parseUnicode.bind (fun encoded => ?_) rfl
              exact silent_parseStringToStream bound _
            · exact makes_error _ rfl
      · exact silent_take.bind (fun _ => silent_pure) rfl
      · exact makes_error _ rfl
      · exact makes_error _ rfl
      · exact silent_take.bind (fun _ => silent_parseStringToStream bound _) rfl

theorem makes_parseString {isKey : Bool} (empty : part []) :
    Makes (parseString isKey)
      (fun calls => ∃ string, calls = [if isKey then .key string else .string string]) part := by
  refine silent_take.bind (fun _ => ?_) empty
  have string : Silent (Scanner.bounded fun bound => parseStringToStream bound []) :=
    makes_bounded fun bound => silent_parseStringToStream bound []
  refine string.bind (fun string => ?_) empty
  exact (makes_call _).weaken (fun _ made => ⟨string, made⟩) fun _ => id

/-! ## Numbers -/

/-- The calls for a document. -/
def OfDocument (calls : List JsonEvent) : Prop := ∃ document : Json, calls = document.events

/-- The first calls for a document. -/
def Begun (calls : List JsonEvent) : Prop := ∃ document : Json, calls <+: document.events

theorem begun_nil : Begun [] := ⟨.scalar .null, List.nil_prefix⟩

theorem OfDocument.begun {calls : List JsonEvent} (made : OfDocument calls) : Begun calls := by
  rcases made with ⟨document, rfl⟩
  exact ⟨document, List.prefix_rfl⟩

theorem makes_document {reader : JsonReader Unit} {event : JsonEvent} (document : Json)
    (call : [event] = document.events) (makes : Makes reader (· = [event]) (· = [])) :
    Makes reader OfDocument Begun := by
  refine makes.weaken ?_ ?_
  · rintro _ rfl
    exact ⟨document, call⟩
  · rintro _ rfl
    exact begun_nil

theorem makes_call_document {event : JsonEvent} (document : Json)
    (call : [event] = document.events) :
    Makes (Scanner.call event : JsonReader Unit) OfDocument Begun :=
  makes_document document call (makes_call event)

variable {double : Bytes → Except ParseErrorCode Nat} {start : Bytes} {minus : Bool}

theorem makes_parseDouble : Makes (parseDouble double start) OfDocument Begun := by
  cases read : double start with
  | ok length =>
      refine ⟨?_, ?_⟩
      · intro text calls value rest made
        rw [parseDouble, read] at made
        cases made
        exact ⟨.scalar .double, rfl⟩
      · intro text calls error made
        rw [parseDouble, read] at made
        cases made
  | error code =>
      refine ⟨?_, ?_⟩
      · intro text calls value rest made
        rw [parseDouble, read] at made
        cases made
      · intro text calls error made
        rw [parseDouble, read] at made
        cases made
        exact begun_nil

theorem makes_finishNumber {use64bit : Bool} {value : Nat} :
    Makes (finishNumber double start minus use64bit value) OfDocument Begun := by
  refine silent_peek.bind (fun byte => ?_) begun_nil
  by_cases fraction : byte = 46 ∨ byte = 101 ∨ byte = 69
  · rw [if_pos fraction]
    exact makes_parseDouble
  · rw [if_neg fraction]
    cases use64bit with
    | true =>
        cases minus with
        | true => exact makes_call_document (.scalar (.int64 (-value))) rfl
        | false => exact makes_call_document (.scalar (.uint64 value)) rfl
    | false =>
        cases minus with
        | true => exact makes_call_document (.scalar (.int (-value))) rfl
        | false => exact makes_call_document (.uint (.ofNat value)) rfl

theorem silent_scanDigits (bound : Nat) (last : UInt8) (value : Nat) :
    Silent (scanDigits bound last value) :=
  ⟨fun read => by cases read; rfl, fun read => by cases read⟩

theorem makes_parseUnsigned : Makes (parseUnsigned double start minus) OfDocument Begun := by
  refine silent_peek.bind (fun byte => ?_) begun_nil
  by_cases zero : byte = 48
  · rw [if_pos zero]
    exact silent_take.bind (fun _ => makes_finishNumber) begun_nil
  · rw [if_neg zero]
    by_cases digit : isDigit byte = true
    · rw [if_pos digit]
      refine silent_take.bind (fun _ => ?_) begun_nil
      have short : Silent (scanDigits32 minus (byte.toNat - 48)) := by
        cases minus with
        | true => exact silent_scanDigits _ _ _
        | false => exact silent_scanDigits _ _ _
      refine short.bind (fun scanned => ?_) begun_nil
      rcases scanned with ⟨value, use64bit⟩
      cases use64bit with
      | false => exact makes_finishNumber
      | true =>
          have long : Silent (scanDigits64 minus value) := by
            cases minus with
            | true => exact silent_scanDigits _ _ _
            | false => exact silent_scanDigits _ _ _
          refine long.bind (fun scanned => ?_) begun_nil
          rcases scanned with ⟨value, useDouble⟩
          cases useDouble with
          | true => exact makes_parseDouble
          | false => exact makes_finishNumber
    · rw [if_neg digit]
      exact makes_error _ begun_nil

theorem makes_parseNumber : Makes (parseNumber double) OfDocument Begun := by
  refine silent_remaining.bind (fun start => ?_) begun_nil
  exact (silent_consume 45).bind (fun minus => makes_parseUnsigned) begun_nil

/-! ## Values -/

/-- The calls for the elements of an array and its end. -/
def OfElements (calls : List JsonEvent) : Prop :=
  ∃ elements : JsonElements, calls = elements.events ++ [.endArray]

def BegunElements (calls : List JsonEvent) : Prop :=
  ∃ elements : JsonElements, calls <+: elements.events

/-- The calls for the members of an object and its end. -/
def OfMembers (calls : List JsonEvent) : Prop :=
  ∃ members : JsonMembers, calls = members.events ++ [.endObject]

def BegunMembers (calls : List JsonEvent) : Prop :=
  ∃ members : JsonMembers, calls <+: members.events

theorem begunElements_nil : BegunElements [] := ⟨.nil, List.nil_prefix⟩

theorem begunMembers_nil : BegunMembers [] := ⟨.nil, List.nil_prefix⟩

theorem silent_skipWhitespace : Silent skipWhitespace := silent_skipWhile _

theorem makes_parseScope {opened closed : JsonEvent} {close : UInt8} {inside : JsonReader Unit}
    {ended cut : List JsonEvent → Prop} (makes : Makes inside ended cut) (closes : ended [closed])
    (empty : cut []) (unopened : part []) (joined : ∀ more, ended more → whole (opened :: more))
    (unended : ∀ more, cut more → part (opened :: more)) :
    Makes (parseScope opened closed close inside) whole part := by
  refine silent_take.bind (fun _ => ?_) unopened
  refine Makes.call ?_ joined unended
  refine silent_skipWhitespace.bind (fun _ => ?_) empty
  refine (silent_consume close).bind (fun found => ?_) empty
  cases found with
  | false => exact makes
  | true =>
      refine (makes_call closed).weaken ?_ fun _ => id
      rintro _ rfl
      exact closes

theorem makes_parseArray {elements : JsonReader Unit}
    (makes : Makes elements OfElements BegunElements) :
    Makes (parseArray elements) OfDocument Begun := by
  refine makes_parseScope makes ⟨.nil, rfl⟩ begunElements_nil begun_nil ?_ ?_
  · rintro _ ⟨elements, rfl⟩
    exact ⟨.array elements, rfl⟩
  · rintro _ ⟨elements, begun⟩
    refine ⟨.array elements, List.prefix_cons_inj _ |>.mpr ?_⟩
    exact begun.trans (List.prefix_append _ _)

theorem makes_parseObject {members : JsonReader Unit}
    (makes : Makes members OfMembers BegunMembers) :
    Makes (parseObject members) OfDocument Begun := by
  refine makes_parseScope makes ⟨.nil, rfl⟩ begunMembers_nil begun_nil ?_ ?_
  · rintro _ ⟨members, rfl⟩
    exact ⟨.object members, rfl⟩
  · rintro _ ⟨members, begun⟩
    refine ⟨.object members, List.prefix_cons_inj _ |>.mpr ?_⟩
    exact begun.trans (List.prefix_append _ _)

/-- Behind an element come the other elements, or the end. -/
theorem makes_parseElementEnd {elements : JsonReader Unit}
    (makes : Makes elements OfElements BegunElements) :
    Makes (parseElementEnd elements) OfElements BegunElements := by
  refine silent_skipWhitespace.bind (fun _ => ?_) begunElements_nil
  refine (silent_consume _).bind (fun more => ?_) begunElements_nil
  cases more with
  | true => exact silent_skipWhitespace.bind (fun _ => makes) begunElements_nil
  | false =>
      refine (silent_consume _).bind (fun found => ?_) begunElements_nil
      cases found with
      | true => exact (makes_call _).weaken (fun _ made => ⟨.nil, made⟩) fun _ => id
      | false => exact makes_error _ begunElements_nil

theorem makes_parseMemberEnd {members : JsonReader Unit}
    (makes : Makes members OfMembers BegunMembers) :
    Makes (parseMemberEnd members) OfMembers BegunMembers := by
  refine silent_skipWhitespace.bind (fun _ => ?_) begunMembers_nil
  refine silent_peek.bind (fun byte => ?_) begunMembers_nil
  split_ifs
  · refine silent_take.bind (fun _ => ?_) begunMembers_nil
    exact silent_skipWhitespace.bind (fun _ => makes) begunMembers_nil
  · refine silent_take.bind (fun _ => ?_) begunMembers_nil
    exact (makes_call _).weaken (fun _ made => ⟨.nil, made⟩) fun _ => id
  · exact makes_error _ begunMembers_nil

/-- A value before the other elements. -/
theorem makes_element {value : JsonReader Unit} {next : Unit → JsonReader Unit}
    (first : Makes value OfDocument Begun)
    (rest : ∀ done, Makes (next done) OfElements BegunElements) :
    Makes (value >>= next) OfElements BegunElements := by
  refine first.bind rest ?_ ?_ ?_
  · rintro _ _ ⟨document, rfl⟩ ⟨elements, rfl⟩
    exact ⟨.cons document elements, (List.append_assoc _ _ _).symm⟩
  · rintro _ ⟨document, begun⟩
    exact ⟨.cons document .nil, begun.trans (List.prefix_append _ _)⟩
  · rintro _ _ ⟨document, rfl⟩ ⟨elements, begun⟩
    exact ⟨.cons document elements, (List.prefix_append_right_inj _).mpr begun⟩

/-- The calls for the value of a member, the other members and the end. -/
def OfMember (calls : List JsonEvent) : Prop :=
  ∃ (document : Json) (members : JsonMembers),
    calls = document.events ++ (members.events ++ [.endObject])

def BegunMember (calls : List JsonEvent) : Prop :=
  ∃ (document : Json) (members : JsonMembers), calls <+: document.events ++ members.events

theorem begunMember_nil : BegunMember [] := ⟨.scalar .null, .nil, List.nil_prefix⟩

theorem makes_memberValue {value : JsonReader Unit} {next : Unit → JsonReader Unit}
    (first : Makes value OfDocument Begun)
    (rest : ∀ done, Makes (next done) OfMembers BegunMembers) :
    Makes (value >>= next) OfMember BegunMember := by
  refine first.bind rest ?_ ?_ ?_
  · rintro _ _ ⟨document, rfl⟩ ⟨members, rfl⟩
    exact ⟨document, members, rfl⟩
  · rintro _ ⟨document, begun⟩
    exact ⟨document, .nil, begun.trans (List.prefix_append _ _)⟩
  · rintro _ _ ⟨document, rfl⟩ ⟨members, begun⟩
    exact ⟨document, members, (List.prefix_append_right_inj _).mpr begun⟩

/-- A name before its value. -/
theorem makes_member {next : Unit → JsonReader Unit}
    (rest : ∀ done, Makes (next done) OfMember BegunMember) :
    Makes (parseString true >>= next) OfMembers BegunMembers := by
  have name : Makes (parseString true)
      (fun calls => ∃ string, calls = [if true then .key string else .string string])
      (· = []) := makes_parseString rfl
  refine name.bind rest ?_ ?_ ?_
  · rintro _ _ ⟨string, rfl⟩ ⟨document, members, rfl⟩
    exact ⟨.cons string document members,
      (List.append_assoc (.key string :: document.events) members.events _).symm⟩
  · rintro _ rfl
    exact begunMembers_nil
  · rintro _ _ ⟨string, rfl⟩ ⟨document, members, begun⟩
    exact ⟨.cons string document members, (List.prefix_cons_inj _).mpr begun⟩

mutual

theorem makes_parseValue : ∀ bound : Nat, Makes (parseValue double bound) OfDocument Begun
  | 0 => makes_fail _ begun_nil
  | bound + 1 => by
      rw [parseValue]
      refine silent_peek.bind (fun byte => ?_) begun_nil
      split_ifs
      · exact makes_document (.scalar .null) rfl (makes_parseLiteral rfl)
      · exact makes_document (.scalar (.bool true)) rfl (makes_parseLiteral rfl)
      · exact makes_document (.scalar (.bool false)) rfl (makes_parseLiteral rfl)
      · refine (makes_parseString begun_nil).weaken ?_ fun _ => id
        rintro _ ⟨string, rfl⟩
        exact ⟨.string string, rfl⟩
      · exact makes_parseObject (makes_parseMembers bound)
      · exact makes_parseArray (makes_parseElements bound)
      · exact makes_parseNumber

theorem makes_parseMembers : ∀ bound : Nat,
    Makes (parseMembers double bound) OfMembers BegunMembers
  | 0 => makes_fail _ begunMembers_nil
  | bound + 1 => by
      rw [parseMembers]
      refine silent_peek.bind (fun byte => ?_) begunMembers_nil
      split_ifs
      · refine makes_member fun _ => silent_skipWhitespace.bind (fun _ => ?_) begunMember_nil
        refine (silent_consume colon).bind (fun found => ?_) begunMember_nil
        cases found with
        | false => exact makes_error _ begunMember_nil
        | true =>
            refine silent_skipWhitespace.bind (fun _ => ?_) begunMember_nil
            refine makes_memberValue (makes_parseValue bound) fun _ => ?_
            exact makes_parseMemberEnd (makes_parseMembers bound)
      · exact makes_error _ begunMembers_nil

theorem makes_parseElements : ∀ bound : Nat,
    Makes (parseElements double bound) OfElements BegunElements
  | 0 => makes_fail _ begunElements_nil
  | bound + 1 => by
      rw [parseElements]
      refine makes_element (makes_parseValue bound) fun _ => ?_
      exact makes_parseElementEnd (makes_parseElements bound)

end

theorem makes_parse : Makes (parse double) OfDocument Begun := by
  refine silent_skipWhitespace.bind (fun _ => ?_) begun_nil
  refine silent_peek.bind (fun byte => ?_) begun_nil
  by_cases empty : byte = 0
  · rw [if_pos empty]
    exact makes_error _ begun_nil
  · rw [if_neg empty]
    have value : Makes (Scanner.bounded fun bound => parseValue double (2 * bound)) OfDocument
        Begun := makes_bounded fun bound => makes_parseValue (2 * bound)
    have ending : Silent (do
        skipWhitespace
        if (← peek) = 0 then return () else error .documentRootNotSingular : JsonReader Unit) := by
      refine silent_skipWhitespace.bind (fun _ => silent_peek.bind (fun byte => ?_) rfl) rfl
      by_cases ended : byte = 0
      · rw [if_pos ended]
        exact silent_pure
      · rw [if_neg ended]
        exact makes_error _ rfl
    refine value.bind (fun _ => ending) ?_ (fun _ => id) ?_
    · rintro calls _ made rfl
      rw [List.append_nil]
      exact made
    · rintro calls _ made rfl
      rw [List.append_nil]
      exact made.begun

/-- A text that is read without an error gives the calls for a JSON document.  A text with an
error gives the first calls for some document. -/
theorem accepted_texts (double : Bytes → Except ParseErrorCode Nat) (text : Bytes) :
    match (readText double text).2 with
    | .ok () => ∃ document : Json, (readText double text).1 = document.events
    | .error stop => stop ≠ .unbounded ∧
        ∃ document : Json, (readText double text).1 <+: document.events := by
  have ends := readText_ends double text
  rcases result : parse double text with ⟨calls, outcome⟩
  rw [readText, result] at ends ⊢
  cases outcome with
  | error stop =>
      refine ⟨?_, makes_parse.part result⟩
      rintro rfl
      exact ends rfl
  | ok outcome => exact makes_parse.whole result

end JsonReader

end MultiMaster.Packet
