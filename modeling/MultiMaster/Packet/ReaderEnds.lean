import MultiMaster.Packet.JsonReader

/-!
# Every text is read to an end

The definitions of the reader are bounded by the length of the text.  The bound is never
reached: every value, member and element takes bytes of the text.
-/

namespace MultiMaster.Packet

open Foundation Scanner

namespace JsonReader

/-- The bound is not reached, and fewer bytes are left than a limit. -/
abbrev Ends {Value : Type} (reader : JsonReader Value) (text : Bytes) (limit : Nat) : Prop :=
  Leaves ReadStop.unbounded reader text limit

variable {text start : Bytes} {limit bound : Nat}

/-! ## Letters and strings -/

theorem ends_error {Value : Type} (code : ParseErrorCode) :
    Ends (error code : JsonReader Value) text limit :=
  leaves_fail (show ReadStop.error code ≠ .unbounded from nofun) limit

theorem ends_take {Value : Type} {byte : UInt8} {next : Unit → JsonReader Value}
    (shown : text.headD 0 = byte) (visible : byte ≠ 0)
    (late : ∀ rest, rest.length + 1 = text.length → Ends (next ()) rest limit) :
    Ends (take >>= next) text limit := by
  rw [← shown] at visible
  exact Leaves.take visible late

theorem ends_consume {expect : UInt8} (visible : expect ≠ 0) (fits : text.length < limit) :
    Ends (consume expect) text limit := by
  apply Leaves.peek
  by_cases found : text.headD 0 = expect
  · rw [if_pos found]
    refine ends_take found visible fun rest less => ?_
    exact leaves_pure (by omega)
  · rw [if_neg found]
    exact leaves_pure fits

theorem ends_consumeAll : ∀ {expected text : Bytes}, 0 ∉ expected → text.length < limit →
    Ends (consumeAll expected) text limit
  | [], _, _, fits => leaves_pure fits
  | expect :: expected, text, visible, fits => by
      rw [List.mem_cons, not_or] at visible
      refine Leaves.bind (ends_consume (Ne.symm visible.1) fits) fun found rest less => ?_
      cases found with
      | true => exact ends_consumeAll visible.2 less
      | false => exact leaves_pure less

theorem ends_parseLiteral {letters : String} {event : JsonEvent}
    (visible : text.headD 0 ≠ 0) (plain : 0 ∉ literal letters)
    (fits : text.length ≤ limit) : Ends (parseLiteral letters event) text limit := by
  refine Leaves.take visible fun rest less => ?_
  have room : rest.length < limit := by omega
  refine Leaves.bind (ends_consumeAll plain room) fun found left fewer => ?_
  cases found with
  | true => exact leaves_call event fewer
  | false => exact ends_error _

theorem ends_parseHex : ∀ (digits codepoint : Nat) {text : Bytes}, text.length < limit →
    Ends (parseHex digits codepoint) text limit
  | 0, _, _, fits => leaves_pure fits
  | digits + 1, codepoint, text, fits => by
      rw [parseHex]
      apply Leaves.peek
      cases digit : hexDigit? (text.headD 0) with
      | none => exact ends_error _
      | some value =>
          have visible : text.headD 0 ≠ 0 := by
            intro zero
            rw [zero] at digit
            cases digit
          refine Leaves.take visible fun rest less => ?_
          exact ends_parseHex digits _ (by omega)

theorem ends_parseUnicode (fits : text.length < limit) : Ends parseUnicode text limit := by
  refine Leaves.bind (ends_parseHex 4 0 fits) fun codepoint rest less => ?_
  by_cases surrogate : 0xD800 ≤ codepoint ∧ codepoint ≤ 0xDBFF
  · rw [if_pos surrogate]
    refine Leaves.bind (ends_consumeAll (by decide) less) fun found left fewer => ?_
    cases found with
    | false => exact ends_error _
    | true =>
        refine Leaves.bind (ends_parseHex 4 0 fewer) ?_
        intro second last fits
        by_cases low : second < 0xDC00 ∨ 0xDFFF < second
        · rw [if_pos low]
          exact ends_error _
        · rw [if_neg low]
          exact leaves_pure fits
  · rw [if_neg surrogate]
    exact leaves_pure less

theorem ends_parseStringToStream : ∀ {bound : Nat} {text : Bytes} (os : Bytes),
    text.length < bound → text.length ≤ limit → Ends (parseStringToStream bound os) text limit
  | 0, _, _, room, _ => absurd room (Nat.not_lt_zero _)
  | bound + 1, text, os, room, fits => by
      rw [parseStringToStream]
      apply Leaves.peek
      by_cases escaping : text.headD 0 = backslash
      · rw [if_pos escaping]
        refine ends_take escaping (by decide) fun rest less => ?_
        apply Leaves.peek
        cases escaped : escape (rest.headD 0) with
        | some meant =>
            have visible : rest.headD 0 ≠ 0 := by
              intro zero
              rw [zero] at escaped
              cases escaped
            refine Leaves.take visible fun left fewer => ?_
            exact ends_parseStringToStream _ (by omega) (by omega)
        | none =>
            by_cases unicode : rest.headD 0 = 117
            · dsimp only
              rw [if_pos unicode]
              refine ends_take unicode (by decide) fun left fewer => ?_
              refine Leaves.bind (ends_parseUnicode (Nat.lt_succ_self _)) ?_
              intro encoded last fewest
              exact ends_parseStringToStream _ (by omega) (by omega)
            · dsimp only
              rw [if_neg unicode]
              exact ends_error _
      · rw [if_neg escaping]
        by_cases quoted : text.headD 0 = quotationMark
        · rw [if_pos quoted]
          refine ends_take quoted (by decide) fun rest less => ?_
          exact leaves_pure (by omega)
        · rw [if_neg quoted]
          by_cases control : text.headD 0 < 32
          · rw [if_pos control]
            by_cases zero : text.headD 0 = 0
            · rw [if_pos zero]
              exact ends_error _
            · rw [if_neg zero]
              exact ends_error _
          · rw [if_neg control]
            have visible : text.headD 0 ≠ 0 := by
              intro zero
              rw [zero] at control
              exact control (by decide)
            refine Leaves.take visible fun rest less => ?_
            exact ends_parseStringToStream _ (by omega) (by omega)

theorem ends_parseString {isKey : Bool} (visible : text.headD 0 ≠ 0)
    (fits : text.length ≤ limit) : Ends (parseString isKey) text limit := by
  refine Leaves.take visible fun rest less => ?_
  have string : Ends (Scanner.bounded fun bound => parseStringToStream bound []) rest limit :=
    leaves_bounded (ends_parseStringToStream [] (Nat.lt_succ_self _) (by omega))
  exact string.bind fun string left fewer => leaves_call _ fewer

/-! ## Numbers -/

theorem length_digitLoop (bound : Nat) (last : UInt8) (value : Nat) (text : Bytes) :
    (digitLoop bound last value text).2.2.length ≤ text.length := by
  induction text generalizing value with
  | nil => exact Nat.le_refl _
  | cons byte text ih =>
      rw [digitLoop]
      split_ifs
      · exact Nat.le_refl _
      · exact Nat.le_succ_of_le (ih _)
      · exact Nat.le_refl _

theorem ends_scanDigits (bound : Nat) (last : UInt8) (value : Nat) (fits : text.length < limit) :
    Ends (scanDigits bound last value) text limit := by
  refine ⟨nofun, ?_⟩
  intro scanned rest read
  cases read
  exact Nat.lt_of_le_of_lt (length_digitLoop bound last value text) fits

variable {double : Bytes → Except ParseErrorCode Nat}

theorem ends_parseDouble (started : start.tail.length < limit) :
    Ends (parseDouble double start) text limit := by
  cases read : double start with
  | ok length =>
      refine ⟨?_, ?_⟩
      · rw [parseDouble, read]
        nofun
      · rw [parseDouble, read]
        rintro value rest ⟨⟩
        exact Nat.lt_of_le_of_lt (List.drop_sublist _ _).length_le started
  | error code =>
      refine ⟨?_, ?_⟩
      · rw [parseDouble, read]
        nofun
      · rw [parseDouble, read]
        rintro value rest ⟨⟩

theorem ends_finishNumber {minus use64bit : Bool} {value : Nat}
    (started : start.tail.length < limit) (fits : text.length < limit) :
    Ends (finishNumber double start minus use64bit value) text limit := by
  apply Leaves.peek
  by_cases fraction : text.headD 0 = 46 ∨ text.headD 0 = 101 ∨ text.headD 0 = 69
  · rw [if_pos fraction]
    exact ends_parseDouble started
  · rw [if_neg fraction]
    cases use64bit with
    | true => exact leaves_call _ fits
    | false => exact leaves_call _ fits

theorem ends_parseUnsigned {minus : Bool} (begun : 0 < text.length → start.tail.length < limit)
    (fits : text.length ≤ limit) : Ends (parseUnsigned double start minus) text limit := by
  apply Leaves.peek
  by_cases zero : text.headD 0 = 48
  · rw [if_pos zero]
    refine ends_take zero (by decide) fun rest less => ?_
    exact ends_finishNumber (begun (by omega)) (by omega)
  · rw [if_neg zero]
    by_cases digit : isDigit (text.headD 0) = true
    · rw [if_pos digit]
      have visible : text.headD 0 ≠ 0 := by
        intro ended
        rw [ended] at digit
        cases digit
      refine Leaves.take visible fun rest less => ?_
      have started := begun (by omega)
      have short : Ends (scanDigits32 minus ((text.headD 0).toNat - 48)) rest limit := by
        cases minus with
        | true => exact ends_scanDigits _ _ _ (by omega)
        | false => exact ends_scanDigits _ _ _ (by omega)
      refine short.bind fun scanned left fewer => ?_
      rcases scanned with ⟨value, use64bit⟩
      cases use64bit with
      | false => exact ends_finishNumber started fewer
      | true =>
          have long : Ends (scanDigits64 minus value) left limit := by
            cases minus with
            | true => exact ends_scanDigits _ _ _ fewer
            | false => exact ends_scanDigits _ _ _ fewer
          refine long.bind fun scanned last fewest => ?_
          rcases scanned with ⟨value, useDouble⟩
          cases useDouble with
          | true => exact ends_parseDouble started
          | false => exact ends_finishNumber started fewest
    · rw [if_neg digit]
      exact ends_error _

theorem ends_parseNumber (fits : text.length ≤ limit) :
    Ends (parseNumber double) text limit := by
  apply Leaves.remaining
  refine Leaves.bind (ends_consume (by decide) (Nat.lt_succ_self _)) fun minus rest less => ?_
  refine ends_parseUnsigned ?_ (by omega)
  intro nonempty
  rw [List.length_tail]
  omega

/-! ## Values -/

theorem ends_skipWhitespace (fits : text.length < limit) : Ends skipWhitespace text limit :=
  leaves_skipWhile _ fits

/-- A scope is read to an end when what is inside is. -/
theorem ends_parseScope {opened closed : JsonEvent} {close : UInt8} {inside : JsonReader Unit}
    (shown : text.headD 0 ≠ 0) (visible : close ≠ 0) (fits : text.length ≤ limit)
    (ends : ∀ rest, rest.length < text.length → Ends inside rest limit) :
    Ends (parseScope opened closed close inside) text limit := by
  refine Leaves.take shown fun rest less => ?_
  refine Leaves.bind (leaves_call _ (Nat.lt_succ_self _)) fun _ left fewer => ?_
  refine Leaves.bind (ends_skipWhitespace fewer) fun _ behind fewest => ?_
  refine Leaves.bind (ends_consume visible fewest) fun found last least => ?_
  cases found with
  | true => exact leaves_call _ (by omega)
  | false => exact ends last (by omega)

theorem ends_parseMemberEnd {members : JsonReader Unit} (fits : text.length < limit)
    (inside : ∀ rest, rest.length < text.length → Ends members rest limit) :
    Ends (parseMemberEnd members) text limit := by
  refine Leaves.bind (ends_skipWhitespace (Nat.lt_succ_self _)) fun _ rest less => ?_
  apply Leaves.peek
  by_cases next : rest.headD 0 = comma
  · rw [if_pos next]
    refine ends_take next (by decide) fun left fewer => ?_
    refine Leaves.bind (ends_skipWhitespace (Nat.lt_succ_self _)) fun _ last fewest => ?_
    exact inside last (by omega)
  · rw [if_neg next]
    by_cases closed : rest.headD 0 = rightCurlyBracket
    · rw [if_pos closed]
      refine ends_take closed (by decide) fun left fewer => ?_
      exact leaves_call _ (by omega)
    · rw [if_neg closed]
      exact ends_error _

theorem ends_parseElementEnd {elements : JsonReader Unit} (fits : text.length < limit)
    (inside : ∀ rest, rest.length ≤ text.length → Ends elements rest limit) :
    Ends (parseElementEnd elements) text limit := by
  refine Leaves.bind (ends_skipWhitespace (Nat.lt_succ_self _)) fun _ rest less => ?_
  refine Leaves.bind (ends_consume (by decide) less) fun more left fewer => ?_
  cases more with
  | true =>
      refine Leaves.bind (ends_skipWhitespace fewer) fun _ last fewest => ?_
      exact inside last (by omega)
  | false =>
      refine Leaves.bind (ends_consume (by decide) fewer) fun closed last fewest => ?_
      cases closed with
      | true => exact leaves_call _ (by omega)
      | false => exact ends_error _

mutual

theorem ends_parseValue : ∀ {bound limit : Nat} {text : Bytes}, 2 * text.length < bound →
    text.length ≤ limit → Ends (parseValue double bound) text limit
  | 0, _, _, room, _ => absurd room (Nat.not_lt_zero _)
  | bound + 1, limit, text, room, fits => by
      rw [parseValue]
      apply Leaves.peek
      have visible {byte : UInt8} (shown : text.headD 0 = byte) (nonzero : byte ≠ 0) :
          text.headD 0 ≠ 0 := by
        rw [shown]
        exact nonzero
      split_ifs with null true_ false_ string object array
      · exact ends_parseLiteral (visible null (by decide)) (by decide) fits
      · exact ends_parseLiteral (visible true_ (by decide)) (by decide) fits
      · exact ends_parseLiteral (visible false_ (by decide)) (by decide) fits
      · exact ends_parseString (visible string (by decide)) fits
      · refine ends_parseScope (visible object (by decide)) (by decide) fits fun rest less => ?_
        exact ends_parseMembers (by omega) (by omega)
      · refine ends_parseScope (visible array (by decide)) (by decide) fits fun rest less => ?_
        exact ends_parseElements (by omega) (by omega)
      · exact ends_parseNumber fits

theorem ends_parseMembers : ∀ {bound limit : Nat} {text : Bytes}, 2 * text.length + 1 < bound →
    text.length < limit → Ends (parseMembers double bound) text limit
  | 0, _, _, room, _ => absurd room (Nat.not_lt_zero _)
  | bound + 1, limit, text, room, fits => by
      rw [parseMembers]
      apply Leaves.peek
      by_cases named : text.headD 0 = quotationMark
      · rw [if_pos named]
        have visible : text.headD 0 ≠ 0 := by
          rw [named]
          decide
        have name : Ends (parseString true) text text.length :=
          ends_parseString visible (Nat.le_refl _)
        refine name.bind fun _ rest less => ?_
        refine Leaves.bind (ends_skipWhitespace less) fun _ left fewer => ?_
        refine Leaves.bind (ends_consume (by decide) fewer) fun found behind fewest => ?_
        cases found with
        | false => exact ends_error _
        | true =>
            refine Leaves.bind (ends_skipWhitespace fewest) fun _ value least => ?_
            have read : Ends (parseValue double bound) value value.length :=
              ends_parseValue (by omega) (Nat.le_refl _)
            refine read.bind fun _ last final => ?_
            refine ends_parseMemberEnd (by omega) fun more shorter => ?_
            exact ends_parseMembers (by omega) (by omega)
      · rw [if_neg named]
        exact ends_error _

theorem ends_parseElements : ∀ {bound limit : Nat} {text : Bytes}, 2 * text.length + 1 < bound →
    text.length < limit → Ends (parseElements double bound) text limit
  | 0, _, _, room, _ => absurd room (Nat.not_lt_zero _)
  | bound + 1, limit, text, room, fits => by
      rw [parseElements]
      have value : Ends (parseValue double bound) text text.length :=
        ends_parseValue (by omega) (Nat.le_refl _)
      refine value.bind fun _ rest less => ?_
      refine ends_parseElementEnd (by omega) fun more shorter => ?_
      exact ends_parseElements (by omega) (by omega)

end

/-- Every text is read to an end: as a document, or with an error. -/
theorem readText_ends (double : Bytes → Except ParseErrorCode Nat) (text : Bytes) :
    (readText double text).2 ≠ .error .unbounded := by
  have ends : Ends (parse double) text (text.length + 1) := by
    refine Leaves.bind (ends_skipWhitespace (Nat.lt_succ_self _)) fun _ rest less => ?_
    apply Leaves.peek
    by_cases empty : rest.headD 0 = 0
    · rw [if_pos empty]
      exact ends_error _
    · rw [if_neg empty]
      have value : Ends (Scanner.bounded fun bound => parseValue double (2 * bound)) rest
          rest.length := leaves_bounded (ends_parseValue (by omega) (Nat.le_refl _))
      refine value.bind fun _ left fewer => ?_
      refine Leaves.bind (ends_skipWhitespace fewer) fun _ last fewest => ?_
      apply Leaves.peek
      by_cases whole : last.headD 0 = 0
      · rw [if_pos whole]
        exact leaves_pure (by omega)
      · rw [if_neg whole]
        exact ends_error _
  intro stopped
  rw [readText] at stopped
  cases outcome : (parse double text).2 with
  | error stop =>
      rw [outcome] at stopped
      cases stopped
      exact ends.never outcome
  | ok result =>
      rw [outcome] at stopped
      cases stopped

end JsonReader

end MultiMaster.Packet
