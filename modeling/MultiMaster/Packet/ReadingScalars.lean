import MultiMaster.Packet.JsonReader
import MultiMaster.Packet.JsonWriter

/-!
# Reading strings and numbers

The reader reads back the strings and the `int` numbers that the writer writes, with a number
that is not negative reported as unsigned.
-/

namespace MultiMaster.Packet

open Foundation JsonWriter JsonReader

/-! ## Bytes and white space -/

variable {follow : Bytes → Prop} {text : Bytes} {calls : List JsonEvent}

theorem consume_expected {expect : UInt8} {next : Bool → JsonReader Unit} :
    (consume expect >>= next) (expect :: text) = next true text := by
  have taken : consume expect (expect :: text) = ([], .ok (true, text)) := by
    rw [consume, peek, Scanner.bind_of_ok rfl, List.headD_cons, if_pos rfl]
    rfl
  rw [Scanner.bind_of_ok taken]
  rfl

theorem consume_other {expect byte : UInt8} {next : Bool → JsonReader Unit}
    (different : byte ≠ expect) :
    (consume expect >>= next) (byte :: text) = next false (byte :: text) := by
  have left : consume expect (byte :: text) = ([], .ok (false, byte :: text)) := by
    rw [consume, peek, Scanner.bind_of_ok rfl, List.headD_cons, if_neg different]
    rfl
  rw [Scanner.bind_of_ok left]
  rfl

/-- There is no white space to skip. -/
theorem skipWhitespace_visible {byte : UInt8} {next : Unit → JsonReader Unit}
    (visible : isWhitespace byte = false) :
    (skipWhitespace >>= next) (byte :: text) = next () (byte :: text) := by
  have skipped : skipWhitespace (byte :: text) = ([], .ok ((), byte :: text)) := by
    change ([], Except.ok ((), (byte :: text).dropWhile isWhitespace)) = _
    rw [List.dropWhile_cons, visible, if_neg Bool.false_ne_true]
  rw [Scanner.bind_of_ok skipped]
  rfl

/-- The expected byte is taken. -/
theorem reads_consume {expect : UInt8} {next : Bool → JsonReader Unit}
    (late : (next true).Reads text calls () follow) :
    (consume expect >>= next).Reads (expect :: text) calls () follow :=
  fun rest follows => consume_expected.trans (late rest follows)

/-- Another byte is left. -/
theorem reads_consume_other {expect byte : UInt8} {next : Bool → JsonReader Unit}
    (different : byte ≠ expect) (late : (next false).Reads (byte :: text) calls () follow) :
    (consume expect >>= next).Reads (byte :: text) calls () follow :=
  fun rest follows => (consume_other different).trans (late rest follows)

theorem reads_skipWhitespace {byte : UInt8} {next : Unit → JsonReader Unit}
    (visible : isWhitespace byte = false)
    (late : (next ()).Reads (byte :: text) calls () follow) :
    (skipWhitespace >>= next).Reads (byte :: text) calls () follow :=
  fun rest follows => (skipWhitespace_visible visible).trans (late rest follows)

/-! ## Strings -/

theorem reads_parseHex {byte : UInt8} {digit digits codepoint value : Nat}
    (isHex : hexDigit? byte = some digit)
    (late : (parseHex digits (codepoint * 16 + digit)).Reads text [] value follow) :
    (parseHex (digits + 1) codepoint).Reads (byte :: text) [] value follow := by
  rw [parseHex]
  apply Scanner.Reads.peek
  rw [isHex]
  exact Scanner.Reads.take late

theorem hexDigit?_hexDigits : ∀ digit < 16, hexDigit? (hexDigits.getD digit 48) = some digit := by
  decide

/-- The digits of an escaped control byte. -/
theorem reads_parseUnicode {byte : UInt8} (control : byte < 32) :
    parseUnicode.Reads [48, 48, hexDigits.getD (byte.toNat / 16) 48,
      hexDigits.getD (byte.toNat % 16) 48] [] [byte] follow := by
  have small : byte.toNat < 32 := control
  have first := hexDigit?_hexDigits (byte.toNat / 16) (by omega)
  have second := hexDigit?_hexDigits (byte.toNat % 16) (by omega)
  have codepoint : (((0 * 16 + (UInt8.toNat 48 - 48)) * 16 + (UInt8.toNat 48 - 48)) * 16 +
      byte.toNat / 16) * 16 + byte.toNat % 16 = byte.toNat := by
    have zero : UInt8.toNat 48 - 48 = 0 := rfl
    omega
  have digits : parseHex4.Reads [48, 48, hexDigits.getD (byte.toNat / 16) 48,
      hexDigits.getD (byte.toNat % 16) 48] [] byte.toNat fun _ => True := by
    refine reads_parseHex rfl (reads_parseHex rfl (reads_parseHex first
      (reads_parseHex second ?_)))
    rw [codepoint]
    exact Scanner.reads_pure
  refine digits.always ?_
  rw [if_neg (by omega), encode, if_pos (by omega), UInt8.ofNat_toNat]
  exact Scanner.reads_pure

/-- An escaped byte is read as the byte that it stands for. -/
theorem reads_escape {bound : Nat} {os string : Bytes} {letter byte : UInt8}
    (escaped : escape letter = some byte)
    (late : (parseStringToStream bound (os ++ [byte])).Reads text [] string follow) :
    (parseStringToStream (bound + 1) os).Reads (backslash :: letter :: text) [] string
      follow := by
  rw [parseStringToStream]
  apply Scanner.Reads.peek
  rw [if_pos rfl]
  apply Scanner.Reads.take
  apply Scanner.Reads.peek
  rw [escaped]
  exact Scanner.Reads.take late

theorem literal_unicode : literal "\\u00" = [backslash, 117, 48, 48] := by decide

theorem reads_control {bound : Nat} {os string : Bytes} {byte : UInt8} (control : byte < 32)
    (late : (parseStringToStream bound (os ++ [byte])).Reads text [] string follow) :
    (parseStringToStream (bound + 1) os).Reads
      (literal "\\u00" ++ [hexDigits.getD (byte.toNat / 16) 48,
        hexDigits.getD (byte.toNat % 16) 48] ++ text) [] string follow := by
  rw [literal_unicode, parseStringToStream]
  apply Scanner.Reads.peek
  rw [if_pos rfl]
  apply Scanner.Reads.take
  apply Scanner.Reads.peek
  have letter : escape 117 = none := by decide
  rw [letter]
  dsimp only
  rw [if_pos rfl]
  apply Scanner.Reads.take
  exact (reads_parseUnicode control).always late

theorem reads_plain {bound : Nat} {os string : Bytes} {byte : UInt8}
    (unquoted : byte ≠ quotationMark) (unescaped : byte ≠ backslash) (printed : ¬byte < 32)
    (late : (parseStringToStream bound (os ++ [byte])).Reads text [] string follow) :
    (parseStringToStream (bound + 1) os).Reads (byte :: text) [] string follow := by
  rw [parseStringToStream]
  apply Scanner.Reads.peek
  rw [if_neg unescaped, if_neg unquoted, if_neg printed]
  exact Scanner.Reads.take late

/-- What is written for a byte of a string is read as that byte. -/
theorem reads_writeByte {bound : Nat} {os string : Bytes} (byte : UInt8)
    (late : (parseStringToStream bound (os ++ [byte])).Reads text [] string follow) :
    (parseStringToStream (bound + 1) os).Reads (writeByte byte ++ text) [] string follow := by
  rw [writeByte]
  split_ifs with backspace tab newline formfeed carriage quoted escaped control
  · exact reads_escape (backspace ▸ rfl) late
  · exact reads_escape (tab ▸ rfl) late
  · exact reads_escape (newline ▸ rfl) late
  · exact reads_escape (formfeed ▸ rfl) late
  · exact reads_escape (carriage ▸ rfl) late
  · have letter : escape 34 = some 34 := by decide
    exact reads_escape (quoted ▸ letter) late
  · have letter : escape 92 = some 92 := by decide
    exact reads_escape (escaped ▸ letter) late
  · exact reads_control control late
  · exact reads_plain quoted escaped control late

/-- The bytes of a string up to the closing quotation mark. -/
theorem reads_stringBytes {bound : Nat} (os string : Bytes) (room : string.length < bound) :
    (parseStringToStream bound os).Reads (string.flatMap writeByte ++ [quotationMark]) []
      (os ++ string) follow := by
  induction string generalizing bound os with
  | nil =>
      cases bound with
      | zero => exact absurd room (Nat.not_lt_zero _)
      | succ bound =>
          rw [parseStringToStream, List.append_nil]
          apply Scanner.Reads.peek
          rw [if_neg (by decide), if_pos rfl]
          exact Scanner.Reads.take Scanner.reads_pure
  | cons byte string ih =>
      cases bound with
      | zero => exact absurd room (Nat.not_lt_zero _)
      | succ bound =>
          rw [List.flatMap_cons, List.append_assoc]
          apply reads_writeByte
          have rest := ih (os ++ [byte]) (Nat.lt_of_succ_lt_succ room)
          rw [List.append_assoc, List.singleton_append] at rest
          exact rest

theorem reads_parseString (isKey : Bool) (string : Bytes) :
    (parseString isKey).Reads (writeString string)
      [if isKey then .key string else .string string] () follow := by
  have bytes : (Scanner.bounded fun bound => parseStringToStream bound []).Reads
      (string.flatMap writeByte ++ [quotationMark]) ([] : List JsonEvent) string
        fun _ => True := by
    apply Scanner.reads_bounded
    intro bound room
    have long := length_flatMap_writeByte string
    rw [List.length_append] at room
    exact reads_stringBytes [] string (by omega)
  rw [writeString, List.append_assoc]
  apply Scanner.Reads.take
  exact (bytes.weaken fun _ _ => trivial).last (Scanner.reads_call _)

/-! ## Numbers -/

/-- The value of digits behind others. -/
def digitsValue (value : Nat) (digits : Bytes) : Nat :=
  digits.foldl (fun value digit => value * 10 + (digit.toNat - 48)) value

/-- The bytes that are written for a natural number. -/
def decimal (value : Nat) : Bytes :=
  (Nat.toDigits 10 value).map fun digit => UInt8.ofNat digit.toNat

theorem decimal_digit : ∀ digit < 10,
    isDigit (UInt8.ofNat (Nat.digitChar digit).toNat) = true ∧
      (UInt8.ofNat (Nat.digitChar digit).toNat).toNat = digit + 48 := by
  decide

theorem decimal_below {value : Nat} (below : value < 10) :
    decimal value = [UInt8.ofNat (Nat.digitChar value).toNat] := by
  rw [decimal, Nat.toDigits_of_lt_base below]
  rfl

/-- A positive number is written as a digit that is not zero and the others. -/
theorem decimal_spec (value : Nat) (positive : 0 < value) : ∃ first rest,
    decimal value = first :: rest ∧ isDigit first = true ∧ first ≠ 48 ∧
      (∀ digit ∈ rest, isDigit digit = true) ∧
      digitsValue (first.toNat - 48) rest = value := by
  induction value using Nat.strong_induction_on with
  | _ value ih =>
      by_cases below : value < 10
      · rcases decimal_digit value below with ⟨digit, code⟩
        refine ⟨_, [], decimal_below below, digit, ?_, nofun, ?_⟩
        · intro zero
          rw [zero] at code
          have same : 48 = value + 48 := code
          omega
        · rw [digitsValue, List.foldl_nil, code]
          omega
      · rcases ih (value / 10) (by omega) (by omega) with
          ⟨first, rest, written, digit, nonzero, digits, same⟩
        rcases decimal_digit (value % 10) (by omega) with ⟨lastDigit, code⟩
        refine ⟨first, rest ++ [UInt8.ofNat (Nat.digitChar (value % 10)).toNat], ?_, digit,
          nonzero, ?_, ?_⟩
        · rw [decimal, Nat.toDigits_of_base_le (by decide) (by omega), List.map_append]
          rw [decimal] at written
          rw [written]
          rfl
        · intro other member
          rcases List.mem_append.mp member with early | last
          · exact digits other early
          · exact List.mem_singleton.mp last ▸ lastDigit
        · rw [digitsValue] at same ⊢
          rw [List.foldl_append, same, List.foldl_cons, List.foldl_nil, code]
          omega

theorem digitsValue_le (value : Nat) (digits : Bytes) : value ≤ digitsValue value digits := by
  induction digits generalizing value with
  | nil => exact Nat.le_refl _
  | cons digit digits ih =>
      have longer := ih (value * 10 + (digit.toNat - 48))
      rw [digitsValue, List.foldl_cons]
      rw [digitsValue] at longer
      omega

/-- The loop reads all digits of a number that is small enough. -/
theorem digitLoop_digits {bound value : Nat} {last : UInt8} {digits rest : Bytes}
    (all : ∀ digit ∈ digits, isDigit digit = true) (isLast : isDigit last = true)
    (small : digitsValue value digits ≤ bound * 10 + (last.toNat - 48))
    (stops : ∀ byte ∈ rest.head?, isDigit byte = false) :
    digitLoop bound last value (digits ++ rest) = (digitsValue value digits, false, rest) := by
  induction digits generalizing value with
  | nil =>
      cases rest with
      | nil => rfl
      | cons byte rest =>
          rw [List.nil_append, digitLoop, stops byte rfl, if_neg Bool.false_ne_true]
          rfl
  | cons digit digits ih =>
      have here := all digit List.mem_cons_self
      have longer := digitsValue_le (value * 10 + (digit.toNat - 48)) digits
      have small' : digitsValue (value * 10 + (digit.toNat - 48)) digits ≤
          bound * 10 + (last.toNat - 48) := small
      rw [isDigit, decide_eq_true_iff, UInt8.le_iff_toNat_le, UInt8.le_iff_toNat_le] at here isLast
      have fits : ¬(bound ≤ value ∧ (value ≠ bound ∨ last < digit)) := by
        rw [UInt8.lt_iff_toNat_lt]
        have low : UInt8.toNat 48 = 48 := rfl
        have high : UInt8.toNat 57 = 57 := rfl
        omega
      rw [List.cons_append, digitLoop, if_pos (all digit List.mem_cons_self), if_neg fits]
      exact ih (fun other member => all other (List.mem_cons_of_mem _ member)) small'

/-- Behind a value comes a comma, a closing bracket or the end. -/
def Separated (rest : Bytes) : Prop :=
  ∀ byte ∈ rest.head?, byte = comma ∨ byte = rightBracket ∨ byte = rightCurlyBracket

variable (double : Bytes → Except ParseErrorCode Nat)

theorem reads_finishNumber (start : Bytes) (minus : Bool) (value : Nat) :
    (finishNumber double start minus false value).Reads []
      [if minus then .int (-value) else .uint (UInt32.ofNat value)] () Separated := by
  refine Scanner.Reads.peek_behind ?_ fun _ => id
  intro byte behind
  have other : ¬(byte = 46 ∨ byte = 101 ∨ byte = 69) := by
    rcases behind with rfl | rfl | rfl | rfl
    · decide
    · decide
    · decide
    · decide
  rw [if_neg other, if_neg Bool.false_ne_true]
  cases minus with
  | true => exact Scanner.reads_call _
  | false => exact Scanner.reads_call _

theorem separated_digit {rest : Bytes} (separated : Separated rest) :
    ∀ byte ∈ rest.head?, isDigit byte = false := by
  intro byte head
  rcases separated byte head with rfl | rfl | rfl
  · rfl
  · rfl
  · rfl

theorem reads_scanDigits {bound value : Nat} {last : UInt8} {digits : Bytes}
    (all : ∀ digit ∈ digits, isDigit digit = true) (isLast : isDigit last = true)
    (small : digitsValue value digits ≤ bound * 10 + (last.toNat - 48)) :
    (scanDigits bound last value).Reads digits [] (digitsValue value digits, false)
      Separated := by
  intro rest separated
  rw [scanDigits, digitLoop_digits all isLast small (separated_digit separated)]

theorem reads_scanDigits32 (minus : Bool) {value : Nat} {digits : Bytes}
    (all : ∀ digit ∈ digits, isDigit digit = true)
    (small : digitsValue value digits ≤ if minus then 2147483648 else 4294967295) :
    (scanDigits32 minus value).Reads digits [] (digitsValue value digits, false) Separated := by
  cases minus with
  | true => exact reads_scanDigits all rfl small
  | false => exact reads_scanDigits all rfl small

/-- A number of 32 bits behind its sign. -/
theorem reads_parseUnsigned (start : Bytes) (minus : Bool) {value : Nat}
    (small : value ≤ if minus then 2147483648 else 4294967295) :
    (parseUnsigned double start minus).Reads (decimal value)
      [if minus then .int (-value) else .uint (UInt32.ofNat value)] () Separated := by
  by_cases zero : value = 0
  · subst zero
    have written : decimal 0 = [48] := by decide
    rw [written]
    apply Scanner.Reads.peek
    rw [if_pos rfl]
    exact Scanner.Reads.take (reads_finishNumber double start minus 0)
  · rcases decimal_spec value (Nat.pos_of_ne_zero zero) with
      ⟨first, rest, written, digit, nonzero, digits, same⟩
    have scanned := reads_scanDigits32 minus digits (same ▸ small)
    rw [same] at scanned
    rw [written]
    apply Scanner.Reads.peek
    rw [if_neg nonzero, if_pos digit]
    apply Scanner.Reads.take
    refine scanned.last ?_
    exact reads_finishNumber double start minus value

theorem decimal_begins (value : Nat) : ∃ first rest,
    decimal value = first :: rest ∧ isDigit first = true := by
  by_cases zero : value = 0
  · subst zero
    exact ⟨48, [], rfl, rfl⟩
  · rcases decimal_spec value (Nat.pos_of_ne_zero zero) with ⟨first, rest, written, digit, _⟩
    exact ⟨first, rest, written, digit⟩

/-- A written number is read, and reported as unsigned when it is not negative. -/
theorem reads_parseNumber (value : Int32) :
    (parseNumber double).Reads (writeInt value.toInt)
      [JsonEvent.replay (.int value.toInt)] () Separated := by
  have low := value.le_toInt
  have high := value.toInt_lt
  apply Scanner.Reads.remaining
  intro start
  rw [writeInt, ← decimal, JsonEvent.replay]
  by_cases negative : value.toInt < 0
  · have same : -(value.toInt.natAbs : Int) = value.toInt := by omega
    have small : value.toInt.natAbs ≤ 2147483648 := by omega
    have reads := reads_parseUnsigned double start true small
    rw [if_pos rfl, same] at reads
    rw [if_pos negative, if_neg (by omega)]
    exact reads_consume reads
  · have same : value.toInt.natAbs = value.toInt.toNat := by omega
    have small : value.toInt.natAbs ≤ 4294967295 := by omega
    have reads := reads_parseUnsigned double start false small
    rw [if_neg Bool.false_ne_true, same] at reads
    rw [if_neg negative, if_pos (by omega), same, List.nil_append]
    rcases decimal_begins value.toInt.toNat with ⟨first, rest, written, digit⟩
    rw [written] at reads ⊢
    refine reads_consume_other ?_ reads
    rintro rfl
    cases digit

end MultiMaster.Packet
