import MultiMaster.Foundation.Scanners
import MultiMaster.Packet.JsonRpcPacket

/-!
# Reading JSON texts

The reader of `rapidjson/reader.h` with the default flags: it reads a text up to its
terminator and calls a handler for what it finds.  The definitions follow `GenericReader`;
the calls of the handler are listed, and a handler that returns false ends the reading with
its call.

A number that has a fraction or an exponent, or that is too large for 64 bits, is kept as a
double.  How far the reader gets with such a number depends on floating point arithmetic and is a
parameter.
-/

namespace MultiMaster.Packet

open Foundation

/-- `ParseErrorCode`, as far as the reader gives it. -/
inductive ParseErrorCode where
  | documentEmpty
  | documentRootNotSingular
  | valueInvalid
  | objectMissName
  | objectMissColon
  | objectMissCommaOrCurlyBracket
  | arrayMissCommaOrSquareBracket
  | stringUnicodeEscapeInvalidHex
  | stringUnicodeSurrogateInvalid
  | stringEscapeInvalid
  | stringMissQuotationMark
  | numberTooBig
  | numberMissFraction
  | numberMissExponent
  deriving DecidableEq

/-- Why a reading ended: an error of the text, or the bound of the definitions. -/
inductive ReadStop where
  | error (code : ParseErrorCode)
  | unbounded
  deriving DecidableEq

abbrev JsonReader := Scanner UInt8 JsonEvent ReadStop

namespace JsonReader

/-! ## The stream -/

def quotationMark : UInt8 := 34
def comma : UInt8 := 44
def colon : UInt8 := 58
def leftBracket : UInt8 := 91
def backslash : UInt8 := 92
def rightBracket : UInt8 := 93
def leftCurlyBracket : UInt8 := 123
def rightCurlyBracket : UInt8 := 125

/-- `Peek`: at the end of the text its terminator. -/
def peek : JsonReader UInt8 := Scanner.peek 0

def take : JsonReader Unit := Scanner.take

def error {Value : Type} (code : ParseErrorCode) : JsonReader Value := Scanner.fail (.error code)

def consume (expect : UInt8) : JsonReader Bool := do
  if (← peek) = expect then
    take
    return true
  else
    return false

/-- `Consume(is, …) && Consume(is, …) && …`. -/
def consumeAll : Bytes → JsonReader Bool
  | [] => return true
  | expect :: rest => do
      if ← consume expect then consumeAll rest else return false

def isWhitespace (byte : UInt8) : Bool := byte = 32 ∨ byte = 10 ∨ byte = 13 ∨ byte = 9

def skipWhitespace : JsonReader Unit := Scanner.skipWhile isWhitespace

/-! ## Literals -/

/-- `ParseNull`, `ParseTrue` and `ParseFalse`, from the second letter on. -/
def parseLiteral (letters : String) (event : JsonEvent) : JsonReader Unit := do
  take
  if ← consumeAll (literal letters) then Scanner.call event else error .valueInvalid

/-! ## Strings -/

def hexDigit? (byte : UInt8) : Option Nat :=
  if 48 ≤ byte ∧ byte ≤ 57 then some (byte.toNat - 48)
  else if 65 ≤ byte ∧ byte ≤ 70 then some (byte.toNat - 65 + 10)
  else if 97 ≤ byte ∧ byte ≤ 102 then some (byte.toNat - 97 + 10)
  else none

/-- The digits that are left to read. -/
def parseHex : Nat → Nat → JsonReader Nat
  | 0, codepoint => return codepoint
  | digits + 1, codepoint => do
      match hexDigit? (← peek) with
      | some digit => do
          take
          parseHex digits (codepoint * 16 + digit)
      | none => error .stringUnicodeEscapeInvalidHex

def parseHex4 : JsonReader Nat := parseHex 4 0

/-- `UTF8::Encode`. -/
def encode (codepoint : Nat) : Bytes :=
  if codepoint ≤ 0x7F then [UInt8.ofNat codepoint]
  else if codepoint ≤ 0x7FF then
    [UInt8.ofNat (0xC0 ||| codepoint >>> 6), UInt8.ofNat (0x80 ||| codepoint &&& 0x3F)]
  else if codepoint ≤ 0xFFFF then
    [UInt8.ofNat (0xE0 ||| codepoint >>> 12), UInt8.ofNat (0x80 ||| codepoint >>> 6 &&& 0x3F),
      UInt8.ofNat (0x80 ||| codepoint &&& 0x3F)]
  else
    [UInt8.ofNat (0xF0 ||| codepoint >>> 18), UInt8.ofNat (0x80 ||| codepoint >>> 12 &&& 0x3F),
      UInt8.ofNat (0x80 ||| codepoint >>> 6 &&& 0x3F), UInt8.ofNat (0x80 ||| codepoint &&& 0x3F)]

/-- What stands behind `\u`. -/
def parseUnicode : JsonReader Bytes := do
  let codepoint ← parseHex4
  if 0xD800 ≤ codepoint ∧ codepoint ≤ 0xDBFF then
    if ← consumeAll (literal "\\u") then
      let second ← parseHex4
      if second < 0xDC00 ∨ 0xDFFF < second then error .stringUnicodeSurrogateInvalid
      else return encode (((codepoint - 0xD800) <<< 10 ||| (second - 0xDC00)) + 0x10000)
    else error .stringUnicodeSurrogateInvalid
  else return encode codepoint

/-- The table `escape`. -/
def escape (byte : UInt8) : Option UInt8 :=
  if byte = quotationMark ∨ byte = backslash ∨ byte = 47 then some byte
  else if byte = 98 then some 8
  else if byte = 102 then some 12
  else if byte = 110 then some 10
  else if byte = 114 then some 13
  else if byte = 116 then some 9
  else none

/-- `ParseStringToStream` behind the opening quotation mark.  `os` is what has been put so
far. -/
def parseStringToStream : Nat → Bytes → JsonReader Bytes
  | 0, _ => Scanner.fail .unbounded
  | bound + 1, os => do
      let byte ← peek
      if byte = backslash then do
        take
        let escaped ← peek
        match escape escaped with
        | some meant => do
            take
            parseStringToStream bound (os ++ [meant])
        | none =>
            if escaped = 117 then do
              take
              let encoded ← parseUnicode
              parseStringToStream bound (os ++ encoded)
            else error .stringEscapeInvalid
      else if byte = quotationMark then do
        take
        return os
      else if byte < 32 then
        if byte = 0 then error .stringMissQuotationMark else error .stringEscapeInvalid
      else do
        take
        parseStringToStream bound (os ++ [byte])

def parseString (isKey : Bool) : JsonReader Unit := do
  take
  let string ← Scanner.bounded fun bound => parseStringToStream bound []
  Scanner.call (if isKey then .key string else .string string)

/-! ## Numbers -/

def isDigit (byte : UInt8) : Bool := 48 ≤ byte ∧ byte ≤ 57

/-- A loop over the digits of a number.  It stops where one more digit would exceed
`10 * bound` and a last digit. -/
def digitLoop (bound : Nat) (last : UInt8) : Nat → Bytes → Nat × Bool × Bytes
  | value, [] => (value, false, [])
  | value, byte :: rest =>
      if isDigit byte then
        if bound ≤ value ∧ (value ≠ bound ∨ last < byte) then (value, true, byte :: rest)
        else digitLoop bound last (value * 10 + (byte.toNat - 48)) rest
      else (value, false, byte :: rest)

def scanDigits (bound : Nat) (last : UInt8) (value : Nat) : JsonReader (Nat × Bool) := fun text =>
  let scanned := digitLoop bound last value text
  ([], .ok ((scanned.1, scanned.2.1), scanned.2.2))

variable (double : Bytes → Except ParseErrorCode Nat)

/-- Read a number from its start as a double.  The parameter gives the number of bytes behind
the first one. -/
def parseDouble (start : Bytes) : JsonReader Unit := fun _ =>
  match double start with
  | .ok length => ([.double], .ok ((), start.tail.drop length))
  | .error code => ([], .error (.error code))

/-- What follows the digits decides whether the number is an integer. -/
def finishNumber (start : Bytes) (minus use64bit : Bool) (value : Nat) : JsonReader Unit := do
  let byte ← peek
  if byte = 46 ∨ byte = 101 ∨ byte = 69 then parseDouble double start
  else if use64bit then Scanner.call (if minus then .int64 (-value) else .uint64 value)
  else Scanner.call (if minus then .int (-value) else .uint (UInt32.ofNat value))

/-- Digits as long as the number has 32 bits. -/
def scanDigits32 (minus : Bool) (value : Nat) : JsonReader (Nat × Bool) :=
  if minus then scanDigits 214748364 56 value else scanDigits 429496729 53 value

/-- More digits as long as the number has 64 bits. -/
def scanDigits64 (minus : Bool) (value : Nat) : JsonReader (Nat × Bool) :=
  if minus then scanDigits 0x0CCCCCCCCCCCCCCC 56 value
  else scanDigits 0x1999999999999999 53 value

/-- A number behind its sign. -/
def parseUnsigned (start : Bytes) (minus : Bool) : JsonReader Unit := do
  let byte ← peek
  if byte = 48 then do
    take
    finishNumber double start minus false 0
  else if isDigit byte then do
    take
    let (value, use64bit) ← scanDigits32 minus (byte.toNat - 48)
    if use64bit then do
      let (value, useDouble) ← scanDigits64 minus value
      if useDouble then parseDouble double start
      else finishNumber double start minus true value
    else finishNumber double start minus false value
  else error .valueInvalid

def parseNumber : JsonReader Unit := do
  let start ← Scanner.remaining
  let minus ← consume 45
  parseUnsigned double start minus

/-! ## Values -/

/-- An object or an array: its opening bracket, then its closing one or what is inside. -/
def parseScope (opened closed : JsonEvent) (close : UInt8) (inside : JsonReader Unit) :
    JsonReader Unit := do
  take
  Scanner.call opened
  skipWhitespace
  if ← consume close then Scanner.call closed else inside

/-- `ParseObject` with the loop over its members. -/
def parseObject (members : JsonReader Unit) : JsonReader Unit :=
  parseScope .startObject .endObject rightCurlyBracket members

/-- `ParseArray` with the loop over its elements. -/
def parseArray (elements : JsonReader Unit) : JsonReader Unit :=
  parseScope .startArray .endArray rightBracket elements

/-- Behind a member: a comma and more members, or the end of the object. -/
def parseMemberEnd (members : JsonReader Unit) : JsonReader Unit := do
  skipWhitespace
  let byte ← peek
  if byte = comma then do
    take
    skipWhitespace
    members
  else if byte = rightCurlyBracket then do
    take
    Scanner.call .endObject
  else error .objectMissCommaOrCurlyBracket

/-- Behind an element: a comma and more elements, or the end of the array. -/
def parseElementEnd (elements : JsonReader Unit) : JsonReader Unit := do
  skipWhitespace
  if ← consume comma then do
    skipWhitespace
    elements
  else if ← consume rightBracket then Scanner.call .endArray
  else error .arrayMissCommaOrSquareBracket

mutual

def parseValue : Nat → JsonReader Unit
  | 0 => Scanner.fail .unbounded
  | bound + 1 => do
      let byte ← peek
      if byte = 110 then parseLiteral "ull" .null
      else if byte = 116 then parseLiteral "rue" (.bool true)
      else if byte = 102 then parseLiteral "alse" (.bool false)
      else if byte = quotationMark then parseString false
      else if byte = leftCurlyBracket then parseObject (parseMembers bound)
      else if byte = leftBracket then parseArray (parseElements bound)
      else parseNumber double

/-- The loop of `ParseObject`. -/
def parseMembers : Nat → JsonReader Unit
  | 0 => Scanner.fail .unbounded
  | bound + 1 => do
      if (← peek) = quotationMark then do
        parseString true
        skipWhitespace
        if ← consume colon then do
          skipWhitespace
          parseValue bound
          parseMemberEnd (parseMembers bound)
        else error .objectMissColon
      else error .objectMissName

/-- The loop of `ParseArray`. -/
def parseElements : Nat → JsonReader Unit
  | 0 => Scanner.fail .unbounded
  | bound + 1 => do
      parseValue bound
      parseElementEnd (parseElements bound)

end

/-- `Parse`. -/
def parse : JsonReader Unit := do
  skipWhitespace
  if (← peek) = 0 then error .documentEmpty
  else do
    Scanner.bounded fun bound => parseValue double (2 * bound)
    skipWhitespace
    if (← peek) = 0 then return () else error .documentRootNotSingular

/-- The calls for a text, and how the reading ended. -/
def readText (text : Bytes) : List JsonEvent × Except ReadStop Unit :=
  ((parse double text).1, (parse double text).2.map Prod.fst)

end JsonReader

end MultiMaster.Packet
