import MultiMaster.NetIO.Libevent

/-!
# Socket addresses

Addresses and ports of sockets in network byte order, seen by a little-endian machine, and
the conversions between addresses and their dotted notation.
-/

namespace MultiMaster.NetIO

open Foundation

/-- The four bytes of an IPv4 address. -/
structure InAddr where
  first : UInt8
  second : UInt8
  third : UInt8
  fourth : UInt8
  deriving DecidableEq

/-- `sin_port` is the number that the machine reads from the two bytes of the port. -/
structure SockaddrIn where
  sinAddr : InAddr
  sinPort : UInt16
  deriving DecidableEq

/-! ## Byte order -/

def htons (value : UInt16) : UInt16 :=
  UInt16.ofNat (leValue (leBytes 2 value.toNat).reverse)

def ntohs (value : UInt16) : UInt16 :=
  UInt16.ofNat (leValue (leBytes 2 value.toNat).reverse)

def ntohl (value : UInt32) : UInt32 :=
  UInt32.ofNat (leValue (leBytes 4 value.toNat).reverse)

theorem toNat_ntohs (value : UInt16) :
    (ntohs value).toNat = 256 * (value.toNat % 256) + value.toNat / 256 := by
  have bound := value.toNat_lt
  have high : value.toNat / 256 % 256 = value.toNat / 256 := Nat.mod_eq_of_lt (by omega)
  simp only [ntohs, leBytes, leValue, List.reverse_cons, List.reverse_nil, List.nil_append,
    List.cons_append, UInt16.toNat_ofNat', UInt8.toNat_ofNat', Nat.reducePow, high]
  omega

theorem ntohs_htons (value : UInt16) : ntohs (htons value) = value := by
  have bound := value.toNat_lt
  have swapped : (htons value).toNat = 256 * (value.toNat % 256) + value.toNat / 256 :=
    toNat_ntohs value
  apply UInt16.toNat_inj.mp
  rw [toNat_ntohs, swapped]
  omega

/-- A port that is swapped as if it had 32 bits has no bits left in its low half. -/
theorem toNat_ntohl_port (port : UInt16) :
    (ntohl port.toUInt32).toNat = 65536 * (ntohs port).toNat := by
  have bound := port.toNat_lt
  have high : port.toNat / 256 % 256 = port.toNat / 256 := Nat.mod_eq_of_lt (by omega)
  have empty : port.toNat / 256 / 256 = 0 := by omega
  rw [toNat_ntohs]
  simp only [ntohl, leBytes, leValue, List.reverse_cons, List.reverse_nil, List.nil_append,
    List.cons_append, UInt32.toNat_ofNat', UInt8.toNat_ofNat', UInt16.toNat_toUInt32,
    Nat.reducePow, high, empty]
  omega

theorem bmod_port {number : Nat} (positive : 0 < number) (small : number < 65536) :
    Int.bmod (65536 * number : Nat) (2 ^ 32) < 0 ∨
      65536 ≤ Int.bmod (65536 * number : Nat) (2 ^ 32) := by
  rw [Int.bmod_def]
  split
  · omega
  · omega

/-- The number compared with ports by the duplicate check is never a port. -/
theorem toInt_ntohl_port {port : UInt16} (valid : port ≠ 0) :
    toInt (ntohl port.toUInt32).toNat < 0 ∨ 65536 ≤ toInt (ntohl port.toUInt32).toNat := by
  have positive : 0 < (ntohs port).toNat := by
    have nonzero : port.toNat ≠ 0 := by
      intro zero
      apply valid
      apply UInt16.toNat_inj.mp
      rw [zero, UInt16.toNat_zero]
    rw [toNat_ntohs]
    omega
  have value : toInt (ntohl port.toUInt32).toNat =
      Int.bmod (65536 * (ntohs port).toNat : Nat) (2 ^ 32) :=
    congrArg toInt (toNat_ntohl_port port)
  rw [value]
  exact bmod_port positive (ntohs port).toNat_lt

/-! ## Dotted notation -/

/-- The decimal digits of a byte. -/
def decimalByte (value : UInt8) : Bytes :=
  (Nat.toDigits 10 value.toNat).map fun digit => UInt8.ofNat digit.toNat

/-- The code of `.`. -/
def dot : UInt8 := 46

def dottedBytes (address : InAddr) : Bytes :=
  decimalByte address.first ++ dot :: (decimalByte address.second ++
    dot :: (decimalByte address.third ++ dot :: decimalByte address.fourth))

/-- The bytes between dots. -/
def splitAtDots : Bytes → List Bytes
  | [] => [[]]
  | byte :: rest =>
      if byte = dot then [] :: splitAtDots rest
      else
        match splitAtDots rest with
        | [] => [[byte]]
        | part :: parts => (byte :: part) :: parts

def digitValue (byte : UInt8) : Option Nat :=
  if 48 ≤ byte ∧ byte ≤ 57 then some (byte.toNat - 48)
  else if 97 ≤ byte ∧ byte ≤ 102 then some (byte.toNat - 87)
  else if 65 ≤ byte ∧ byte ≤ 70 then some (byte.toNat - 55)
  else none

/-- The number that digits of a base stand for, after those already read. -/
def digitsValue (base : Nat) : Nat → Bytes → Option Nat
  | value, [] => some value
  | value, byte :: rest => do
      let digit ← digitValue byte
      if digit < base then digitsValue base (value * base + digit) rest else none

/-- A part of an address: decimal, octal behind `0` or hexadecimal behind `0x`. -/
def partValue : Bytes → Option Nat
  | [] => none
  | 48 :: 120 :: digits | 48 :: 88 :: digits =>
      if digits = [] then none else digitsValue 16 0 digits
  | 48 :: digits => digitsValue 8 0 digits
  | digits => digitsValue 10 0 digits

/-- The address with a given value, most significant byte first. -/
def inAddrOf (value : Nat) : InAddr :=
  ⟨UInt8.ofNat (value / 2 ^ 24), UInt8.ofNat (value / 2 ^ 16), UInt8.ofNat (value / 2 ^ 8),
    UInt8.ofNat value⟩

/-- The parts of an address put together.  The last part fills the bytes that the others
leave. -/
def joinParts : List Nat → Option InAddr
  | [last] => if last < 2 ^ 32 then some (inAddrOf last) else none
  | [first, last] =>
      if first < 256 ∧ last < 2 ^ 24 then some (inAddrOf (first * 2 ^ 24 + last)) else none
  | [first, second, last] =>
      if first < 256 ∧ second < 256 ∧ last < 2 ^ 16 then
        some (inAddrOf (first * 2 ^ 24 + second * 2 ^ 16 + last))
      else none
  | [first, second, third, last] =>
      if first < 256 ∧ second < 256 ∧ third < 256 ∧ last < 256 then
        some (inAddrOf (first * 2 ^ 24 + second * 2 ^ 16 + third * 2 ^ 8 + last))
      else none
  | _ => none

/-- The address that a string stands for, if it does for one. -/
def inetAton (ip : CString) : Option InAddr := do
  let parts ← (splitAtDots ip.val).mapM partValue
  joinParts parts

/-- `INADDR_NONE`. -/
def inAddrNone : InAddr := ⟨255, 255, 255, 255⟩

def inetAddr (ip : CString) : InAddr := (inetAton ip).getD inAddrNone

theorem decimalByte_spec :
    ∀ value < 256, partValue (decimalByte (UInt8.ofNat value)) = some value ∧
      0 ∉ decimalByte (UInt8.ofNat value) ∧ dot ∉ decimalByte (UInt8.ofNat value) := by
  decide +kernel

theorem partValue_decimalByte (value : UInt8) :
    partValue (decimalByte value) = some value.toNat := by
  have spec := (decimalByte_spec value.toNat value.toNat_lt).1
  rwa [UInt8.ofNat_toNat] at spec

theorem dot_notMem_decimalByte (value : UInt8) : dot ∉ decimalByte value := by
  have spec := (decimalByte_spec value.toNat value.toNat_lt).2.2
  rwa [UInt8.ofNat_toNat] at spec

theorem zero_notMem_dottedBytes (address : InAddr) : 0 ∉ dottedBytes address := by
  have digits : ∀ value : UInt8, 0 ∉ decimalByte value := by
    intro value
    have spec := (decimalByte_spec value.toNat value.toNat_lt).2.1
    rwa [UInt8.ofNat_toNat] at spec
  simp [dottedBytes, dot, digits]

/-- The dotted decimal notation of an address. -/
def inetNtoa (address : InAddr) : CString :=
  ⟨dottedBytes address, zero_notMem_dottedBytes address⟩

theorem splitAtDots_part {part : Bytes} (whole : dot ∉ part) : splitAtDots part = [part] := by
  induction part with
  | nil => rfl
  | cons byte rest ih =>
      rw [List.mem_cons, not_or] at whole
      rw [splitAtDots, if_neg (Ne.symm whole.1), ih whole.2]

theorem splitAtDots_append {part : Bytes} (whole : dot ∉ part) (rest : Bytes) :
    splitAtDots (part ++ dot :: rest) = part :: splitAtDots rest := by
  induction part with
  | nil => rw [List.nil_append, splitAtDots, if_pos rfl]
  | cons byte part ih =>
      rw [List.mem_cons, not_or] at whole
      rw [List.cons_append, splitAtDots, if_neg (Ne.symm whole.1), ih whole.2]

theorem inAddrOf_bytes (address : InAddr) :
    inAddrOf (address.first.toNat * 2 ^ 24 + address.second.toNat * 2 ^ 16 +
      address.third.toNat * 2 ^ 8 + address.fourth.toNat) = address := by
  rcases address with ⟨first, second, third, fourth⟩
  have bounds := And.intro first.toNat_lt (And.intro second.toNat_lt
    (And.intro third.toNat_lt fourth.toNat_lt))
  simp only [inAddrOf, InAddr.mk.injEq, ← UInt8.toNat_inj, UInt8.toNat_ofNat']
  omega

/-- An address is read back from its dotted notation. -/
theorem inetAton_inetNtoa (address : InAddr) : inetAton (inetNtoa address) = some address := by
  have parts : splitAtDots (inetNtoa address).val =
      [decimalByte address.first, decimalByte address.second, decimalByte address.third,
        decimalByte address.fourth] := by
    change splitAtDots (dottedBytes address) = _
    rw [dottedBytes, splitAtDots_append (dot_notMem_decimalByte _),
      splitAtDots_append (dot_notMem_decimalByte _),
      splitAtDots_append (dot_notMem_decimalByte _),
      splitAtDots_part (dot_notMem_decimalByte _)]
  have bounds := And.intro address.first.toNat_lt (And.intro address.second.toNat_lt
    (And.intro address.third.toNat_lt address.fourth.toNat_lt))
  have values : (splitAtDots (inetNtoa address).val).mapM partValue =
      some [address.first.toNat, address.second.toNat, address.third.toNat,
        address.fourth.toNat] := by
    rw [parts]
    simp [partValue_decimalByte]
  rw [inetAton, values, Option.bind_eq_bind, Option.bind_some, joinParts, if_pos bounds,
    inAddrOf_bytes]

end MultiMaster.NetIO
