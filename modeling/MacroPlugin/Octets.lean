/-!
Octet strings, which is what every stream, file and frame in this library is made of. Text enters
and leaves this world through `Octets.ofText` and `Octets.toText?`; a frame length is a 64-bit
word in little-endian order, which is `Octets.littleEndian`, and is written by `Octets.ofWord` and
read by `Octets.toNat`.
-/

namespace MacroPlugin

abbrev Octets := List UInt8

namespace Octets

/-- The UTF-8 octets of a text. -/
def ofText (text : String) : Octets :=
  text.toUTF8.data.toList

/-- The text that these octets spell in UTF-8, if they spell one. -/
def toText? (octets : Octets) : Option String :=
  String.fromUTF8? ⟨octets.toArray⟩

/-- The lowest octets of a number, least significant first. -/
def littleEndian : (count : Nat) → Nat → Octets
  | 0, _ => []
  | count + 1, n => UInt8.ofNat n :: littleEndian count (n / 256)

/-- The octets of a 64-bit word, least significant first. -/
def ofWord (word : UInt64) : Octets :=
  (List.range 8).map fun place => (word >>> (8 * place).toUInt64).toUInt8

/-- The number that little-endian octets denote. -/
def toNat : Octets → Nat
  | [] => 0
  | octet :: rest => octet.toNat + 256 * toNat rest

end Octets

/-! The octets that have a meaning of their own in the JSON grammar. -/

namespace Ascii

abbrev newline : UInt8 := 0x0A
abbrev space : UInt8 := 0x20
abbrev quote : UInt8 := 0x22
abbrev plus : UInt8 := 0x2B
abbrev comma : UInt8 := 0x2C
abbrev minus : UInt8 := 0x2D
abbrev point : UInt8 := 0x2E
abbrev zero : UInt8 := 0x30
abbrev nine : UInt8 := 0x39
abbrev colon : UInt8 := 0x3A
abbrev openBracket : UInt8 := 0x5B
abbrev backslash : UInt8 := 0x5C
abbrev closeBracket : UInt8 := 0x5D
abbrev openBrace : UInt8 := 0x7B
abbrev closeBrace : UInt8 := 0x7D

/-- Space, tab, line feed, form feed and carriage return. -/
def isBlank (octet : UInt8) : Bool :=
  octet = 0x20 || octet = 0x09 || octet = 0x0A || octet = 0x0C || octet = 0x0D

/-- The value of a decimal digit. -/
def digit? (octet : UInt8) : Option Nat :=
  if zero ≤ octet && octet ≤ nine then some (octet.toNat - 48) else none

/-- The value of a hexadecimal digit of either case. -/
def hexDigit? (octet : UInt8) : Option Nat :=
  if zero ≤ octet && octet ≤ nine then some (octet.toNat - 48)
  else if 0x61 ≤ octet && octet ≤ 0x66 then some (octet.toNat - 87)
  else if 0x41 ≤ octet && octet ≤ 0x46 then some (octet.toNat - 55)
  else none

end Ascii

end MacroPlugin
