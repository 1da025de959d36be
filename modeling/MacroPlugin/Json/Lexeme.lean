import MacroPlugin.Text.Utf8
import MacroPlugin.Json.Fault

/-!
The small pieces of a JSON text: blanks, the three literals and quoted texts. Each function takes
its piece off the front of the unread octets and returns the octets behind it. A text is read one
octet at a time by a machine that remembers how far it is into an escape; the octets it gathers
must be UTF-8 when the closing quote is reached.
-/

namespace MacroPlugin.Json

/-- Space, line feed, tab and carriage return. -/
def isBlank (octet : UInt8) : Bool :=
  octet = 0x20 || octet = 0x0A || octet = 0x09 || octet = 0x0D

def skipBlank (input : Octets) : Octets :=
  input.dropWhile isBlank

inductive Literal where
  | null
  | yes
  | no
  deriving DecidableEq

namespace Literal

/-- The literal that an octet begins. -/
def ofFirst? (octet : UInt8) : Option Literal :=
  if octet = 0x6E then some .null
  else if octet = 0x74 then some .yes
  else if octet = 0x66 then some .no
  else none

/-- The octets behind the first one: `ull`, `rue` and `alse`. -/
def remainder : Literal → Octets
  | .null => [0x75, 0x6C, 0x6C]
  | .yes => [0x72, 0x75, 0x65]
  | .no => [0x61, 0x6C, 0x73, 0x65]

def found : Literal → Found
  | .null => .null
  | .yes => .boolean true
  | .no => .boolean false

end Literal

/-- Reads exactly the octets of `wanted`. -/
def readExactly : Octets → Octets → Except Fault Octets
  | [], input => .ok input
  | _ :: _, [] => .error (.here .endOfValue [])
  | want :: wanted, octet :: rest =>
    if octet = want then readExactly wanted rest else .error (.here .expectedLiteral rest)

/-- Reads what follows the first octet of a literal. -/
def Literal.readRemainder (literal : Literal) (input : Octets) : Except Fault Octets :=
  readExactly literal.remainder input

/-- Where inside a text its reader is. `hex` holds the digits of an escape, the last one first,
and the leading surrogate that the escape has to complete. -/
inductive TextState where
  | plain
  | escape
  | hex (lead : Option Nat) (digits : Octets)
  | pair (lead : Nat)
  | pairEscape (lead : Nat)
  deriving DecidableEq

/-- The octet that a one-letter escape stands for. -/
def shortEscape? (octet : UInt8) : Option UInt8 :=
  if octet = Ascii.quote then some Ascii.quote
  else if octet = Ascii.backslash then some Ascii.backslash
  else if octet = 0x2F then some 0x2F
  else if octet = 0x62 then some 0x08
  else if octet = 0x66 then some 0x0C
  else if octet = 0x6E then some 0x0A
  else if octet = 0x72 then some 0x0D
  else if octet = 0x74 then some 0x09
  else none

/-- The letter of a hexadecimal escape. -/
def isHexMark (octet : UInt8) : Bool :=
  octet = 0x75

/-- The number that four hexadecimal digits denote, the last digit first. -/
def hexValue? : Octets → Option Nat
  | [] => some 0
  | octet :: higher => do
    let digit ← Ascii.hexDigit? octet
    let value ← hexValue? higher
    return 16 * value + digit

def isLeadSurrogate (n : Nat) : Bool :=
  0xD800 ≤ n && n ≤ 0xDBFF

def isTrailSurrogate (n : Nat) : Bool :=
  0xDC00 ≤ n && n ≤ 0xDFFF

/-- The code point of a surrogate pair. -/
def joinSurrogates (lead trail : Nat) : Nat :=
  0x10000 + (lead - 0xD800) * 0x400 + (trail - 0xDC00)

namespace TextState

/-- Whether an octet ends the text. -/
def ends : TextState → UInt8 → Bool
  | .plain, octet => octet = Ascii.quote
  | _, _ => false

/-- What four hexadecimal digits add to the text, given the surrogate before them. -/
def complete (lead : Option Nat) (value : Nat) : Except Cause (TextState × Octets) :=
  match lead with
  | none =>
    if isTrailSurrogate value then .error .loneSurrogate
    else if isLeadSurrogate value then .ok (.pair value, [])
    else .ok (.plain, String.utf8EncodeChar (Char.ofNat value))
  | some lead =>
    if isTrailSurrogate value then
      .ok (.plain, String.utf8EncodeChar (Char.ofNat (joinSurrogates lead value)))
    else .error .loneSurrogate

/-- Takes in one octet that does not end the text: the next state, and what is added. -/
def step (octet : UInt8) : TextState → Except Cause (TextState × Octets)
  | .plain =>
    if octet = Ascii.backslash then .ok (.escape, [])
    else if octet < Ascii.space then .error .controlOctet
    else .ok (.plain, [octet])
  | .escape =>
    if isHexMark octet then .ok (.hex none [], [])
    else match shortEscape? octet with
      | some meant => .ok (.plain, [meant])
      | none => .error .badEscape
  | .hex lead digits =>
    if digits.length < 3 then .ok (.hex lead (octet :: digits), [])
    else match hexValue? (octet :: digits) with
      | some value => complete lead value
      | none => .error .badEscape
  | .pair lead =>
    if octet = Ascii.backslash then .ok (.pairEscape lead, []) else .error .unfinishedPair
  | .pairEscape lead =>
    if isHexMark octet then .ok (.hex (some lead) [], []) else .error .unfinishedPair

end TextState

/-- Gathers the octets of a text up to its closing quote; `taken` has those gathered before, the
last one first. -/
def gatherText (state : TextState) (taken : Octets) : Octets → Except Fault (Octets × Octets)
  | [] => .error (.here .endOfText [])
  | octet :: rest =>
    if state.ends octet then .ok (taken.reverse, rest)
    else match state.step octet with
      | .ok (state, added) => gatherText state (added.reverse ++ taken) rest
      | .error cause => .error (.here cause rest)

/-- Reads a text whose opening quote was read. -/
def readText (input : Octets) : Except Fault (String × Octets) := do
  let (octets, rest) ← gatherText .plain [] input
  match octets.toText? with
  | some value => .ok (value, rest)
  | none => .error (.here (.badUnicode (octets.length - Utf8.wellFormedLength octets)) rest)

end MacroPlugin.Json
