import MacroPlugin.Octets
import MacroPlugin.Mismatch

/-!
What can be wrong with a JSON text, and where. A fault records how many octets of the input lie
behind its place, so that readers need not carry a position along; line and column are computed
from that once, when the whole input is at hand. Lines count from one, and a column is the number
of octets since the last line feed.
-/

namespace MacroPlugin.Json

inductive Cause where
  | endOfValue
  | endOfText
  | endOfList
  | endOfObject
  | expectedValue
  | expectedLiteral
  | expectedColon
  | expectedListEnd
  | expectedObjectEnd
  | keyNotText
  | trailingComma
  | trailingOctets
  | badNumber
  | numberTooLarge
  | badEscape
  | controlOctet
  | loneSurrogate
  | unfinishedPair
  | badUnicode (back : Nat)
  | mismatch (mismatch : Mismatch)
  deriving DecidableEq

/-- A cause and the number of octets behind its place, or no place at all. -/
structure Fault where
  cause : Cause
  behind : Option Nat
  deriving DecidableEq

namespace Fault

/-- A fault after everything that was read, when `rest` is unread. -/
def here (cause : Cause) (rest : Octets) : Fault :=
  ⟨cause, some rest.length⟩

/-- A fault at the first unread octet; at the end of the input it is the same as `here`. -/
def next (cause : Cause) (rest : Octets) : Fault :=
  ⟨cause, some (rest.length - 1)⟩

end Fault

/-- The three families of faults: the input ends too early, it is no JSON, or it is JSON for
something else. -/
inductive Category where
  | ended
  | malformed
  | mismatched
  deriving DecidableEq

namespace Cause

def category : Cause → Category
  | .endOfValue | .endOfText | .endOfList | .endOfObject => .ended
  | .mismatch _ => .mismatched
  | _ => .malformed

def message : Cause → String
  | .endOfValue => "EOF while parsing a value"
  | .endOfText => "EOF while parsing a string"
  | .endOfList => "EOF while parsing a list"
  | .endOfObject => "EOF while parsing an object"
  | .expectedValue => "expected value"
  | .expectedLiteral => "expected ident"
  | .expectedColon => "expected `:`"
  | .expectedListEnd => "expected `,` or `]`"
  | .expectedObjectEnd => "expected `,` or `\x7d`"
  | .keyNotText => "key must be a string"
  | .trailingComma => "trailing comma"
  | .trailingOctets => "trailing characters"
  | .badNumber => "invalid number"
  | .numberTooLarge => "number out of range"
  | .badEscape => "invalid escape"
  | .controlOctet => "control character (\\u0000-\\u001F) found while parsing a string"
  | .loneSurrogate => "lone leading surrogate in hex escape"
  | .unfinishedPair => "unexpected end of hex escape"
  | .badUnicode _ => "invalid unicode code point"
  | .mismatch m => m.message

/-- How far left of its place a fault is shown: only octets that are no character are pointed
at individually. -/
def back : Cause → Nat
  | .badUnicode back => back
  | _ => 0

end Cause

structure Place where
  line : Nat
  column : Nat
  deriving DecidableEq, Repr

/-- The place reached after reading these octets. -/
def Place.after (read : Octets) : Place :=
  ⟨read.count Ascii.newline + 1, (read.reverse.takeWhile (· ≠ Ascii.newline)).length⟩

/-- A decoding failure with the place it is reported at. -/
structure DecodeError where
  cause : Cause
  place : Option Place
  deriving DecidableEq

/-- The failure that a fault means for this input. -/
def Fault.locate (input : Octets) (fault : Fault) : DecodeError :=
  ⟨fault.cause, fault.behind.map fun behind =>
    let place := Place.after (input.take (input.length - behind))
    ⟨place.line, place.column - fault.cause.back⟩⟩

namespace DecodeError

def category (e : DecodeError) : Category :=
  e.cause.category

def message (e : DecodeError) : String :=
  match e.place with
  | none => e.cause.message
  | some place =>
    e.cause.message ++ " at line " ++ toString place.line ++ " column " ++ toString place.column

end DecodeError

end MacroPlugin.Json
