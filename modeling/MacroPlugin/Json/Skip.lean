import MacroPlugin.Json.Lexeme
import MacroPlugin.Json.Number

/-!
Passing over a value that nobody asked for. The value has to be JSON, but looser than one that is
read: numbers have no range, texts may hold any octets from the space upwards and any four
hexadecimal digits after `\u`. The containers around the present place are kept on a list, so
that values of any depth can be passed over.
-/

namespace MacroPlugin.Json

namespace Skip

/-- Where inside a passed text the reader is; `hex` holds the digits seen, the last one first. -/
inductive State where
  | plain
  | escape
  | hex (seen : Octets)
  deriving DecidableEq

/-- Takes in one octet that does not end the text; on a fault, whether the octet counts as
read. -/
def State.step (octet : UInt8) : State → Except (Cause × Bool) State
  | .plain =>
    if octet = Ascii.backslash then .ok .escape
    else if octet < Ascii.space then .error (.controlOctet, false)
    else .ok .plain
  | .escape =>
    if isHexMark octet then .ok (.hex [])
    else if (shortEscape? octet).isSome then .ok .plain
    else .error (.badEscape, true)
  | .hex seen =>
    if seen.length < 3 then .ok (.hex (octet :: seen))
    else if (hexValue? (octet :: seen)).isSome then .ok .plain
    else .error (.badEscape, true)

def textFrom (state : State) : Octets → Except Fault Octets
  | [] => .error (.here .endOfText [])
  | octet :: rest =>
    if state = .plain && octet = Ascii.quote then .ok rest
    else match state.step octet with
      | .ok state => textFrom state rest
      | .error (cause, true) => .error (.here cause rest)
      | .error (cause, false) => .error (.here cause (octet :: rest))

/-- Passes over a text whose opening quote was read. -/
def text (input : Octets) : Except Fault Octets :=
  textFrom .plain input

def digits (input : Octets) : Octets :=
  input.dropWhile fun octet => (Ascii.digit? octet).isSome

/-- Passes over the first digit of a row and the digits behind it. -/
def exponent (input : Octets) : Except Fault Octets :=
  let input :=
    match input with
    | [] => []
    | octet :: rest => if octet = Ascii.plus || octet = Ascii.minus then rest else octet :: rest
  match input with
  | [] => .error (.here .badNumber [])
  | octet :: rest =>
    if (Ascii.digit? octet).isSome then .ok (digits rest) else .error (.here .badNumber rest)

def exponentIfAny : Octets → Except Fault Octets
  | [] => .ok []
  | octet :: rest => if Number.isExponentMark octet then exponent rest else .ok (octet :: rest)

def fractionIfAny : Octets → Except Fault Octets
  | [] => .ok []
  | octet :: rest =>
    if octet = Ascii.point then
      if Number.startsWithDigit rest then exponentIfAny (digits rest)
      else .error (.next .badNumber rest)
    else exponentIfAny (octet :: rest)

/-- Passes over a number whose sign was passed. -/
def magnitude : Octets → Except Fault Octets
  | [] => .error (.here .badNumber [])
  | octet :: rest =>
    match Ascii.digit? octet with
    | none => .error (.here .badNumber rest)
    | some 0 =>
      if Number.startsWithDigit rest then .error (.next .badNumber rest) else fractionIfAny rest
    | some _ => fractionIfAny (digits rest)

/-- Passes over a value without parts, whose first octet is given. -/
def scalar (octet : UInt8) (rest : Octets) : Except Fault Octets :=
  match Literal.ofFirst? octet with
  | some literal => literal.readRemainder rest
  | none =>
    if octet = Ascii.quote then text rest
    else if octet = Ascii.minus then magnitude rest
    else if (Ascii.digit? octet).isSome then magnitude (octet :: rest)
    else .error (.next .expectedValue (octet :: rest))

/-- A container around the present place. -/
inductive Container where
  | list
  | object
  deriving DecidableEq

namespace Container

def ofFirst? (octet : UInt8) : Option Container :=
  if octet = Ascii.openBracket then some .list
  else if octet = Ascii.openBrace then some .object
  else none

def close : Container → UInt8
  | .list => Ascii.closeBracket
  | .object => Ascii.closeBrace

/-- The fault of an input that ends inside the container. -/
def ended : Container → Cause
  | .list => .endOfList
  | .object => .endOfObject

/-- The fault of a part that is followed by neither a comma nor the end. -/
def unfinished : Container → Cause
  | .list => .expectedListEnd
  | .object => .expectedObjectEnd

/-- Passes over what precedes the value of a part: a key and a colon in an object. -/
def label : Container → Octets → Except Fault Octets
  | .list, input => .ok input
  | .object, input =>
    match skipBlank input with
    | [] => .error (.here .endOfObject [])
    | octet :: rest => do
      if octet = Ascii.quote then
        let rest ← text rest
        match skipBlank rest with
        | [] => .error (.here .endOfObject [])
        | octet :: rest =>
          if octet = Ascii.colon then .ok rest else .error (.next .expectedColon (octet :: rest))
      else .error (.next .keyNotText (octet :: rest))

end Container

/-- Passes over the ends of containers behind a value, up to a comma. Returns the containers that
are still open; there is a further part in the innermost one, whose label was passed. -/
def close : List Container → Octets → Except Fault (List Container × Octets)
  | [], input => .ok ([], input)
  | container :: outer, input =>
    match skipBlank input with
    | [] => .error (.here container.ended [])
    | octet :: rest =>
      if octet = Ascii.comma then do
        let rest ← container.label rest
        return (container :: outer, rest)
      else if octet = container.close then close outer rest
      else .error (.next container.unfinished (octet :: rest))

/-- Passes over a value and everything up to the end of the containers around it. Every turn
passes over at least one octet, so a fuel above the length of the input is never used up. -/
def values (fuel : Nat) (outer : List Container) (input : Octets) : Except Fault Octets :=
  match fuel with
  | 0 => .error (.here .endOfValue input)
  | fuel + 1 =>
    let resume (outer : List Container) (rest : Octets) : Except Fault Octets := do
      match ← close outer rest with
      | ([], rest) => .ok rest
      | (outer, rest) => values fuel outer rest
    match skipBlank input with
    | [] => .error (.here .endOfValue [])
    | octet :: rest =>
      match Container.ofFirst? octet with
      | none => do resume outer (← scalar octet rest)
      | some container =>
        match skipBlank rest with
        | [] => .error (.here container.ended [])
        | octet :: rest =>
          if octet = container.close then resume outer rest
          else do values fuel (container :: outer) (← container.label (octet :: rest))

end Skip

/-- Passes over one value. -/
def skipValue (fuel : Nat) (input : Octets) : Except Fault Octets :=
  Skip.values fuel [] input

end MacroPlugin.Json
