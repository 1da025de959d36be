import MacroPlugin.Decimal.Notation
import MacroPlugin.Json.Fault

/-!
Numbers. An integer between `-2^63` and `2^64 - 1` keeps its value; any other number is a double,
and so is `-0`. The digits before the exponent are gathered in a 64-bit word. Once the word is
full, further digits of the whole part only move the point and further digits of the fraction are
dropped; the double is the word times or divided by a power of ten.
-/

namespace MacroPlugin.Json

inductive Number where
  | integer (value : Int)
  | real (value : Float)

def Number.found : Number → Found
  | .integer value => .integer value
  | .real value => .real (Decimal.Style.json.write value)

namespace Number

/-- The largest word of 64 bits. -/
def maxWord : Nat := 18446744073709551615

/-- The largest magnitude of a negative integer. -/
def maxMagnitude : Nat := 9223372036854775808

/-- The largest exponent that is read digit by digit. -/
def maxExponent : Nat := 2147483647

def startsWithDigit : Octets → Bool
  | [] => false
  | octet :: _ => (Ascii.digit? octet).isSome

/-- Appends digits to `word` as long as it does not exceed `limit`: the word, the number of
digits, and the octets behind them. -/
def takeDigits (limit word count : Nat) : Octets → Nat × Nat × Octets
  | [] => (word, count, [])
  | octet :: rest =>
    match Ascii.digit? octet with
    | none => (word, count, octet :: rest)
    | some digit =>
      if 10 * word + digit ≤ limit then takeDigits limit (10 * word + digit) (count + 1) rest
      else (word, count, octet :: rest)

/-- Counts the digits at the front, beyond `count` earlier ones. -/
def dropDigits (count : Nat) : Octets → Nat × Octets
  | [] => (count, [])
  | octet :: rest =>
    if (Ascii.digit? octet).isSome then dropDigits (count + 1) rest else (count, octet :: rest)

def isExponentMark (octet : UInt8) : Bool :=
  octet = 0x65 || octet = 0x45

/-- `10 ^ n`, rounded to a double. -/
def powerOfTen (n : Nat) : Float :=
  Float.ofScientific 1 false n

/-- `value * 10 ^ exponent` in steps of at most 308 powers of ten; `none` if it is too large.
Three steps bring any word to zero. -/
def scale (fuel : Nat) (value : Float) (exponent : Int) : Option Float :=
  match fuel with
  | 0 => some value
  | fuel + 1 =>
    if exponent.natAbs ≤ 308 then
      if 0 ≤ exponent then
        let scaled := value * powerOfTen exponent.natAbs
        if scaled.isInf then none else some scaled
      else some (value / powerOfTen exponent.natAbs)
    else if value == 0 then some value
    else if 0 ≤ exponent then none
    else scale fuel (value / powerOfTen 308) (exponent + 308)

def signed (negative : Bool) (value : Float) : Number :=
  .real (if negative then -value else value)

/-- The double with these digits and this exponent, read up to `rest`. -/
def finish (negative : Bool) (word : Nat) (exponent : Int) (rest : Octets) :
    Except Fault (Number × Octets) :=
  match scale 4 word.toUInt64.toFloat exponent with
  | some value => .ok (signed negative value, rest)
  | none => .error (.here .numberTooLarge rest)

/-- Reads what follows the mark of an exponent. Where the exponent is too long to be read, the
number is zero or too large. -/
def readExponent (negative : Bool) (word : Nat) (exponent : Int) (input : Octets) :
    Except Fault (Number × Octets) :=
  let (downward, input) :=
    match input with
    | [] => (false, [])
    | octet :: rest =>
      if octet = Ascii.plus then (false, rest)
      else if octet = Ascii.minus then (true, rest)
      else (false, octet :: rest)
  match input with
  | [] => .error (.here .endOfValue [])
  | octet :: rest =>
    match Ascii.digit? octet with
    | none => .error (.here .badNumber rest)
    | some digit =>
      let (power, _, rest) := takeDigits maxExponent digit 0 rest
      if startsWithDigit rest then
        if word ≠ 0 && !downward then .error (.here .numberTooLarge rest.tail)
        else .ok (signed negative 0, (dropDigits 0 rest).2)
      else finish negative word (if downward then exponent - power else exponent + power) rest

/-- Reads an exponent if there is one. -/
def readEnd (negative : Bool) (word : Nat) (exponent : Int) (input : Octets) :
    Except Fault (Number × Octets) :=
  match input with
  | [] => finish negative word exponent []
  | octet :: rest =>
    if isExponentMark octet then readExponent negative word exponent rest
    else finish negative word exponent (octet :: rest)

/-- Reads what follows the decimal point. -/
def readFraction (negative : Bool) (word : Nat) (exponent : Int) (input : Octets) :
    Except Fault (Number × Octets) :=
  let (word, count, rest) := takeDigits maxWord word 0 input
  if startsWithDigit rest then
    readEnd negative word (exponent - count) (dropDigits 0 rest).2
  else if count = 0 then
    .error (.next (if rest.isEmpty then .endOfValue else .badNumber) rest)
  else readEnd negative word (exponent - count) rest

/-- The number without fraction and exponent whose digits were `word`. -/
def whole (negative : Bool) (word : Nat) : Number :=
  if !negative then .integer word
  else if word = 0 || maxMagnitude < word then signed true word.toUInt64.toFloat
  else .integer (-word)

/-- Reads what follows the whole part, of which the last `dropped` digits did not fit. -/
def readRest (negative : Bool) (word dropped : Nat) (input : Octets) :
    Except Fault (Number × Octets) :=
  match input with
  | [] => if dropped = 0 then .ok (whole negative word, []) else finish negative word dropped []
  | octet :: rest =>
    if octet = Ascii.point then readFraction negative word dropped rest
    else if isExponentMark octet then readExponent negative word dropped rest
    else if dropped = 0 then .ok (whole negative word, octet :: rest)
    else finish negative word dropped (octet :: rest)

/-- Reads a number whose sign was read. -/
def readMagnitude (negative : Bool) : Octets → Except Fault (Number × Octets)
  | [] => .error (.here .endOfValue [])
  | octet :: rest =>
    match Ascii.digit? octet with
    | none => .error (.here .badNumber rest)
    | some 0 =>
      if startsWithDigit rest then .error (.next .badNumber rest) else readRest negative 0 0 rest
    | some digit =>
      let (word, _, rest) := takeDigits maxWord digit 0 rest
      let (dropped, rest) := dropDigits 0 rest
      readRest negative word dropped rest

end Number

/-- Whether an octet begins a number. -/
def Number.isFirst (octet : UInt8) : Bool :=
  octet = Ascii.minus || (Ascii.digit? octet).isSome

/-- Reads a number. -/
def Number.read (input : Octets) : Except Fault (Number × Octets) :=
  match input with
  | [] => .error (.here .endOfValue [])
  | octet :: rest =>
    if octet = Ascii.minus then readMagnitude true rest else readMagnitude false (octet :: rest)

end MacroPlugin.Json
