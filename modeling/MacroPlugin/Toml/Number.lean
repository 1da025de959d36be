import MacroPlugin.Toml.Text

/-!
The values that are written without quotes and brackets: truth values, numbers, dates and times.
All of them are a single word, except that a date and a time may be set apart by one space. A word
is taken as a whole and then has to be of one of these forms.
-/

namespace MacroPlugin.Toml

/-- The characters of a word. -/
def isWord (c : Char) : Bool :=
  c.isAlphanum || c = '_' || c = '+' || c = '-' || c = '.' || c = ':'

namespace Number

def digit? (base : Nat) (c : Char) : Option Nat :=
  (hexDigit? c).filter (· < base)

/-- Digits of a base, with single underscores between them. -/
def digits? (base : Nat) (word : List Char) : Option (List Nat) :=
  match word with
  | [] => none
  | [c] => do return [← digit? base c]
  | c :: '_' :: rest => do return (← digit? base c) :: (← digits? base rest)
  | c :: rest => do return (← digit? base c) :: (← digits? base rest)

def value (base : Nat) (digits : List Nat) : Nat :=
  digits.foldl (fun value digit => base * value + digit) 0

/-- Splits off a sign. -/
def sign : List Char → Bool × List Char
  | '-' :: rest => (true, rest)
  | '+' :: rest => (false, rest)
  | word => (false, word)

/-- Decimal digits without a needless zero in front. -/
def whole? (word : List Char) : Option (List Nat) := do
  let digits ← digits? 10 word
  if digits.head? = some 0 && 1 < digits.length then none else some digits

/-- The integers of 64 bits with a sign. -/
def bounded? (value : Int) : Option Int :=
  if -9223372036854775808 ≤ value && value ≤ 9223372036854775807 then some value else none

def integer? (word : List Char) : Option Int :=
  match word with
  | '0' :: 'x' :: rest => do bounded? (value 16 (← digits? 16 rest))
  | '0' :: 'o' :: rest => do bounded? (value 8 (← digits? 8 rest))
  | '0' :: 'b' :: rest => do bounded? (value 2 (← digits? 2 rest))
  | word => do
    let (negative, word) := sign word
    let magnitude : Int := value 10 (← whole? word)
    bounded? (if negative then -magnitude else magnitude)

/-- The double nearest to `digits * 10 ^ exponent`. -/
def nearest (digits : Nat) (exponent : Int) : Float :=
  let leading := exponent + (Nat.toDigits 10 digits).length
  if digits = 0 || leading < -400 then 0
  else if 400 < leading then 1 / 0
  else if 0 ≤ exponent then Float.ofScientific digits false exponent.toNat
  else Float.ofScientific digits true (-exponent).toNat

/-- The part of a number behind its `e`, if there is one. -/
def power? : List Char → Option Int
  | [] => some 0
  | _ :: power => do
    let (down, power) := sign power
    let magnitude : Int := value 10 (← digits? 10 power)
    return if down then -magnitude else magnitude

/-- The digits behind the point, if there is one. -/
def fraction? : List Char → Option (List Nat)
  | [] => some []
  | _ :: fraction => digits? 10 fraction

/-- A number with a fraction or an exponent. A number that is too large is malformed, unless it is
negative. -/
def real? (word : List Char) : Option Float := do
  let (negative, word) := sign word
  let (mantissa, power) := word.span fun c => c ≠ 'e' && c ≠ 'E'
  let (whole, fraction) := mantissa.span (· ≠ '.')
  if power.isEmpty && fraction.isEmpty then none
  let whole ← whole? whole
  let fraction ← fraction? fraction
  let power ← power? power
  let magnitude := nearest (value 10 (whole ++ fraction)) (power - fraction.length)
  if negative then some (-magnitude) else if magnitude.isInf then none else some magnitude

/-- Infinity, and what is no number. -/
def special? (word : List Char) : Option Float :=
  let (negative, name) := sign word
  let magnitude? : Option Float :=
    if name = ['i', 'n', 'f'] then some (1 / 0)
    else if name = ['n', 'a', 'n'] then some (0 / 0)
    else none
  magnitude?.map fun magnitude => if negative then -magnitude else magnitude

end Number

/-! Dates and times. Only their form matters, since no setting is one. -/

namespace DateTime

/-- Takes a number of exactly `count` digits off a word. -/
def number? (count : Nat) (word : List Char) : Option (Nat × List Char) :=
  let (digits, rest) := word.splitAt count
  if digits.length = count && digits.all Char.isDigit then
    some (Number.value 10 (digits.map fun c => c.toNat - 48), rest)
  else none

def mark? (mark : Char) : List Char → Option (List Char)
  | c :: rest => if c = mark then some rest else none
  | [] => none

def daysOf (year month : Nat) : Nat :=
  if month = 2 then
    if year % 4 = 0 && (year % 100 ≠ 0 || year % 400 = 0) then 29 else 28
  else if month = 4 || month = 6 || month = 9 || month = 11 then 30
  else 31

/-- Takes a date off a word. -/
def date? (word : List Char) : Option (List Char) := do
  let (year, word) ← number? 4 word
  let (month, word) ← number? 2 (← mark? '-' word)
  let (day, word) ← number? 2 (← mark? '-' word)
  if 1 ≤ month && month ≤ 12 && 1 ≤ day && day ≤ daysOf year month then some word else none

/-- Takes hours and minutes off a word. -/
def clock? (word : List Char) : Option (List Char) := do
  let (hour, word) ← number? 2 word
  let (minute, word) ← number? 2 (← mark? ':' word)
  if hour ≤ 23 && minute ≤ 59 then some word else none

/-- Takes a time off a word. A second may be a leap second and have a fraction. -/
def time? (word : List Char) : Option (List Char) := do
  let (second, word) ← number? 2 (← mark? ':' (← clock? word))
  if 60 < second then none
  else match word with
    | '.' :: c :: rest => if c.isDigit then some (rest.dropWhile Char.isDigit) else none
    | word => some word

/-- Whether a word is an offset from universal time, or empty. -/
def isOffset : List Char → Bool
  | [] => true
  | ['Z'] => true
  | ['z'] => true
  | c :: rest => (c = '+' || c = '-') && clock? rest = some []

/-- Whether a word is a time, with or without an offset. -/
def isTimeWithOffset (word : List Char) : Bool :=
  (time? word).any isOffset

/-- Whether a word is a date without a time. -/
def isDate (word : List Char) : Bool :=
  date? word = some []

/-- Whether a word is a date with a time, a date alone or a time alone. -/
def isDateTime (word : List Char) : Bool :=
  isDate word || time? word = some [] ||
    match date? word with
    | some (c :: rest) => (c = 'T' || c = 't') && isTimeWithOffset rest
    | _ => false

end DateTime

/-- The meaning of a word. -/
def Scalar.ofWord? (word : List Char) : Option Scalar :=
  if word = ['t', 'r', 'u', 'e'] then some (.boolean true)
  else if word = ['f', 'a', 'l', 's', 'e'] then some (.boolean false)
  else if DateTime.isDateTime word then some .dateTime
  else
    match Number.integer? word with
    | some value => some (.integer value)
    | none => (Number.real? word <|> Number.special? word).map .real

/-- Takes a value without quotes off the input. -/
def Scalar.readWord (input : List Char) : Option (Scalar × List Char) :=
  let (word, rest) := input.span isWord
  match rest with
  | ' ' :: c :: behind =>
    let (time, rest') := (c :: behind).span isWord
    if DateTime.isDate word && DateTime.isTimeWithOffset time then some (.dateTime, rest')
    else (Scalar.ofWord? word).map (·, rest)
  | rest => (Scalar.ofWord? word).map (·, rest)

end MacroPlugin.Toml
