/-!
The fewest decimal digits that still single out a double. A finite double stands for all reals
that round to it, an interval whose ends belong to it exactly when its mantissa is even. On the
grid of decimals with a given number of digits only the two neighbours of the value can lie in
that interval, so the first grid with such a neighbour gives the digits; of two neighbours the
nearer one is taken. Two equally near neighbours do occur, at `2 ^ (-25)` for one, and there the
digits depend on a rule for ties. Everything is exact arithmetic on natural numbers.
-/

namespace MacroPlugin

/-- A finite double without its sign: `mantissa * 2 ^ exponent`. `isPowerOfTwo` marks the values
whose lower neighbour is only half a step away. -/
structure Binary64 where
  mantissa : Nat
  exponent : Int
  isPowerOfTwo : Bool

/-- A decimal `digits * 10 ^ exponent`. -/
structure Decimal where
  digits : Nat
  exponent : Int
  deriving DecidableEq, Repr

namespace Binary64

/-- Reads the sixty-three bits below the sign; infinities and NaN have no value. -/
def ofBits? (bits : UInt64) : Option Binary64 :=
  let fraction : Nat := bits.toNat % Nat.pow 2 52
  let biased : Nat := bits.toNat / Nat.pow 2 52 % Nat.pow 2 11
  if biased = 2047 then none
  else if biased = 0 then some ⟨fraction, -1074, false⟩
  else some ⟨Nat.pow 2 52 + fraction, (biased : Int) - 1075, fraction = 0 && 1 < biased⟩

end Binary64

/-- A fraction with a positive denominator, as a numerator and a denominator. -/
structure Ratio where
  num : Nat
  den : Nat

namespace Ratio

/-- `n * 2 ^ e`. -/
def binary (n : Nat) (e : Int) : Ratio :=
  if 0 ≤ e then ⟨n * Nat.pow 2 e.toNat, 1⟩ else ⟨n, Nat.pow 2 (-e).toNat⟩

/-- The fraction divided by `10 ^ e`. -/
def shift (r : Ratio) (e : Int) : Ratio :=
  if 0 ≤ e then ⟨r.num, r.den * Nat.pow 10 e.toNat⟩
  else ⟨r.num * Nat.pow 10 (-e).toNat, r.den⟩

def floor (r : Ratio) : Nat :=
  r.num / r.den

def lt (r s : Ratio) : Bool :=
  r.num * s.den < s.num * r.den

/-- How often a fraction below one has to be multiplied by ten to reach one, at most `fuel`
times. -/
def leadingZeros (fuel : Nat) (r : Ratio) : Nat :=
  match fuel with
  | 0 => 0
  | fuel + 1 => if r.num < r.den then leadingZeros fuel ⟨r.num * 10, r.den⟩ + 1 else 0

/-- The exponent of ten of the leading digit of a positive fraction. -/
def magnitude (r : Ratio) : Int :=
  if r.num < r.den then -(leadingZeros (r.den.log2 + 1) r : Int)
  else ((Nat.toDigits 10 r.floor).length : Int) - 1

end Ratio

/-- Which of two equally near decimals is taken: the one with an even last digit, or the larger
one. -/
inductive Tie where
  | even
  | up
  deriving DecidableEq, Repr

namespace Tie

/-- The choice between `below` and `below + 1`. -/
def choose (tie : Tie) (below : Nat) : Nat :=
  match tie with
  | .even => if below % 2 = 0 then below else below + 1
  | .up => below + 1

end Tie

namespace Decimal

/-- Of the integers `below` and `below + 1` around `value` the nearer one. -/
def nearer (tie : Tie) (value : Ratio) (below : Nat) : Nat :=
  let twice : Ratio := ⟨2 * value.num, value.den⟩
  let sum : Ratio := ⟨2 * below + 1, 1⟩
  if twice.lt sum then below
  else if sum.lt twice then below + 1
  else tie.choose below

/-- Takes the zeros at the end of the digits into the exponent. -/
def strip (fuel : Nat) (d : Decimal) : Decimal :=
  match fuel with
  | 0 => d
  | fuel + 1 =>
    if d.digits ≠ 0 && d.digits % 10 = 0 then strip fuel ⟨d.digits / 10, d.exponent + 1⟩ else d

/-- The candidate with `count` digits, if one of the two neighbours of `value` on that grid lies
between `low` and `high`. -/
def onGrid (tie : Tie) (value low high : Ratio) (closed : Bool) (magnitude : Int)
    (count : Nat) : Option Decimal :=
  let exponent := magnitude + 1 - count
  let within (n : Nat) : Bool :=
    let point : Ratio := ⟨n, 1⟩
    let low := low.shift exponent
    let high := high.shift exponent
    (low.lt point || closed && !point.lt low) && (point.lt high || closed && !high.lt point)
  let scaled := value.shift exponent
  let below := scaled.floor
  match within below, within (below + 1) with
  | true, true => some ⟨nearer tie scaled below, exponent⟩
  | true, false => some ⟨below, exponent⟩
  | false, true => some ⟨below + 1, exponent⟩
  | false, false => none

/-- The shortest decimal that rounds to the double `x`, without zeros at its end. -/
def shortest (tie : Tie) (x : Binary64) : Decimal :=
  if x.mantissa = 0 then ⟨0, 0⟩
  else
    let quarter := x.exponent - 2
    let value := Ratio.binary (4 * x.mantissa) quarter
    let low := Ratio.binary (4 * x.mantissa - if x.isPowerOfTwo then 1 else 2) quarter
    let high := Ratio.binary (4 * x.mantissa + 2) quarter
    let magnitude := value.magnitude
    let closed := x.mantissa % 2 = 0
    let counts := (List.range 17).map (· + 1)
    ((counts.findSome? (onGrid tie value low high closed magnitude)).getD ⟨0, 0⟩).strip 20

end Decimal

end MacroPlugin
