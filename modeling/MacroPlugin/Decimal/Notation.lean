import MacroPlugin.Decimal.Shortest

/-!
How a double is written. There are two notations for its shortest decimal: positional, and a
digit, a fraction and a power of ten. A number inside a JSON error is positional while it is not
too large or too small; a number inside a configuration error always is. The two also break ties
between equally near decimals differently.
-/

namespace MacroPlugin.Decimal

/-- The digits with a point in their place, and with `.0` where there is no fraction. -/
def positional (d : Decimal) : String :=
  let digits := Nat.toDigits 10 d.digits
  if 0 ≤ d.exponent then
    String.ofList (digits ++ List.replicate d.exponent.toNat '0') ++ ".0"
  else
    let places := (-d.exponent).toNat
    if places < digits.length then
      let whole := digits.length - places
      String.ofList (digits.take whole) ++ "." ++ String.ofList (digits.drop whole)
    else
      "0." ++ String.ofList (List.replicate (places - digits.length) '0' ++ digits)

/-- One digit, the others as a fraction, and the exponent of ten with its sign. -/
def scientific (d : Decimal) : String :=
  let digits := Nat.toDigits 10 d.digits
  let exponent := d.exponent + digits.length - 1
  let fraction := if digits.length = 1 then "" else "." ++ String.ofList (digits.drop 1)
  let sign := if exponent < 0 then "-" else "+"
  String.ofList (digits.take 1) ++ fraction ++ "e" ++ sign ++ toString exponent.natAbs

/-- Positional for zero and from `1e-5` up to but not including `1e16`, scientific elsewhere. -/
def moderate (d : Decimal) : String :=
  let leading := d.exponent + (Nat.toDigits 10 d.digits).length - 1
  if d.digits = 0 || (-5 ≤ leading && leading < 16) then d.positional else d.scientific

/-- A way to write doubles: which shortest decimal, and how it is laid out. -/
structure Style where
  tie : Tie
  layout : Decimal → String

namespace Style

/-- Doubles in JSON errors. -/
def json : Style where
  tie := .even
  layout := moderate

/-- Doubles in configuration errors. -/
def configuration : Style where
  tie := .up
  layout := positional

/-- The sign, zero included, and the shortest decimal. NaN has no sign. -/
def write (style : Style) (x : Float) : String :=
  let sign := if x.toBits >>> 63 = 1 then "-" else ""
  match Binary64.ofBits? x.toBits with
  | some value => sign ++ style.layout (shortest style.tie value)
  | none => if x.toBits <<< 12 = 0 then sign ++ "inf" else "NaN"

end Style

end MacroPlugin.Decimal
