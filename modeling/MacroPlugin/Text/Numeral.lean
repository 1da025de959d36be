/-!
Numbers that a user writes in ASCII digits, with or without a sign in front of them.
-/

namespace MacroPlugin.Numeral

/-- The number that digits denote. There is at least one of them, and leading zeros do not
matter. -/
def digits? (text : List Char) : Option Nat :=
  if text.isEmpty || !text.all Char.isDigit then none
  else some (text.foldl (fun value c => 10 * value + (c.toNat - 48)) 0)

/-- A number behind an optional plus sign. -/
def natural? : List Char → Option Nat
  | '+' :: text => digits? text
  | text => digits? text

/-- A number behind an optional sign of either kind. -/
def integer? : List Char → Option Int
  | '-' :: text => (digits? text).map fun value => -(value : Int)
  | text => (natural? text).map Int.ofNat

end MacroPlugin.Numeral
