import MacroPlugin.Text.Quoted

/-!
How data can be well formed and still not be what a type asks for. The same six mismatches arise
from JSON messages and from configuration files, with the same wording.
-/

namespace MacroPlugin

/-- What stands where something else was expected. The digits of a `real` number are chosen by
the format it was read from. -/
inductive Found where
  | null
  | boolean (value : Bool)
  | integer (value : Int)
  | real (digits : String)
  | text (value : String)
  | sequence
  | map
  | unitVariant
  deriving DecidableEq

def Found.describe : Found → String
  | .null => "null"
  | .boolean value => "boolean `" ++ (if value then "true" else "false") ++ "`"
  | .integer value => "integer `" ++ toString value ++ "`"
  | .real digits => "floating point `" ++ digits ++ "`"
  | .text value => "string " ++ Quoted.render value
  | .sequence => "sequence"
  | .map => "map"
  | .unitVariant => "unit variant"

inductive Mismatch where
  | wrongType (found : Found) (expected : String)
  | wrongValue (found : Found) (expected : String)
  | missing (key : String)
  | duplicate (key : String)
  | tooShort (count : Nat) (title : String) (size : Nat)
  | unknownName (name : String) (known : List String)
  deriving DecidableEq

namespace Mismatch

/-- The names that would have been accepted, in their order. -/
def expectation : List String → String
  | [] => "there are no variants"
  | [a] => "expected `" ++ a ++ "`"
  | [a, b] => "expected `" ++ a ++ "` or `" ++ b ++ "`"
  | known => "expected one of " ++ ", ".intercalate (known.map fun name => "`" ++ name ++ "`")

def message : Mismatch → String
  | .wrongType found expected => "invalid type: " ++ found.describe ++ ", expected " ++ expected
  | .wrongValue found expected => "invalid value: " ++ found.describe ++ ", expected " ++ expected
  | .missing key => "missing field `" ++ key ++ "`"
  | .duplicate key => "duplicate field `" ++ key ++ "`"
  | .tooShort count title size =>
    "invalid length " ++ toString count ++ ", expected " ++ title ++ " with " ++ toString size ++
      (if size = 1 then " element" else " elements")
  | .unknownName name known => "unknown variant `" ++ name ++ "`, " ++ expectation known

end Mismatch

end MacroPlugin
