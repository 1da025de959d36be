/-!
Values of a configuration file, with the places they were read from. A place is given by how many
characters of the file lie behind it. Tables remember how they came about, since that decides
whether later lines may add to them.
-/

namespace MacroPlugin.Toml

/-- A part of the file: the numbers of characters behind its start and behind its end. -/
structure Extent where
  start : Nat
  stop : Nat
  deriving DecidableEq, Repr

/-- A key with the place it was read from. -/
structure Key where
  name : String
  extent : Extent
  deriving DecidableEq, Repr

inductive Scalar where
  | text (value : String)
  | integer (value : Int)
  | real (value : Float)
  | boolean (value : Bool)
  | dateTime

/-- How a table came about: as a value between braces, through a dotted key, as the parent of a
table with a header, or through a header of its own. -/
inductive Origin where
  | inline
  | dotted
  | implied
  | headed
  deriving DecidableEq, Repr

inductive Value where
  | scalar (extent : Extent) (scalar : Scalar)
  | array (extent : Extent) (items : List Value)
  | table (origin : Origin) (extent : Option Extent) (entries : List (Key × Value))
  | tables (items : List Value)

abbrev Entries := List (Key × Value)

/-- The place of a value. Tables that no value and no header introduces have none. -/
def Value.extent? : Value → Option Extent
  | .scalar extent _ => some extent
  | .array extent _ => some extent
  | .table _ extent _ => extent
  | .tables items =>
    match items.head?, items.getLast? with
    | some (.table _ (some first) _), some (.table _ (some last) _) => some ⟨first.start, last.stop⟩
    | _, _ => none

end MacroPlugin.Toml
