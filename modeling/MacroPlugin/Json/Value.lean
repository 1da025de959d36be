/-!
JSON values as they are written: objects keep the order of their entries, and numbers are natural.
There are two ways to write a value. `compact` has no blanks at all; `pretty` puts every part on a
line of its own, two spaces deeper than what contains it, and leaves empty containers closed up.
-/

namespace MacroPlugin

inductive Json where
  | null
  | boolean (value : Bool)
  | number (value : Nat)
  | text (value : String)
  | array (items : List Json)
  | object (entries : List (String × Json))

namespace Json

/-- The digits of a control character's escape. -/
def hexEscape (n : Nat) : String :=
  "\\u00" ++ String.ofList [Nat.digitChar (n / 16), Nat.digitChar (n % 16)]

/-- A character as it stands inside a written text. -/
def escape (c : Char) : String :=
  match c with
  | '"' => "\\\""
  | '\\' => "\\\\"
  | '\x08' => "\\b"
  | '\x0c' => "\\f"
  | '\n' => "\\n"
  | '\r' => "\\r"
  | '\t' => "\\t"
  | c => if c.toNat < 0x20 then hexEscape c.toNat else c.toString

def quote (text : String) : String :=
  "\"" ++ String.join (text.toList.map escape) ++ "\""

mutual

def compact : Json → String
  | .null => "null"
  | .boolean value => if value then "true" else "false"
  | .number value => toString value
  | .text value => quote value
  | .array items => "[" ++ compactItems items ++ "]"
  | .object entries => "\x7b" ++ compactEntries entries ++ "\x7d"

def compactItems : List Json → String
  | [] => ""
  | [item] => item.compact
  | item :: items => item.compact ++ "," ++ compactItems items

def compactEntries : List (String × Json) → String
  | [] => ""
  | [(key, value)] => quote key ++ ":" ++ value.compact
  | (key, value) :: entries => quote key ++ ":" ++ value.compact ++ "," ++ compactEntries entries

end

/-- A new line at the given depth. -/
def newline (depth : Nat) : String :=
  "\n" ++ String.ofList (List.replicate (2 * depth) ' ')

mutual

/-- The value as it is written when it begins at the given depth. -/
def prettyAt (depth : Nat) : Json → String
  | .array [] => "[]"
  | .array items => "[" ++ prettyItems (depth + 1) items ++ newline depth ++ "]"
  | .object [] => "\x7b\x7d"
  | .object entries => "\x7b" ++ prettyEntries (depth + 1) entries ++ newline depth ++ "\x7d"
  | .null => "null"
  | .boolean value => if value then "true" else "false"
  | .number value => toString value
  | .text value => quote value

def prettyItems (depth : Nat) : List Json → String
  | [] => ""
  | [item] => newline depth ++ item.prettyAt depth
  | item :: items => newline depth ++ item.prettyAt depth ++ "," ++ prettyItems depth items

def prettyEntries (depth : Nat) : List (String × Json) → String
  | [] => ""
  | [(key, value)] => newline depth ++ quote key ++ ": " ++ value.prettyAt depth
  | (key, value) :: entries =>
    newline depth ++ quote key ++ ": " ++ value.prettyAt depth ++ "," ++ prettyEntries depth entries

end

def pretty (value : Json) : String :=
  value.prettyAt 0

end Json

end MacroPlugin
