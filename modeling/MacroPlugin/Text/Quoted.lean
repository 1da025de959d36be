import MacroPlugin.Text.Unprintable

/-!
A text as it is shown inside a message: between quotes, with everything that would not show
spelled out. Printable characters of any script stand for themselves.
-/

namespace MacroPlugin

namespace Quoted

/-- A number in base sixteen, lower case, without leading zeros. -/
def hex (n : Nat) : String :=
  String.ofList (Nat.toDigits 16 n)

def escape (c : Char) : String :=
  match c with
  | '\x00' => "\\0"
  | '\t' => "\\t"
  | '\n' => "\\n"
  | '\r' => "\\r"
  | '"' => "\\\""
  | '\\' => "\\\\"
  | c => if Unprintable.contains c then "\\u\x7b" ++ hex c.toNat ++ "\x7d" else c.toString

end Quoted

/-- The text between quotes, with `escape` applied to each of its characters. -/
def Quoted.render (text : String) : String :=
  "\"" ++ String.join (text.toList.map Quoted.escape) ++ "\""

end MacroPlugin
