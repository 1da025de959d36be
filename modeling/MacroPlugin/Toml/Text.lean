import MacroPlugin.Toml.Value

/-!
The four kinds of texts in a configuration file: between quotes or apostrophes, on one line or
over several. Quoted texts know escapes; a text over several lines drops a line feed right behind
its opening, and a backslash at the end of a line joins lines. A function takes its text off the
front of the input, behind the opening; it fails where the text is malformed.
-/

namespace MacroPlugin.Toml

/-- The value of a hexadecimal digit. -/
def hexDigit? (c : Char) : Option Nat :=
  if '0' ≤ c && c ≤ '9' then some (c.toNat - 48)
  else if 'a' ≤ c && c ≤ 'f' then some (c.toNat - 87)
  else if 'A' ≤ c && c ≤ 'F' then some (c.toNat - 55)
  else none

/-- The character with the code point that hexadecimal digits denote. -/
def codePoint? (digits : List Char) : Option Char := do
  let value ← digits.foldlM (fun value c => do return 16 * value + (← hexDigit? c)) 0
  if value < 0xD800 || (0xDFFF < value && value < 0x110000) then some (Char.ofNat value) else none

/-- The meaning of a one-letter escape. -/
def shortEscape? : Char → Option Char
  | 'b' => some '\x08'
  | 't' => some '\t'
  | 'n' => some '\n'
  | 'f' => some '\x0c'
  | 'r' => some '\r'
  | '"' => some '"'
  | '\\' => some '\\'
  | _ => none

/-- Tabs and everything but control characters. -/
def isPlain (c : Char) : Bool :=
  c = '\t' || (0x20 ≤ c.toNat && c.toNat ≠ 0x7F)

def isBlank (c : Char) : Bool :=
  c = ' ' || c = '\t'

/-- Drops a line end, if one is next. -/
def dropLineEnd : List Char → List Char
  | '\n' :: rest => rest
  | '\r' :: '\n' :: rest => rest
  | input => input

/-- Whether a line end is next, apart from blanks. -/
def endsLine (input : List Char) : Bool :=
  match input.dropWhile isBlank with
  | '\n' :: _ => true
  | '\r' :: '\n' :: _ => true
  | _ => false

namespace Text

/-- A quoted text on one line. -/
def quoted (taken : List Char) : List Char → Option (List Char × List Char)
  | [] => none
  | '"' :: rest => some (taken.reverse, rest)
  | '\\' :: 'u' :: a :: b :: c :: d :: rest =>
    match codePoint? [a, b, c, d] with
    | some meant => quoted (meant :: taken) rest
    | none => none
  | '\\' :: 'U' :: a :: b :: c :: d :: e :: f :: g :: h :: rest =>
    match codePoint? [a, b, c, d, e, f, g, h] with
    | some meant => quoted (meant :: taken) rest
    | none => none
  | '\\' :: letter :: rest =>
    match shortEscape? letter with
    | some meant => quoted (meant :: taken) rest
    | none => none
  | c :: rest => if isPlain c && c ≠ '\\' then quoted (c :: taken) rest else none

/-- A text between apostrophes on one line. -/
def literal (taken : List Char) : List Char → Option (List Char × List Char)
  | [] => none
  | '\'' :: rest => some (taken.reverse, rest)
  | c :: rest => if isPlain c then literal (c :: taken) rest else none

/-- A quoted text over several lines. Up to two quotes may stand right before its end. While
`joining`, blanks and line ends are dropped. -/
def longQuoted (joining : Bool) (taken : List Char) : List Char → Option (List Char × List Char)
  | [] => none
  | '"' :: '"' :: '"' :: '"' :: '"' :: rest => some (('"' :: '"' :: taken).reverse, rest)
  | '"' :: '"' :: '"' :: '"' :: rest => some (('"' :: taken).reverse, rest)
  | '"' :: '"' :: '"' :: rest => some (taken.reverse, rest)
  | '\r' :: '\n' :: rest => longQuoted joining (if joining then taken else '\n' :: taken) rest
  | '\n' :: rest => longQuoted joining (if joining then taken else '\n' :: taken) rest
  | '\\' :: 'u' :: a :: b :: c :: d :: rest =>
    match codePoint? [a, b, c, d] with
    | some meant => longQuoted false (meant :: taken) rest
    | none => none
  | '\\' :: 'U' :: a :: b :: c :: d :: e :: f :: g :: h :: rest =>
    match codePoint? [a, b, c, d, e, f, g, h] with
    | some meant => longQuoted false (meant :: taken) rest
    | none => none
  | '\\' :: letter :: rest =>
    match shortEscape? letter with
    | some meant => longQuoted false (meant :: taken) rest
    | none => if endsLine (letter :: rest) then longQuoted true taken (letter :: rest) else none
  | c :: rest =>
    if joining && isBlank c then longQuoted true taken rest
    else if isPlain c && c ≠ '\\' then longQuoted false (c :: taken) rest
    else none

/-- A text between apostrophes over several lines. -/
def longLiteral (taken : List Char) : List Char → Option (List Char × List Char)
  | [] => none
  | '\'' :: '\'' :: '\'' :: '\'' :: '\'' :: rest => some (('\'' :: '\'' :: taken).reverse, rest)
  | '\'' :: '\'' :: '\'' :: '\'' :: rest => some (('\'' :: taken).reverse, rest)
  | '\'' :: '\'' :: '\'' :: rest => some (taken.reverse, rest)
  | '\r' :: '\n' :: rest => longLiteral ('\n' :: taken) rest
  | '\n' :: rest => longLiteral ('\n' :: taken) rest
  | c :: rest => if isPlain c then longLiteral (c :: taken) rest else none

/-- A text of any kind, opening included. -/
def read : List Char → Option (List Char × List Char)
  | '"' :: '"' :: '"' :: rest => longQuoted false [] (dropLineEnd rest)
  | '"' :: rest => quoted [] rest
  | '\'' :: '\'' :: '\'' :: rest => longLiteral [] (dropLineEnd rest)
  | '\'' :: rest => literal [] rest
  | _ => none

end Text

end MacroPlugin.Toml
