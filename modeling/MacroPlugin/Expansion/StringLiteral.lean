/-!
Quoting a text as a string literal. A literal with `n` hashes around its quotes ends at a quote
followed by `n` hashes, and an escape in it starts at a backslash followed by `n` hashes. A text
without quotes and backslashes needs no hashes; any other text needs one more than the longest row
of hashes behind a quote or backslash in it.
-/

namespace MacroPlugin.StringLiteral

/-- The characters that mean something in a literal when enough hashes follow. -/
def isSpecial (c : Char) : Bool :=
  c = '"' || c = '\\'

/-- The length of the longest row of hashes behind a special character. -/
def longestRow : List Char → Nat
  | [] => 0
  | c :: rest =>
    if isSpecial c then max (rest.takeWhile (· = '#')).length (longestRow rest)
    else longestRow rest

/-- The number of hashes that a literal of the text needs. -/
def hashCount (text : List Char) : Nat :=
  if text.any isSpecial then longestRow text + 1 else 0

def render (text : List Char) : List Char :=
  let hashes := List.replicate (hashCount text) '#'
  hashes ++ '"' :: text ++ '"' :: hashes

end MacroPlugin.StringLiteral
