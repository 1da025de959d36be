import MacroPlugin.Message.Request

/-!
A request as a block comment, which a plugin in development appends to what it expands. Block
comments nest, so the marks that begin and end one are broken up inside the request.
-/

namespace MacroPlugin

namespace Echo

/-- Writes a space between each `first` and the `second` right behind it. -/
def breakUp (first second : Char) : List Char → List Char
  | a :: b :: rest =>
    if a = first && b = second then a :: ' ' :: b :: breakUp first second rest
    else a :: breakUp first second (b :: rest)
  | rest => rest

end Echo

/-- The request in a block comment of its own. -/
def Request.comment (request : Request) : String :=
  let text := (Wire.toJson request).pretty.toList
  "/* " ++ String.ofList (Echo.breakUp '/' '*' (Echo.breakUp '*' '/' text)) ++ " */"

end MacroPlugin
