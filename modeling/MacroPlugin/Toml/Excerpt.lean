import MacroPlugin.Toml.Value

/-!
A place in a configuration file as it is shown to the user: the line it is on, with carets below
it. Lines and columns count characters from one; a place that goes on behind the end of its line is
marked up to there, and every place is marked by at least one caret.
-/

namespace MacroPlugin.Toml

structure Excerpt where
  line : Nat
  column : Nat
  content : String
  carets : Nat
  deriving DecidableEq, Repr

namespace Excerpt

/-- How many octets characters take up. -/
def octets (text : List Char) : Nat :=
  (String.ofList text).utf8ByteSize

/-- The line with the start of an extent. -/
def ofExtent (text : List Char) (extent : Extent) : Excerpt :=
  let before := text.take (text.length - extent.start)
  let marked := (text.drop before.length).take (extent.start - extent.stop)
  let left := before.reverse.takeWhile (· ≠ '\n')
  let content := left.reverse ++ (text.drop before.length).takeWhile (· ≠ '\n')
  { line := before.count '\n' + 1
    column := left.length + 1
    content := String.ofList content
    carets := max 1 (min (octets marked) (octets content - left.length)) }

/-- The excerpt with the fault it illustrates. -/
def render (e : Excerpt) (fault : String) : String :=
  let number := toString e.line
  let margin := String.ofList (List.replicate (number.length + 1) ' ') ++ "|"
  let carets := String.ofList (List.replicate e.column ' ' ++ List.replicate e.carets '^')
  "TOML parse error at line " ++ number ++ ", column " ++ toString e.column ++ "\n" ++
    margin ++ "\n" ++
    number ++ " | " ++ e.content ++ "\n" ++
    margin ++ carets ++ "\n" ++
    fault ++ "\n"

end Excerpt

end MacroPlugin.Toml
