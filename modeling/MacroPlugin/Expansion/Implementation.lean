import MacroPlugin.Message.Request
import MacroPlugin.Message.Diagnostic

/-!
What a macro implementation is: a function from the use of a macro to an outcome. An
implementation serves either uses that stand alone or uses that are attached to a declaration, and
which of the two is fixed when it is registered.
-/

namespace MacroPlugin

/-- What an implementation produced: source text, unless it produced nothing, and diagnostics. -/
structure Expansion where
  source : Option String := none
  diagnostics : List Diagnostic := []
  deriving DecidableEq, Repr

namespace Expansion

def ofSource (source : String) : Expansion :=
  { source := some source }

/-- No source, and the one diagnostic that says why. -/
def failure (diagnostic : Diagnostic) : Expansion :=
  { diagnostics := [diagnostic] }

end Expansion

/-- Why an implementation could not expand a macro. -/
inductive Failure where
  | refused (message : String)
  | malformed (source reason : String)
  deriving DecidableEq, Repr

def Failure.message : Failure → String
  | .refused message => message
  | .malformed source reason => "cannot interpret `" ++ source ++ "`: " ++ reason

/-- How an implementation ended. It may break off with a text that says why, or without one. -/
inductive Outcome where
  | produced (expansion : Expansion)
  | failed (failure : Failure)
  | brokeOff (reason : Option String)
  deriving DecidableEq, Repr

def Outcome.ofExcept : Except Failure Expansion → Outcome
  | .ok expansion => .produced expansion
  | .error failure => .failed failure

/-- The two shapes of implementations. -/
inductive Shape where
  | freestanding
  | attached
  deriving DecidableEq, Repr

def Shape.name : Shape → String
  | .freestanding => "freestanding"
  | .attached => "attached"

inductive Implementation where
  | freestanding (expand : FreestandingUse → Outcome)
  | attached (expand : AttachedUse → Outcome)

def Implementation.shape : Implementation → Shape
  | .freestanding _ => .freestanding
  | .attached _ => .attached

end MacroPlugin
