import MacroPlugin.Expansion.Implementation
import MacroPlugin.Message.Reply

/-!
Which kind of reply carries an expansion. Sides that agree on a recent version use one kind for
all expansions; otherwise there is one kind for each shape of macro, and the one for attached
macros carries a list.
-/

namespace MacroPlugin

inductive ReplyForm where
  | unified
  | freestanding
  | attached
  deriving DecidableEq, Repr

namespace ReplyForm

/-- The form for a macro of the given shape. -/
def choose (agreement : Agreement) : Shape → ReplyForm
  | .freestanding => if agreement.isUnified then .unified else .freestanding
  | .attached => if agreement.isUnified then .unified else .attached

/-- The reply that carries an expansion. In the list of the attached form a present source is the
only element, and an absent source leaves the list out. -/
def reply (form : ReplyForm) (expansion : Expansion) : Reply :=
  match form with
  | .unified => .expansion expansion.source expansion.diagnostics
  | .freestanding => .freestandingExpansion expansion.source expansion.diagnostics
  | .attached => .attachedExpansion (expansion.source.map ([·])) expansion.diagnostics

end ReplyForm

end MacroPlugin
