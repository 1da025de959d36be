import MacroPlugin.Dispatch.Echo
import MacroPlugin.Dispatch.ReplyForm
import MacroPlugin.Expansion.Registry

/-!
Answering requests. Every request has exactly one reply: an implementation that is missing, of the
wrong shape, failing or breaking off leads to a diagnostic in the reply. Of earlier requests a
dispatcher remembers only what was last agreed about versions.
-/

namespace MacroPlugin

structure Dispatcher where
  registry : Registry
  capability : PluginCapability
  /-- Whether each expansion is followed by a comment with its request. -/
  echo : Bool := false
  /-- What the host and the plugin agreed on, once the host has asked. -/
  agreed : Option Agreement := none

namespace Dispatcher

def isNegotiated (d : Dispatcher) : Bool :=
  d.agreed.isSome

/-- The agreement in effect. A host that has not asked yet counts as one that declared nothing. -/
def agreement (d : Dispatcher) : Agreement :=
  d.agreed.getD (.silent d.capability.protocolVersion)

/-! Diagnostics about the macro itself. -/

def unregistered (reference : Reference) (anchor : Fragment) : Diagnostic :=
  .error anchor <|
    "macro " ++ reference.describe ++ " is not provided by this plugin: no implementation for " ++
    "module '" ++ reference.moduleName ++ "' type '" ++ reference.typeName ++ "'"

/-- The shape of a macro in a sentence. -/
def shapePhrase : Shape → String
  | .freestanding => "a freestanding macro"
  | .attached => "an attached macro"

/-- A use of one shape met an implementation of another. The note has no location, since
implementations are not registered with one. -/
def wrongShape (reference : Reference) (anchor : Fragment) (used registered : Shape) : Diagnostic :=
  let message :=
    "macro " ++ reference.describe ++ " cannot be expanded as " ++ shapePhrase used ++
    ": module '" ++ reference.moduleName ++ "' type '" ++ reference.typeName ++
    "' implements a different role"
  let note := "'" ++ reference.typeName ++ "' is registered as " ++ shapePhrase registered
  (Diagnostic.error anchor message).addNote .nowhere note

def failed (reference : Reference) (anchor : Fragment) (failure : Failure) : Diagnostic :=
  .error anchor ("macro " ++ reference.describe ++ " failed to expand: " ++ failure.message)

def brokenOff (reference : Reference) (anchor : Fragment) (reason : Option String) : Diagnostic :=
  .error anchor <|
    "macro " ++ reference.describe ++ " panicked during expansion: " ++
    reason.getD "unknown panic"

/-- The expansion that an outcome amounts to. -/
def settle (reference : Reference) (anchor : Fragment) : Outcome → Expansion
  | .produced expansion => expansion
  | .failed failure => .failure (failed reference anchor failure)
  | .brokeOff reason => .failure (brokenOff reference anchor reason)

/-- Runs the implementation of a macro that stands on its own. -/
def runFreestanding (d : Dispatcher) (use : FreestandingUse) : Expansion :=
  match d.registry.find? use.reference.key with
  | some (.freestanding expand) => settle use.reference use.fragment (expand use)
  | some (.attached _) =>
    .failure (wrongShape use.reference use.fragment .freestanding .attached)
  | none => .failure (unregistered use.reference use.fragment)

/-- Runs the implementation of an attribute. Diagnostics about the macro itself are anchored at
the attribute and not at the declaration. -/
def runAttached (d : Dispatcher) (use : AttachedUse) : Expansion :=
  match d.registry.find? use.reference.key with
  | some (.attached expand) => settle use.reference use.attr (expand use)
  | some (.freestanding _) => .failure (wrongShape use.reference use.attr .attached .freestanding)
  | none => .failure (unregistered use.reference use.attr)

/-- A source, followed by the request on a new line if requests are echoed. -/
def withEcho (d : Dispatcher) (request : Request) (source : String) : String :=
  if d.echo then source ++ "\n" ++ request.comment else source

/-- What stands for an absent source. -/
def placeholder (d : Dispatcher) (request : Request) : String :=
  if d.echo then request.comment else ""

/-- The source of a freestanding reply. It is left out only if there is nothing to report. -/
def freestandingSource (d : Dispatcher) (request : Request) (expansion : Expansion) :
    Option String :=
  match expansion.source with
  | some source => some (d.withEcho request source)
  | none => if expansion.diagnostics.isEmpty then none else some (d.placeholder request)

def answerFreestanding (d : Dispatcher) (use : FreestandingUse) : Reply :=
  let expansion := d.runFreestanding use
  let source := d.freestandingSource (.expandFreestanding use) expansion
  (ReplyForm.choose d.agreement .freestanding).reply { expansion with source }

/-- An absent source of an attribute stays absent. -/
def answerAttached (d : Dispatcher) (use : AttachedUse) : Reply :=
  let expansion := d.runAttached use
  let source := expansion.source.map (d.withEcho (.expandAttached use))
  (ReplyForm.choose d.agreement .attached).reply { expansion with source }

/-- Answers a request. The plugin's capability is sent as it is, whatever the host declared, and
libraries are never loaded. -/
def answer (d : Dispatcher) : Request → Reply × Dispatcher
  | .getCapability host =>
    (.capability d.capability, { d with agreed := some (.between host d.capability) })
  | .expandFreestanding use => (d.answerFreestanding use, d)
  | .expandAttached use => (d.answerAttached use, d)
  | .loadLibrary _ _ => (.libraryLoaded false [], d)

end Dispatcher

end MacroPlugin
