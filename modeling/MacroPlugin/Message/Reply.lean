import MacroPlugin.Message.Capability
import MacroPlugin.Message.Diagnostic

/-!
What a plugin answers. On the wire a reply is an object with one entry, whose key names the kind
of reply. An expansion has one kind of reply of its own, and two older ones, of which the one for
attached macros carries a list of sources.
-/

namespace MacroPlugin

inductive Reply where
  | capability (plugin : PluginCapability)
  | expansion (source : Option String) (diagnostics : List Diagnostic)
  | freestandingExpansion (source : Option String) (diagnostics : List Diagnostic)
  | attachedExpansion (sources : Option (List String)) (diagnostics : List Diagnostic)
  | libraryLoaded (loaded : Bool) (diagnostics : List Diagnostic)
  deriving DecidableEq, Repr

namespace Reply

/-- The name of the kind of reply on the wire. -/
def kind : Reply → String
  | .capability _ => "getCapabilityResult"
  | .expansion _ _ => "expandMacroResult"
  | .freestandingExpansion _ _ => "expandFreestandingMacroResult"
  | .attachedExpansion _ _ => "expandAttachedMacroResult"
  | .libraryLoaded _ _ => "loadPluginLibraryResult"

/-- The diagnostics that a reply carries; a capability carries none. -/
def diagnostics : Reply → List Diagnostic
  | .capability _ => []
  | .expansion _ diagnostics | .freestandingExpansion _ diagnostics
  | .attachedExpansion _ diagnostics | .libraryLoaded _ diagnostics => diagnostics

abbrev Parts : Type :=
  (PluginCapability × Unit) ⊕
  (Option String × List Diagnostic × Unit) ⊕
  (Option String × List Diagnostic × Unit) ⊕
  (Option (List String) × List Diagnostic × Unit) ⊕
  (Bool × List Diagnostic × Unit) ⊕ Empty

def parts : Correspondence Reply Parts where
  forth
    | .capability plugin => .inl (plugin, ())
    | .expansion source diagnostics => .inr (.inl (source, diagnostics, ()))
    | .freestandingExpansion source diagnostics => .inr (.inr (.inl (source, diagnostics, ())))
    | .attachedExpansion sources diagnostics =>
      .inr (.inr (.inr (.inl (sources, diagnostics, ()))))
    | .libraryLoaded loaded diagnostics =>
      .inr (.inr (.inr (.inr (.inl (loaded, diagnostics, ())))))
  back
    | .inl (plugin, _) => .capability plugin
    | .inr (.inl (source, diagnostics, _)) => .expansion source diagnostics
    | .inr (.inr (.inl (source, diagnostics, _))) => .freestandingExpansion source diagnostics
    | .inr (.inr (.inr (.inl (sources, diagnostics, _)))) => .attachedExpansion sources diagnostics
    | .inr (.inr (.inr (.inr (.inl (loaded, diagnostics, _))))) =>
      .libraryLoaded loaded diagnostics
  back_forth reply := by cases reply <;> rfl
  forth_back
    | .inl _ => rfl
    | .inr (.inl _) => rfl
    | .inr (.inr (.inl _)) => rfl
    | .inr (.inr (.inr (.inl _))) => rfl
    | .inr (.inr (.inr (.inr (.inl _)))) => rfl

end Reply

open Wire in
instance : Wire Reply where
  schema := .union <|
    .cons "getCapabilityResult" "struct variant PluginToHostMessage::GetCapabilityResult"
      (.required "capability" (schema PluginCapability) .nil) <|
    .cons "expandMacroResult" "struct variant PluginToHostMessage::ExpandMacroResult"
      (.optional "expandedSource" .text <|
        .required "diagnostics" (.list (schema Diagnostic)) .nil) <|
    .cons "expandFreestandingMacroResult"
      "struct variant PluginToHostMessage::ExpandFreestandingMacroResult"
      (.optional "expandedSource" .text <|
        .required "diagnostics" (.list (schema Diagnostic)) .nil) <|
    .cons "expandAttachedMacroResult"
      "struct variant PluginToHostMessage::ExpandAttachedMacroResult"
      (.optional "expandedSources" (.list .text) <|
        .required "diagnostics" (.list (schema Diagnostic)) .nil) <|
    .cons "loadPluginLibraryResult" "struct variant PluginToHostMessage::LoadPluginLibraryResult"
      (.required "loaded" .boolean <|
        .required "diagnostics" (.list (schema Diagnostic)) .nil) .nil
  values := Reply.parts.andThen <|
    .either (.pair values .same) <|
    .either (.pair .same <| .pair (.list values) .same) <|
    .either (.pair .same <| .pair (.list values) .same) <|
    .either (.pair .same <| .pair (.list values) .same) <|
    .either (.pair .same <| .pair (.list values) .same) .same

end MacroPlugin
