import MacroPlugin.Message.Macro
import MacroPlugin.Message.Fragment
import MacroPlugin.Message.Capability

/-!
What the host asks of a plugin. On the wire a request is an object with one entry, whose key names
the kind of request.
-/

namespace MacroPlugin

/-- The use of a macro that stands on its own. The discriminator is unique to the place of use. -/
structure FreestandingUse where
  reference : Reference
  role : Option Role
  discriminator : String
  fragment : Fragment
  deriving DecidableEq, Repr

/-- The use of a macro as an attribute of a declaration. Which of the optional fragments are there
depends on the role. -/
structure AttachedUse where
  reference : Reference
  role : Role
  discriminator : String
  attr : Fragment
  decl : Fragment
  parentDecl : Option Fragment
  extendedType : Option Fragment
  conformanceList : Option Fragment
  deriving DecidableEq, Repr

inductive Request where
  | getCapability (host : Option HostCapability)
  | expandFreestanding (use : FreestandingUse)
  | expandAttached (use : AttachedUse)
  | loadLibrary (path moduleName : String)
  deriving DecidableEq, Repr

namespace Request

/-- The name of the kind of request on the wire. -/
def kind : Request → String
  | .getCapability _ => "getCapability"
  | .expandFreestanding _ => "expandFreestandingMacro"
  | .expandAttached _ => "expandAttachedMacro"
  | .loadLibrary _ _ => "loadPluginLibrary"

abbrev Parts : Type :=
  (Option HostCapability × Unit) ⊕
  (Reference × Option Role × String × Fragment × Unit) ⊕
  (Reference × Role × String × Fragment × Fragment × Option Fragment × Option Fragment ×
    Option Fragment × Unit) ⊕
  (String × String × Unit) ⊕ Empty

def parts : Correspondence Request Parts where
  forth
    | .getCapability host => .inl (host, ())
    | .expandFreestanding use =>
      .inr (.inl (use.reference, use.role, use.discriminator, use.fragment, ()))
    | .expandAttached use =>
      .inr (.inr (.inl (use.reference, use.role, use.discriminator, use.attr, use.decl,
        use.parentDecl, use.extendedType, use.conformanceList, ())))
    | .loadLibrary path moduleName => .inr (.inr (.inr (.inl (path, moduleName, ()))))
  back
    | .inl (host, _) => .getCapability host
    | .inr (.inl (reference, role, discriminator, fragment, _)) =>
      .expandFreestanding ⟨reference, role, discriminator, fragment⟩
    | .inr (.inr (.inl (reference, role, discriminator, attr, decl, parentDecl, extendedType,
        conformanceList, _))) =>
      .expandAttached ⟨reference, role, discriminator, attr, decl, parentDecl, extendedType,
        conformanceList⟩
    | .inr (.inr (.inr (.inl (path, moduleName, _)))) => .loadLibrary path moduleName
  back_forth request := by cases request <;> rfl
  forth_back
    | .inl _ => rfl
    | .inr (.inl _) => rfl
    | .inr (.inr (.inl _)) => rfl
    | .inr (.inr (.inr (.inl _))) => rfl

end Request

open Wire in
instance : Wire Request where
  schema := .union <|
    .cons "getCapability" "struct variant HostToPluginMessage::GetCapability"
      (.optional "capability" (schema HostCapability) .nil) <|
    .cons "expandFreestandingMacro" "struct variant HostToPluginMessage::ExpandFreestandingMacro"
      (.required "macro" (schema Reference) <|
        .optional "macroRole" (schema Role) <|
        .required "discriminator" .text <|
        .required "syntax" (schema Fragment) .nil) <|
    .cons "expandAttachedMacro" "struct variant HostToPluginMessage::ExpandAttachedMacro"
      (.required "macro" (schema Reference) <|
        .required "macroRole" (schema Role) <|
        .required "discriminator" .text <|
        .required "attributeSyntax" (schema Fragment) <|
        .required "declSyntax" (schema Fragment) <|
        .optional "parentDeclSyntax" (schema Fragment) <|
        .optional "extendedTypeSyntax" (schema Fragment) <|
        .optional "conformanceListSyntax" (schema Fragment) .nil) <|
    .cons "loadPluginLibrary" "struct variant HostToPluginMessage::LoadPluginLibrary"
      (.required "libraryPath" .text <|
        .required "moduleName" .text .nil) .nil
  values := Request.parts.andThen <|
    .either (.pair (.option values) .same) <|
    .either (.pair values <| .pair (.option values) <| .pair .same <| .pair values .same) <|
    .either (.pair values <| .pair values <| .pair .same <| .pair values <| .pair values <|
      .pair (.option values) <| .pair (.option values) <| .pair (.option values) .same) <|
    .either .same .same

end MacroPlugin
