import MacroPlugin.Expansion.Argument
import MacroPlugin.Expansion.Registry
import MacroPlugin.Expansion.StringLiteral
import MacroPlugin.Text.Blank

/-!
The example macros that the plugin offers. They come in two modules, `ExampleMacros` and
`StringifyMacros`.
-/

namespace MacroPlugin.Builtin

/-- `#name(x + y)` becomes `(x + y, "x + y")`. -/
def stringify (use : FreestandingUse) : Except Failure Expansion := do
  let argument ← use.fragment.argument
  let text := '(' :: argument ++ ", ".toList ++ StringLiteral.render argument ++ [')']
  return .ofSource (String.ofList text)

/-- `#name("message")` becomes nothing and reports the message as a warning about the whole
call. -/
def warn (use : FreestandingUse) : Except Failure Expansion := do
  let argument ← use.fragment.argument
  let message := trimMatches (· = '"') (trimBlank argument)
  if message.isEmpty then return .ofSource ""
  else
    let warning := Diagnostic.warning use.fragment (String.ofList message)
    return { source := some "", diagnostics := [warning.addHighlight (.of use.fragment)] }

/-- An attribute that adds nothing. -/
def addNothing (_ : AttachedUse) : Except Failure Expansion :=
  .ok (.ofSource "")

/-- An attribute that turns a stored property into a constant. -/
def addAccessors (_ : AttachedUse) : Except Failure Expansion :=
  .ok (.ofSource "get \x7b \"some value\" \x7d set \x7b\x7d")

/-- An attribute that adds the listed conformances to the extended type; nothing at all if either
is missing. -/
def addExtension (use : AttachedUse) : Except Failure Expansion :=
  match use.extendedType, use.conformanceList with
  | some extendedType, some conformanceList =>
    let conformances := trimBlank conformanceList.source.toList
    if conformances.isEmpty then .ok {}
    else
      let type := trimBlank extendedType.source.toList
      .ok <| .ofSource <| "extension " ++ String.ofList type ++ ": " ++
        String.ofList conformances ++ " \x7b\x7d"
  | _, _ => .ok {}

def freestanding (moduleName typeName : String)
    (expand : FreestandingUse → Except Failure Expansion) : Registration :=
  ⟨⟨moduleName, typeName⟩, .freestanding fun use => .ofExcept (expand use)⟩

def attached (moduleName typeName : String)
    (expand : AttachedUse → Except Failure Expansion) : Registration :=
  ⟨⟨moduleName, typeName⟩, .attached fun use => .ofExcept (expand use)⟩

def exampleModule : String := "ExampleMacros"

def stringifyModule : String := "StringifyMacros"

/-- The macros of the module `ExampleMacros`. -/
def exampleMacros : List Registration :=
  [freestanding exampleModule "ExpressionMacro" stringify,
    freestanding exampleModule "DeclarationMacro" warn,
    attached exampleModule "PeerMacro" addNothing,
    attached exampleModule "AccessorMacro" addAccessors,
    attached exampleModule "MemberAttributeMacro" addNothing,
    attached exampleModule "MemberMacro" addNothing,
    attached exampleModule "ExtensionMacro" addExtension]

/-- The macros of the module `StringifyMacros`. -/
def stringifyMacros : List Registration :=
  [freestanding stringifyModule "StringifyMacro" stringify]

/-- All macros of both modules. -/
def registry : Registry :=
  (Registry.empty.registerAll (exampleMacros ++ stringifyMacros)).1

end MacroPlugin.Builtin
