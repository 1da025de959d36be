import MacroPlugin.CommandLine.Grammar
import MacroPlugin.CommandLine.Help
import MacroPlugin.Expansion.Registry
import MacroPlugin.Message.Capability

/-!
What the commands print that describe the plugin. Every text ends in a line feed.
-/

namespace MacroPlugin.CommandLine

/-- JSON in the given format: indented for a reader, or on a single line. -/
def OutputFormat.render (format : OutputFormat) (json : Json) : String :=
  match format with
  | .text => json.pretty ++ "\n"
  | .json => json.compact ++ "\n"

namespace Listing

def features (names : List String) : String :=
  if names.isEmpty then "Features: none\n"
  else "Features:\n" ++ String.join (names.map fun name => "  " ++ name ++ "\n")

/-- The capability of a plugin. -/
def capability (format : OutputFormat) (c : PluginCapability) : String :=
  match format with
  | .json => format.render (Wire.toJson c)
  | .text =>
    "Protocol version: " ++ toString c.protocolVersion.toNat ++ "\n" ++
      features (c.features.getD [])

def entry (r : Registration) : Json :=
  .object [("module", .text r.key.moduleName), ("shape", .text r.implementation.shape.name),
    ("type", .text r.key.typeName)]

/-- A row of a table with three columns, the last of any width. -/
def row (first second third : String) : String :=
  Help.pad 20 first ++ " " ++ Help.pad 24 second ++ " " ++ third ++ "\n"

def entryRow (r : Registration) : String :=
  row r.key.moduleName r.key.typeName r.implementation.shape.name

/-- The macros of a registry in the order of their keys. -/
def macros (format : OutputFormat) (registry : Registry) : String :=
  match format with
  | .json => format.render (.array (registry.entries.map entry))
  | .text =>
    if registry.isEmpty then "No macros registered.\n"
    else
      row "MODULE" "TYPE" "SHAPE" ++ String.ofList (List.replicate 58 '-') ++ "\n" ++
        String.join (registry.entries.map entryRow)

end Listing

end MacroPlugin.CommandLine
