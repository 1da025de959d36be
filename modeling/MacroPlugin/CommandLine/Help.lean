import MacroPlugin.CommandLine.Grammar

/-!
The pages that explain the command line: one for the program, and one for each command.
-/

namespace MacroPlugin.CommandLine.Help

/-- A text with spaces behind it up to a width. -/
def pad (width : Nat) (text : String) : String :=
  text ++ String.ofList (List.replicate (width - text.length) ' ')

/-- A table with two columns. -/
def table (rows : List (String × String)) : String :=
  let width := (rows.map fun row => row.1.length).foldl max 0
  String.join <| rows.map fun (title, about) => "  " ++ pad width title ++ "  " ++ about ++ "\n"

def commandRows : List (String × String) :=
  CommandName.all.map (fun command => (command.name, command.about)) ++
    [("help", "Print this message or the help of the given subcommand(s)")]

def optionRow (option : OptionName) : String × String :=
  let letter :=
    match option.short? with
    | some c => "-" ++ c.toString ++ ", "
    | none => "    "
  (letter ++ option.title, option.about)

/-- The line that shows how a command is used. -/
def usage : Option CommandName → String
  | none => programName ++ " [OPTIONS] [COMMAND]"
  | some .expand => programName ++ " expand [OPTIONS] <REQUEST>"
  | some command => programName ++ " " ++ command.name ++ " [OPTIONS]"

def summary : Option CommandName → String
  | none => "Macro expansion plugin for the Swift compiler"
  | some command => command.about

/-- The parts of a page between its usage and its options. -/
def parts : Option CommandName → String
  | none => "Commands:\n" ++ table commandRows ++ "\n"
  | some .expand =>
    "Arguments:\n" ++ table [("<REQUEST>", "Path to a host-to-plugin message")] ++ "\n"
  | some _ => ""

def page (command : Option CommandName) : String :=
  summary command ++ "\n\nUsage: " ++ usage command ++ "\n\n" ++ parts command ++
    "Options:\n" ++ table ((OptionName.understood command).map optionRow)

/-- The line with the version of the program. -/
def version : Option CommandName → String
  | none => programName ++ " " ++ programVersion ++ "\n"
  | some command => programName ++ "-" ++ command.name ++ " " ++ programVersion ++ "\n"

end MacroPlugin.CommandLine.Help
