import MacroPlugin.Octets

/-!
What a run of the program finds around it: environment variables, and files by their paths. A path
may be relative, and two paths may lead to the same file; none of this matters here, where a path
is only looked up.
-/

namespace MacroPlugin.CommandLine

/-- What is found at a path. -/
inductive Entry where
  | file (octets : Octets)
  | directory
  | missing
  /-- The path goes through a file as if it were a directory. -/
  | notDirectory
  | nameTooLong
  | unreadable (reason : String)
  deriving DecidableEq, Repr

/-- The text of a file, or why there is none. -/
def Entry.text : Entry → Except String String
  | .file octets =>
    match octets.toText? with
    | some text => .ok text
    | none => .error "stream did not contain valid UTF-8"
  | .directory => .error "Is a directory (os error 21)"
  | .missing => .error "No such file or directory (os error 2)"
  | .notDirectory => .error "Not a directory (os error 20)"
  | .nameTooLong => .error "File name too long (os error 36)"
  | .unreadable reason => .error reason

def Entry.isFile : Entry → Bool
  | .file _ => true
  | _ => false

/-- The environment variables that the program looks at. -/
structure Environment where
  /-- The configuration file to use. -/
  config : Option String := none
  /-- The directory with the configuration files of all programs. -/
  configHome : Option String := none
  /-- The home directory of the user. -/
  home : Option String := none
  deriving DecidableEq, Repr

/-- Puts one path behind another. -/
def joinPath (directory path : String) : String :=
  if directory.toList.getLast? = some '/' then directory ++ path else directory ++ "/" ++ path

/-- The user's own configuration file. A directory for configuration files counts only if its path
is absolute; otherwise it is in the home directory. -/
def Environment.ownConfig? (e : Environment) : Option String :=
  let absolute := e.configHome.filter fun path => path.toList.head? = some '/'
  let inHome := (e.home.filter (!·.isEmpty)).map (joinPath · ".config")
  (absolute <|> inHome).map fun directory =>
    joinPath (joinPath directory programDirectory) "config.toml"
where
  programDirectory := "compiler-plugin"

structure Surroundings where
  environment : Environment
  find : String → Entry

end MacroPlugin.CommandLine
