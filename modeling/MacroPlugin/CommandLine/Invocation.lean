import MacroPlugin.CommandLine.Grammar
import MacroPlugin.Text.Numeral

/-!
What the arguments of the program ask for. Arguments are read from left to right, first those in
front of the command, then those behind it; of the options given at both places, the one behind
the command counts. At one place an option is given at most once.

The value of an option stands in the same argument or in the next one. In the second case it is
taken up together with the argument that follows it, so that a command is read before the value in
front of it.
-/

namespace MacroPlugin.CommandLine

inductive Command where
  | serve (framing : Option Framing)
  | capability
  | macros
  | expand (request : String) (protocolVersion : Option UInt32)
  deriving DecidableEq, Repr

structure Invocation where
  format : OutputFormat
  verbose : Bool
  /-- The configuration file to use in place of the user's own. -/
  config : Option String
  command : Command
  deriving DecidableEq, Repr

/-- What can be wrong with arguments. -/
inductive UsageError where
  | unexpected (argument : String)
  | unknownCommand (name : String)
  | valueMissing (option : OptionName)
  | valueInvalid (option : OptionName) (value : String)
  | valueUnneeded (option : OptionName) (value : String)
  | repeated (option : OptionName)
  | requestMissing
  deriving DecidableEq, Repr

def UsageError.message : UsageError → String
  | .unexpected argument => "unexpected argument '" ++ argument ++ "' found"
  | .unknownCommand name => "unrecognized subcommand '" ++ name ++ "'"
  | .valueMissing option =>
    "a value is required for '" ++ option.title ++ "' but none was supplied"
  | .valueInvalid option value => "invalid value '" ++ value ++ "' for '" ++ option.title ++ "'"
  | .valueUnneeded option value =>
    "unexpected value '" ++ value ++ "' for '" ++ option.title ++ "' found; no more were expected"
  | .repeated option => "the argument '" ++ option.title ++ "' cannot be used multiple times"
  | .requestMissing => "the following required arguments were not provided:\n  <REQUEST>"

/-- Why reading ends before there is an invocation. -/
inductive Stop where
  | usage (error : UsageError)
  | help (command : Option CommandName)
  | version (command : Option CommandName)
  deriving DecidableEq, Repr

/-- What was given in front of the command, or behind it. -/
structure Given where
  format : Option OutputFormat := none
  verbose : Bool := false
  config : Option String := none
  framing : Option Framing := none
  protocolVersion : Option UInt32 := none
  request : Option String := none
  deriving DecidableEq, Repr

/-- A version is written as an integer. -/
def versionOfText? (text : String) : Option UInt32 := do
  let value ← Numeral.integer? text.toList
  if 0 ≤ value ∧ value < UInt32.size then some value.toNat.toUInt32 else none

namespace Given

/-- The value of an option that was not given before. -/
def once {α : Type} (option : ValueOption) (before : Option α) (value : String)
    (read : String → Option α) : Except Stop (Option α) :=
  match before, read value with
  | some _, _ => .error (.usage (.repeated (.valued option)))
  | none, none => .error (.usage (.valueInvalid (.valued option) value))
  | none, some a => .ok (some a)

/-- Any text is a path except the empty one. -/
def pathOfText? (text : String) : Option String :=
  if text.isEmpty then none else some text

/-- Takes up the value of an option. -/
def set (g : Given) (option : ValueOption) (value : String) : Except Stop Given :=
  match option with
  | .format => do return { g with format := ← once .format g.format value OutputFormat.ofText? }
  | .config => do return { g with config := ← once .config g.config value pathOfText? }
  | .framing => do return { g with framing := ← once .framing g.framing value framingOfText? }
  | .protocolVersion => do
    return { g with
      protocolVersion := ← once .protocolVersion g.protocolVersion value versionOfText? }

def setVerbose (g : Given) : Except Stop Given :=
  if g.verbose then .error (.usage (.repeated (.flag .verbose)))
  else .ok { g with verbose := true }

/-- Only one command has an operand, and it has only one. -/
def setOperand (command : Option CommandName) (g : Given) (operand : String) :
    Except Stop Given :=
  match command, g.request with
  | some .expand, none =>
    if operand.isEmpty then .error (.usage .requestMissing)
    else .ok { g with request := some operand }
  | none, _ => .error (.usage (.unknownCommand operand))
  | _, _ => .error (.usage (.unexpected operand))

/-- A path from the environment counts where no other is given, and may not be empty there. -/
def withVariable (g : Given) (named : Option String) : Except Stop Given :=
  match g.config, named with
  | none, some "" => .error (.usage (.valueMissing (.valued .config)))
  | _, _ => .ok g

end Given

/-- A value that is still to be taken up. -/
inductive Pending where
  | nothing
  | awaited (option : ValueOption)
  | supplied (option : ValueOption) (value : String)
  deriving DecidableEq, Repr

/-- How far the arguments at one place are read. -/
structure Progress where
  given : Given := {}
  pending : Pending := .nothing
  /-- Behind two hyphens there are no options and no commands. -/
  operandsOnly : Bool := false
  deriving DecidableEq, Repr

namespace Progress

/-- What was given, once the pending value is taken up. -/
def settle (p : Progress) : Except Stop Given :=
  match p.pending with
  | .nothing => .ok p.given
  | .awaited option => .error (.usage (.valueMissing (.valued option)))
  | .supplied option value => p.given.set option value

/-- Takes an option, and its value if that stands in the same argument. -/
def takeOption (command : Option CommandName) (p : Progress) (option : OptionName)
    (attached : Option String) : Except Stop Progress := do
  let given ← p.settle
  match option, attached with
  | .valued option, some value =>
    return { p with given := ← given.set option value, pending := .nothing }
  | .valued option, none => return { p with given, pending := .awaited option }
  | .flag flag, some value => .error (.usage (.valueUnneeded (.flag flag) value))
  | .flag .verbose, none => return { p with given := ← given.setVerbose, pending := .nothing }
  | .flag .help, none => .error (.help command)
  | .flag .version, none => .error (.version command)

/-- Takes an argument behind two hyphens: a name, and a value behind an equals sign. -/
def takeLong (command : Option CommandName) (p : Progress) (body : List Char) :
    Except Stop Progress :=
  let name := String.ofList (body.takeWhile (· ≠ '='))
  let attached :=
    match body.dropWhile (· ≠ '=') with
    | [] => none
    | _ :: value => some (String.ofList value)
  match OptionName.ofLong? command name with
  | some option => p.takeOption command option attached
  | none => .error (.usage (.unexpected ("--" ++ name)))

/-- Takes the letters behind one hyphen. The rest behind an option with a value is the value, with
or without an equals sign. -/
def takeShort (command : Option CommandName) (p : Progress) : List Char → Except Stop Progress
  | [] => .ok p
  | letter :: rest =>
    match OptionName.ofShort? command letter with
    | none => .error (.usage (.unexpected ("-" ++ letter.toString)))
    | some (.flag flag) => do takeShort command (← p.takeOption command (.flag flag) none) rest
    | some (.valued option) =>
      let attached :=
        match rest with
        | [] => none
        | '=' :: value => some (String.ofList value)
        | value => some (String.ofList value)
      p.takeOption command (.valued option) attached

/-- Takes an argument that is no option: the value of one, or an operand. -/
def takePlain (command : Option CommandName) (p : Progress) (argument : String) :
    Except Stop Progress :=
  match p.pending, p.operandsOnly with
  | .awaited option, false => .ok { p with pending := .supplied option argument }
  | _, _ => do
    let given ← p.settle
    return { p with given := ← given.setOperand command argument, pending := .nothing }

/-- Takes one argument. -/
def take (command : Option CommandName) (p : Progress) (argument : String) :
    Except Stop Progress :=
  if p.operandsOnly then p.takePlain command argument
  else match argument.toList with
    | ['-', '-'] => .ok { p with operandsOnly := true }
    | '-' :: '-' :: body => p.takeLong command body
    | '-' :: letter :: rest => p.takeShort command (letter :: rest)
    | _ => p.takePlain command argument

/-- Whether the next argument may be the command. -/
def admitsCommand (p : Progress) : Bool :=
  match p.pending with
  | .awaited _ => false
  | _ => !p.operandsOnly

end Progress

/-- The page that the arguments behind `help` ask for. -/
def helpPage : List String → Stop
  | [] => .help none
  | name :: rest =>
    match CommandName.ofText? name, rest with
    | some command, [] => .help (some command)
    | some _, extra :: _ => .usage (.unknownCommand extra)
    | none, _ => if name = "help" && rest.isEmpty then .help none else .usage (.unknownCommand name)

/-- Reads arguments up to the command and those behind it. -/
def readArguments (p : Progress) :
    List String → Except Stop (Progress × Option (CommandName × Progress))
  | [] => .ok (p, none)
  | argument :: rest =>
    if p.admitsCommand && argument = "help" then .error (helpPage rest)
    else match if p.admitsCommand then CommandName.ofText? argument else none with
      | some command => do
        return (p, some (command, ← rest.foldlM (Progress.take (some command)) {}))
      | none => do readArguments (← p.take none argument) rest

namespace Given

/-- The command with what was given behind it. -/
def command (g : Given) : CommandName → Except Stop Command
  | .serve => .ok (.serve g.framing)
  | .capability => .ok .capability
  | .macros => .ok .macros
  | .expand =>
    match g.request with
    | some request => .ok (.expand request g.protocolVersion)
    | none => .error (.usage .requestMissing)

/-- The invocation of a command with options in front of it and behind it. -/
def invocation (before behind : Given) (named : Option String) (command : Command) :
    Invocation where
  format := (behind.format <|> before.format).getD .text
  verbose := behind.verbose || before.verbose
  config := behind.config <|> before.config <|> named
  command := command

end Given

/-- Reads the arguments of the program. Without a command the program serves. `named` is the
configuration file that the environment names. -/
def Invocation.read (named : Option String) (arguments : List String) :
    Except Stop Invocation := do
  match ← readArguments {} arguments with
  | (p, none) =>
    let before ← (← p.settle).withVariable named
    return before.invocation {} named (.serve none)
  | (p, some (name, q)) =>
    let behind ← (← q.settle).withVariable named
    let command ← behind.command name
    let before ← (← p.settle).withVariable named
    return before.invocation behind named command

end MacroPlugin.CommandLine
