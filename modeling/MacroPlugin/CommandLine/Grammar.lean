import MacroPlugin.Transport.Framing

/-!
The words of the command line: the commands, the options with a value, and the flags, each with
its names and one line about it. Some options are understood in front of the command as well as
behind it, the others only behind the command they belong to.
-/

namespace MacroPlugin.CommandLine

/-- The name of the program. -/
def programName : String := "compiler-plugin"

/-- The version of the program. -/
def programVersion : String := "0.1.0"

inductive CommandName where
  | serve
  | capability
  | macros
  | expand
  deriving DecidableEq, Repr

namespace CommandName

def all : List CommandName :=
  [.serve, .capability, .macros, .expand]

def name : CommandName → String
  | .serve => "serve"
  | .capability => "capability"
  | .macros => "macros"
  | .expand => "expand"

def about : CommandName → String
  | .serve => "Serve the plugin protocol on stdin/stdout"
  | .capability => "Print the advertised capability"
  | .macros => "List the macros this plugin provides"
  | .expand => "Dispatch a single request read from a JSON file and print the reply"

def ofText? (text : String) : Option CommandName :=
  all.find? (·.name = text)

end CommandName

/-- The options that take a value. -/
inductive ValueOption where
  | format
  | config
  | framing
  | protocolVersion
  deriving DecidableEq, Repr

/-- The options that take none. -/
inductive Flag where
  | verbose
  | help
  | version
  deriving DecidableEq, Repr

inductive OptionName where
  | valued (option : ValueOption)
  | flag (flag : Flag)
  deriving DecidableEq, Repr

namespace OptionName

/-- The name behind two hyphens. -/
def long : OptionName → String
  | .valued .format => "format"
  | .valued .config => "config"
  | .valued .framing => "framing"
  | .valued .protocolVersion => "protocol-version"
  | .flag .verbose => "verbose"
  | .flag .help => "help"
  | .flag .version => "version"

/-- The letter behind one hyphen, for the options that have one. -/
def short? : OptionName → Option Char
  | .valued .format => some 'f'
  | .flag .verbose => some 'v'
  | .flag .help => some 'h'
  | .flag .version => some 'V'
  | _ => none

/-- The option as it stands in messages, with the kind of its value. -/
def title : OptionName → String
  | .valued .format => "--format <FORMAT>"
  | .valued .config => "--config <CONFIG>"
  | .valued .framing => "--framing <FRAMING>"
  | .valued .protocolVersion => "--protocol-version <PROTOCOL_VERSION>"
  | option => "--" ++ option.long

def about : OptionName → String
  | .valued .format => "Output format [default: text] [possible values: text, json]"
  | .valued .config => "Config file (defaults to config.toml in the user config directory)"
  | .valued .framing =>
    "Message framing (overrides the config file) " ++
      "[possible values: length-prefixed, json-lines]"
  | .valued .protocolVersion => "Negotiate this host protocol version before dispatching"
  | .flag .verbose => "Enable debug logging on stderr"
  | .flag .help => "Print help"
  | .flag .version => "Print version"

/-- The options that are understood everywhere. -/
def common : List OptionName :=
  [.valued .format, .flag .verbose, .valued .config, .flag .help, .flag .version]

/-- The options that are understood behind a command, or in front of any. -/
def understood : Option CommandName → List OptionName
  | some .serve => .valued .framing :: common
  | some .expand => .valued .protocolVersion :: common
  | _ => common

def ofLong? (command : Option CommandName) (name : String) : Option OptionName :=
  (understood command).find? (·.long = name)

def ofShort? (command : Option CommandName) (letter : Char) : Option OptionName :=
  (understood command).find? (·.short? = some letter)

end OptionName

/-- How results are printed: for a reader, or on a single line of JSON. -/
inductive OutputFormat where
  | text
  | json
  deriving DecidableEq, Repr

def OutputFormat.ofText? : String → Option OutputFormat
  | "text" => some .text
  | "json" => some .json
  | _ => none

/-- The framing with the given name. -/
def framingOfText? : String → Option Framing
  | "length-prefixed" => some .lengthPrefixed
  | "json-lines" => some .jsonLines
  | _ => none

end MacroPlugin.CommandLine
