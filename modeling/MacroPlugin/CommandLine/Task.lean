import MacroPlugin.CommandLine.Invocation
import MacroPlugin.CommandLine.Listing
import MacroPlugin.CommandLine.Surroundings
import MacroPlugin.Expansion.Builtin
import MacroPlugin.Settings
import MacroPlugin.Transport.Connection

/-!
What the program does. Whatever it is asked for, the configuration is read first. All commands but
`serve` come down to a text to print; `serve` answers the requests on its input.

An error is a sentence about what failed, followed by its causes.
-/

namespace MacroPlugin

/-- The dispatcher for the macros of the plugin under these settings. -/
def Settings.dispatcher (s : Settings) : Dispatcher where
  registry := Builtin.registry
  capability := s.capability
  echo := s.echoRequests

/-- The cause of an error in transport that has one. -/
def TransportError.cause? : TransportError → Option String
  | .io message => some message
  | .decode error => some error.message
  | _ => none

namespace CommandLine

/-- Why the program could not do what it was asked for. -/
inductive Problem where
  | configUnread (path reason : String)
  | config (path : String) (error : SettingsError)
  | requestUnread (path reason : String)
  | request (path : String) (error : Json.DecodeError)
  | session (error : TransportError)
  deriving DecidableEq

/-- What failed, and its causes from the nearest to the last. -/
def Problem.causes : Problem → List String
  | .configUnread path reason =>
    ["Failed to load configuration", "Failed to read config: " ++ path, reason]
  | .config path error =>
    ["Failed to load configuration", "Failed to load config: " ++ path, error.message]
  | .requestUnread path reason => ["Failed to read request: " ++ path, reason]
  | .request path error => ["Failed to decode request: " ++ path, error.message]
  | .session error => "Plugin session failed" :: error.message :: error.cause?.toList

def Problem.message (p : Problem) : String :=
  "Error: " ++ ": ".intercalate p.causes

/-- The settings for an invocation: those of the file it names, else those of the user's own file,
else the defaults. -/
def Surroundings.settings (s : Surroundings) (config : Option String) : Except Problem Settings :=
  match config with
  | some path => load path
  | none =>
    match s.environment.ownConfig?.filter fun path => (s.find path).isFile with
    | some path => load path
    | none => .ok {}
where
  load (path : String) : Except Problem Settings := do
    let text ← (s.find path).text.mapError (.configUnread path)
    (Settings.parse text).mapError (.config path)

/-- The reply to a single request, after negotiating with a host of the given version. -/
def replyAlone (settings : Settings) (protocolVersion : Option UInt32) (request : Request) :
    Reply :=
  let fresh := settings.dispatcher
  let dispatcher :=
    match protocolVersion with
    | some version => (fresh.answer (.getCapability (some ⟨version⟩))).2
    | none => fresh
  (dispatcher.answer request).1

inductive Task where
  | print (text : String)
  | serve (framing : Framing) (limit : Nat) (level : LogLevel) (dispatcher : Dispatcher)

/-- The level of log messages; an invocation can only ask for that of debugging. -/
def Invocation.logLevel (settings : Settings) (i : Invocation) : LogLevel :=
  if i.verbose then .debug else settings.logLevel

/-- What an invocation comes down to. -/
def Invocation.task (s : Surroundings) (i : Invocation) : Except Problem Task := do
  let settings ← s.settings i.config
  match i.command with
  | .serve framing =>
    return .serve (framing.getD settings.framing) settings.maxFrameBytes (i.logLevel settings)
      settings.dispatcher
  | .capability => return .print (Listing.capability i.format settings.capability)
  | .macros => return .print (Listing.macros i.format Builtin.registry)
  | .expand path protocolVersion =>
    let text ← (s.find path).text.mapError (.requestUnread path)
    let request ← (Wire.decode Request (.ofText text)).mapError (.request path)
    return .print (i.format.render (Wire.toJson (replyAlone settings protocolVersion request)))

/-- The paths that a run of an invocation may look at. -/
def Invocation.paths (e : Environment) (i : Invocation) : List String :=
  let config := (i.config <|> e.ownConfig?).toList
  match i.command with
  | .expand path _ => path :: config
  | _ => config

/-- How a run ends: the exit status, what was written, and what is reported as an error. -/
structure Completion where
  status : UInt32
  output : Octets
  report : String := ""
  deriving DecidableEq, Repr

/-- A run that ends before there is a task. -/
def Stop.completion : Stop → Completion
  | .help command => ⟨0, .ofText (Help.page command), ""⟩
  | .version command => ⟨0, .ofText (Help.version command), ""⟩
  | .usage error =>
    ⟨2, [], "error: " ++ error.message ++ "\n\nUsage: " ++ Help.usage none ++
      "\n\nFor more information, try '--help'."⟩

def Problem.completion (p : Problem) (output : Octets) : Completion :=
  ⟨1, output, p.message⟩

/-- A session that broke off. A panic is not reported as a problem; it ends the program with a
status of its own. -/
def Completion.ofSession (output : Octets) : TransportError → Completion
  | .capacityOverflow => ⟨101, output, TransportError.capacityOverflow.message⟩
  | e => (Problem.session e).completion output

/-- Performs a task on an input. What was written before an error stays written. -/
def Task.run (input : Stream) : Task → Completion
  | .print text => ⟨0, .ofText text, ""⟩
  | .serve framing limit _ dispatcher =>
    match Connection.serve { framing, limit, input, output := {}, dispatcher } with
    | (.ok _, c) => ⟨0, c.output.written, ""⟩
    | (.error e, c) => .ofSession c.output.written e

/-- A run of the program. -/
def run (s : Surroundings) (arguments : List String) (input : Stream) : Completion :=
  match Invocation.read s.environment.config arguments with
  | .error stop => stop.completion
  | .ok invocation =>
    match invocation.task s with
    | .error problem => problem.completion []
    | .ok task => task.run input

end CommandLine

end MacroPlugin
