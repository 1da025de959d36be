import MacroPlugin.Message.Capability
import MacroPlugin.Mismatch
import MacroPlugin.Decimal.Notation
import MacroPlugin.Text.Numeral
import MacroPlugin.Toml.Document
import MacroPlugin.Toml.Excerpt
import MacroPlugin.Transport.Framing

/-!
What a user can set in a configuration file. Settings are grouped in four sections; a section that
is missing, and a setting that is missing from its section, keeps its default, and what the library
does not know is ignored. A section may also be an array of its settings in their order.

Settings that were read are then checked, one after the other; the first check that fails is the
one reported.
-/

namespace MacroPlugin

inductive LogLevel where
  | off
  | error
  | warn
  | info
  | debug
  | trace
  deriving DecidableEq, Repr

namespace LogLevel

def all : List LogLevel :=
  [.off, .error, .warn, .info, .debug, .trace]

def name : LogLevel → String
  | .off => "off"
  | .error => "error"
  | .warn => "warn"
  | .info => "info"
  | .debug => "debug"
  | .trace => "trace"

/-- Levels are named in letters of either case or numbered from zero; the empty text is the level
of errors. -/
def ofText? (text : String) : Option LogLevel :=
  match (Numeral.natural? text.toList).bind (all[·]?) with
  | some level => some level
  | none =>
    if text.isEmpty then some .error
    else all.find? fun level => level.name = String.ofList (text.toList.map Char.toLower)

/-- Whether messages of the second level are wanted at the first. -/
def admits (wanted level : LogLevel) : Bool :=
  all.idxOf level ≤ all.idxOf wanted

end LogLevel

structure Settings where
  echoRequests : Bool := false
  framing : Framing := .lengthPrefixed
  maxFrameBytes : Nat := 64 * 1024 * 1024
  features : List String := []
  level : String := "warn"
  deriving DecidableEq, Repr

/-- Why settings were not accepted. A file that is no TOML document, or in which a framing is given
by something that names none, is `malformed`. -/
inductive SettingsError where
  | echoUnavailable
  | noFrameFits
  | cannotLoadLibraries
  | unknownLevel (level : String)
  | malformed
  | mismatch (mismatch : Mismatch) (excerpt : Option Toml.Excerpt)
  deriving DecidableEq

namespace SettingsError

/-- Whether the file was read and its settings are at fault. -/
def isInvalid : SettingsError → Bool
  | .malformed | .mismatch _ _ => false
  | _ => true

def reason : SettingsError → String
  | .echoUnavailable =>
    "handler.echo_requests requires a build with the request-echo feature"
  | .noFrameFits => "transport.max_frame_bytes must be greater than zero"
  | .cannotLoadLibraries =>
    "feature '" ++ PluginCapability.loadLibraryFeature ++
      "' cannot be advertised: this plugin does not load libraries"
  | .unknownLevel level => "unknown log level '" ++ level ++ "'"
  | .malformed => "the file is malformed"
  | .mismatch m (some excerpt) => excerpt.render m.message
  | .mismatch m none => m.message ++ "\n"

def message (e : SettingsError) : String :=
  (if e.isInvalid then "Invalid configuration: " else "Failed to parse configuration: ") ++ e.reason

end SettingsError

namespace Settings

open Toml

/-- What is wrong with a value of the file, and where. -/
inductive Problem where
  | malformed
  | mismatch (mismatch : Mismatch) (extent : Option Extent)

/-- What a reader of another kind of value finds. Tables, dates and times all count as maps. -/
def found : Value → Found
  | .scalar _ (.text value) => .text value
  | .scalar _ (.integer value) => .integer value
  | .scalar _ (.real value) => .real (Decimal.Style.configuration.write value)
  | .scalar _ (.boolean value) => .boolean value
  | .scalar _ .dateTime => .map
  | .array _ _ | .tables _ => .sequence
  | .table _ _ _ => .map

def wrongType {α : Type} (value : Value) (expected : String) : Except Problem α :=
  .error (.mismatch (.wrongType (found value) expected) value.extent?)

def toBoolean : Value → Except Problem Bool
  | .scalar _ (.boolean value) => .ok value
  | value => wrongType value "a boolean"

def toText : Value → Except Problem String
  | .scalar _ (.text value) => .ok value
  | value => wrongType value "a string"

def toSize : Value → Except Problem Nat
  | .scalar _ (.integer (.ofNat n)) => .ok n
  | .scalar extent (.integer value) =>
    .error (.mismatch (.wrongValue (.integer value) "usize") (some extent))
  | value => wrongType value "usize"

def toTexts : Value → Except Problem (List String)
  | .array _ items | .tables items => items.mapM toText
  | value => wrongType value "a sequence"

/-- The framing with a name that was given in some place. -/
def framingNamed (name : String) (extent : Option Extent) : Except Problem Framing :=
  if name = "length-prefixed" then .ok .lengthPrefixed
  else if name = "json-lines" then .ok .jsonLines
  else .error (.mismatch (.unknownName name ["length-prefixed", "json-lines"]) extent)

/-- Whether a value is an empty table or array. -/
def isEmptyContainer : Value → Bool
  | .array _ items | .tables items => items.isEmpty
  | .table _ _ entries => entries.isEmpty
  | .scalar _ _ => false

/-- A framing is its name, or a table whose only key is the name. -/
def toFraming : Value → Except Problem Framing
  | .scalar extent (.text name) => framingNamed name (some extent)
  | .table _ _ [(key, content)] => do
    let framing ← framingNamed key.name (some key.extent)
    if isEmptyContainer content then .ok framing else .error .malformed
  | _ => .error .malformed

/-- A setting: its key, and how a value changes the settings. -/
structure Setting where
  key : String
  apply : Value → Settings → Except Problem Settings

/-- Where a mismatch has no place of its own, it is shown at the key. -/
def atKey {α : Type} (key : Toml.Key) : Except Problem α → Except Problem α
  | .error (.mismatch m none) => .error (.mismatch m (some key.extent))
  | result => result

/-- Applies the entries of a table in their order. -/
def applyEntries (known : List Setting) (entries : Entries) (s : Settings) :
    Except Problem Settings :=
  entries.foldlM (fun s (key, value) =>
    match known.find? (·.key = key.name) with
    | some setting => atKey key (setting.apply value s)
    | none => .ok s) s

/-- Applies the items of an array to the settings in their order. -/
def applyItems (known : List Setting) (items : List Value) (s : Settings) :
    Except Problem Settings :=
  (known.zip items).foldlM (fun s (setting, value) => setting.apply value s) s

/-- A section with the given settings. A date or time is a section without any of them. -/
def applySection (title : String) (known : List Setting) (value : Value) (s : Settings) :
    Except Problem Settings :=
  match value with
  | .table _ _ entries => applyEntries known entries s
  | .array _ items | .tables items => applyItems known items s
  | .scalar _ .dateTime => .ok s
  | value => wrongType value title

def handlerSettings : List Setting :=
  [⟨"echo_requests", fun value s => do return { s with echoRequests := ← toBoolean value }⟩]

def transportSettings : List Setting :=
  [⟨"framing", fun value s => do return { s with framing := ← toFraming value }⟩,
    ⟨"max_frame_bytes", fun value s => do return { s with maxFrameBytes := ← toSize value }⟩]

def capabilitySettings : List Setting :=
  [⟨"features", fun value s => do return { s with features := ← toTexts value }⟩]

def logSettings : List Setting :=
  [⟨"level", fun value s => do return { s with level := ← toText value }⟩]

/-- The sections of a configuration file. -/
def sections : List Setting :=
  [⟨"handler", applySection "struct HandlerConfig" handlerSettings⟩,
    ⟨"transport", applySection "struct TransportConfig" transportSettings⟩,
    ⟨"capability", applySection "struct CapabilityConfig" capabilitySettings⟩,
    ⟨"log", applySection "struct LogConfig" logSettings⟩]

/-- The settings that a file gives, not yet checked. -/
def read (text : List Char) : Except SettingsError Settings :=
  match Toml.parse? text with
  | none => .error .malformed
  | some entries =>
    match applyEntries sections entries {} with
    | .ok settings => .ok settings
    | .error .malformed => .error .malformed
    | .error (.mismatch m extent) => .error (.mismatch m (extent.map (Excerpt.ofExtent text)))

/-- The first thing that is wrong with settings. -/
def check (s : Settings) : Except SettingsError Unit :=
  if s.echoRequests then .error .echoUnavailable
  else if s.maxFrameBytes = 0 then .error .noFrameFits
  else if PluginCapability.loadLibraryFeature ∈ s.features then .error .cannotLoadLibraries
  else if (LogLevel.ofText? s.level).isNone then .error (.unknownLevel s.level)
  else .ok ()

/-- The settings of a configuration file. -/
def parse (text : String) : Except SettingsError Settings := do
  let settings ← read text.toList
  check settings
  return settings

/-- The capability to declare under these settings. -/
def capability (s : Settings) : PluginCapability :=
  s.features.foldl PluginCapability.addFeature .current

/-- The level of log messages under settings that were checked. -/
def logLevel (s : Settings) : LogLevel :=
  (LogLevel.ofText? s.level).getD .warn

end Settings

end MacroPlugin
