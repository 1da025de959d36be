import MacroPlugin.Message.Fragment

/-!
What an expansion reports back to the user. Positions are octet offsets into a named file; a
position in no file at all tells the compiler that there is no location.
-/

namespace MacroPlugin

inductive Severity where
  | error
  | warning
  | note
  deriving DecidableEq, Repr

namespace Severity

def index : Severity → Fin 3
  | .error => 0
  | .warning => 1
  | .note => 2

def ofIndex : Fin 3 → Severity
  | 0 => .error
  | 1 => .warning
  | 2 => .note

end Severity

instance : Wire Severity where
  schema := .choice ["error", "warning", "note"]
  values := ⟨Severity.index, Severity.ofIndex, fun a => by cases a <;> rfl,
    (by decide : ∀ i, (Severity.ofIndex i).index = i)⟩

/-- A point in a file. -/
structure Position where
  fileName : String
  offset : UInt64
  deriving DecidableEq, Repr

namespace Position

/-- Where a fragment begins. -/
def start (fragment : Fragment) : Position :=
  ⟨fragment.location.fileName, fragment.location.offset⟩

/-- The position that stands for no location. -/
def nowhere : Position :=
  ⟨"", 0⟩

end Position

instance : Wire Position where
  schema := .record "struct Position" <|
    .required "fileName" .text <|
    .required "offset" (.word .full) .nil
  values :=
    { forth := fun a => (a.fileName, a.offset, ())
      back := fun (fileName, offset, _) => ⟨fileName, offset⟩
      back_forth := fun _ => rfl
      forth_back := fun _ => rfl }

/-- The octets of a file from `start` up to but not including `stop`. -/
structure Span where
  fileName : String
  start : UInt64
  stop : UInt64
  deriving DecidableEq, Repr

/-- The octets that a fragment covers. -/
def Span.of (fragment : Fragment) : Span :=
  ⟨fragment.location.fileName, fragment.location.offset,
    fragment.location.offset + fragment.source.utf8ByteSize.toUInt64⟩

instance : Wire Span where
  schema := .record "struct PositionRange" <|
    .required "fileName" .text <|
    .required "startOffset" (.word .full) <|
    .required "endOffset" (.word .full) .nil
  values :=
    { forth := fun a => (a.fileName, a.start, a.stop, ())
      back := fun (fileName, start, stop, _) => ⟨fileName, start, stop⟩
      back_forth := fun _ => rfl
      forth_back := fun _ => rfl }

/-- A remark beside a diagnostic. -/
structure Note where
  position : Position
  message : String
  deriving DecidableEq, Repr

def Note.parts : Correspondence Note (Position × String × Unit) where
  forth a := (a.position, a.message, ())
  back := fun (position, message, _) => ⟨position, message⟩
  back_forth _ := rfl
  forth_back _ := rfl

open Wire in
instance : Wire Note where
  schema := .record "struct Note" <|
    .required "position" (schema Position) <|
    .required "message" .text .nil
  values := Note.parts.andThen <| .pair values <| .pair .same .same

/-- One replacement of source text. -/
structure Change where
  span : Span
  newText : String
  deriving DecidableEq, Repr

def Change.parts : Correspondence Change (Span × String × Unit) where
  forth a := (a.span, a.newText, ())
  back := fun (span, newText, _) => ⟨span, newText⟩
  back_forth _ := rfl
  forth_back _ := rfl

open Wire in
instance : Wire Change where
  schema := .record "struct Change" <|
    .required "range" (schema Span) <|
    .required "newText" .text .nil
  values := Change.parts.andThen <| .pair values <| .pair .same .same

/-- Changes that the user may apply together. -/
structure FixIt where
  message : String
  changes : List Change
  deriving DecidableEq, Repr

def FixIt.parts : Correspondence FixIt (String × List Change × Unit) where
  forth a := (a.message, a.changes, ())
  back := fun (message, changes, _) => ⟨message, changes⟩
  back_forth _ := rfl
  forth_back _ := rfl

open Wire in
instance : Wire FixIt where
  schema := .record "struct FixIt" <|
    .required "message" .text <|
    .required "changes" (.list (schema Change)) .nil
  values := FixIt.parts.andThen <| .pair .same <| .pair (.list values) .same

structure Diagnostic where
  message : String
  severity : Severity
  position : Position
  highlights : List Span := []
  notes : List Note := []
  fixIts : List FixIt := []
  deriving DecidableEq, Repr

namespace Diagnostic

/-- An error at the start of a fragment. -/
def error (fragment : Fragment) (message : String) : Diagnostic :=
  { message, severity := .error, position := .start fragment }

/-- A warning at the start of a fragment. -/
def warning (fragment : Fragment) (message : String) : Diagnostic :=
  { message, severity := .warning, position := .start fragment }

def addHighlight (d : Diagnostic) (span : Span) : Diagnostic :=
  { d with highlights := d.highlights ++ [span] }

def addNote (d : Diagnostic) (position : Position) (message : String) : Diagnostic :=
  { d with notes := d.notes ++ [⟨position, message⟩] }

def addFixIt (d : Diagnostic) (message : String) (changes : List Change) : Diagnostic :=
  { d with fixIts := d.fixIts ++ [⟨message, changes⟩] }

def isError (d : Diagnostic) : Bool :=
  d.severity = .error

def parts : Correspondence Diagnostic
    (String × Severity × Position × List Span × List Note × List FixIt × Unit) where
  forth a := (a.message, a.severity, a.position, a.highlights, a.notes, a.fixIts, ())
  back := fun (message, severity, position, highlights, notes, fixIts, _) =>
    ⟨message, severity, position, highlights, notes, fixIts⟩
  back_forth _ := rfl
  forth_back _ := rfl

end Diagnostic

open Wire in
instance : Wire Diagnostic where
  schema := .record "struct Diagnostic" <|
    .required "message" .text <|
    .required "severity" (schema Severity) <|
    .required "position" (schema Position) <|
    .defaulted "highlights" (schema Span) <|
    .defaulted "notes" (schema Note) <|
    .defaulted "fixIts" (schema FixIt) .nil
  values := Diagnostic.parts.andThen <| .pair .same <| .pair values <| .pair values <|
    .pair (.list values) <| .pair (.list values) <| .pair (.list values) .same

end MacroPlugin
