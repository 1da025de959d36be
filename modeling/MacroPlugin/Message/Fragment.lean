import MacroPlugin.Wire.Codec

/-!
Pieces of source text as the compiler saw them. The text of a fragment is never parsed here; an
implementation receives it as it came.
-/

namespace MacroPlugin

/-- Where a fragment came from. `fileId` is the module and the name of the file, `offset` counts
octets from the start of the file. -/
structure Location where
  fileId : String
  fileName : String
  offset : UInt64
  line : UInt64
  column : UInt64
  deriving DecidableEq, Repr

instance : Wire Location where
  schema := .record "struct SourceLocation" <|
    .required "fileID" .text <|
    .required "fileName" .text <|
    .required "offset" (.word .full) <|
    .required "line" (.word .full) <|
    .required "column" (.word .full) .nil
  values :=
    { forth := fun a => (a.fileId, a.fileName, a.offset, a.line, a.column, ())
      back := fun (fileId, fileName, offset, line, column, _) =>
        ⟨fileId, fileName, offset, line, column⟩
      back_forth := fun _ => rfl
      forth_back := fun _ => rfl }

/-- The part of the grammar that a fragment belongs to. -/
inductive FragmentKind where
  | declaration
  | statement
  | expression
  | type
  | pattern
  | attr
  deriving DecidableEq, Repr

namespace FragmentKind

def index : FragmentKind → Fin 6
  | .declaration => 0
  | .statement => 1
  | .expression => 2
  | .type => 3
  | .pattern => 4
  | .attr => 5

def ofIndex : Fin 6 → FragmentKind
  | 0 => .declaration
  | 1 => .statement
  | 2 => .expression
  | 3 => .type
  | 4 => .pattern
  | 5 => .attr

end FragmentKind

instance : Wire FragmentKind where
  schema := .choice ["declaration", "statement", "expression", "type", "pattern", "attribute"]
  values := ⟨FragmentKind.index, FragmentKind.ofIndex, fun a => by cases a <;> rfl,
    (by decide : ∀ i, (FragmentKind.ofIndex i).index = i)⟩

structure Fragment where
  kind : FragmentKind
  source : String
  location : Location
  deriving DecidableEq, Repr

def Fragment.parts : Correspondence Fragment (FragmentKind × String × Location × Unit) where
  forth a := (a.kind, a.source, a.location, ())
  back := fun (kind, source, location, _) => ⟨kind, source, location⟩
  back_forth _ := rfl
  forth_back _ := rfl

open Wire in
instance : Wire Fragment where
  schema := .record "struct Syntax" <|
    .required "kind" (schema FragmentKind) <|
    .required "source" .text <|
    .required "location" (schema Location) .nil
  values := Fragment.parts.andThen <| .pair values <| .pair .same <| .pair values .same

end MacroPlugin
