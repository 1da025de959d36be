import MacroPlugin.Wire.Codec

/-!
How a request names the macro it is about: the key of its implementation, the name the client
declared it under, and the role that the expansion plays where the macro is used.
-/

namespace MacroPlugin

/-- The identity of a macro. The module and the type are the key of the implementation;
`declaredName` is the name that the client used, and appears in diagnostics only. -/
structure Reference where
  moduleName : String
  typeName : String
  declaredName : String
  deriving DecidableEq, Repr

/-- How diagnostics name a macro. -/
def Reference.describe (r : Reference) : String :=
  "'" ++ r.declaredName ++ "' (module '" ++ r.moduleName ++ "', type '" ++ r.typeName ++ "')"

instance : Wire Reference where
  schema := .record "struct MacroReference" <|
    .required "moduleName" .text <|
    .required "typeName" .text <|
    .required "name" .text .nil
  values :=
    { forth := fun a => (a.moduleName, a.typeName, a.declaredName, ())
      back := fun (moduleName, typeName, declaredName, _) => ⟨moduleName, typeName, declaredName⟩
      back_forth := fun _ => rfl
      forth_back := fun _ => rfl }

inductive Role where
  | expression
  | declaration
  | accessor
  | memberAttribute
  | member
  | peer
  | conformance
  | codeItem
  | extension
  deriving DecidableEq, Repr

namespace Role

def index : Role → Fin 9
  | .expression => 0
  | .declaration => 1
  | .accessor => 2
  | .memberAttribute => 3
  | .member => 4
  | .peer => 5
  | .conformance => 6
  | .codeItem => 7
  | .extension => 8

def ofIndex : Fin 9 → Role
  | 0 => .expression
  | 1 => .declaration
  | 2 => .accessor
  | 3 => .memberAttribute
  | 4 => .member
  | 5 => .peer
  | 6 => .conformance
  | 7 => .codeItem
  | 8 => .extension

/-- Every role, in the order of the wire names. -/
def all : List Role :=
  (List.finRange 9).map ofIndex

/-- The name of a role on the wire and in messages. -/
def name : Role → String
  | .expression => "expression"
  | .declaration => "declaration"
  | .accessor => "accessor"
  | .memberAttribute => "memberAttribute"
  | .member => "member"
  | .peer => "peer"
  | .conformance => "conformance"
  | .codeItem => "codeItem"
  | .extension => "extension"

/-- The roles of an expansion that stands on its own, as in `#name(...)`. -/
def isFreestanding : Role → Bool
  | .expression | .declaration | .codeItem => true
  | _ => false

/-- The roles of an expansion that is attached to a declaration, as in `@Name`. -/
def isAttached (role : Role) : Bool :=
  !role.isFreestanding

end Role

instance : Wire Role where
  schema := .choice
    ["expression", "declaration", "accessor", "memberAttribute", "member",
      "peer", "conformance", "codeItem", "extension"]
  values := ⟨Role.index, Role.ofIndex, fun a => by cases a <;> rfl,
    (by decide : ∀ i, (Role.ofIndex i).index = i)⟩

end MacroPlugin
