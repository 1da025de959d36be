import MacroPlugin.Json.Value

/-!
The shapes that messages have on the wire. A schema is a first-order description: texts, words,
truth values, lists, a choice among names, records with named fields, and unions in which an
object with one entry names the case. `Schema.Val` is the type of the values a schema describes,
so that one printer and one reader serve every message, and a law about all messages is one
induction over schemas.

A field is required, optional (left out when absent), or a list that is empty when it is absent.
The title of a record is how the reader names it when it finds something else.
-/

namespace MacroPlugin.Wire

inductive WordSize where
  | half
  | full
  deriving DecidableEq

mutual

inductive Schema where
  | text
  | word (size : WordSize)
  | boolean
  | list (item : Schema)
  | choice (names : List String)
  | record (title : String) (fields : Fields)
  | union (cases : Cases)

inductive Fields where
  | nil
  | required (key : String) (schema : Schema) (rest : Fields)
  | optional (key : String) (schema : Schema) (rest : Fields)
  | defaulted (key : String) (item : Schema) (rest : Fields)

inductive Cases where
  | nil
  | cons (name title : String) (fields : Fields) (rest : Cases)

end

namespace WordSize

/-- The words of a size. -/
abbrev Val : WordSize → Type
  | .half => UInt32
  | .full => UInt64

def toNat : (size : WordSize) → size.Val → Nat
  | .half, word => UInt32.toNat word
  | .full, word => UInt64.toNat word

/-- The word that denotes a number, if the number is not too large. -/
def ofNat? : (size : WordSize) → Nat → Option size.Val
  | .half, n => if n < UInt32.size then some (UInt32.ofNat n) else none
  | .full, n => if n < UInt64.size then some (UInt64.ofNat n) else none

/-- How a reader names the size. -/
def title : WordSize → String
  | .half => "u32"
  | .full => "usize"

end WordSize

mutual

def Schema.Val : Schema → Type
  | .text => String
  | .word size => size.Val
  | .boolean => Bool
  | .list item => List item.Val
  | .choice names => Fin names.length
  | .record _ fields => fields.Val
  | .union cases => cases.Val

def Fields.Val : Fields → Type
  | .nil => Unit
  | .required _ schema rest => schema.Val × rest.Val
  | .optional _ schema rest => Option schema.Val × rest.Val
  | .defaulted _ item rest => List item.Val × rest.Val

def Cases.Val : Cases → Type
  | .nil => Empty
  | .cons _ _ fields rest => fields.Val ⊕ rest.Val

end

/-- How many fields there are. -/
def Fields.size : Fields → Nat
  | .nil => 0
  | .required _ _ rest | .optional _ _ rest | .defaulted _ _ rest => rest.size + 1

def Cases.names : Cases → List String
  | .nil => []
  | .cons name _ _ rest => name :: rest.names

/-! Values as JSON. -/

mutual

def Schema.toJson : (schema : Schema) → schema.Val → Json
  | .text, value => .text value
  | .word size, value => .number (size.toNat value)
  | .boolean, value => .boolean value
  | .list item, values => .array (List.map item.toJson values)
  | .choice names, index => .text (names.get index)
  | .record _ fields, value => .object (fields.entries value)
  | .union cases, value => .object [cases.entry value]

/-- The entries of a record in the order of its fields; an absent optional field has none. -/
def Fields.entries : (fields : Fields) → fields.Val → List (String × Json)
  | .nil, _ => []
  | .required key schema rest, (value, values) => (key, schema.toJson value) :: rest.entries values
  | .optional key schema rest, (some value, values) =>
    (key, schema.toJson value) :: rest.entries values
  | .optional _ _ rest, (none, values) => rest.entries values
  | .defaulted key item rest, (items, values) =>
    (key, .array (List.map item.toJson items)) :: rest.entries values

def Cases.entry : (cases : Cases) → cases.Val → String × Json
  | .cons name _ fields _, .inl value => (name, .object (fields.entries value))
  | .cons _ _ _ rest, .inr value => rest.entry value

end

end MacroPlugin.Wire
