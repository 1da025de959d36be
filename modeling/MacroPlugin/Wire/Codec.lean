import MacroPlugin.Wire.Reader

/-!
Types with a wire form. An instance of `Wire` gives the schema of a type and a correspondence
between the type and the values of the schema; printing and reading are then those of the schema.
-/

namespace MacroPlugin

/-- Two maps that undo each other. -/
structure Correspondence (α β : Type) where
  forth : α → β
  back : β → α
  back_forth : ∀ a, back (forth a) = a
  forth_back : ∀ b, forth (back b) = b

namespace Correspondence

def same {α : Type} : Correspondence α α :=
  ⟨id, id, fun _ => rfl, fun _ => rfl⟩

def andThen {α β γ : Type} (f : Correspondence α β) (g : Correspondence β γ) :
    Correspondence α γ where
  forth a := g.forth (f.forth a)
  back c := f.back (g.back c)
  back_forth a := by rw [g.back_forth, f.back_forth]
  forth_back c := by rw [f.forth_back, g.forth_back]

def pair {α β γ δ : Type} (f : Correspondence α β) (g : Correspondence γ δ) :
    Correspondence (α × γ) (β × δ) where
  forth := fun (a, c) => (f.forth a, g.forth c)
  back := fun (b, d) => (f.back b, g.back d)
  back_forth := fun (a, c) => by simp [f.back_forth, g.back_forth]
  forth_back := fun (b, d) => by simp [f.forth_back, g.forth_back]

def either {α β γ δ : Type} (f : Correspondence α β) (g : Correspondence γ δ) :
    Correspondence (α ⊕ γ) (β ⊕ δ) where
  forth
    | .inl a => .inl (f.forth a)
    | .inr c => .inr (g.forth c)
  back
    | .inl b => .inl (f.back b)
    | .inr d => .inr (g.back d)
  back_forth
    | .inl a => by simp [f.back_forth]
    | .inr c => by simp [g.back_forth]
  forth_back
    | .inl b => by simp [f.forth_back]
    | .inr d => by simp [g.forth_back]

def option {α β : Type} (f : Correspondence α β) : Correspondence (Option α) (Option β) where
  forth := Option.map f.forth
  back := Option.map f.back
  back_forth a := by cases a <;> simp [f.back_forth]
  forth_back b := by cases b <;> simp [f.forth_back]

def list {α β : Type} (f : Correspondence α β) : Correspondence (List α) (List β) where
  forth := List.map f.forth
  back := List.map f.back
  back_forth as := by induction as <;> simp_all [f.back_forth]
  forth_back bs := by induction bs <;> simp_all [f.forth_back]

end Correspondence

class Wire (α : Type) where
  schema : Wire.Schema
  values : Correspondence α schema.Val

namespace Wire

def toJson {α : Type} [Wire α] (a : α) : Json :=
  (schema α).toJson (values.forth a)

/-- The wire form, as JSON without blanks. -/
def encode {α : Type} [Wire α] (a : α) : String :=
  (toJson a).compact

/-- Reads a value that takes up the whole input. -/
def decode (α : Type) [Wire α] (input : Octets) : Except Json.DecodeError α :=
  (schema α).readAll input |>.map values.back

end Wire

end MacroPlugin
