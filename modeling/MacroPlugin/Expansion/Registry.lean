import MacroPlugin.Expansion.Implementation

/-!
The implementations a plugin offers: a table of modules, each with a table of its types.
Registering a key a second time is an error. The names of a table are in order, by code points,
which is also the order of their UTF-8 octets.
-/

namespace MacroPlugin

structure Key where
  moduleName : String
  typeName : String
  deriving DecidableEq, Repr

/-- The key that a reference points at. -/
def Reference.key (r : Reference) : Key :=
  ⟨r.moduleName, r.typeName⟩

/-- The second registration of a key. -/
structure DuplicateKey where
  key : Key
  deriving DecidableEq, Repr

def DuplicateKey.message (e : DuplicateKey) : String :=
  "Macro already registered: module '" ++ e.key.moduleName ++ "', type '" ++ e.key.typeName ++ "'"

structure Registration where
  key : Key
  implementation : Implementation

/-- Values under names, in the order of the names. -/
abbrev Table (α : Type) : Type :=
  List (String × α)

namespace Table

variable {α : Type}

/-- The value under a name. -/
def value? (name : String) : Table α → Option α
  | [] => none
  | (other, value) :: rest => if name = other then some value else value? name rest

/-- Puts a value under a name, instead of the one that was there. -/
def put (name : String) (value : α) : Table α → Table α
  | [] => [(name, value)]
  | (other, value') :: rest =>
    if name = other then (name, value) :: rest
    else if name < other then (name, value) :: (other, value') :: rest
    else (other, value') :: put name value rest

end Table

structure Registry where
  table : Table (Table Implementation)

namespace Registry

def empty : Registry :=
  ⟨[]⟩

/-- Registers an implementation. Its module is put into the table before its type is looked up, and
stays there whether or not the type is taken. -/
def register (r : Registry) (new : Registration) : Registry × Option DuplicateKey :=
  let types := (r.table.value? new.key.moduleName).getD []
  let table := r.table.put new.key.moduleName types
  if (types.value? new.key.typeName).isSome then (⟨table⟩, some ⟨new.key⟩)
  else
    (⟨table.put new.key.moduleName (types.put new.key.typeName new.implementation)⟩, none)

/-- The implementation registered for exactly this key. -/
def find? (r : Registry) (key : Key) : Option Implementation :=
  (r.table.value? key.moduleName).bind fun types => types.value? key.typeName

def contains (r : Registry) (key : Key) : Bool :=
  (r.find? key).isSome

/-- All registrations, module by module and type by type. -/
def entries (r : Registry) : List Registration :=
  r.table.flatMap fun (moduleName, types) =>
    types.map fun (typeName, implementation) => ⟨⟨moduleName, typeName⟩, implementation⟩

/-- How many types there are in all modules. -/
def size (r : Registry) : Nat :=
  r.table.foldr (fun (_, types) size => types.length + size) 0

def isEmpty (r : Registry) : Bool :=
  r.size = 0

/-- Registers one after the other, up to the first duplicate. What was registered before it stays
registered. -/
def registerAll (r : Registry) : List Registration → Registry × Option DuplicateKey
  | [] => (r, none)
  | new :: rest =>
    match r.register new with
    | (r, none) => r.registerAll rest
    | (r, some e) => (r, some e)

end Registry

end MacroPlugin
