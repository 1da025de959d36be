import MacroPlugin.Wire.Schema
import MacroPlugin.Json.Skip

/-!
Reading a value of a schema from JSON in one pass, from left to right. A record is read from an
object with its entries in any order and unknown ones passed over, or from an array of its fields
in their order; a name of a choice or union is read from a text or from an object with one entry.

The loops over the parts of lists and objects take their fuel from the length of the whole input,
which bounds the number of parts, so it is never used up.
-/

namespace MacroPlugin.Wire

open MacroPlugin.Json

/-- Takes a value off the front of the unread octets. -/
abbrev Reader (α : Type) := Octets → Except Fault (α × Octets)

/-- The fault of an input that begins with a value of another kind than `expected`. A scalar is
read first, and its own faults come before; a list or an object is not entered. -/
def unexpected (expected : String) : Octets → Fault
  | [] => .here .endOfValue []
  | octet :: rest =>
    let wrong (found : Found) (rest : Octets) : Fault :=
      .here (.mismatch (.wrongType found expected)) rest
    match Literal.ofFirst? octet with
    | some literal =>
      match literal.readRemainder rest with
      | .ok rest => wrong literal.found rest
      | .error fault => fault
    | none =>
      if octet = Ascii.quote then
        match readText rest with
        | .ok (value, rest) => wrong (.text value) rest
        | .error fault => fault
      else if Number.isFirst octet then
        match Number.read (octet :: rest) with
        | .ok (value, rest) => wrong value.found rest
        | .error fault => fault
      else if octet = Ascii.openBracket then wrong .sequence (octet :: rest)
      else if octet = Ascii.openBrace then wrong .map (octet :: rest)
      else .next .expectedValue (octet :: rest)

/-! Scalars -/

def readTextValue : Reader String := fun input =>
  match skipBlank input with
  | [] => .error (.here .endOfValue [])
  | octet :: rest =>
    if octet = Ascii.quote then readText rest else .error (unexpected "a string" (octet :: rest))

/-- The word that a number denotes. -/
def wordOf? (size : WordSize) : Number → Option size.Val
  | .integer (.ofNat n) => size.ofNat? n
  | _ => none

def readWord (size : WordSize) : Reader size.Val := fun input =>
  match skipBlank input with
  | [] => .error (.here .endOfValue [])
  | octet :: rest =>
    if Number.isFirst octet then do
      let (value, rest) ← Number.read (octet :: rest)
      match wordOf? size value, value with
      | some word, _ => .ok (word, rest)
      | none, .integer _ => .error (.here (.mismatch (.wrongValue value.found size.title)) rest)
      | none, .real _ => .error (.here (.mismatch (.wrongType value.found size.title)) rest)
    else .error (unexpected size.title (octet :: rest))

def readBoolean : Reader Bool := fun input =>
  match skipBlank input with
  | [] => .error (.here .endOfValue [])
  | octet :: rest =>
    match Literal.ofFirst? octet with
    | some .yes => do return (true, ← Literal.yes.readRemainder rest)
    | some .no => do return (false, ← Literal.no.readRemainder rest)
    | _ => .error (unexpected "a boolean" (octet :: rest))

/-- Reads the `null` that stands for a name's missing content. -/
def readUnit : Reader Unit := fun input =>
  match skipBlank input with
  | [] => .error (.here .endOfValue [])
  | octet :: rest =>
    match Literal.ofFirst? octet with
    | some .null => do return ((), ← Literal.null.readRemainder rest)
    | _ => .error (unexpected "unit" (octet :: rest))

/-- Reads `null` as an absent value. -/
def readOptional {α : Type} (value : Reader α) : Reader (Option α) := fun input =>
  match skipBlank input with
  | [] => .error (.here .endOfValue [])
  | octet :: rest =>
    if Literal.ofFirst? octet = some .null then do
      return (none, ← Literal.null.readRemainder rest)
    else do
      let (value, rest) ← value (octet :: rest)
      return (some value, rest)

/-! Lists -/

/-- Where the next element of a list begins, or `none` if its end is next. -/
def nextElement (first : Bool) (input : Octets) : Except Fault (Option Octets) :=
  match skipBlank input with
  | [] => .error (.here .endOfList [])
  | octet :: rest =>
    if octet = Ascii.closeBracket then .ok none
    else if first then .ok (some (octet :: rest))
    else if octet = Ascii.comma then
      match skipBlank rest with
      | [] => .error (.here .endOfValue [])
      | octet :: rest =>
        if octet = Ascii.closeBracket then .error (.next .trailingComma (octet :: rest))
        else .ok (some (octet :: rest))
    else .error (.next .expectedListEnd (octet :: rest))

/-- What is unread behind the closing bracket or brace that is next. -/
def behindClose (input : Octets) : Octets :=
  (skipBlank input).tail

/-- Reads the elements of a list up to and including its end; `taken` has those read before, the
last one first. -/
def readElements {α : Type} (item : Reader α) (fuel : Nat) (first : Bool) (taken : List α) :
    Reader (List α) := fun input =>
  match fuel with
  | 0 => .error (.here .endOfList input)
  | fuel + 1 => do
    match ← nextElement first input with
    | none => .ok (taken.reverse, behindClose input)
    | some input =>
      let (value, rest) ← item input
      readElements item fuel false (value :: taken) rest

def readList {α : Type} (item : Reader α) (fuel : Nat) : Reader (List α) := fun input =>
  match skipBlank input with
  | [] => .error (.here .endOfValue [])
  | octet :: rest =>
    if octet = Ascii.openBracket then readElements item fuel true [] rest
    else .error (unexpected "a sequence" (octet :: rest))

/-- Reads the end of an array that has an element for each field. -/
def readListEnd (input : Octets) : Except Fault Octets :=
  match skipBlank input with
  | [] => .error (.here .endOfList [])
  | octet :: rest =>
    if octet = Ascii.closeBracket then .ok rest
    else if octet = Ascii.comma then
      match skipBlank rest with
      | [] => .error (.here .trailingOctets [])
      | octet :: rest =>
        if octet = Ascii.closeBracket then .error (.next .trailingComma (octet :: rest))
        else .error (.next .trailingOctets (octet :: rest))
    else .error (.next .trailingOctets (octet :: rest))

/-! Objects -/

/-- What is unread behind the opening quote of the next key, or `none` if the end of the object
is next. -/
def nextKey (first : Bool) (input : Octets) : Except Fault (Option Octets) :=
  match skipBlank input with
  | [] => .error (.here .endOfObject [])
  | octet :: rest =>
    if octet = Ascii.closeBrace then .ok none
    else if first then
      if octet = Ascii.quote then .ok (some rest) else .error (.next .keyNotText (octet :: rest))
    else if octet = Ascii.comma then
      match skipBlank rest with
      | [] => .error (.here .endOfValue [])
      | octet :: rest =>
        if octet = Ascii.quote then .ok (some rest)
        else if octet = Ascii.closeBrace then .error (.next .trailingComma (octet :: rest))
        else .error (.next .keyNotText (octet :: rest))
    else .error (.next .expectedObjectEnd (octet :: rest))

def readColon (input : Octets) : Except Fault Octets :=
  match skipBlank input with
  | [] => .error (.here .endOfObject [])
  | octet :: rest =>
    if octet = Ascii.colon then .ok rest else .error (.next .expectedColon (octet :: rest))

/-- Reads the entries of an object up to and including its end. `entry` is given each key and
reads what follows it. -/
def readEntries {σ : Type} (entry : String → σ → Reader σ) (fuel : Nat) (first : Bool) (state : σ) :
    Reader σ := fun input =>
  match fuel with
  | 0 => .error (.here .endOfObject input)
  | fuel + 1 => do
    match ← nextKey first input with
    | none => .ok (state, behindClose input)
    | some input =>
      let (key, rest) ← readText input
      let (state, rest) ← entry key state rest
      readEntries entry fuel false state rest

/-- The fault of a key that occurred before. Its place is behind the blanks that follow the key,
and behind the end of the object if that is next. -/
def duplicateFault (key : String) (input : Octets) : Fault :=
  let rest :=
    match skipBlank input with
    | [] => []
    | octet :: rest => if octet = Ascii.closeBrace then rest else octet :: rest
  .here (.mismatch (.duplicate key)) rest

/-- Reads a record from an array or an object. `collect` names the first required key that the
entries of an object did not give. -/
def readRecord {α σ : Type} (title : String) (fuel : Nat) (elements : Reader α)
    (entry : String → σ → Reader σ) (start : σ) (collect : σ → Except String α) : Reader α :=
  fun input =>
  match skipBlank input with
  | [] => .error (.here .endOfValue [])
  | octet :: rest =>
    if octet = Ascii.openBracket then do
      let (value, rest) ← elements rest
      return (value, ← readListEnd rest)
    else if octet = Ascii.openBrace then do
      let (state, rest) ← readEntries entry fuel true start rest
      match collect state with
      | .ok value => .ok (value, rest)
      | .error key => .error (.here (.mismatch (.missing key)) rest)
    else .error (unexpected title (octet :: rest))

/-! Names -/

/-- Reads one of the names, behind its opening quote. -/
def readName (names : List String) : Reader (Fin names.length) := fun input => do
  let (name, rest) ← readText input
  match names.finIdxOf? name with
  | some index => .ok (index, rest)
  | none => .error (.here (.mismatch (.unknownName name names)) rest)

/-- Reads a name that stands alone, or an object whose only entry has the name as its key. -/
def readNamed {α : Type} (names : List String) (alone : Fin names.length → Except Fault α)
    (content : Fin names.length → Reader α) : Reader α := fun input =>
  match skipBlank input with
  | [] => .error (.here .endOfValue [])
  | octet :: rest =>
    if octet = Ascii.quote then do
      let (index, rest) ← readName names rest
      return (← alone index, rest)
    else if octet = Ascii.openBrace then
      match skipBlank rest with
      | [] => .error (.here .endOfObject [])
      | octet :: rest =>
        if octet = Ascii.quote then do
          let (index, rest) ← readName names rest
          let (value, rest) ← content index (← readColon rest)
          match skipBlank rest with
          | [] => .error (.here .endOfObject [])
          | octet :: rest =>
            if octet = Ascii.closeBrace then .ok (value, rest)
            else .error (.here .expectedValue (octet :: rest))
        else if octet = Ascii.closeBrace then .error (.next .expectedValue (octet :: rest))
        else .error (.next .keyNotText (octet :: rest))
    else .error (.next .expectedValue (octet :: rest))

/-- The fault of a case with fields whose name stands alone. It has no place. -/
def fieldlessFault : Fault :=
  ⟨.mismatch (.wrongType .unitVariant "struct variant"), none⟩

/-! Schemas -/

/-- The fields that an object has given so far. -/
def Fields.Slots : Fields → Type
  | .nil => Unit
  | .required _ schema rest => Option schema.Val × rest.Slots
  | .optional _ schema rest => Option (Option schema.Val) × rest.Slots
  | .defaulted _ item rest => Option (List item.Val) × rest.Slots

def Fields.noSlots : (fields : Fields) → fields.Slots
  | .nil => ()
  | .required _ _ rest => (none, rest.noSlots)
  | .optional _ _ rest => (none, rest.noSlots)
  | .defaulted _ _ rest => (none, rest.noSlots)

/-- The value of the fields, or the first required key that is absent. -/
def Fields.collect : (fields : Fields) → fields.Slots → Except String fields.Val
  | .nil, _ => .ok ()
  | .required key _ rest, (slot, slots) =>
    match slot with
    | none => .error key
    | some value => do return (value, ← rest.collect slots)
  | .optional _ _ rest, (slot, slots) => do return (slot.getD none, ← rest.collect slots)
  | .defaulted _ _ rest, (slot, slots) => do return (slot.getD [], ← rest.collect slots)

/-- Fills the slot of a key, unless it was filled before. -/
def fillSlot {α : Type} (key : String) (slot : Option α) (value : Reader α) : Reader (Option α) :=
  fun input =>
  match slot with
  | some _ => .error (duplicateFault key input)
  | none => do
    let (value, rest) ← value (← readColon input)
    return (some value, rest)

mutual

def Schema.read (fuel : Nat) : (schema : Schema) → Reader schema.Val
  | .text => readTextValue
  | .word size => readWord size
  | .boolean => readBoolean
  | .list item => readList (item.read fuel) fuel
  | .choice names =>
    readNamed names .ok fun index input => do return (index, (← readUnit input).2)
  | .record title fields =>
    readRecord title fuel (fields.readElements fuel title fields.size 0 true)
      (fun key slots => fields.readEntry fuel key slots) fields.noSlots fields.collect
  | .union cases =>
    readNamed cases.names (fun _ => .error fieldlessFault) fun index =>
      cases.readContent fuel index.val

/-- Reads the fields from the elements of an array, from the field with number `index` on. -/
def Fields.readElements (fuel : Nat) : (fields : Fields) → (title : String) → (size index : Nat) →
    (first : Bool) → Reader fields.Val
  | .nil, _, _, _, _ => fun input => .ok ((), input)
  | .required _ schema rest, title, size, index, first => fun input => do
    match ← nextElement first input with
    | none => .error (.here (.mismatch (.tooShort index title size)) (behindClose input))
    | some input =>
      let (value, input) ← schema.read fuel input
      let (values, input) ← rest.readElements fuel title size (index + 1) false input
      return ((value, values), input)
  | .optional _ schema rest, title, size, index, first => fun input => do
    match ← nextElement first input with
    | none =>
      let (values, input) ← rest.readElements fuel title size (index + 1) first input
      return ((none, values), input)
    | some input =>
      let (value, input) ← readOptional (schema.read fuel) input
      let (values, input) ← rest.readElements fuel title size (index + 1) false input
      return ((value, values), input)
  | .defaulted _ item rest, title, size, index, first => fun input => do
    match ← nextElement first input with
    | none =>
      let (values, input) ← rest.readElements fuel title size (index + 1) first input
      return (([], values), input)
    | some input =>
      let (value, input) ← readList (item.read fuel) fuel input
      let (values, input) ← rest.readElements fuel title size (index + 1) false input
      return ((value, values), input)

/-- Reads what follows a key into the slot of its field; the value of an unknown key is passed
over. -/
def Fields.readEntry (fuel : Nat) : (fields : Fields) → String → fields.Slots → Reader fields.Slots
  | .nil, _, _ => fun input => do return ((), ← skipValue fuel (← readColon input))
  | .required key schema rest, given, (slot, slots) => fun input =>
    if given = key then do
      let (slot, input) ← fillSlot key slot (schema.read fuel) input
      return ((slot, slots), input)
    else do
      let (slots, input) ← rest.readEntry fuel given slots input
      return ((slot, slots), input)
  | .optional key schema rest, given, (slot, slots) => fun input =>
    if given = key then do
      let (slot, input) ← fillSlot key slot (readOptional (schema.read fuel)) input
      return ((slot, slots), input)
    else do
      let (slots, input) ← rest.readEntry fuel given slots input
      return ((slot, slots), input)
  | .defaulted key item rest, given, (slot, slots) => fun input =>
    if given = key then do
      let (slot, input) ← fillSlot key slot (readList (item.read fuel) fuel) input
      return ((slot, slots), input)
    else do
      let (slots, input) ← rest.readEntry fuel given slots input
      return ((slot, slots), input)

/-- Reads the fields of the case with number `index`. -/
def Cases.readContent (fuel : Nat) : (cases : Cases) → (index : Nat) → Reader cases.Val
  | .nil, _ => fun input => .error (.here .expectedValue input)
  | .cons _ title fields _, 0 => fun input => do
    let (value, rest) ← readRecord title fuel (fields.readElements fuel title fields.size 0 true)
      (fun key slots => fields.readEntry fuel key slots) fields.noSlots fields.collect input
    return (.inl value, rest)
  | .cons _ _ _ rest, index + 1 => fun input => do
    let (value, rest) ← rest.readContent fuel index input
    return (.inr value, rest)

end

/-- Reads a value that takes up the whole input. -/
def Schema.readAll (schema : Schema) (input : Octets) : Except DecodeError schema.Val :=
  match schema.read (input.length + 1) input with
  | .error fault => .error (fault.locate input)
  | .ok (value, rest) =>
    match skipBlank rest with
    | [] => .ok value
    | rest => .error ((Fault.next .trailingOctets rest).locate input)

end MacroPlugin.Wire
