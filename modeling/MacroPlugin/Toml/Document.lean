import MacroPlugin.Toml.Number

/-!
From the text of a configuration file to its table. The text is a sequence of lines: headers,
assignments and blank lines. A header opens a table, or a further table of an array; assignments
belong to the last header. A key can be given only once, and a table can be opened only once,
apart from tables that so far only contained others.
-/

namespace MacroPlugin.Toml

/-- The values of a table may lie this many brackets and braces deep. -/
def maxDepth : Nat := 79

/-- Keys may have fewer parts than this. -/
def maxParts : Nat := 80

/-! Trivia -/

/-- Drops blanks, line ends and comments; `inComment` says whether a comment has begun. -/
def skipTrivia (inComment : Bool) : List Char → List Char
  | [] => []
  | '\r' :: '\n' :: rest => skipTrivia false rest
  | '\n' :: rest => skipTrivia false rest
  | c :: rest =>
    if inComment then if isPlain c then skipTrivia true rest else c :: rest
    else if isBlank c then skipTrivia false rest
    else if c = '#' then skipTrivia true rest
    else c :: rest

def skipBlank (input : List Char) : List Char :=
  input.dropWhile isBlank

/-- Takes the rest of a line that may hold a comment. -/
def readLineEnd (input : List Char) : Option (List Char) :=
  let rest :=
    match skipBlank input with
    | '#' :: rest => rest.dropWhile isPlain
    | rest => rest
  match rest with
  | [] => some []
  | '\n' :: rest => some rest
  | '\r' :: '\n' :: rest => some rest
  | _ => none

/-! Keys -/

def isBare (c : Char) : Bool :=
  c.isAlphanum || c = '_' || c = '-'

def readPart (input : List Char) : Option (Key × List Char) := do
  let (name, rest) ←
    match input with
    | '"' :: rest => Text.quoted [] rest
    | '\'' :: rest => Text.literal [] rest
    | input =>
      let (name, rest) := input.span isBare
      if name.isEmpty then none else some (name, rest)
  return (⟨String.ofList name, ⟨input.length, rest.length⟩⟩, rest)

/-- Takes the parts of a key, which are separated by points; `parts` bounds their number. -/
def readParts (parts : Nat) (input : List Char) : Option (List Key × List Char) :=
  match parts with
  | 0 => none
  | parts + 1 => do
    let (key, rest) ← readPart (skipBlank input)
    match skipBlank rest with
    | '.' :: rest => do
      let (keys, rest) ← readParts parts rest
      return (key :: keys, rest)
    | rest => return ([key], rest)

/-- Takes a key and the blanks around it. -/
def readKey (input : List Char) : Option (List Key × List Char) :=
  readParts (maxParts - 1) input

/-! Tables -/

/-- Replaces the value of a key, if the key is there. `change` may refuse. -/
def replaceEntry (name : String) (change : Value → Option Value) : Entries → Option Entries
  | [] => none
  | (key, value) :: rest =>
    if key.name = name then do return (key, ← change value) :: rest
    else do return (key, value) :: (← replaceEntry name change rest)

def hasKey (entries : Entries) (name : String) : Bool :=
  entries.any fun entry => entry.1.name = name

/-- Changes the last element of a list. -/
def changeLast {α : Type} (change : α → Option α) : List α → Option (List α)
  | [] => none
  | [a] => do return [← change a]
  | a :: rest => do return a :: (← changeLast change rest)

/-- Changes the entries of a table. -/
def changeEntries (change : Entries → Option Entries) : Value → Option Value
  | .table origin extent entries => do return .table origin extent (← change entries)
  | _ => none

/-- Puts a value under a dotted key. The tables on the way are made where they are missing; one
that is there must not be closed, and the innermost has to come from a dotted key itself. -/
def assign (path : List Key) (value : Value) (entries : Entries) : Option Entries :=
  match path with
  | [] => none
  | [key] => if hasKey entries key.name then none else some (entries ++ [(key, value)])
  | key :: next :: path =>
    let deeper := assign (next :: path) value
    if hasKey entries key.name then
      replaceEntry key.name (fun
        | .table .dotted extent inner => do return .table .dotted extent (← deeper inner)
        | .table .implied extent inner =>
          if path.isEmpty then none else do return .table .implied extent (← deeper inner)
        | .tables items =>
          if path.isEmpty then none
          else do return .tables (← changeLast (changeEntries deeper) items)
        | _ => none) entries
    else do return entries ++ [(key, .table .dotted none (← deeper []))]

/-- A header, with its place. -/
structure Header where
  path : List Key
  extent : Extent
  repeated : Bool

/-- Opens the table of a header and fills it. `extent` is the place of the header with the values
below it. -/
def openTable (path : List Key) (repeated : Bool) (extent : Extent)
    (fill : Entries → Option Entries) (entries : Entries) : Option Entries :=
  match path with
  | [] => none
  | [key] =>
    let opened (inner : Entries) : Option Value := do
      return .table .headed (some extent) (← fill inner)
    match entries.find? (·.1.name = key.name), repeated with
    | none, false => do return entries ++ [(key, ← opened [])]
    | none, true => do return entries ++ [(key, .tables [← opened []])]
    | some (_, .table .implied _ inner), false => do
      return entries.filter (·.1.name ≠ key.name) ++ [(key, ← opened inner)]
    | some (_, .tables _), true =>
      replaceEntry key.name (fun
        | .tables items => do return .tables (items ++ [← opened []])
        | _ => none) entries
    | _, _ => none
  | key :: next :: path =>
    let deeper := openTable (next :: path) repeated extent fill
    if hasKey entries key.name then
      replaceEntry key.name (fun
        | .table .inline _ _ => none
        | .tables items => do return .tables (← changeLast (changeEntries deeper) items)
        | value => changeEntries deeper value) entries
    else do return entries ++ [(key, .table .implied none (← deeper []))]

/-! Values -/

/-- Takes the items of an array and its end. -/
def readItems (item : List Char → Option (Value × List Char)) (fuel : Nat) (taken : List Value)
    (input : List Char) : Option (List Value × List Char) :=
  match fuel with
  | 0 => none
  | fuel + 1 =>
    match skipTrivia false input with
    | ']' :: rest => some (taken.reverse, rest)
    | input => do
      let (value, rest) ← item input
      match skipTrivia false rest with
      | ',' :: rest => readItems item fuel (value :: taken) rest
      | ']' :: rest => some ((value :: taken).reverse, rest)
      | _ => none

/-- Takes a key, an equals sign and a value. -/
def readAssignment (value : List Char → Option (Value × List Char)) (input : List Char) :
    Option ((List Key × Value) × List Char) := do
  let (path, rest) ← readKey input
  match rest with
  | '=' :: rest =>
    let (value, rest) ← value (skipBlank rest)
    return ((path, value), rest)
  | _ => none

/-- Takes the assignments between braces, of which there is at least one. -/
def readInline (value : List Char → Option (Value × List Char)) (fuel : Nat) (entries : Entries)
    (input : List Char) : Option (Entries × List Char) :=
  match fuel with
  | 0 => none
  | fuel + 1 => do
    let ((path, assigned), rest) ← readAssignment value input
    let entries ← assign path assigned entries
    match skipBlank rest with
    | ',' :: rest => readInline value fuel entries rest
    | '\x7d' :: rest => some (entries, rest)
    | _ => none

/-- Takes a value whose containers lie at most `depth` deep. -/
def readValue (depth : Nat) (input : List Char) : Option (Value × List Char) :=
  let extent (rest : List Char) : Extent := ⟨input.length, rest.length⟩
  match depth, input with
  | 0, '[' :: _ => none
  | 0, '\x7b' :: _ => none
  | depth + 1, '[' :: rest => do
    let (items, rest) ← readItems (readValue depth) (input.length + 1) [] rest
    return (.array (extent rest) items, rest)
  | depth + 1, '\x7b' :: rest =>
    match skipBlank rest with
    | '\x7d' :: rest => some (.table .inline (some (extent rest)) [], rest)
    | rest => do
      let (entries, rest) ← readInline (readValue depth) (input.length + 1) [] rest
      return (.table .inline (some (extent rest)) entries, rest)
  | _, '"' :: _ => do
    let (text, rest) ← Text.read input
    return (.scalar (extent rest) (.text (String.ofList text)), rest)
  | _, '\'' :: _ => do
    let (text, rest) ← Text.read input
    return (.scalar (extent rest) (.text (String.ofList text)), rest)
  | _, input => do
    let (scalar, rest) ← Scalar.readWord input
    return (.scalar (extent rest) scalar, rest)

/-! Lines -/

inductive Line where
  | blank
  | header (header : Header)
  | assignment (path : List Key) (value : Value)

/-- Takes a header up to its closing brackets. -/
def readHeader (input : List Char) : Option (Header × List Char) :=
  match input with
  | '[' :: '[' :: rest => do
    let (path, rest) ← readKey rest
    match rest with
    | ']' :: ']' :: rest => return (⟨path, ⟨input.length, rest.length⟩, true⟩, rest)
    | _ => none
  | '[' :: rest => do
    let (path, rest) ← readKey rest
    match rest with
    | ']' :: rest => return (⟨path, ⟨input.length, rest.length⟩, false⟩, rest)
    | _ => none
  | _ => none

/-- Takes what a line says, without blanks in front and up to a comment or the end. -/
def readStatement (input : List Char) : Option (Line × List Char) :=
  match input with
  | [] => some (.blank, [])
  | '#' :: _ => some (.blank, input)
  | '\r' :: _ => some (.blank, input)
  | '\n' :: _ => some (.blank, input)
  | '[' :: _ => (readHeader input).map fun (header, rest) => (.header header, rest)
  | _ =>
    (readAssignment (readValue maxDepth) input).map fun ((path, value), rest) =>
      (.assignment path value, rest)

/-- Takes a line that is not at the end of the input. -/
def readLine (input : List Char) : Option (Line × List Char) := do
  let (line, rest) ← readStatement (skipBlank input)
  return (line, ← readLineEnd rest)

/-- Takes all lines. Every line has at least one character, so a fuel above the length of the
input is never used up. -/
def readLines (fuel : Nat) (input : List Char) : Option (List Line) :=
  match fuel, input with
  | _, [] => some []
  | 0, _ => none
  | fuel + 1, input => do
    let (line, rest) ← readLine input
    return line :: (← readLines fuel rest)

/-! Sections -/

/-- A header with the assignments below it. -/
structure Section where
  header : Option Header
  assignments : List (List Key × Value)

/-- The sections of a file; the first one has no header. -/
def sections (lines : List Line) : List Section :=
  lines.foldr (fun line sections =>
    match line, sections with
    | .assignment path value, first :: rest =>
      { first with assignments := (path, value) :: first.assignments } :: rest
    | .header header, first :: rest => ⟨none, []⟩ :: { first with header := some header } :: rest
    | _, sections => sections) [⟨none, []⟩]

/-- Makes the assignments of a section in the entries of its table. -/
def Section.fill (s : Section) (entries : Entries) : Option Entries :=
  s.assignments.foldlM (fun entries (path, value) => assign path value entries) entries

/-- The place of a header together with the values below it. -/
def Section.extent (s : Section) (header : Header) : Extent :=
  match s.assignments.getLast? with
  | some (_, value) => ⟨header.extent.start, (value.extent?.getD header.extent).stop⟩
  | none => header.extent

/-- Adds a section to the table of the file. -/
def Section.place (s : Section) (root : Entries) : Option Entries :=
  match s.header with
  | none => s.fill root
  | some header => openTable header.path header.repeated (s.extent header) s.fill root

/-- The table that the text of a file describes, unless the text is malformed. A mark of the byte
order at its very beginning is skipped. -/
def parse? (text : List Char) : Option Entries := do
  let input :=
    match text with
    | '\ufeff' :: rest => rest
    | text => text
  let lines ← readLines (input.length + 1) input
  (sections lines).foldlM (fun root s => s.place root) []

end MacroPlugin.Toml
