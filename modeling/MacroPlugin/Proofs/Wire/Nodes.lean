import MacroPlugin.Proofs.Wire.Forms

/-!
The structs inside a message, at any depth, and the two ways to send each of them. Whatever forms
are chosen for them, independently of one another, the message is the same. But one array that does
not fit its struct spoils the message, however deep it stands: a text cannot be read unless every
struct inside it can.
-/

namespace MacroPlugin.Wire

open Json

/-! Structs inside a text -/

/-- The keys of fields, each with the schema of its value, in the order of the fields. -/
def Fields.columns (fields : Fields) : List (String × Schema) :=
  fields.keys.zip fields.schemas

/-- A field of a struct and its text: the one under its key if the struct is an object, and the one
in its place if the struct is an array. -/
inductive Fields.Part (fields : Fields) (struct : Octets) (schema : Schema) (text : Octets) : Prop
  | entry {entries : List (String × Octets)} {key : String} (hobject : SpelledObject entries struct)
      (hcolumn : (key, schema) ∈ fields.columns) (htext : (key, text) ∈ entries)
  | item {texts : List Octets} {key : String} (harray : SpelledArray texts struct)
      (hplace : ((key, schema), text) ∈ fields.columns.zip texts)

/-- A struct somewhere inside a text: its fields, and what stands for them. -/
inductive Schema.Node (fields : Fields) (struct : Octets) : Schema → Octets → Prop
  | record {title : String} : Node fields struct (.record title fields) struct
  | content {cases : Cases} {name : String} {value : fields.Val → cases.Val} {text : Octets}
      (hcase : cases.Has name fields value) (htext : SpelledObject [(name, struct)] text) :
      Node fields struct (.union cases) text
  | inList {item : Schema} {texts : List Octets} {text array : Octets}
      (harray : SpelledArray texts array) (hmem : text ∈ texts) (h : Node fields struct item text) :
      Node fields struct (.list item) array
  | inRecord {title : String} {outer : Fields} {schema : Schema} {text inner : Octets}
      (hpart : outer.Part text schema inner) (h : Node fields struct schema inner) :
      Node fields struct (.record title outer) text
  | inContent {cases : Cases} {name : String} {outer : Fields} {value : outer.Val → cases.Val}
      {schema : Schema} {text content inner : Octets} (hcase : cases.Has name outer value)
      (htext : SpelledObject [(name, content)] text) (hpart : outer.Part content schema inner)
      (h : Node fields struct schema inner) : Node fields struct (.union cases) text

section Nodes

variable {α : Type} {fields : Fields} {struct text : Octets} {schema : Schema}

theorem SpelledObject.ne_null {entries : List (String × Octets)}
    (h : SpelledObject entries text) : text ≠ Literal.null.octets := by
  cases h
  exact fun heq => absurd (List.cons.inj heq).1 (by decide)

theorem SpelledArray.ne_null {texts : List Octets} (h : SpelledArray texts text) :
    text ≠ Literal.null.octets := by
  cases h
  exact fun heq => absurd (List.cons.inj heq).1 (by decide)

/-- A text with a struct inside is not taken for an absent value. -/
theorem Schema.Node.ne_null (h : schema.Node fields struct text)
    (hstruct : struct ≠ Literal.null.octets) : text ≠ Literal.null.octets := by
  cases h with
  | record => exact hstruct
  | content _ htext | inContent _ htext => exact htext.ne_null
  | inList harray => exact harray.ne_null
  | inRecord hpart =>
    cases hpart with
    | entry hobject => exact hobject.ne_null
    | item harray => exact harray.ne_null

theorem Says.of_mem {reads : Octets → α → Prop} {missing : Option α} {texts : List Octets}
    {value : α} (h : Says reads missing texts value) (htext : text ∈ texts) : reads text value := by
  match texts with
  | [] => exact absurd htext List.not_mem_nil
  | [octets] => rwa [List.mem_singleton.mp htext]
  | _ :: _ :: _ => exact h.elim

theorem Schema.ReadsOptional.of_ne_null {value : Option schema.Val}
    (h : schema.ReadsOptional text value) (hne : text ≠ Literal.null.octets) :
    ∃ value, schema.ReadsAs text value := by
  rw [ReadsOptional, if_neg hne] at h
  obtain ⟨present, -, hread⟩ := h
  exact ⟨present, hread⟩

/-- Each text under a known key has been read. -/
theorem Fields.given_column {entries : List (String × Octets)} {key : String}
    (hne : text ≠ Literal.null.octets) (htext : (key, text) ∈ entries) : (fields : Fields) →
    {values : fields.Val} → fields.Given entries values → (key, schema) ∈ fields.columns →
    ∃ value, schema.ReadsAs text value
  | .required _ _ rest, _, ⟨hsaid, hrest⟩, hcolumn
  | .defaulted _ _ rest, _, ⟨hsaid, hrest⟩, hcolumn => by
    rcases List.mem_cons.mp hcolumn with heq | hcolumn
    · obtain ⟨rfl, rfl⟩ := Prod.mk.inj heq
      exact ⟨_, hsaid.of_mem (mem_under.mpr htext)⟩
    · exact rest.given_column hne htext hrest hcolumn
  | .optional _ _ rest, _, ⟨hsaid, hrest⟩, hcolumn => by
    rcases List.mem_cons.mp hcolumn with heq | hcolumn
    · obtain ⟨rfl, rfl⟩ := Prod.mk.inj heq
      exact (hsaid.of_mem (mem_under.mpr htext)).of_ne_null hne
    · exact rest.given_column hne htext hrest hcolumn

/-- Each text in the place of a field has been read. -/
theorem Fields.listed_column {key : String} (hne : text ≠ Literal.null.octets) :
    (fields : Fields) → {texts : List Octets} → {values : fields.Val} → fields.Listed texts values →
    ((key, schema), text) ∈ fields.columns.zip texts → ∃ value, schema.ReadsAs text value
  | .required _ _ rest, _ :: _, _, ⟨hread, hrest⟩, hplace
  | .defaulted _ _ rest, _ :: _, _, ⟨hread, hrest⟩, hplace => by
    rcases List.mem_cons.mp hplace with heq | hplace
    · obtain ⟨hcolumn, rfl⟩ := Prod.mk.inj heq
      obtain ⟨rfl, rfl⟩ := Prod.mk.inj hcolumn
      exact ⟨_, hread⟩
    · exact rest.listed_column hne hrest hplace
  | .optional _ _ rest, _ :: _, _, ⟨hread, hrest⟩, hplace => by
    rcases List.mem_cons.mp hplace with heq | hplace
    · obtain ⟨hcolumn, rfl⟩ := Prod.mk.inj heq
      obtain ⟨rfl, rfl⟩ := Prod.mk.inj hcolumn
      exact hread.of_ne_null hne
    · exact rest.listed_column hne hrest hplace

/-- The parts of a struct that was read have been read. -/
theorem Fields.Part.readable {inner : Octets} (h : fields.Part struct schema inner)
    (hne : inner ≠ Literal.null.octets) (hdistinct : fields.distinct = true) {title : String}
    {values : fields.Val} (hread : (Schema.record title fields).readAll struct = .ok values) :
    schema.distinct = true ∧ ∃ value, schema.ReadsAs inner value := by
  have hschema : ∀ {key}, (key, schema) ∈ fields.columns → schema.distinct = true :=
    fun hcolumn => fields.distinct_schemas hdistinct schema (List.of_mem_zip hcolumn).2
  cases h with
  | entry hobject hcolumn htext =>
    have hgiven := (Schema.readAll_given hdistinct hobject title).mp hread
    exact ⟨hschema hcolumn, fields.given_column hne htext hgiven hcolumn⟩
  | item harray hplace =>
    have hlisted := (Schema.readAll_listed harray title).mp hread
    exact ⟨hschema (List.of_mem_zip hplace).1, fields.listed_column hne hlisted hplace⟩

/-- The struct inside a text that was read has been read. -/
theorem Schema.Node.readable (h : schema.Node fields struct text)
    (hstruct : struct ≠ Literal.null.octets) (hdistinct : schema.distinct = true)
    {value : schema.Val} (hread : schema.ReadsAs text value) :
    ∃ title parts, (Schema.record title fields).ReadsAs struct parts := by
  -- From the whole text down to the struct: a text that was read has parts that were read.
  induction h with
  | @record title => exact ⟨title, value, hread⟩
  | content hcase htext =>
    obtain ⟨hnames, -⟩ := Bool.and_eq_true_iff.mp hdistinct
    obtain ⟨title, hcontent⟩ := hcase.readAll (of_decide_eq_true hnames)
    obtain ⟨parts, -, hparts⟩ := (hcontent htext).mp hread
    exact ⟨title, parts, hparts⟩
  | inList harray hmem _ ih =>
    have hitems := (Schema.readAll_array harray).mp hread
    obtain ⟨place, hplace, rfl⟩ := List.getElem_of_mem hmem
    exact ih hdistinct (hitems.get hplace (hitems.length_eq ▸ hplace))
  | inRecord hpart hnode ih =>
    obtain ⟨hschema, value, hinner⟩ := hpart.readable (hnode.ne_null hstruct) hdistinct hread
    exact ih hschema hinner
  | inContent hcase htext hpart hnode ih =>
    obtain ⟨hnames, hcases⟩ := Bool.and_eq_true_iff.mp hdistinct
    obtain ⟨title, hcontent⟩ := hcase.readAll (of_decide_eq_true hnames)
    obtain ⟨parts, -, hparts⟩ := (hcontent htext).mp hread
    obtain ⟨hschema, value, hinner⟩ :=
      hpart.readable (hnode.ne_null hstruct) (hcase.distinct hcases) hparts
    exact ih hschema hinner

/-- An array cannot stand for a struct if it has more items than the struct has fields, or ends
before one that has to be there. -/
theorem Schema.Node.misfit (h : schema.Node fields struct text) (hdistinct : schema.distinct = true)
    {texts : List Octets} (harray : SpelledArray texts struct)
    (hmisfit : fields.size < texts.length ∨
      ∃ place, fields.Demands place ∧ texts.length ≤ place) (value : schema.Val) :
    ¬ schema.ReadsAs text value := by
  intro hread
  obtain ⟨title, parts, hparts⟩ := h.readable harray.ne_null hdistinct hread
  have hlisted := (Schema.readAll_listed harray title).mp hparts
  rcases hmisfit with hlong | ⟨place, hdemands, hshort⟩
  · exact absurd hlisted.length_le (Nat.not_le.mpr hlong)
  · exact absurd (hlisted.lt_length hdemands) (Nat.not_lt.mpr hshort)

end Nodes

end MacroPlugin.Wire

namespace MacroPlugin

open Json Wire

/-- What is printed for a message is one of its forms, and the message is read from all of them. No
message is read from a text in which the array for a struct is too long or ends too early. -/
theorem Sender.forms_read_back (sender : Sender) :
    (∀ message : sender.Message,
      (Wire.schema sender.Message).Form (Wire.toJson message) (Wire.values.forth message)) ∧
    (∀ (message : sender.Message) {json : Json} {text : Octets},
      (Wire.schema sender.Message).Form json (Wire.values.forth message) → Written json text →
        Wire.decode sender.Message text = .ok message) ∧
    ∀ {fields : Fields} {struct text : Octets} {texts : List Octets},
      (Wire.schema sender.Message).Node fields struct text → SpelledArray texts struct →
      (fields.size < texts.length ∨ ∃ place, fields.Demands place ∧ texts.length ≤ place) →
        ∃ e, Wire.decode sender.Message text = .error e := by
  refine ⟨fun message => Schema.form_toJson _ _, ?_, ?_⟩
  · intro message json text hform hwritten
    exact decode_eq_ok.mpr (Schema.understood _ sender.schema_distinct hform hwritten)
  · intro fields struct text texts hnode harray hmisfit
    cases hdecode : Wire.decode sender.Message text with
    | error e => exact ⟨e, rfl⟩
    | ok message =>
      have hread := decode_eq_ok.mp hdecode
      exact absurd hread (hnode.misfit sender.schema_distinct harray hmisfit _)

/-- A reply with arrays around an object, in which one diagnostic leaves its lists out; and what the
host can do, with a version too many and with none. -/
theorem Sender.arrays_read_back :
    let point : String := "\x7b\"fileName\":\"f\",\"offset\":0\x7d"
    let report : String := "[\"m\",\"error\"," ++ point ++ "]"
    Wire.decode Reply (.ofText ("\x7b\"expandMacroResult\":[null,[" ++ report ++ "]]\x7d")) =
        .ok (.expansion none [{ message := "m", severity := .error, position := ⟨"f", 0⟩ }]) ∧
      (∃ e, Wire.decode Request (.ofText "\x7b\"getCapability\":[[7,7]]\x7d") = .error e) ∧
      ∃ e, Wire.decode Request (.ofText "\x7b\"getCapability\":[[]]\x7d") = .error e := by
  intro point report
  let wrap (struct : Octets) : Octets :=
    let name : Octets := "getCapability".toList.flatMap String.utf8EncodeChar
    let content : Octets := Ascii.openBracket :: ([] ++ (struct ++ ([] ++ [Ascii.closeBracket])))
    Ascii.openBrace :: ([] ++ ((Ascii.quote :: (name ++ Ascii.quote ::
      ([] ++ Ascii.colon :: ([] ++ content)))) ++ ([] ++ [Ascii.closeBrace])))
  let long : Octets := Ascii.openBracket :: ([] ++ (numeral 7 ++ ([] ++ Ascii.comma ::
    ([] ++ (numeral 7 ++ ([] ++ [Ascii.closeBracket]))))))
  let short : Octets := Ascii.openBracket :: ([] ++ [Ascii.closeBracket])
  have hseven : IsValue (numeral 7) := (Written.number 7).isValue
  have hlong : SpelledArray [numeral 7, numeral 7] long :=
    .mk (.head blank_nil hseven (.next blank_nil blank_nil hseven (.nil blank_nil)))
  have hshort : SpelledArray [] short := .mk (.nil blank_nil)
  have hnode : ∀ {struct}, IsValue struct → (Wire.schema Sender.host.Message).Node
      (.required "protocolVersion" (.word .half) .nil) struct (wrap struct) := by
    intro struct hstruct
    have hcontent : SpelledArray [struct] _ := .mk (.head blank_nil hstruct (.nil blank_nil))
    exact .inContent .head (.mk (.head blank_nil
      (.mk (spells_self (by decide)) blank_nil blank_nil hcontent.isValue) (.nil blank_nil)))
      (.item hcontent List.mem_cons_self) .record
  refine ⟨?_, ?_, ?_⟩
  · let diagnostic : Json := .array [.text "m", .text "error",
      .object [("fileName", .text "f"), ("offset", .number 0)]]
    let reply : Json := .object [("expandMacroResult", .array [.null, .array [diagnostic]])]
    let message : Reply :=
      .expansion none [{ message := "m", severity := .error, position := ⟨"f", 0⟩ }]
    have hform : (Wire.schema Reply).Form reply (Wire.values.forth message) :=
      ⟨_, rfl, rfl, .cons ⟨rfl, rfl, ⟨rfl, rfl, rfl, rfl, rfl⟩, rfl, rfl, rfl, rfl⟩ .nil, rfl⟩
    exact (Sender.forms_read_back .plugin).2.1 message hform (compact_written reply)
  · exact (Sender.forms_read_back .host).2.2 (hnode hlong.isValue) hlong (.inl (by decide))
  · exact (Sender.forms_read_back .host).2.2 (hnode hshort.isValue) hshort
      (.inr ⟨0, trivial, Nat.le_refl 0⟩)

end MacroPlugin
