import MacroPlugin.Proofs.Wire.Entries

/-!
Every struct on the wire is read from an object by its keys. A struct is a record, or the fields of
a case of a union, whose object is then the only entry of another one under the name of the case.
Reading succeeds just in case no key of the struct occurs twice, every required one occurs, and
each text under a key can be read as the field; the order of the entries and the entries under
unknown keys play no part.
-/

namespace MacroPlugin.Wire

open Json

/-! Fields -/

/-- Whether a text can be read as the field with the key. Under an unknown key any text will do. -/
def Fields.Fits : Fields → String → Octets → Prop
  | .nil, _, _ => True
  | .required own schema rest, key, octets =>
    if key = own then ∃ value, schema.ReadsAs octets value else rest.Fits key octets
  | .optional own schema rest, key, octets =>
    if key = own then ∃ value, schema.ReadsOptional octets value else rest.Fits key octets
  | .defaulted own item rest, key, octets =>
    if key = own then ∃ value, (Schema.list item).ReadsAs octets value else rest.Fits key octets

section Fields

variable {α : Type} {own : String} {entries : List (String × Octets)}

end Fields

/-! Structs -/

/-- A case of a union: its name, its fields, and the values of the union that belong to it. -/
inductive Cases.Has : (cases : Cases) → (name : String) → (fields : Fields) →
    (fields.Val → cases.Val) → Prop
  | head {name title : String} {fields : Fields} {rest : Cases} :
      Has (.cons name title fields rest) name fields Sum.inl
  | tail {name title name' : String} {fields fields' : Fields} {rest : Cases}
      {value : fields'.Val → rest.Val} (h : Has rest name' fields' value) :
      Has (.cons name title fields rest) name' fields' fun parts => Sum.inr (value parts)

/-- A struct on the wire: its fields, the value they make up, and the texts that stand for an
object with the fields. -/
inductive Schema.Struct : (schema : Schema) → (fields : Fields) → (fields.Val → schema.Val) →
    (Octets → Octets → Prop) → Prop
  | record (title : String) (fields : Fields) :
      Struct (.record title fields) fields (fun parts => parts) fun object text => text = object
  | content {cases : Cases} {name : String} {fields : Fields} {value : fields.Val → cases.Val}
      (h : cases.Has name fields value) :
      Struct (.union cases) fields value fun object text => SpelledObject [(name, object)] text

/-- The schemas of fields. -/
def Fields.schemas : Fields → List Schema
  | .nil => []
  | .required _ schema rest | .optional _ schema rest => schema :: rest.schemas
  | .defaulted _ item rest => .list item :: rest.schemas

/-- A schema inside another one, at any depth. -/
inductive Schema.Within (inner : Schema) : Schema → Prop
  | self : Within inner inner
  | item {item : Schema} (h : Within inner item) : Within inner (.list item)
  | field {title : String} {fields : Fields} {schema : Schema} (hfield : schema ∈ fields.schemas)
      (h : Within inner schema) : Within inner (.record title fields)
  | content {cases : Cases} {name : String} {fields : Fields} {value : fields.Val → cases.Val}
      {schema : Schema} (hcase : cases.Has name fields value) (hfield : schema ∈ fields.schemas)
      (h : Within inner schema) : Within inner (.union cases)

/-! Keys and names are told apart in every part of a schema in which they are. -/

theorem Fields.distinct_keys : (fields : Fields) → fields.distinct = true → fields.keys.Nodup
  | .nil, _ => List.nodup_nil
  | .required _ _ rest, h | .optional _ _ rest, h | .defaulted _ _ rest, h => by
    obtain ⟨hkey, -, hrest⟩ := distinct_field h
    exact List.nodup_cons.mpr ⟨hkey, rest.distinct_keys hrest⟩

theorem Fields.distinct_schemas : (fields : Fields) → fields.distinct = true →
    ∀ schema ∈ fields.schemas, schema.distinct = true
  | .nil, _, schema, hmem => by simp [schemas] at hmem
  | .required _ own rest, h, schema, hmem | .optional _ own rest, h, schema, hmem => by
    obtain ⟨-, hown, hrest⟩ := distinct_field h
    rcases List.mem_cons.mp hmem with rfl | hmem
    · exact hown
    · exact rest.distinct_schemas hrest schema hmem
  | .defaulted _ item rest, h, schema, hmem => by
    obtain ⟨-, hitem, hrest⟩ := distinct_field h
    rcases List.mem_cons.mp hmem with rfl | hmem
    · exact hitem
    · exact rest.distinct_schemas hrest schema hmem

theorem Cases.Has.distinct {cases : Cases} {name : String} {fields : Fields}
    {value : fields.Val → cases.Val} (h : cases.Has name fields value)
    (hcases : cases.distinct = true) : fields.distinct = true := by
  induction h with
  | head => exact (Bool.and_eq_true_iff.mp hcases).1
  | tail _ ih => exact ih (Bool.and_eq_true_iff.mp hcases).2

theorem Schema.Within.distinct {inner outer : Schema} (h : inner.Within outer)
    (houter : outer.distinct = true) : inner.distinct = true := by
  induction h with
  | self => exact houter
  | item _ ih => exact ih houter
  | field hfield _ ih => exact ih (Fields.distinct_schemas _ houter _ hfield)
  | content hcase hfield _ ih =>
    have hcases := (Bool.and_eq_true_iff.mp houter).2
    exact ih (Fields.distinct_schemas _ (hcase.distinct hcases) _ hfield)

/-! Reading structs -/

section Structs

variable {fields : Fields} {entries : List (String × Octets)} {object text blanks more : Octets}
  {fuel : Nat}

/-- A record is read from an object by the keys of its fields. -/
theorem readRecord_object (hkeys : fields.keys.Nodup) (title : String)
    (elements : Reader fields.Val) (hobject : SpelledObject entries object)
    (hblanks : Blank blanks) (hfuel : (blanks ++ (object ++ more)).length < fuel)
    {value : fields.Val} {rest : Octets} :
    readRecord title fuel elements (fun key slots => fields.readEntry fuel key slots)
        fields.noSlots fields.collect (blanks ++ (object ++ more)) = .ok (value, rest) ↔
      rest = more ∧ fields.Given entries value := by
  obtain ⟨hentries⟩ := hobject
  rename_i inner
  have hshort : (inner ++ more).length < fuel := by
    simp only [List.length_append, List.length_cons] at hfuel ⊢
    omega
  have hbrace : ¬ Ascii.openBrace = Ascii.openBracket := by decide
  have hnoBlank : isBlank Ascii.openBrace = false := by decide
  have hskip := skipBlank_append hblanks hnoBlank (inner ++ more)
  rw [List.cons_append, readRecord_eq, leading_cons hskip, if_neg hbrace, if_pos rfl,
    andThen_eq_ok, ← fields.exists_run hkeys]
  constructor
  · rintro ⟨slots, rest', hread, hcollect⟩
    obtain ⟨rfl, hrun⟩ := (readEntries_run (fields.readEntry_reads fuel) hentries hshort hshort).mp
      hread
    obtain ⟨hrest, hvalue⟩ := collectRecord_eq_ok.mp hcollect
    exact ⟨hrest, slots, hrun, hvalue⟩
  · rintro ⟨rfl, slots, hrun, hvalue⟩
    have hread := (readEntries_run (fields.readEntry_reads fuel) hentries hshort hshort).mpr
      ⟨rfl, hrun⟩
    exact ⟨slots, rest, hread, collectRecord_eq_ok.mpr ⟨rfl, hvalue⟩⟩

/-- The cases of a union are read like records, by their place among the names. -/
theorem Cases.Has.readContent {cases : Cases} {name : String} {value : fields.Val → cases.Val}
    (h : cases.Has name fields value) :
    ∃ index : Fin cases.names.length, cases.names.get index = name ∧
      ∃ title, ∀ fuel, cases.readContent fuel index.val =
        (readRecord title fuel (fields.readElements fuel title fields.size 0 true)
          (fun key slots => fields.readEntry fuel key slots) fields.noSlots
          fields.collect).andThen fun parts rest => .ok (value parts, rest) := by
  induction h with
  | @head name title fields rest =>
    exact ⟨⟨0, Nat.zero_lt_succ _⟩, rfl, title, fun _ => rfl⟩
  | tail _ ih =>
    obtain ⟨index, hname, title, hread⟩ := ih
    refine ⟨index.succ, hname, title, fun fuel => ?_⟩
    funext input
    rw [Fin.val_succ, Cases.readContent, hread fuel]
    unfold Reader.andThen
    dsimp only
    cases readRecord title fuel _ _ _ _ input <;> rfl

/-- A name is followed by the content of the case that it names. -/
theorem readNamed_object {α : Type} {names : List String}
    {alone : Fin names.length → Except Fault α} {content : Fin names.length → Reader α}
    (hnames : names.Nodup) (index : Fin names.length)
    (htext : SpelledObject [(names.get index, object)] text) (hblanks : Blank blanks)
    (hfuel : (blanks ++ (text ++ more)).length < fuel) (reads : α → Prop)
    (hcontent : ∀ {behind further value rest}, Blank behind → Stops further →
      (behind ++ (object ++ further)).length < fuel →
      (content index (behind ++ (object ++ further)) = .ok (value, rest) ↔
        rest = further ∧ reads value))
    {value : α} {rest : Octets} :
    readNamed names alone content (blanks ++ (text ++ more)) = .ok (value, rest) ↔
      rest = more ∧ reads value := by
  obtain ⟨hentries⟩ := htext
  cases hentries with
  | head hblanks' hentry hend =>
    cases hend with
    | @nil _ ending hending =>
      obtain ⟨hkey, hbefore, hbehind, -⟩ := hentry
      rename_i spelling before behind
      have hfound : names.finIdxOf? (names.get index) = some index := by
        rw [List.finIdxOf?_eq_some_iff]
        refine ⟨rfl, fun other hother heq => ?_⟩
        exact List.pairwise_iff_getElem.mp hnames other index other.2 index.2 hother heq
      have hname : ∀ tail,
          readName names (spelling ++ Ascii.quote :: tail) = .ok (index, tail) := by
        intro tail
        simp only [readName, hkey.read, bind, Except.bind, hfound]
      have hclose : ∀ value : α, readOnlyEnd value (ending ++ Ascii.closeBrace :: more) =
          .ok (value, more) := by
        intro value
        rw [readOnlyEnd_eq, leading_cons (skipBlank_append hending (by decide) more), if_pos rfl]
      simp only [List.cons_append, List.append_assoc, List.nil_append] at hfuel ⊢
      have hshort : (behind ++ (object ++ (ending ++ Ascii.closeBrace :: more))).length < fuel := by
        simp only [List.length_append, List.length_cons] at hfuel ⊢
        omega
      have hstops : Stops (ending ++ Ascii.closeBrace :: more) :=
        stops_blank hending (stops_cons (by decide))
      rw [readNamed_skip (skipBlank_token hblanks (by decide) _), readNamed_key hblanks',
        andThen_eq_ok]
      constructor
      · rintro ⟨index', tail, hread, hthen⟩
        obtain ⟨rfl, rfl⟩ := ok_pair_inj ((hname _).symm.trans hread)
        obtain ⟨value', rest', hvalue, hthen⟩ := andThen_eq_ok.mp hthen
        obtain ⟨input, hcolon, hvalue⟩ := bind_eq_ok.mp hvalue
        rw [← Except.ok.inj ((readColon_append hbefore _).symm.trans hcolon)] at hvalue
        obtain ⟨rfl, hreads⟩ := (hcontent hbehind hstops hshort).mp hvalue
        obtain ⟨rfl, rfl⟩ := ok_pair_inj ((hclose _).symm.trans hthen)
        exact ⟨rfl, hreads⟩
      · rintro ⟨rfl, hreads⟩
        refine ⟨index, _, hname _, andThen_eq_ok.mpr ?_⟩
        refine ⟨value, _, bind_eq_ok.mpr ⟨_, readColon_append hbefore _, ?_⟩, hclose value⟩
        exact (hcontent hbehind hstops hshort).mpr ⟨rfl, hreads⟩

/-- A record is read from an object that stands alone. -/
theorem Schema.readAll_given (hdistinct : fields.distinct = true)
    (hobject : SpelledObject entries object) (title : String) {values : fields.Val} :
    (Schema.record title fields).readAll object = .ok values ↔ fields.Given entries values := by
  have hfuel : ([] ++ (object ++ [])).length < object.length + 1 := by simp
  have hread : (Schema.record title fields).read (object.length + 1) ([] ++ (object ++ [])) =
      .ok (values, []) ↔ ([] : Octets) = [] ∧ fields.Given entries values :=
    readRecord_object (fields.distinct_keys hdistinct) title _ hobject blank_nil hfuel
  rw [List.nil_append, List.append_nil] at hread
  refine (readAll_value hobject.isValue (Nat.lt_succ_self _)).trans (hread.trans ?_)
  exact and_iff_right rfl

theorem SpelledObject.content_isValue {name : String} (h : SpelledObject [(name, object)] text) :
    IsValue object := by
  obtain ⟨hentries⟩ := h
  cases hentries with
  | head hblanks hentry _ =>
    obtain ⟨label, -, -, hvalue⟩ := hentry.split hblanks
    exact hvalue

/-- A union is read from an object with one entry as the case with the name is from the value. -/
theorem Cases.Has.read {cases : Cases} {name : String} {value : fields.Val → cases.Val}
    (h : cases.Has name fields value) (hnames : cases.names.Nodup) :
    ∃ title, ∀ {object text blanks more : Octets} {fuel : Nat},
      SpelledObject [(name, object)] text → Blank blanks →
      (blanks ++ (text ++ more)).length < fuel → ∀ {result rest},
        (Schema.union cases).read fuel (blanks ++ (text ++ more)) = .ok (result, rest) ↔
          rest = more ∧ ∃ parts, result = value parts ∧
            (Schema.record title fields).readAll object = .ok parts := by
  obtain ⟨index, rfl, title, hread⟩ := h.readContent
  refine ⟨title, fun {object text blanks more fuel} htext hblanks hfuel result rest => ?_⟩
  refine readNamed_object hnames index htext hblanks hfuel (fun result => ∃ parts,
    result = value parts ∧ (Schema.record title fields).readAll object = .ok parts) ?_
  intro behind further result rest hbehind hstops hshort
  have hplaced : ∀ {parts rest}, (Schema.record title fields).read fuel
      (behind ++ (object ++ further)) = .ok (parts, rest) ↔
        rest = further ∧ (Schema.record title fields).readAll object = .ok parts :=
    Schema.read_placed htext.content_isValue hbehind hstops hshort
  rw [hread]
  refine andThen_eq_ok.trans ?_
  constructor
  · rintro ⟨parts, rest', hparts, hresult⟩
    obtain ⟨rfl, hcontent⟩ := hplaced.mp hparts
    obtain ⟨rfl, rfl⟩ := ok_pair_inj hresult
    exact ⟨rfl, parts, rfl, hcontent⟩
  · rintro ⟨rfl, parts, rfl, hcontent⟩
    exact ⟨parts, rest, hplaced.mpr ⟨rfl, hcontent⟩, rfl⟩

/-- The same on its own. -/
theorem Cases.Has.readAll {cases : Cases} {name : String} {value : fields.Val → cases.Val}
    (h : cases.Has name fields value) (hnames : cases.names.Nodup) :
    ∃ title, ∀ {object text : Octets}, SpelledObject [(name, object)] text → ∀ {result},
      (Schema.union cases).readAll text = .ok result ↔ ∃ parts, result = value parts ∧
        (Schema.record title fields).readAll object = .ok parts := by
  obtain ⟨title, hread⟩ := h.read hnames
  refine ⟨title, fun {object text} htext result => ?_⟩
  have hfuel : ([] ++ (text ++ [])).length < text.length + 1 := by simp
  have hwhole : (Schema.union cases).read (text.length + 1) ([] ++ (text ++ [])) =
      .ok (result, []) ↔ _ := hread htext blank_nil hfuel
  rw [List.nil_append, List.append_nil] at hwhole
  rw [Schema.readAll_value htext.isValue (Nat.lt_succ_self _), hwhole]
  exact and_iff_right rfl

/-- A struct at any place is read from an object by the keys of its fields. -/
theorem Schema.Struct.read {schema : Schema} {value : fields.Val → schema.Val}
    {wraps : Octets → Octets → Prop} (h : schema.Struct fields value wraps)
    (hdistinct : schema.distinct = true) (hobject : SpelledObject entries object)
    (htext : wraps object text) (hblanks : Blank blanks)
    (hfuel : (blanks ++ (text ++ more)).length < fuel) {result : schema.Val} {rest : Octets} :
    schema.read fuel (blanks ++ (text ++ more)) = .ok (result, rest) ↔
      rest = more ∧ ∃ parts, result = value parts ∧ fields.Given entries parts := by
  cases h with
  | record title fields =>
    subst htext
    have hkeys := fields.distinct_keys hdistinct
    refine (readRecord_object hkeys title _ hobject hblanks hfuel).trans ?_
    exact and_congr_right fun _ => exists_eq_left'.symm
  | content hcase =>
    obtain ⟨hnames, hcases⟩ := Bool.and_eq_true_iff.mp hdistinct
    obtain ⟨title, hread⟩ := hcase.read (of_decide_eq_true hnames)
    rw [hread htext hblanks hfuel]
    simp only [readAll_given (hcase.distinct hcases) hobject]

/-- The same on its own. -/
theorem Schema.Struct.readAll {schema : Schema} {value : fields.Val → schema.Val}
    {wraps : Octets → Octets → Prop} (h : schema.Struct fields value wraps)
    (hdistinct : schema.distinct = true) (hobject : SpelledObject entries object)
    (htext : wraps object text) {result : schema.Val} :
    schema.readAll text = .ok result ↔
      ∃ parts, result = value parts ∧ fields.Given entries parts := by
  have htextValue : IsValue text := by
    cases h with
    | record title fields => exact htext ▸ hobject.isValue
    | content hcase => exact SpelledObject.isValue htext
  have hread : schema.read (text.length + 1) ([] ++ (text ++ [])) = .ok (result, []) ↔
      [] = [] ∧ ∃ parts, result = value parts ∧ fields.Given entries parts :=
    h.read hdistinct hobject htext blank_nil (by simp)
  rw [List.nil_append, List.append_nil] at hread
  rw [readAll_value htextValue (Nat.lt_succ_self _), hread]
  exact and_iff_right rfl

end Structs

end MacroPlugin.Wire

namespace MacroPlugin

open Json Wire
open Json.Skip (Container)

end MacroPlugin
