import MacroPlugin.Proofs.Json.Recognition
import MacroPlugin.Proofs.Wire.Arrays

/-!
The forms that a value may take. A record, and what a case of a union contains, stands as an object
with an entry for each field, or as an array of the fields in the order of their declaration. The
choice is free at each of them, whatever the choice around it or inside it. In an array `null`
stands for an absent optional field, and any of the fields at its end may be left out that are
absent or empty. Every form of a value is read as that value.
-/

namespace MacroPlugin.Json

open Wire

/-! Written values as texts

A written value is also a well-formed one, with the texts of its parts inside it. -/

theorem eq_zero_of_digitOctet : ∀ d < 10, digitOctet d = Ascii.zero → d = 0 := by decide

theorem isDigits_numeral (n : Nat) : IsDigits (numeral n) := by
  induction n using Nat.strongRecOn with
  | _ n ih =>
    have hdigit : ∀ d < 10, (Ascii.digit? (digitOctet d)).isSome = true := by decide
    by_cases hn : n < 10
    · rw [numeral_of_lt hn]
      exact Skip.isDigits_cons (hdigit n hn) (by simp)
    · obtain ⟨hne, hdigits⟩ := ih (n / 10) (by omega)
      rw [numeral_of_ge (by omega)]
      refine ⟨by simp, List.forall_mem_append.mpr ⟨hdigits, ?_⟩⟩
      exact List.forall_mem_singleton.mpr (hdigit _ (Nat.mod_lt n (by decide)))

theorem isNumber_numeral (n : Nat) : IsNumber (numeral n) := by
  obtain ⟨first, digits, hnumeral, hfirst, hzero, -⟩ := numeral_digits n
  have hwhole : IsWholePart (numeral n) := by
    by_cases hn : first = 0
    · obtain ⟨rfl, rfl⟩ := hzero hn
      exact .inl (numeral_of_lt (by decide))
    · refine .inr ⟨isDigits_numeral n, fun hhead => hn (eq_zero_of_digitOctet first hfirst ?_)⟩
      rw [hnumeral] at hhead
      exact Option.some.inj hhead
  have hnumber : IsNumber ([] ++ (numeral n ++ ([] ++ []))) :=
    .mk (.inl rfl) hwhole (.inl rfl) (.inl rfl)
  rwa [List.nil_append, List.append_nil, List.append_nil] at hnumber

theorem textBody_spelling (text : String) :
    ∃ spelling, Spells text.toList spelling ∧ textBody text = spelling ++ [Ascii.quote] := by
  have hread := readText_textBody text []
  rw [List.append_nil] at hread
  exact readText_eq_ok.mp hread

/-- An entry and the text of its value under the same key. -/
def WrittenUnder (entry : String × Json) (text : String × Octets) : Prop :=
  entry.1 = text.1 ∧ Written entry.2 text.2

theorem writtenUnder_keys {entries : List (String × Json)} {texts : List (String × Octets)}
    (h : List.Forall₂ WrittenUnder entries texts) :
    texts.map Prod.fst = entries.map Prod.fst := by
  induction h with
  | nil => rfl
  | cons hentry _ ih => rw [List.map_cons, List.map_cons, hentry.1, ih]

mutual

theorem Written.isValue {json : Json} {text : Octets} : Written json text → IsValue text
  | .null => .literal .null
  | .boolean true => .literal .yes
  | .boolean false => .literal .no
  | .number value => .number (isNumber_numeral value)
  | .text value => by
    obtain ⟨spelling, hspelling, htext⟩ := textBody_spelling value
    rw [htext]
    exact .text hspelling.isTextBody
  | .array h => by
    obtain ⟨texts, hitems, -⟩ := h.spelled
    exact (SpelledArray.mk hitems).isValue
  | .object h => by
    obtain ⟨texts, hentries, -⟩ := h.spelled
    exact (SpelledObject.mk hentries).isValue

theorem WrittenItems.spelled {first : Bool} {items : List Json} {text : Octets} :
    WrittenItems first items text →
      ∃ texts, SpelledItems first texts text ∧ List.Forall₂ Written items texts
  | .nil hblank => ⟨[], .nil hblank, .nil⟩
  | .head hblank hitem hmore => by
    obtain ⟨texts, hitems, hwritten⟩ := hmore.spelled
    exact ⟨_ :: texts, .head hblank hitem.isValue hitems, .cons hitem hwritten⟩
  | .next hblank hblank' hitem hmore => by
    obtain ⟨texts, hitems, hwritten⟩ := hmore.spelled
    exact ⟨_ :: texts, .next hblank hblank' hitem.isValue hitems, .cons hitem hwritten⟩

theorem WrittenEntries.spelled {first : Bool} {entries : List (String × Json)} {text : Octets} :
    WrittenEntries first entries text →
      ∃ texts, SpelledEntries first texts text ∧ List.Forall₂ WrittenUnder entries texts
  | .nil hblank => ⟨[], .nil hblank, .nil⟩
  | @WrittenEntries.head key _ _ _ _ _ hblank hcontent hmore => by
    obtain ⟨value, hentry, hvalue⟩ := hcontent.spelled key
    obtain ⟨texts, hentries, hwritten⟩ := hmore.spelled
    rw [← List.append_assoc (textBody key), ← List.cons_append]
    exact ⟨(key, value) :: texts, .head hblank hentry hentries, .cons ⟨rfl, hvalue⟩ hwritten⟩
  | @WrittenEntries.next key _ _ _ _ _ _ hblank hblank' hcontent hmore => by
    obtain ⟨value, hentry, hvalue⟩ := hcontent.spelled key
    obtain ⟨texts, hentries, hwritten⟩ := hmore.spelled
    rw [← List.append_assoc (textBody key), ← List.cons_append]
    exact ⟨(key, value) :: texts, .next hblank hblank' hentry hentries,
      .cons ⟨rfl, hvalue⟩ hwritten⟩

theorem WrittenContent.spelled {json : Json} {content : Octets} :
    WrittenContent json content → (key : String) → ∃ text,
      SpelledEntry (key, text) (Ascii.quote :: (textBody key ++ content)) ∧ Written json text
  | .mk hblank hblank' hvalue, key => by
    obtain ⟨spelling, hspelling, htext⟩ := textBody_spelling key
    rw [htext, List.append_assoc]
    exact ⟨_, .mk hspelling hblank hblank' hvalue.isValue, hvalue⟩

end

theorem Written.eq_null {text : Octets} (h : Written .null text) : text = Literal.null.octets := by
  cases h
  rfl

theorem Written.ne_null {json : Json} {text : Octets} (h : Written json text)
    (hjson : json ≠ .null) : text ≠ Literal.null.octets := by
  obtain ⟨octet, rest, rfl, -, -, hnull⟩ := h.first
  intro heq
  refine hnull hjson ?_
  rw [(List.cons.inj heq).1]
  rfl

end MacroPlugin.Json

namespace MacroPlugin.Wire

open Json

/-! Forms -/

/-- The forms of an optional value in an array. -/
def MaybeForm {α : Type} (form : Json → α → Prop) : Json → Option α → Prop
  | json, none => json = .null
  | json, some value => form json value

/-- An array of forms of the values. -/
def ListForm {α : Type} (form : Json → α → Prop) : Json → List α → Prop
  | .array items, values => List.Forall₂ form items values
  | _, _ => False

/-- The first entry has this key and a form of the value. -/
def EntryForm (key : String) (form : Json → Prop) (further : List (String × Json) → Prop) :
    List (String × Json) → Prop
  | [] => False
  | (own, json) :: entries => own = key ∧ form json ∧ further entries

/-- An object or an array. -/
def EitherForm (entries : List (String × Json) → Prop) (items : List Json → Prop) : Json → Prop
  | .object given => entries given
  | .array given => items given
  | _ => False

mutual

/-- The JSON that a value may be sent as. -/
def Schema.Form : (schema : Schema) → Json → schema.Val → Prop
  | .text, json, value => json = .text value
  | .word size, json, value => json = .number (size.toNat value)
  | .boolean, json, value => json = .boolean value
  | .list item, json, values => ListForm item.Form json values
  | .choice names, json, index => json = .text (names.get index)
  | .record _ fields, json, values =>
    EitherForm (fields.EntryForms · values) (fields.ItemForms · values) json
  | .union cases, json, value => cases.Form json value

/-- The entries of an object for the fields; an absent optional field has none. -/
def Fields.EntryForms : (fields : Fields) → List (String × Json) → fields.Val → Prop
  | .nil, entries, _ => entries = []
  | .required key schema rest, entries, (value, values) =>
    EntryForm key (schema.Form · value) (rest.EntryForms · values) entries
  | .optional _ _ rest, entries, (none, values) => rest.EntryForms entries values
  | .optional key schema rest, entries, (some value, values) =>
    EntryForm key (schema.Form · value) (rest.EntryForms · values) entries
  | .defaulted key item rest, entries, (values, others) =>
    EntryForm key (ListForm item.Form · values) (rest.EntryForms · others) entries

/-- The items of an array for the fields, by their order; at its end, absent and empty fields may
have none. -/
def Fields.ItemForms : (fields : Fields) → List Json → fields.Val → Prop
  | .nil, items, _ => items = []
  | .required _ schema rest, items, (value, values) =>
    Takes schema.Form none (rest.ItemForms · values) items value
  | .optional _ schema rest, items, (value, values) =>
    Takes (MaybeForm schema.Form) (some none) (rest.ItemForms · values) items value
  | .defaulted _ item rest, items, (values, others) =>
    Takes (ListForm item.Form) (some []) (rest.ItemForms · others) items values

/-- An object whose only entry is under the name of the case. -/
def Cases.Form : (cases : Cases) → Json → cases.Val → Prop
  | .cons name _ fields _, json, .inl values => ∃ content, json = .object [(name, content)] ∧
    EitherForm (fields.EntryForms · values) (fields.ItemForms · values) content
  | .cons _ _ _ rest, json, .inr value => rest.Form json value

end

theorem listForm_map {α : Type} {form : Json → α → Prop} {toJson : α → Json}
    (h : ∀ value, form (toJson value) value) (values : List α) :
    ListForm form (.array (values.map toJson)) values :=
  List.forall₂_map_left_iff.mpr (List.forall₂_same.mpr fun value _ => h value)

mutual

/-- What is printed for a value is one of its forms. -/
theorem Schema.form_toJson : (schema : Schema) → (value : schema.Val) →
    schema.Form (schema.toJson value) value
  | .text, _ | .word _, _ | .boolean, _ | .choice _, _ => rfl
  | .list item, values => listForm_map item.form_toJson values
  | .record _ fields, values => fields.entryForms_entries values
  | .union cases, value => cases.form_entry value

theorem Fields.entryForms_entries : (fields : Fields) → (values : fields.Val) →
    fields.EntryForms (fields.entries values) values
  | .nil, _ => rfl
  | .required _ schema rest, (value, values) | .optional _ schema rest, (some value, values) =>
    ⟨rfl, schema.form_toJson value, rest.entryForms_entries values⟩
  | .optional _ _ rest, (none, values) => rest.entryForms_entries values
  | .defaulted _ item rest, (values, others) =>
    ⟨rfl, listForm_map item.form_toJson values, rest.entryForms_entries others⟩

theorem Cases.form_entry : (cases : Cases) → (value : cases.Val) →
    cases.Form (.object [cases.entry value]) value
  | .cons _ _ fields _, .inl values => ⟨_, rfl, fields.entryForms_entries values⟩
  | .cons _ _ _ rest, .inr value => rest.form_entry value

end

theorem Cases.object_of_form : (cases : Cases) → {json : Json} → {value : cases.Val} →
    cases.Form json value → ∃ entries, json = .object entries
  | .cons _ _ _ _, _, .inl _, ⟨_, hjson, _⟩ => ⟨_, hjson⟩
  | .cons _ _ _ rest, _, .inr _, h => rest.object_of_form h

theorem Schema.Form.ne_null {schema : Schema} {json : Json} {value : schema.Val}
    (h : schema.Form json value) : json ≠ .null := by
  rintro rfl
  cases schema with
  | text | word | boolean | choice => exact Json.noConfusion h
  | list | record => exact h
  | union cases =>
    obtain ⟨entries, hentries⟩ := cases.object_of_form h
    exact Json.noConfusion hentries

/-- A key of the entries is that of the first one or is one of the further ones. -/
theorem EntryForm.key {own key : String} {form : Json → Prop}
    {further : List (String × Json) → Prop} {entries : List (String × Json)}
    (h : EntryForm own form further entries) (hmem : key ∈ entries.map Prod.fst) :
    key = own ∨ ∃ more, further more ∧ key ∈ more.map Prod.fst := by
  cases entries with
  | nil => exact h.elim
  | cons entry more =>
    obtain ⟨hown, -, hmore⟩ := h
    rcases List.mem_cons.mp hmem with hkey | hmem
    · exact .inl (hkey.trans hown)
    · exact .inr ⟨more, hmore, hmem⟩

/-- The entries for fields have no other keys. -/
theorem Fields.keys_of_entryForms {key : String} : (fields : Fields) →
    {entries : List (String × Json)} → {values : fields.Val} → fields.EntryForms entries values →
    key ∈ entries.map Prod.fst → key ∈ fields.keys
  | .nil, entries, _, h, hmem => by
    rw [show entries = [] from h] at hmem
    exact absurd hmem List.not_mem_nil
  | .optional _ _ rest, _, (none, _), h, hmem =>
    List.mem_cons_of_mem _ (rest.keys_of_entryForms h hmem)
  | .required _ _ rest, _, _, h, hmem | .optional _ _ rest, _, (some _, _), h, hmem
  | .defaulted _ _ rest, _, _, h, hmem => by
    rcases EntryForm.key h hmem with rfl | ⟨more, hmore, hmem⟩
    · exact List.mem_cons_self
    · exact List.mem_cons_of_mem _ (rest.keys_of_entryForms hmore hmem)

/-! Reading forms -/

section Reading

variable {α : Type} {own : String} {rest : Fields} {values : rest.Val}

theorem under_eq_nil {entries : List (String × Octets)} (h : own ∉ entries.map Prod.fst) :
    under own entries = [] := by
  rw [← List.length_eq_zero_iff, ← count_keys]
  exact List.count_eq_zero.mpr h

/-- An entry under a key that the fields do not have tells them nothing. -/
theorem given_cons_other {text : Octets} {entries : List (String × Octets)}
    (hown : own ∉ rest.keys) :
    rest.Given ((own, text) :: entries) values ↔ rest.Given entries values := by
  have hothers : others own ((own, text) :: entries) = others own entries := by simp [others]
  rw [← Fields.given_others hown, hothers, Fields.given_others hown]

/-- The texts of the other fields do not stand under the key of this one. -/
theorem under_entryForms {entries : List (String × Json)} {texts : List (String × Octets)}
    (hown : own ∉ rest.keys) (hentries : rest.EntryForms entries values)
    (hwritten : List.Forall₂ WrittenUnder entries texts) : under own texts = [] := by
  refine under_eq_nil fun hmem => hown (rest.keys_of_entryForms hentries ?_)
  rwa [← writtenUnder_keys hwritten]

theorem given_entryForm {form : Json → Prop} {reads : Octets → α → Prop} {value : α}
    (hreads : ∀ {json text}, form json → Written json text → reads text value)
    (hrest : ∀ {entries texts}, rest.EntryForms entries values →
      List.Forall₂ WrittenUnder entries texts → rest.Given texts values)
    (hown : own ∉ rest.keys) (missing : Option α) {entries : List (String × Json)}
    {texts : List (String × Octets)} (h : EntryForm own form (rest.EntryForms · values) entries)
    (hwritten : List.Forall₂ WrittenUnder entries texts) :
    Says reads missing (under own texts) value ∧ rest.Given texts values := by
  cases hwritten with
  | nil => exact h.elim
  | @cons entry text entries texts hentry hmore =>
    obtain ⟨key, octets⟩ := text
    obtain ⟨rfl, hform, hothers⟩ := h
    obtain ⟨rfl, hvalue⟩ := hentry
    rw [under_cons_own, under_entryForms hown hothers hmore, given_cons_other hown]
    exact ⟨hreads hform hvalue, hrest hothers hmore⟩

theorem takes_forms {form : Json → α → Prop} {reads : Octets → α → Prop} {missing : Option α}
    {further : List Json → Prop} {further' : List Octets → Prop} {value : α}
    (hreads : ∀ {json text}, form json value → Written json text → reads text value)
    (hfurther : ∀ {items texts}, further items → List.Forall₂ Written items texts →
      further' texts)
    {items : List Json} {texts : List Octets} (h : Takes form missing further items value)
    (hwritten : List.Forall₂ Written items texts) : Takes reads missing further' texts value := by
  cases hwritten with
  | nil => exact ⟨h.1, hfurther h.2 .nil⟩
  | cons hitem hmore => exact ⟨hreads h.1 hitem, hfurther h.2 hmore⟩

/-- All forms of a value are read as it. -/
def Schema.Understood (schema : Schema) : Prop :=
  ∀ {json : Json} {value : schema.Val} {text : Octets}, schema.Form json value →
    Written json text → schema.ReadsAs text value

theorem readsOptional_some {schema : Schema} (hschema : schema.Understood) {json : Json}
    {value : schema.Val} {text : Octets} (h : schema.Form json value)
    (hwritten : Written json text) : schema.ReadsOptional text (some value) := by
  rw [Schema.ReadsOptional, if_neg (hwritten.ne_null h.ne_null)]
  exact ⟨value, rfl, hschema h hwritten⟩

theorem readsOptional_maybeForm {schema : Schema} (hschema : schema.Understood) {json : Json}
    {value : Option schema.Val} {text : Octets} (h : MaybeForm schema.Form json value)
    (hwritten : Written json text) : schema.ReadsOptional text value := by
  cases value with
  | none =>
    cases (show json = .null from h)
    rw [Schema.ReadsOptional, if_pos hwritten.eq_null]
  | some value => exact readsOptional_some hschema h hwritten

theorem readAll_listForm {item : Schema} (hitem : item.Understood) {json : Json}
    {values : List item.Val} {text : Octets} (h : ListForm item.Form json values)
    (hwritten : Written json text) : (Schema.list item).ReadsAs text values := by
  have hlist : ∀ {items values texts}, List.Forall₂ item.Form items values →
      List.Forall₂ Written items texts → List.Forall₂ item.ReadsAs texts values := by
    intro items values texts hforms
    induction hforms generalizing texts with
    | nil =>
      intro hwritten
      rw [List.forall₂_nil_left_iff.mp hwritten]
      exact .nil
    | cons hform _ ih =>
      intro hwritten
      obtain ⟨text, more, htext, hmore, rfl⟩ := List.forall₂_cons_left_iff.mp hwritten
      exact .cons (hitem hform htext) (ih hmore)
  cases hwritten with
  | array hitems =>
    obtain ⟨texts, hspelled, htexts⟩ := hitems.spelled
    exact (Schema.readAll_array (.mk hspelled)).mpr (hlist h htexts)
  | null | boolean | number | text | object => exact h.elim

/-- A value without parts has one form, the one that is printed. -/
theorem readAll_scalar {schema : Schema} (hdistinct : schema.distinct = true) {json : Json}
    {value : schema.Val} {text : Octets} (h : json = schema.toJson value)
    (hwritten : Written json text) : schema.ReadsAs text value := by
  rw [h] at hwritten
  have hread := Schema.readAll_written hdistinct hwritten blank_nil blank_nil
  rwa [List.nil_append, List.append_nil] at hread

theorem readAll_eitherForm {fields : Fields} {values : fields.Val}
    (hdistinct : fields.distinct = true)
    (hentries : ∀ {entries texts}, fields.EntryForms entries values →
      List.Forall₂ WrittenUnder entries texts → fields.Given texts values)
    (hitems : ∀ {items texts}, fields.ItemForms items values →
      List.Forall₂ Written items texts → fields.Listed texts values)
    (title : String) {json : Json} {text : Octets}
    (h : EitherForm (fields.EntryForms · values) (fields.ItemForms · values) json)
    (hwritten : Written json text) : (Schema.record title fields).ReadsAs text values := by
  cases hwritten with
  | array hforms =>
    obtain ⟨texts, hspelled, htexts⟩ := hforms.spelled
    exact (Schema.readAll_listed (.mk hspelled) title).mpr (hitems h htexts)
  | object hforms =>
    obtain ⟨texts, hspelled, htexts⟩ := hforms.spelled
    exact (Schema.readAll_given hdistinct (.mk hspelled) title).mpr (hentries h htexts)
  | null | boolean | number | text => exact h.elim

end Reading

mutual

/-- Every form of a value is read as that value. -/
theorem Schema.understood : (schema : Schema) → schema.distinct = true → schema.Understood
  | .text, hdistinct | .word _, hdistinct | .boolean, hdistinct | .choice _, hdistinct =>
    fun h hwritten => readAll_scalar hdistinct h hwritten
  | .list item, hdistinct => readAll_listForm (item.understood hdistinct)
  | .record title fields, hdistinct =>
    readAll_eitherForm hdistinct (fields.given_forms hdistinct) (fields.listed_forms hdistinct)
      title
  | .union cases, hdistinct => by
    intro h hwritten
    obtain ⟨hnames, hcases⟩ := Bool.and_eq_true_iff.mp hdistinct
    obtain ⟨name, fields, result, parts, content, hcase, rfl, rfl, hcontent⟩ :=
      cases.understood hcases h
    -- The title is for faults only, so the content is read under that of its case as under any.
    obtain ⟨title, hread⟩ := hcase.readAll (of_decide_eq_true hnames)
    cases hwritten with
    | object hentries =>
      obtain ⟨texts, hspelled, htexts⟩ := hentries.spelled
      obtain ⟨⟨_, octets⟩, _, ⟨rfl, hvalue⟩, hnil, rfl⟩ := List.forall₂_cons_left_iff.mp htexts
      rw [List.forall₂_nil_left_iff.mp hnil] at hspelled
      exact (hread (.mk hspelled)).mpr ⟨parts, rfl, hcontent title hvalue⟩

theorem Fields.given_forms : (fields : Fields) → fields.distinct = true →
    {entries : List (String × Json)} → {texts : List (String × Octets)} → {values : fields.Val} →
    fields.EntryForms entries values → List.Forall₂ WrittenUnder entries texts →
    fields.Given texts values
  | .nil, _, _, _, _, _, _ => trivial
  | .required own schema rest, hdistinct, _, _, (value, values), h, hwritten => by
    obtain ⟨hown, hschema, hrest⟩ := distinct_field hdistinct
    exact given_entryForm (schema.understood hschema) (rest.given_forms hrest) hown none h hwritten
  | .optional own schema rest, hdistinct, _, _, (some value, values), h, hwritten => by
    obtain ⟨hown, hschema, hrest⟩ := distinct_field hdistinct
    exact given_entryForm (readsOptional_some (schema.understood hschema)) (rest.given_forms hrest)
      hown (some none) h hwritten
  | .optional own schema rest, hdistinct, _, texts, (none, values), h, hwritten => by
    obtain ⟨hown, hschema, hrest⟩ := distinct_field hdistinct
    refine ⟨?_, rest.given_forms hrest h hwritten⟩
    rw [under_entryForms hown h hwritten]
    rfl
  | .defaulted own item rest, hdistinct, _, _, (values, others), h, hwritten => by
    obtain ⟨hown, hitem, hrest⟩ := distinct_field hdistinct
    exact given_entryForm (readAll_listForm (item.understood hitem)) (rest.given_forms hrest) hown
      (some []) h hwritten

theorem Fields.listed_forms : (fields : Fields) → fields.distinct = true →
    {items : List Json} → {texts : List Octets} → {values : fields.Val} →
    fields.ItemForms items values → List.Forall₂ Written items texts → fields.Listed texts values
  | .nil, _, _, _, _, h, hwritten => by
    cases hwritten with
    | nil => rfl
    | cons => exact absurd h (List.cons_ne_nil _ _)
  | .required _ schema rest, hdistinct, _, _, (value, values), h, hwritten => by
    obtain ⟨-, hschema, hrest⟩ := distinct_field hdistinct
    exact takes_forms (schema.understood hschema) (rest.listed_forms hrest) h hwritten
  | .optional _ schema rest, hdistinct, _, _, (value, values), h, hwritten => by
    obtain ⟨-, hschema, hrest⟩ := distinct_field hdistinct
    exact takes_forms (readsOptional_maybeForm (schema.understood hschema))
      (rest.listed_forms hrest) h hwritten
  | .defaulted _ item rest, hdistinct, _, _, (values, others), h, hwritten => by
    obtain ⟨-, hitem, hrest⟩ := distinct_field hdistinct
    exact takes_forms (readAll_listForm (item.understood hitem)) (rest.listed_forms hrest) h
      hwritten

/-- A form of a value of a union is one of its content under the name of its case. -/
theorem Cases.understood : (cases : Cases) → cases.distinct = true → {json : Json} →
    {value : cases.Val} → cases.Form json value →
    ∃ name fields result parts content, cases.Has name fields result ∧ value = result parts ∧
      json = .object [(name, content)] ∧ ∀ title {text}, Written content text →
        (Schema.record title fields).ReadsAs text parts
  | .cons name _ fields _, hdistinct, _, .inl values, ⟨content, hjson, hcontent⟩ => by
    obtain ⟨hfields, -⟩ := Bool.and_eq_true_iff.mp hdistinct
    refine ⟨name, fields, _, values, content, .head, rfl, hjson, fun title {text} hwritten => ?_⟩
    exact readAll_eitherForm hfields (fields.given_forms hfields) (fields.listed_forms hfields)
      title hcontent hwritten
  | .cons _ _ _ rest, hdistinct, _, .inr value, h => by
    obtain ⟨-, hrest⟩ := Bool.and_eq_true_iff.mp hdistinct
    obtain ⟨name, fields, result, parts, content, hcase, rfl, hjson, hcontent⟩ :=
      rest.understood hrest h
    exact ⟨name, fields, _, parts, content, .tail hcase, rfl, hjson, hcontent⟩

end

end MacroPlugin.Wire
