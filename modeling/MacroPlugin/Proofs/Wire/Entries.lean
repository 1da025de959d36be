import MacroPlugin.Proofs.Wire.Places

/-!
What an object says about the fields of a record. The entries may come in any order, with keys in
any spelling, and those with an unknown key count for nothing. Each field looks at the texts under
its own key: it takes the value of one, falls back on its default if there is none, and refuses
two.

The loop over the entries is a run of steps, each of which fills a slot. A run over the slots of all
fields is a run over the first slot beside one over the others, and that over one slot comes to
what the field says.
-/

namespace MacroPlugin.Wire

open Json
open Json.Skip (Container)

/-! Objects -/

/-- A key in some spelling, a colon and a value. -/
inductive SpelledEntry : String × Octets → Octets → Prop
  | mk {key : String} {spelling value before behind : Octets}
      (hkey : Spells key.toList spelling) (hbefore : Blank before) (hbehind : Blank behind)
      (hvalue : IsValue value) :
      SpelledEntry (key, value) (Ascii.quote :: (spelling ++ Ascii.quote ::
        (before ++ Ascii.colon :: (behind ++ value))))

/-- What stands behind the opening brace of an object, or behind an entry that is not the first. -/
inductive SpelledEntries : Bool → List (String × Octets) → Octets → Prop
  | nil {first : Bool} {blanks : Octets} (hblanks : Blank blanks) :
      SpelledEntries first [] (blanks ++ [Ascii.closeBrace])
  | head {entry : String × Octets} {entries : List (String × Octets)} {blanks text more : Octets}
      (hblanks : Blank blanks) (hentry : SpelledEntry entry text)
      (hmore : SpelledEntries false entries more) :
      SpelledEntries true (entry :: entries) (blanks ++ (text ++ more))
  | next {entry : String × Octets} {entries : List (String × Octets)}
      {blanks blanks' text more : Octets} (hblanks : Blank blanks) (hblanks' : Blank blanks')
      (hentry : SpelledEntry entry text) (hmore : SpelledEntries false entries more) :
      SpelledEntries false (entry :: entries) (blanks ++ Ascii.comma :: (blanks' ++ (text ++ more)))

/-- An object with these entries in this order: each has a key and the text of a value. -/
inductive SpelledObject (entries : List (String × Octets)) : Octets → Prop
  | mk {text : Octets} (h : SpelledEntries true entries text) :
      SpelledObject entries (Ascii.openBrace :: text)

theorem SpelledEntries.stops {entries : List (String × Octets)} {text : Octets}
    (h : SpelledEntries false entries text) (more : Octets) : Stops (text ++ more) := by
  cases h with
  | nil hblanks =>
    rw [List.append_assoc]
    exact stops_blank hblanks (stops_cons (by decide))
  | next hblanks =>
    rw [List.append_assoc]
    exact stops_blank hblanks (stops_cons (by decide))

theorem SpelledEntry.length_pos {entry : String × Octets} {text : Octets}
    (h : SpelledEntry entry text) : 0 < text.length := by
  cases h
  simp

/-- An entry comes apart into its value and what precedes it. -/
theorem SpelledEntry.split {entry : String × Octets} {text blanks : Octets}
    (h : SpelledEntry entry text) (hblanks : Blank blanks) :
    ∃ label, blanks ++ text = label ++ entry.2 ∧ IsLabel .object label ∧ IsValue entry.2 := by
  cases h with
  | @mk key spelling value before behind hkey hbefore hbehind hvalue =>
    exact ⟨blanks ++ Ascii.quote :: (spelling ++ Ascii.quote :: (before ++ Ascii.colon :: behind)),
      by simp, .object hblanks hkey.isTextBody hbefore hbehind, hvalue⟩

theorem SpelledEntries.isParts {first : Bool} {entries : List (String × Octets)} {text : Octets}
    (h : SpelledEntries first entries text) (hfirst : first = false) {label value : Octets}
    (hlabel : IsLabel .object label) (hvalue : IsValue value) :
    IsParts .object (label ++ (value ++ text)) := by
  induction h generalizing label value with
  | nil hblanks => exact .last hlabel hvalue hblanks
  | head => simp at hfirst
  | @next entry entries blanks blanks' text more hblanks hblanks' hentry _ ih =>
    obtain ⟨label', hsplit, hlabel', hvalue'⟩ := hentry.split hblanks'
    have hmore := ih rfl hlabel' hvalue'
    rw [← List.append_assoc label', ← hsplit, List.append_assoc] at hmore
    exact .next hlabel hvalue hblanks hmore

/-- An object is itself a value, and so may be the value of an entry. -/
theorem SpelledObject.isValue {entries : List (String × Octets)} {object : Octets}
    (h : SpelledObject entries object) : IsValue object := by
  obtain ⟨hentries⟩ := h
  cases hentries with
  | nil hblanks => exact .empty .object hblanks
  | head hblanks hentry hmore =>
    obtain ⟨label, hsplit, hlabel, hvalue⟩ := hentry.split hblanks
    have hparts := hmore.isParts rfl hlabel hvalue
    rw [← List.append_assoc label, ← hsplit, List.append_assoc] at hparts
    exact .parts .object hparts

/-! What entries say -/

/-- The texts under a key, in the order of the entries. -/
def under (key : String) (entries : List (String × Octets)) : List Octets :=
  entries.filterMap fun entry => if entry.1 = key then some entry.2 else none

/-- The entries with another key. -/
def others (key : String) (entries : List (String × Octets)) : List (String × Octets) :=
  entries.filter fun entry => entry.1 ≠ key

/-- What the texts under the key of a field say about its value; without any, it is the one that is
taken if the field is missing. -/
def Says {α : Type} (reads : Octets → α → Prop) (missing : Option α) :
    List Octets → α → Prop
  | [], value => missing = some value
  | [octets], value => reads octets value
  | _, _ => False

/-- A text that is read as a value on its own. -/
def Schema.ReadsAs (schema : Schema) (text : Octets) (value : schema.Val) : Prop :=
  schema.readAll text = .ok value

/-- What entries say about the values of fields. -/
def Fields.Given (entries : List (String × Octets)) : (fields : Fields) → fields.Val → Prop
  | .nil, _ => True
  | .required key schema rest, (value, values) =>
    Says schema.ReadsAs none (under key entries) value ∧ rest.Given entries values
  | .optional key schema rest, (value, values) =>
    Says schema.ReadsOptional (some none) (under key entries) value ∧ rest.Given entries values
  | .defaulted key item rest, (values, others) =>
    Says (Schema.list item).ReadsAs (some []) (under key entries) values ∧
      rest.Given entries others

section Lookup

variable {key own : String} {text : Octets} {entries entries' : List (String × Octets)}

theorem under_cons_own : under key ((key, text) :: entries) = text :: under key entries := by
  simp [under]

theorem under_cons_other (h : own ≠ key) :
    under key ((own, text) :: entries) = under key entries := by
  simp [under, h]

theorem mem_under : text ∈ under key entries ↔ (key, text) ∈ entries := by
  simp only [under, List.mem_filterMap]
  constructor
  · rintro ⟨entry, hmem, htext⟩
    split at htext
    · next hkey =>
      have hentry : entry = (key, text) := Prod.ext hkey (Option.some.inj htext)
      rwa [← hentry]
    · simp at htext
  · intro hmem
    exact ⟨(key, text), hmem, by simp⟩

/-- What is under a key depends on no entry with another key. -/
theorem under_filter (keep : String → Bool) (h : keep key = true) :
    under key (entries.filter fun entry => keep entry.1) = under key entries := by
  unfold under
  rw [List.filterMap_filter]
  congr 1
  funext entry
  by_cases hkey : entry.1 = key
  · rw [hkey, h, if_pos rfl]
  · rw [if_neg hkey, ite_self]

theorem count_keys : (entries.map Prod.fst).count key = (under key entries).length := by
  induction entries with
  | nil => rfl
  | cons entry entries ih =>
    obtain ⟨own, octets⟩ := entry
    by_cases hkey : own = key
    · rw [hkey, under_cons_own, List.map_cons, List.count_cons_self, ih, List.length_cons]
    · rw [under_cons_other hkey, List.map_cons, List.count_cons_of_ne hkey, ih]

theorem says_perm {α : Type} {reads : Octets → α → Prop} {missing : Option α}
    {texts texts' : List Octets} {value : α} (h : texts.Perm texts') :
    Says reads missing texts value ↔ Says reads missing texts' value := by
  match texts, texts', h.length_eq with
  | [], [], _ => exact Iff.rfl
  | [_], [_], _ => rw [List.perm_singleton.mp h]
  | _ :: _ :: _, _ :: _ :: _, _ => exact Iff.rfl

/-- The order of the entries plays no part. -/
theorem Fields.given_perm : (fields : Fields) → (values : fields.Val) →
    (∀ key ∈ fields.keys, (under key entries).Perm (under key entries')) →
    (fields.Given entries values ↔ fields.Given entries' values)
  | .nil, _, _ => Iff.rfl
  | .required _ _ rest, (_, values), h =>
    and_congr (says_perm (h _ List.mem_cons_self))
      (rest.given_perm values fun key hmem => h key (List.mem_cons_of_mem _ hmem))
  | .optional _ _ rest, (_, values), h =>
    and_congr (says_perm (h _ List.mem_cons_self))
      (rest.given_perm values fun key hmem => h key (List.mem_cons_of_mem _ hmem))
  | .defaulted _ _ rest, (_, values), h =>
    and_congr (says_perm (h _ List.mem_cons_self))
      (rest.given_perm values fun key hmem => h key (List.mem_cons_of_mem _ hmem))

theorem Fields.given_others {fields : Fields} (h : own ∉ fields.keys) (values : fields.Val) :
    fields.Given (others own entries) values ↔ fields.Given entries values := by
  refine fields.given_perm values fun key hmem => ?_
  have hkey : decide (key ≠ own) = true := by
    rw [decide_eq_true_eq]
    rintro rfl
    exact h hmem
  exact .of_eq (under_filter (fun key => decide (key ≠ own)) hkey)

end Lookup

/-! Runs over the slots -/

section Runs

variable {α σ : Type}

/-- A run of steps, one for each entry. -/
def Run (step : String → Octets → σ → σ → Prop) : List (String × Octets) → σ → σ → Prop
  | [], before, after => after = before
  | (key, octets) :: entries, before, after =>
    ∃ next, step key octets before next ∧ Run step entries next after

/-- An entry fills the slot of its key, unless it was filled before, or another slot. -/
def slotStep (own : String) (reads : Octets → α → Prop) (next : String → Octets → σ → σ → Prop)
    (key : String) (text : Octets) (before after : Option α × σ) : Prop :=
  if key = own then
    (before.1 = none ∧ ∃ value, reads text value ∧ after.1 = some value) ∧ after.2 = before.2
  else after.1 = before.1 ∧ next key text before.2 after.2

/-- The texts under the key of a slot fill it one after another. -/
def Fills (reads : Octets → α → Prop) : List Octets → Option α → Option α → Prop
  | [], before, after => after = before
  | octets :: texts, before, after =>
    before = none ∧ ∃ value, reads octets value ∧ Fills reads texts (some value) after

variable {own : String} {reads : Octets → α → Prop} {next : String → Octets → σ → σ → Prop}

/-- A run is one over the slot beside one over the others. -/
theorem run_slotStep {entries : List (String × Octets)} {slot slot' : Option α} {state state' : σ} :
    Run (slotStep own reads next) entries (slot, state) (slot', state') ↔
      Fills reads (under own entries) slot slot' ∧
        Run next (others own entries) state state' := by
  induction entries generalizing slot state with
  | nil => simp [Run, under, others, Fills, Prod.ext_iff]
  | cons entry entries ih =>
    obtain ⟨key, octets⟩ := entry
    simp only [Run, slotStep, Prod.exists]
    by_cases hkey : key = own
    · subst hkey
      have hothers : others key ((key, octets) :: entries) = others key entries := by
        simp [others]
      simp only [under_cons_own, hothers, Fills, if_true, ih]
      constructor
      · rintro ⟨_, _, ⟨⟨hnone, value, hread, rfl⟩, rfl⟩, hfills, hrun⟩
        exact ⟨⟨hnone, value, hread, hfills⟩, hrun⟩
      · rintro ⟨⟨hnone, value, hread, hfills⟩, hrun⟩
        exact ⟨_, _, ⟨⟨hnone, value, hread, rfl⟩, rfl⟩, hfills, hrun⟩
    · have hothers : others own ((key, octets) :: entries) =
          (key, octets) :: others own entries := by
        simp [others, hkey]
      simp only [under_cons_other hkey, hothers, Run, if_neg hkey, ih]
      constructor
      · rintro ⟨_, state'', ⟨rfl, hstep⟩, hfills, hrun⟩
        exact ⟨hfills, state'', hstep, hrun⟩
      · rintro ⟨hfills, state'', hstep, hrun⟩
        exact ⟨_, state'', ⟨rfl, hstep⟩, hfills, hrun⟩

/-- What an empty slot comes to, with a value to take if it stays empty. -/
theorem exists_fills {texts : List Octets} {missing : Option α} {value : α} :
    (∃ slot, Fills reads texts none slot ∧ (slot <|> missing) = some value) ↔
      Says reads missing texts value := by
  match texts with
  | [] => simp [Fills, Says]
  | [octets] =>
    simp only [Fills, Says, true_and]
    constructor
    · rintro ⟨slot, ⟨value', hread, rfl⟩, hvalue⟩
      rwa [← Option.some.inj hvalue]
    · intro hread
      exact ⟨some value, ⟨value, hread, rfl⟩, rfl⟩
  | first :: second :: texts => simp [Fills, Says]

theorem pair_eq_ok {β : Type} {first value : α} {result : Except String β} {values : β} :
    (do return (first, ← result) : Except String (α × β)) = .ok (value, values) ↔
      first = value ∧ result = .ok values := by
  cases result <;> simp [bind, Except.bind, pure, Except.pure]

/-- A run over one slot and others comes to what the texts say and what the others come to. -/
theorem exists_run_slot {β : Type} {entries : List (String × Octets)} {missing : Option α}
    {start : σ} {collect : σ → Except String β} {gather : Option α × σ → Except String (α × β)}
    (hgather : ∀ slot state value values, gather (slot, state) = .ok (value, values) ↔
      (slot <|> missing) = some value ∧ collect state = .ok values)
    {value : α} {values : β} {given : Prop}
    (hrest : (∃ state, Run next (others own entries) start state ∧ collect state = .ok values) ↔
      given) :
    (∃ slots, Run (slotStep own reads next) entries (none, start) slots ∧
        gather slots = .ok (value, values)) ↔
      Says reads missing (under own entries) value ∧ given := by
  rw [← exists_fills, ← hrest]
  constructor
  · rintro ⟨⟨slot, state⟩, hrun, hvalue⟩
    obtain ⟨hfills, hrun⟩ := run_slotStep.mp hrun
    obtain ⟨hslot, hstate⟩ := (hgather slot state value values).mp hvalue
    exact ⟨⟨slot, hfills, hslot⟩, state, hrun, hstate⟩
  · rintro ⟨⟨slot, hfills, hslot⟩, state, hrun, hstate⟩
    exact ⟨(slot, state), run_slotStep.mpr ⟨hfills, hrun⟩,
      (hgather slot state value values).mpr ⟨hslot, hstate⟩⟩

end Runs

/-- What an entry does to the slots of fields. -/
def Fields.step : (fields : Fields) → String → Octets → fields.Slots → fields.Slots → Prop
  | .nil => fun _ _ _ _ => True
  | .required key schema rest => slotStep key schema.ReadsAs rest.step
  | .optional key schema rest => slotStep key schema.ReadsOptional rest.step
  | .defaulted key item rest => slotStep key (Schema.list item).ReadsAs rest.step

/-- Entries give the fields the values that a run over them collects. -/
theorem Fields.exists_run : (fields : Fields) → fields.keys.Nodup →
    (entries : List (String × Octets)) → (values : fields.Val) →
    ((∃ slots, Run fields.step entries fields.noSlots slots ∧ fields.collect slots = .ok values) ↔
      fields.Given entries values)
  | .nil, _, entries, _ => by
    have hrun : ∀ entries : List (String × Octets), Run Fields.nil.step entries () () := by
      intro entries
      induction entries with
      | nil => rfl
      | cons entry entries ih => exact ⟨(), trivial, ih⟩
    exact ⟨fun _ => trivial, fun _ => ⟨(), hrun entries, rfl⟩⟩
  | .required key schema rest, hkeys, entries, (value, values) => by
    obtain ⟨hkey, hrest⟩ := List.nodup_cons.mp hkeys
    refine exists_run_slot ?_ ((rest.exists_run hrest _ values).trans (given_others hkey values))
    intro slot slots value values
    cases slot with
    | none => simp [collect]
    | some present => exact pair_eq_ok.trans (and_congr_left fun _ => Option.some_inj.symm)
  | .optional key schema rest, hkeys, entries, (value, values) => by
    obtain ⟨hkey, hrest⟩ := List.nodup_cons.mp hkeys
    refine exists_run_slot ?_ ((rest.exists_run hrest _ values).trans (given_others hkey values))
    intro slot slots value values
    cases slot with
    | none => exact pair_eq_ok.trans (and_congr_left fun _ => Option.some_inj.symm)
    | some present => exact pair_eq_ok.trans (and_congr_left fun _ => Option.some_inj.symm)
  | .defaulted key item rest, hkeys, entries, (value, values) => by
    obtain ⟨hkey, hrest⟩ := List.nodup_cons.mp hkeys
    refine exists_run_slot ?_ ((rest.exists_run hrest _ values).trans (given_others hkey values))
    intro slot slots value values
    cases slot with
    | none => exact pair_eq_ok.trans (and_congr_left fun _ => Option.some_inj.symm)
    | some present => exact pair_eq_ok.trans (and_congr_left fun _ => Option.some_inj.symm)

/-! Reading entries -/

section Reading

variable {α σ : Type} {n : Nat}

/-- A reader that reads well-formed values at their places, among fewer than `n` octets. -/
def PlacedReads (n : Nat) (reader : Reader α) (reads : Octets → α → Prop) : Prop :=
  ∀ {octets blanks more : Octets} {value : α} {rest : Octets}, IsValue octets → Blank blanks →
    Stops more → (blanks ++ (octets ++ more)).length < n →
    (reader (blanks ++ (octets ++ more)) = .ok (value, rest) ↔ rest = more ∧ reads octets value)

/-- The same of a reader of what follows a key: a colon and then a value. -/
def EntryReads (n : Nat) (entry : String → σ → Reader σ)
    (step : String → Octets → σ → σ → Prop) : Prop :=
  ∀ {key : String} {octets before behind more : Octets} {state state' : σ} {rest : Octets},
    IsValue octets → Blank before → Blank behind → Stops more →
    (behind ++ (octets ++ more)).length < n →
    (entry key state (before ++ Ascii.colon :: (behind ++ (octets ++ more))) = .ok (state', rest) ↔
      rest = more ∧ step key octets state state')

theorem readColon_append {before : Octets} (hbefore : Blank before) (rest : Octets) :
    readColon (before ++ Ascii.colon :: rest) = .ok rest := by
  rw [readColon_eq, leading_cons (skipBlank_append hbefore (by decide) rest), if_pos rfl]

theorem slotEntry_reads {own : String} {value : Reader α} {reads : Octets → α → Prop}
    (hvalue : PlacedReads n value reads) {next : String → σ → Reader σ}
    {step : String → Octets → σ → σ → Prop} (hnext : EntryReads n next step) :
    EntryReads n (slotEntry own value next) (slotStep own reads step) := by
  intro key octets before behind more state state' rest hoctets hbefore hbehind hstops hlength
  obtain ⟨slot, inner⟩ := state
  obtain ⟨slot', inner'⟩ := state'
  simp only [slotEntry, slotStep]
  by_cases hkey : key = own
  · simp only [if_pos hkey]
    cases slot with
    | some present => simp [fillSlot, bind, Except.bind]
    | none =>
      simp only [fillSlot, readColon_append hbefore, bind_eq_ok]
      constructor
      · rintro ⟨⟨filled, rest'⟩, ⟨behind', hcolon, ⟨read, rest''⟩, hread, hfilled⟩, hresult⟩
        rw [← Except.ok.inj hcolon] at hread
        obtain ⟨hrest, hreads⟩ := (hvalue hoctets hbehind hstops hlength).mp hread
        obtain ⟨rfl, rfl⟩ := ok_pair_inj hfilled
        obtain ⟨hstate, rfl⟩ := ok_pair_inj hresult
        obtain ⟨rfl, rfl⟩ := Prod.mk.inj hstate
        exact ⟨hrest, ⟨trivial, read, hreads, rfl⟩, rfl⟩
      · rintro ⟨rfl, ⟨-, read, hreads, hslot⟩, hinner⟩
        have hread := (hvalue hoctets hbehind hstops hlength).mpr ⟨rfl, hreads⟩
        rw [hslot, hinner]
        exact ⟨_, ⟨_, rfl, _, hread, rfl⟩, rfl⟩
  · simp only [if_neg hkey, bind_eq_ok]
    constructor
    · rintro ⟨⟨moved, rest'⟩, hread, hresult⟩
      obtain ⟨hrest, hstep⟩ := (hnext hoctets hbefore hbehind hstops hlength).mp hread
      obtain ⟨hstate, rfl⟩ := ok_pair_inj hresult
      obtain ⟨rfl, rfl⟩ := Prod.mk.inj hstate
      exact ⟨hrest, rfl, hstep⟩
    · rintro ⟨rfl, hslot, hstep⟩
      have hread := (hnext hoctets hbefore hbehind hstops hlength).mpr ⟨rfl, hstep⟩
      rw [hslot]
      exact ⟨_, hread, rfl⟩

theorem Schema.placedReads (n : Nat) (schema : Schema) :
    PlacedReads n (schema.read n) schema.ReadsAs :=
  fun hoctets hblanks hstops hlength => schema.read_placed hoctets hblanks hstops hlength

/-- What follows a key is read into the slot of the key, or passed over. -/
theorem Fields.readEntry_reads (n : Nat) : (fields : Fields) →
    EntryReads n (fields.readEntry n) fields.step
  | .nil => by
    intro hoctets hbefore hbehind hstops hlength
    refine unknownEntry_eq_ok.trans ?_
    simp only [readColon_append hbefore, Except.ok.injEq, exists_eq_left',
      skipValue_placed hoctets hbehind hstops hlength, Fields.step, and_true]
  | .required key schema rest =>
    slotEntry_reads (schema.placedReads n) (rest.readEntry_reads n)
  | .optional key schema rest =>
    slotEntry_reads (fun hoctets hblanks hstops hlength =>
      schema.readOptional_placed hoctets hblanks hstops hlength) (rest.readEntry_reads n)
  | .defaulted key item rest =>
    slotEntry_reads ((Schema.list item).placedReads n) (rest.readEntry_reads n)

section Loop

variable {entry : String → σ → Reader σ} {step : String → Octets → σ → σ → Prop}
  {entries : List (String × Octets)} {text more : Octets} {fuel : Nat} {state' : σ} {rest : Octets}

/-- One turn of the loop, behind the opening quote of a key. -/
theorem readKeyed_run (hentry : EntryReads n entry step) {given : String × Octets}
    {further : Octets} (hgiven : SpelledEntry given text)
    (hfurther : SpelledEntries false entries further)
    (hlength : (text ++ (further ++ more)).length < n)
    (hmore : ∀ {state}, readEntries entry fuel false state (further ++ more) = .ok (state', rest) ↔
      rest = more ∧ Run step entries state state') :
    ∃ tail, text = Ascii.quote :: tail ∧ ∀ state,
      readKeyed entry fuel state (tail ++ (further ++ more)) = .ok (state', rest) ↔
        rest = more ∧ Run step (given :: entries) state state' := by
  obtain ⟨hkey, hbefore, hbehind, hvalue⟩ := hgiven
  rename_i key spelling value before behind
  refine ⟨_, rfl, fun state => ?_⟩
  have htail : (spelling ++ Ascii.quote :: (before ++ Ascii.colon :: (behind ++ value))) ++
      (further ++ more) = spelling ++ Ascii.quote ::
        (before ++ Ascii.colon :: (behind ++ (value ++ (further ++ more)))) := by
    simp
  have hshort : (behind ++ (value ++ (further ++ more))).length < n := by
    simp only [List.length_cons, List.length_append] at hlength ⊢
    omega
  have hread : ∀ {next rest'}, entry key state (before ++ Ascii.colon ::
      (behind ++ (value ++ (further ++ more)))) = .ok (next, rest') ↔
      rest' = further ++ more ∧ step key value state next :=
    hentry hvalue hbefore hbehind (hfurther.stops more) hshort
  unfold readKeyed
  rw [htail, andThen_eq_ok]
  constructor
  · rintro ⟨name, tail, hname, hthen⟩
    obtain ⟨rfl, rfl⟩ := ok_pair_inj ((hkey.read _).symm.trans hname)
    obtain ⟨next, rest', hfirst, hthen⟩ := andThen_eq_ok.mp hthen
    obtain ⟨rfl, hstep⟩ := hread.mp hfirst
    obtain ⟨hrest, hrun⟩ := hmore.mp hthen
    exact ⟨hrest, next, hstep, hrun⟩
  · rintro ⟨hrest, next, hstep, hrun⟩
    refine ⟨key, _, hkey.read _, andThen_eq_ok.mpr ?_⟩
    exact ⟨next, further ++ more, hread.mpr ⟨rfl, hstep⟩, hmore.mpr ⟨hrest, hrun⟩⟩

/-- The loop over the entries of an object is a run over them, and stops behind the object. -/
theorem readEntries_run (hentry : EntryReads n entry step) {first : Bool}
    (h : SpelledEntries first entries text) (hfuel : (text ++ more).length < fuel)
    (hn : (text ++ more).length < n) {state : σ} :
    readEntries entry fuel first state (text ++ more) = .ok (state', rest) ↔
      rest = more ∧ Run step entries state state' := by
  induction h generalizing fuel state with
  | nil hblanks =>
    cases fuel with
    | zero => exact absurd hfuel (Nat.not_lt_zero _)
    | succ fuel =>
      rw [List.append_assoc, List.singleton_append, readEntries_close hblanks]
      simp [Run, eq_comm, and_comm]
  | @head given entries blanks text further hblanks hgiven hfurther ih =>
    have hpos := hgiven.length_pos
    cases fuel with
    | zero => exact absurd hfuel (Nat.not_lt_zero _)
    | succ fuel =>
      simp only [List.length_append] at hfuel hn ih
      obtain ⟨tail, rfl, hkeyed⟩ := readKeyed_run hentry hgiven hfurther
        (by simp only [List.length_append]; omega) (ih (by omega : _ < fuel) (by omega))
      rw [List.append_assoc, List.append_assoc, List.cons_append, readEntries_key hblanks]
      exact hkeyed state
  | @next given entries blanks blanks' text further hblanks hblanks' hgiven hfurther ih =>
    have hpos := hgiven.length_pos
    cases fuel with
    | zero => exact absurd hfuel (Nat.not_lt_zero _)
    | succ fuel =>
      simp only [List.length_append, List.length_cons] at hfuel hn ih
      obtain ⟨tail, rfl, hkeyed⟩ := readKeyed_run hentry hgiven hfurther
        (by simp only [List.length_append]; omega) (ih (by omega : _ < fuel) (by omega))
      rw [List.append_assoc, List.cons_append, List.append_assoc, List.append_assoc,
        List.cons_append, readEntries_skip (skipBlank_token hblanks (by decide) _),
        readEntries_next hblanks']
      exact hkeyed state

end Loop

end Reading

end MacroPlugin.Wire
