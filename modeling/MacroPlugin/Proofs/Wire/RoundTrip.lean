import MacroPlugin.Proofs.Wire.Containers
import MacroPlugin.Message.Reply
import MacroPlugin.Message.Request

/-!
Every value is read back from its wire form. This is shown for all schemas at once, by recursion on
the schema; all that is asked of one is that its keys and names are told apart. The messages are
then cases of it.
-/

namespace MacroPlugin.Wire

open Json

/-! Slots -/

section Slots

variable {α σ : Type} {n : Nat} {key : String} {reader : Reader α}
  {next : String → σ → Reader σ} {state state' : σ} {entries : List (String × Json)}

/-- Reads what follows a key into one slot, or passes the key on. -/
def slotEntry (key : String) (reader : Reader α) (next : String → σ → Reader σ) :
    String → Option α × σ → Reader (Option α × σ)
  | given, (slot, state) => fun input =>
    if given = key then do
      let (slot, input) ← fillSlot key slot reader input
      return ((slot, state), input)
    else do
      let (state, input) ← next given state input
      return ((slot, state), input)

theorem slotEntry_own (state : σ) (input : Octets) :
    slotEntry key reader next key (none, state) input =
      Reader.andThen (fun input => do reader (← readColon input))
        (fun value rest => .ok ((some value, state), rest)) input := by
  simp only [slotEntry, if_true, fillSlot, Reader.andThen, bind, Except.bind]
  cases readColon input with
  | error fault => rfl
  | ok input =>
    cases hresult : reader input with
    | error fault => simp only [hresult]
    | ok result => simp only [hresult, pure, Except.pure]

theorem slotEntry_other {given : String} (hgiven : given ≠ key) (slot : Option α) (state : σ)
    (input : Octets) :
    slotEntry key reader next given (slot, state) input =
      (next given state).andThen (fun state rest => .ok ((slot, state), rest)) input := by
  simp only [slotEntry, if_neg hgiven]
  rfl

/-- The entries of the other slots leave this one as it is. -/
theorem Absorbs.beside (habsorbs : Absorbs n next state entries state')
    (hkey : ∀ entry ∈ entries, entry.1 ≠ key) (slot : Option α) :
    Absorbs n (slotEntry key reader next) (slot, state) entries (slot, state') := by
  induction habsorbs with
  | nil state => exact .nil (slot, state)
  | @cons state state' state'' given json entries hentry _ ih =>
    have hgiven : given ≠ key := hkey (given, json) (by simp)
    have hother : ∀ text, WrittenContent json text →
        Reads false n (slotEntry key reader next given (slot, state)) text (slot, state') := by
      intro text htext
      rw [funext (slotEntry_other hgiven slot state)]
      exact (hentry text htext).map fun state => (slot, state)
    exact .cons hother (ih fun entry hmem => hkey entry (by simp [hmem]))

/-- An entry for this slot, and then those for the others. -/
theorem Absorbs.fill {closed : Bool} {json : Json} {value : α}
    (hvalue : Understands closed n reader json value)
    (habsorbs : Absorbs n next state entries state')
    (hkey : ∀ entry ∈ entries, entry.1 ≠ key) :
    Absorbs n (slotEntry key reader next) (none, state) ((key, json) :: entries)
      (some value, state') := by
  have hown : ∀ text, WrittenContent json text →
      Reads false n (slotEntry key reader next key (none, state)) text (some value, state) := by
    intro text htext
    rw [funext (slotEntry_own state)]
    exact ((readContent_reads hvalue htext).map fun value => (some value, state)).opened
  exact .cons hown (habsorbs.beside hkey _)

end Slots

/-! Keys and names -/

def Fields.keys : Fields → List String
  | .nil => []
  | .required key _ rest | .optional key _ rest | .defaulted key _ rest => key :: rest.keys

mutual

/-- No record has two fields with one key, and no choice or union one name for two cases. -/
def Schema.distinct : Schema → Bool
  | .text | .word _ | .boolean => true
  | .list item => item.distinct
  | .choice names => decide names.Nodup
  | .record _ fields => fields.distinct
  | .union cases => decide cases.names.Nodup && cases.distinct

def Fields.distinct : Fields → Bool
  | .nil => true
  | .required key schema rest | .optional key schema rest | .defaulted key schema rest =>
    decide (key ∉ rest.keys) && schema.distinct && rest.distinct

def Cases.distinct : Cases → Bool
  | .nil => true
  | .cons _ _ fields rest => fields.distinct && rest.distinct

end

theorem distinct_field {key : String} {schema : Schema} {rest : Fields}
    (h : (decide (key ∉ rest.keys) && schema.distinct && rest.distinct) = true) :
    key ∉ rest.keys ∧ schema.distinct = true ∧ rest.distinct = true := by
  simpa only [Bool.and_eq_true, decide_eq_true_eq, and_assoc] using h

theorem Fields.entries_keys : (fields : Fields) → (values : fields.Val) →
    ∀ entry ∈ fields.entries values, entry.1 ∈ fields.keys
  | .nil, _, entry, hmem => by simp [entries] at hmem
  | .required key schema rest, (value, values), entry, hmem => by
    rcases List.mem_cons.mp hmem with rfl | hmem
    · exact List.mem_cons_self
    · exact List.mem_cons_of_mem key (rest.entries_keys values entry hmem)
  | .optional key schema rest, (some value, values), entry, hmem => by
    rcases List.mem_cons.mp hmem with rfl | hmem
    · exact List.mem_cons_self
    · exact List.mem_cons_of_mem key (rest.entries_keys values entry hmem)
  | .optional key schema rest, (none, values), entry, hmem =>
    List.mem_cons_of_mem key (rest.entries_keys values entry hmem)
  | .defaulted key item rest, (items, values), entry, hmem => by
    rcases List.mem_cons.mp hmem with rfl | hmem
    · exact List.mem_cons_self
    · exact List.mem_cons_of_mem key (rest.entries_keys values entry hmem)

theorem Fields.key_ne {fields : Fields} {key : String} (hkey : key ∉ fields.keys)
    (values : fields.Val) : ∀ entry ∈ fields.entries values, entry.1 ≠ key := by
  intro entry hmem heq
  exact hkey (heq ▸ fields.entries_keys values entry hmem)

/-! Records -/

/-- The slots that the entries of a record fill. -/
def Fields.fill : (fields : Fields) → fields.Val → fields.Slots
  | .nil, _ => ()
  | .required _ _ rest, (value, values) => (some value, rest.fill values)
  | .optional _ _ rest, (value, values) => (value.map some, rest.fill values)
  | .defaulted _ _ rest, (items, values) => (some items, rest.fill values)

theorem Fields.collect_fill : (fields : Fields) → (values : fields.Val) →
    fields.collect (fields.fill values) = .ok values
  | .nil, _ => rfl
  | .required key schema rest, (value, values) => by
    simp only [fill, collect, rest.collect_fill values]
    rfl
  | .optional key schema rest, (some value, values) => by
    simp only [fill, collect, rest.collect_fill values]
    rfl
  | .optional key schema rest, (none, values) => by
    simp only [fill, collect, rest.collect_fill values]
    rfl
  | .defaulted key item rest, (items, values) => by
    simp only [fill, collect, rest.collect_fill values]
    rfl

/-! Cases -/

/-- The number of the case that a value belongs to. -/
def Cases.index : (cases : Cases) → cases.Val → Fin cases.names.length
  | .cons _ _ _ rest, .inl _ => (0 : Fin (rest.names.length + 1))
  | .cons _ _ _ rest, .inr value => (rest.index value).succ

theorem Cases.entry_name : (cases : Cases) → (value : cases.Val) →
    (cases.entry value).1 = cases.names.get (cases.index value)
  | .cons _ _ _ _, .inl _ => rfl
  | .cons _ _ _ rest, .inr value => rest.entry_name value

/-! Schemas -/

/-- Of all values only a word does not say where it ends. -/
def Schema.closed : Schema → Bool
  | .word _ => false
  | _ => true

theorem Schema.toJson_ne_null : (schema : Schema) → (value : schema.Val) →
    schema.toJson value ≠ .null
  | .text, _ | .word _, _ | .boolean, _ | .list _, _ | .choice _, _ | .record _ _, _
  | .union _, _ => by simp [toJson]

theorem readOptional_understands {α : Type} {closed : Bool} {n : Nat} {reader : Reader α}
    {json : Json} {value : α} (hnull : json ≠ .null)
    (h : Understands closed n reader json value) :
    Understands closed n (readOptional reader) json (some value) :=
  fun _ _ hblank hwritten => readOptional_reads hblank hwritten hnull (h.written hwritten)

mutual

theorem Schema.understands (n : Nat) : (schema : Schema) → schema.distinct = true →
    (value : schema.Val) →
    Understands schema.closed n (schema.read n) (schema.toJson value) value
  | .text, _, value => by
    intro blanks text hblank hwritten
    cases hwritten
    exact readTextValue_reads hblank value
  | .word size, _, value => by
    intro blanks text hblank hwritten
    cases hwritten
    exact readWord_reads hblank size value
  | .boolean, _, value => by
    intro blanks text hblank hwritten
    cases hwritten
    exact readBoolean_reads hblank value
  | .list item, hdistinct, values =>
    readList_understands (fun value => (item.understands n hdistinct value).opened) values
  | .choice names, hdistinct, index =>
    readNamed_alone (of_decide_eq_true hdistinct) rfl
  | .record title fields, hdistinct, values =>
    readRecord_understands title _ (fields.absorbs n hdistinct values) (fields.collect_fill values)
  | .union cases, hdistinct, value => by
    obtain ⟨hnames, hcases⟩ := Bool.and_eq_true_iff.mp hdistinct
    have hentry : cases.entry value =
        (cases.names.get (cases.index value), (cases.entry value).2) :=
      Prod.ext (cases.entry_name value) rfl
    change Understands true n (Schema.read n (.union cases)) (.object [cases.entry value]) value
    rw [hentry]
    exact readNamed_entry (of_decide_eq_true hnames) (cases.understands n hcases value)

/-- The entries of a record fill its slots. -/
theorem Fields.absorbs (n : Nat) : (fields : Fields) → fields.distinct = true →
    (values : fields.Val) →
    Absorbs n (fields.readEntry n) fields.noSlots (fields.entries values) (fields.fill values)
  | .nil, _, _ => .nil ()
  | .required key schema rest, hdistinct, (value, values) => by
    obtain ⟨hkey, hschema, hrest⟩ := distinct_field hdistinct
    exact (rest.absorbs n hrest values).fill (schema.understands n hschema value)
      (Fields.key_ne hkey values)
  | .optional key schema rest, hdistinct, (some value, values) => by
    obtain ⟨hkey, hschema, hrest⟩ := distinct_field hdistinct
    exact (rest.absorbs n hrest values).fill
      (readOptional_understands (schema.toJson_ne_null value) (schema.understands n hschema value))
      (Fields.key_ne hkey values)
  | .optional key schema rest, hdistinct, (none, values) => by
    obtain ⟨hkey, hschema, hrest⟩ := distinct_field hdistinct
    exact (rest.absorbs n hrest values).beside (Fields.key_ne hkey values) none
  | .defaulted key item rest, hdistinct, (items, values) => by
    obtain ⟨hkey, hitem, hrest⟩ := distinct_field hdistinct
    exact (rest.absorbs n hrest values).fill
      (readList_understands (fun value => (item.understands n hitem value).opened) items)
      (Fields.key_ne hkey values)

/-- The content of a case is read as the case that its name tells. -/
theorem Cases.understands (n : Nat) : (cases : Cases) → cases.distinct = true →
    (value : cases.Val) →
    Understands true n (cases.readContent n (cases.index value).val) (cases.entry value).2 value
  | .cons name title fields rest, hdistinct, .inl value => by
    obtain ⟨hfields, -⟩ := Bool.and_eq_true_iff.mp hdistinct
    exact (readRecord_understands title _ (fields.absorbs n hfields value)
      (fields.collect_fill value)).map Sum.inl
  | .cons name title fields rest, hdistinct, .inr value => by
    obtain ⟨-, hrest⟩ := Bool.and_eq_true_iff.mp hdistinct
    exact (rest.understands n hrest value).map Sum.inr

end

/-! Whole inputs -/

section Inputs

variable {schema : Schema} {value : schema.Val} {text : Octets}

/-- A written value is read back, whatever blanks surround it. -/
theorem Schema.readAll_written (hdistinct : schema.distinct = true)
    (hwritten : Written (schema.toJson value) text) {blanks behind : Octets}
    (hblank : Blank blanks) (hbehind : Blank behind) :
    schema.readAll (blanks ++ text ++ behind) = .ok value := by
  have hstops : Stops behind := by
    rw [← List.append_nil behind]
    exact stops_blank hbehind stops_nil
  have hlength : (blanks ++ text).length ≤ (blanks ++ text ++ behind).length + 1 := by
    simp only [List.length_append]
    omega
  have hreads := schema.understands ((blanks ++ text ++ behind).length + 1) hdistinct value blanks
    text hblank hwritten
  unfold readAll
  rw [hreads.whole behind (.inr hstops) hlength]
  simp only [skipBlank_blank hbehind]

/-- A written value that is cut short is missed for lack of octets, unless it is a word. -/
theorem Schema.readAll_cut (hdistinct : schema.distinct = true) (hclosed : schema.closed = true)
    (hwritten : Written (schema.toJson value) text) {front back : Octets}
    (hcut : text = front ++ back) (hback : back ≠ []) :
    ∃ e, schema.readAll front = .error e ∧ e.category = .ended := by
  have hreads := (schema.understands (front.length + 1) hdistinct value).written hwritten
  rw [hclosed] at hreads
  obtain ⟨fault, hfault, hended⟩ := (hreads.cut front back hcut hback (by omega)).ended
  refine ⟨fault.locate front, ?_, hended⟩
  unfold readAll
  rw [hfault]

end Inputs

section Codec

variable {α : Type} [Wire α]

theorem decode_encode (hdistinct : (schema α).distinct = true) (a : α) {behind : Octets}
    (hbehind : Blank behind) : decode α (Octets.ofText (encode a) ++ behind) = .ok a := by
  have hread := Schema.readAll_written hdistinct (compact_written (toJson a)) blank_nil hbehind
  rw [List.nil_append] at hread
  unfold decode encode
  rw [hread]
  exact congrArg Except.ok (values.back_forth a)

theorem decode_cut (hdistinct : (schema α).distinct = true) (hclosed : (schema α).closed = true)
    {a : α} {front back : Octets} (hcut : Octets.ofText (encode a) = front ++ back)
    (hback : back ≠ []) : ∃ e, decode α front = .error e ∧ e.category = .ended := by
  obtain ⟨e, hread, hended⟩ :=
    Schema.readAll_cut hdistinct hclosed (compact_written (toJson a)) hcut hback
  refine ⟨e, ?_, hended⟩
  unfold decode
  rw [hread]
  rfl

end Codec

/-- Every value is read back from its wire form, as the same value. -/
def RoundTrips (α : Type) [Wire α] : Prop :=
  ∀ a : α, decode α (.ofText (encode a)) = .ok a

/-- Both kinds of message and all their parts survive the wire. -/
theorem messages_round_trip :
    (RoundTrips Request ∧ RoundTrips Reply) ∧
      (RoundTrips Fragment ∧ RoundTrips Location ∧ RoundTrips FragmentKind) ∧
      (RoundTrips Reference ∧ RoundTrips Role) ∧
      (RoundTrips Diagnostic ∧ RoundTrips Severity ∧ RoundTrips Position ∧ RoundTrips Span ∧
        RoundTrips Note ∧ RoundTrips Change ∧ RoundTrips FixIt) ∧
      (RoundTrips HostCapability ∧ RoundTrips PluginCapability) := by
  refine ⟨⟨?_, ?_⟩, ⟨?_, ?_, ?_⟩, ⟨?_, ?_⟩, ⟨?_, ?_, ?_, ?_, ?_, ?_, ?_⟩, ?_, ?_⟩
  all_goals
    intro a
    have hread := decode_encode (by decide) a blank_nil
    rwa [List.append_nil] at hread

end MacroPlugin.Wire

namespace MacroPlugin

/-- The side that a message comes from. -/
inductive Sender where
  | host
  | plugin
  deriving DecidableEq, Repr

namespace Sender

/-- The messages that a side sends. -/
abbrev Message : Sender → Type
  | .host => Request
  | .plugin => Reply

instance : (sender : Sender) → Wire sender.Message
  | .host => inferInstanceAs (Wire Request)
  | .plugin => inferInstanceAs (Wire Reply)

theorem schema_distinct (sender : Sender) : (Wire.schema sender.Message).distinct = true := by
  cases sender <;> decide

theorem schema_closed (sender : Sender) : (Wire.schema sender.Message).closed = true := by
  cases sender <;> rfl

end Sender

end MacroPlugin
