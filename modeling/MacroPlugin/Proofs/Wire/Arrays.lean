import Mathlib.Data.List.Forall2
import MacroPlugin.Proofs.Wire.Structs

/-!
What an array says. In a list every text stands for an element. In a record the texts stand for the
fields in the order of their declaration: an optional field may be `null`, and where the texts run
out, each of the remaining fields takes the value that it has if it is missing. So an array with
more texts than there are fields says nothing about them, and neither does one that ends before a
field without such a value.
-/

namespace MacroPlugin.Wire

open Json
open Json.Skip (Container)

/-! Arrays -/

/-- What stands behind the opening bracket of an array, or behind an element that is not the
first. -/
inductive SpelledItems : Bool → List Octets → Octets → Prop
  | nil {first : Bool} {blanks : Octets} (hblanks : Blank blanks) :
      SpelledItems first [] (blanks ++ [Ascii.closeBracket])
  | head {item blanks more : Octets} {items : List Octets} (hblanks : Blank blanks)
      (hitem : IsValue item) (hmore : SpelledItems false items more) :
      SpelledItems true (item :: items) (blanks ++ (item ++ more))
  | next {item blanks blanks' more : Octets} {items : List Octets} (hblanks : Blank blanks)
      (hblanks' : Blank blanks') (hitem : IsValue item) (hmore : SpelledItems false items more) :
      SpelledItems false (item :: items) (blanks ++ Ascii.comma :: (blanks' ++ (item ++ more)))

/-- An array of these texts in this order, each of which is that of a value. -/
inductive SpelledArray (items : List Octets) : Octets → Prop
  | mk {text : Octets} (h : SpelledItems true items text) :
      SpelledArray items (Ascii.openBracket :: text)

section Spelled

variable {first : Bool} {item text : Octets} {items : List Octets}

theorem SpelledItems.stops (h : SpelledItems false items text) (more : Octets) :
    Stops (text ++ more) := by
  cases h with
  | nil hblanks =>
    rw [List.append_assoc]
    exact stops_blank hblanks (stops_cons (by decide))
  | next hblanks =>
    rw [List.append_assoc]
    exact stops_blank hblanks (stops_cons (by decide))

theorem SpelledItems.isParts (h : SpelledItems first items text) (hfirst : first = false)
    {label value : Octets} (hlabel : IsLabel .list label) (hvalue : IsValue value) :
    IsParts .list (label ++ (value ++ text)) := by
  induction h generalizing label value with
  | nil hblanks => exact .last hlabel hvalue hblanks
  | head => simp at hfirst
  | next hblanks hblanks' hitem _ ih =>
    exact .next hlabel hvalue hblanks (ih rfl (.list hblanks') hitem)

/-- An array is itself a value, and so may be an element. -/
theorem SpelledArray.isValue {array : Octets} (h : SpelledArray items array) : IsValue array := by
  obtain ⟨hitems⟩ := h
  cases hitems with
  | nil hblanks => exact .empty .list hblanks
  | head hblanks hitem hmore => exact .parts .list (hmore.isParts rfl (.list hblanks) hitem)

/-- At the end of an array there is no next element. -/
theorem SpelledItems.nextElement_nil (h : SpelledItems first [] text) (more : Octets) :
    nextElement first (text ++ more) = .ok none := by
  cases h with
  | nil hblanks =>
    rw [List.append_assoc, nextElement, List.singleton_append,
      skipBlank_append hblanks (by decide) more]
    rfl

theorem SpelledItems.behindClose_nil (h : SpelledItems first [] text) (more : Octets) :
    behindClose (text ++ more) = more := by
  cases h with
  | nil hblanks =>
    rw [List.append_assoc]
    exact behindClose_eq (skipBlank_append hblanks (by decide) more)

/-- The next element begins where its text does, and behind it there are the further ones. -/
theorem SpelledItems.nextElement_cons (h : SpelledItems first (item :: items) text) :
    IsValue item ∧ ∃ further, SpelledItems false items further ∧
      (∀ more, nextElement first (text ++ more) = .ok (some (item ++ (further ++ more)))) ∧
      ∀ more : Octets, (item ++ (further ++ more)).length ≤ (text ++ more).length ∧
        (further ++ more).length < (text ++ more).length := by
  cases h with
  | @head _ blanks further _ hblanks hitem hmore =>
    refine ⟨hitem, further, hmore, fun more => ?_, fun more => ?_⟩
    · obtain ⟨octet, rest, hcons, -, hclose, -⟩ := hitem.first
      rw [List.append_assoc, List.append_assoc, nextElement, skipBlank_value hblanks hitem, hcons]
      exact if_neg hclose
    · have hpos : 0 < item.length := by
        obtain ⟨octet, rest, rfl, -⟩ := hitem.first
        exact Nat.zero_lt_succ _
      simp only [List.length_append]
      omega
  | @next _ blanks blanks' further _ hblanks hblanks' hitem hmore =>
    refine ⟨hitem, further, hmore, fun more => ?_, fun more => ?_⟩
    · obtain ⟨octet, rest, hcons, -, hclose, -⟩ := hitem.first
      rw [List.append_assoc, List.cons_append, List.append_assoc, List.append_assoc, nextElement,
        skipBlank_append hblanks (by decide)]
      simp only [skipBlank_value hblanks' hitem]
      rw [hcons]
      exact if_neg hclose
    · simp only [List.length_append, List.length_cons]
      omega

/-- Only where no text is left is there the end of the array. -/
theorem SpelledItems.readListEnd (h : SpelledItems first items text) {more rest : Octets} :
    Wire.readListEnd (text ++ more) = .ok rest ↔ rest = more ∧ items = [] := by
  cases items with
  | nil =>
    have hclose : skipBlank (text ++ more) = Ascii.closeBracket :: behindClose (text ++ more) :=
      nextElement_none (h.nextElement_nil more)
    rw [readListEnd_eq, leading_cons hclose, if_pos rfl, h.behindClose_nil]
    simp [eq_comm]
  | cons item items =>
    have hnot : Wire.readListEnd (text ++ more) ≠ .ok rest := by
      intro hread
      have hclose := readListEnd_close hread
      obtain ⟨-, further, -, hnext, -⟩ := h.nextElement_cons
      have hnone : nextElement first (text ++ more) = .ok none := by
        rw [nextElement, hclose]
        rfl
      simp [hnext] at hnone
    simp [hnot]

end Spelled

/-! What texts say -/

/-- What the items of an array say about one value and those behind it. The value is that of the
first item; without any, it is the one that is taken if the value is missing. -/
def Takes {ι α : Type} (reads : ι → α → Prop) (missing : Option α) (further : List ι → Prop) :
    List ι → α → Prop
  | [], value => missing = some value ∧ further []
  | item :: items, value => reads item value ∧ further items

/-- What texts say about the values of fields. -/
def Fields.Listed : (fields : Fields) → List Octets → fields.Val → Prop
  | .nil, texts, _ => texts = []
  | .required _ schema rest, texts, (value, values) =>
    Takes schema.ReadsAs none (rest.Listed · values) texts value
  | .optional _ schema rest, texts, (value, values) =>
    Takes schema.ReadsOptional (some none) (rest.Listed · values) texts value
  | .defaulted _ item rest, texts, (values, others) =>
    Takes (Schema.list item).ReadsAs (some []) (rest.Listed · others) texts values

/-- The field at a place has to be there. -/
def Fields.Demands : Fields → Nat → Prop
  | .nil, _ => False
  | .required _ _ _, 0 => True
  | .optional _ _ _, 0 | .defaulted _ _ _, 0 => False
  | .required _ _ rest, place + 1 | .optional _ _ rest, place + 1
  | .defaulted _ _ rest, place + 1 => rest.Demands place

section Counts

variable {α : Type} {reads : Octets → α → Prop} {missing : Option α}
  {further : List Octets → Prop} {texts : List Octets} {value : α}

theorem Takes.length_le {size : Nat} (h : Takes reads missing further texts value)
    (hfurther : ∀ {texts}, further texts → texts.length ≤ size) : texts.length ≤ size + 1 := by
  cases texts with
  | nil => exact Nat.zero_le _
  | cons octets texts => exact Nat.succ_le_succ (hfurther h.2)

theorem Takes.lt_length {place : Nat} (h : Takes reads missing further texts value)
    (hfurther : ∀ {texts}, further texts → place < texts.length) : place + 1 < texts.length := by
  cases texts with
  | nil => exact absurd (hfurther h.2) (Nat.not_lt_zero _)
  | cons octets texts => exact Nat.succ_lt_succ (hfurther h.2)

/-- There are no more texts than fields. -/
theorem Fields.Listed.length_le : {fields : Fields} → {values : fields.Val} →
    {texts : List Octets} → fields.Listed texts values → texts.length ≤ fields.size
  | .nil, _, _, h => Nat.le_of_eq (congrArg List.length h)
  | .required _ _ _, _, _, h | .optional _ _ _, _, _, h | .defaulted _ _ _, _, _, h =>
    Takes.length_le h fun hrest => length_le hrest

/-- There is a text for every field that has to be there. -/
theorem Fields.Listed.lt_length : {fields : Fields} → {values : fields.Val} →
    {texts : List Octets} → fields.Listed texts values → {place : Nat} → fields.Demands place →
    place < texts.length
  | .required _ _ _, (_, _), [], h, 0, _ => absurd h.1 (by simp)
  | .required _ _ _, _, _ :: texts, _, 0, _ => Nat.zero_lt_succ _
  | .required _ _ _, _, _, h, _ + 1, hdemands | .optional _ _ _, _, _, h, _ + 1, hdemands
  | .defaulted _ _ _, _, _, h, _ + 1, hdemands =>
    Takes.lt_length h fun hrest => lt_length hrest hdemands

end Counts

/-! Reading lists -/

section Lists

variable {α : Type} {n : Nat} {reader : Reader α} {reads : Octets → α → Prop}

/-- A value whose text comes first is read, if it can be, up to what is behind it. -/
theorem PlacedReads.here (hreader : PlacedReads n reader reads) {octets more : Octets}
    (hoctets : IsValue octets) (hstops : Stops more) (hlength : (octets ++ more).length < n)
    {value : α} {rest : Octets} :
    reader (octets ++ more) = .ok (value, rest) ↔ rest = more ∧ reads octets value :=
  hreader hoctets blank_nil hstops hlength

/-- The loop over the elements of a list reads each text as an element, and stops behind the
list. -/
theorem readElements_spelled (hreader : PlacedReads n reader reads) {texts : List Octets}
    {first : Bool} {text more : Octets} (h : SpelledItems first texts text) {fuel : Nat}
    (hfuel : (text ++ more).length < fuel) (hn : (text ++ more).length < n) {taken values : List α}
    {rest : Octets} :
    readElements reader fuel first taken (text ++ more) = .ok (values, rest) ↔
      rest = more ∧ ∃ further, values = taken.reverse ++ further ∧
        List.Forall₂ reads texts further := by
  induction texts generalizing first text fuel taken with
  | nil =>
    cases fuel with
    | zero => exact absurd hfuel (Nat.not_lt_zero _)
    | succ fuel =>
      rw [readElements, h.nextElement_nil, h.behindClose_nil]
      constructor
      · intro hread
        obtain ⟨rfl, rfl⟩ := ok_pair_inj hread
        exact ⟨rfl, [], by simp, .nil⟩
      · rintro ⟨rfl, further, rfl, hforall⟩
        rw [List.forall₂_nil_left_iff.mp hforall, List.append_nil]
        rfl
  | cons octets texts ih =>
    cases fuel with
    | zero => exact absurd hfuel (Nat.not_lt_zero _)
    | succ fuel =>
      obtain ⟨hoctets, further, hfurther, hnext, hshort⟩ := h.nextElement_cons
      obtain ⟨hwhole, hbehind⟩ := hshort more
      have hhere : ∀ {value rest}, reader (octets ++ (further ++ more)) = .ok (value, rest) ↔
          rest = further ++ more ∧ reads octets value :=
        hreader.here hoctets (hfurther.stops more) (by omega)
      have hturn : readElements reader (fuel + 1) first taken (text ++ more) =
          readItem reader fuel taken (octets ++ (further ++ more)) := by
        rw [readElements, hnext]
        rfl
      rw [hturn, readItem, andThen_eq_ok]
      constructor
      · rintro ⟨value, behind, hvalue, hread⟩
        obtain ⟨rfl, hreads⟩ := hhere.mp hvalue
        obtain ⟨rfl, others, rfl, hforall⟩ := (ih hfurther (by omega) (by omega)).mp hread
        exact ⟨rfl, value :: others, by simp, .cons hreads hforall⟩
      · rintro ⟨rfl, values', rfl, hforall⟩
        obtain ⟨value, others, hreads, hothers, rfl⟩ := List.forall₂_cons_left_iff.mp hforall
        refine ⟨value, further ++ rest, hhere.mpr ⟨rfl, hreads⟩, ?_⟩
        exact (ih hfurther (by omega) (by omega)).mpr ⟨rfl, others, by simp, hothers⟩

theorem Schema.readAll_array {item : Schema} {texts : List Octets} {array : Octets}
    (h : SpelledArray texts array) {values : (Schema.list item).Val} :
    (Schema.list item).readAll array = .ok values ↔ List.Forall₂ item.ReadsAs texts values := by
  rw [readAll_value h.isValue (Nat.lt_succ_self _)]
  obtain ⟨hitems⟩ := h
  rename_i text
  have hread : readElements (item.read (text.length + 2)) (text.length + 2) true [] (text ++ []) =
      .ok (values, []) ↔ [] = [] ∧ ∃ further, values = [].reverse ++ further ∧
        List.Forall₂ item.ReadsAs texts further :=
    readElements_spelled (item.placedReads _) hitems (by simp) (by simp)
  rw [List.append_nil] at hread
  refine Iff.trans Iff.rfl (hread.trans ?_)
  constructor
  · rintro ⟨-, further, rfl, hforall⟩
    exact hforall
  · exact fun hforall => ⟨rfl, values, rfl, hforall⟩

end Lists

/-! Reading records -/

section Records

variable {α β : Type} {n : Nat}

theorem readField_eq_ok {value : Reader α} {next : Reader β} {input rest : Octets} {result : α}
    {values : β} : readField value next input = .ok ((result, values), rest) ↔
      ∃ behind, value input = .ok (result, behind) ∧ next behind = .ok (values, rest) := by
  refine andThen_eq_ok.trans ?_
  constructor
  · rintro ⟨result', behind, hvalue, hnext⟩
    obtain ⟨values', rest', hothers, hresult⟩ := andThen_eq_ok.mp hnext
    obtain ⟨hpair, rfl⟩ := ok_pair_inj hresult
    obtain ⟨rfl, rfl⟩ := Prod.mk.inj hpair
    exact ⟨behind, hvalue, hothers⟩
  · rintro ⟨behind, hvalue, hnext⟩
    exact ⟨result, behind, hvalue, andThen_eq_ok.mpr ⟨values, rest, hnext, rfl⟩⟩

theorem absentField_eq_ok {absent : α} {next : Reader β} {input rest : Octets} {result : α}
    {values : β} :
    next.andThen (fun values rest => .ok ((absent, values), rest)) input =
        .ok ((result, values), rest) ↔
      some absent = some result ∧ next input = .ok (values, rest) := by
  refine andThen_eq_ok.trans ?_
  constructor
  · rintro ⟨values', rest', hnext, hresult⟩
    obtain ⟨hpair, rfl⟩ := ok_pair_inj hresult
    obtain ⟨rfl, rfl⟩ := Prod.mk.inj hpair
    exact ⟨rfl, hnext⟩
  · rintro ⟨habsent, hnext⟩
    rw [Option.some.inj habsent]
    exact ⟨values, rest, hnext, rfl⟩

/-- A reader of the remaining fields of an array, and of the end of the array behind them. -/
def ListedReads (n : Nat) (reader : Bool → Reader β) (listed : List Octets → β → Prop) : Prop :=
  ∀ {first : Bool} {texts : List Octets} {text more : Octets} {values : β} {rest : Octets},
    SpelledItems first texts text → (text ++ more).length < n →
    ((∃ behind, reader first (text ++ more) = .ok (values, behind) ∧
        readListEnd behind = .ok rest) ↔
      rest = more ∧ listed texts values)

/-- One field is read from the next text, if there is one, and then the others. Where the array
ends, `stop` tells what stands for the field. -/
theorem listedReads_field {value : Reader α} {reads : Octets → α → Prop}
    (hvalue : PlacedReads n value reads) {next : Bool → Reader β}
    {listed : List Octets → β → Prop} (hnext : ListedReads n next listed) (missing : Option α)
    (stop : Bool → Reader (α × β))
    (hstop : ∀ {first input result values behind},
      stop first input = .ok ((result, values), behind) ↔
        missing = some result ∧ next first input = .ok (values, behind)) :
    ListedReads n (fun first input =>
        nextElement first input >>= orStop (stop first input) (readField value (next false)))
      fun texts result => Takes reads missing (listed · result.2) texts result.1 := by
  rintro first texts text more ⟨result, values⟩ rest h hlength
  cases texts with
  | nil =>
    have hturn : nextElement first (text ++ more) >>=
        orStop (stop first (text ++ more)) (readField value (next false)) =
          stop first (text ++ more) := by
      rw [h.nextElement_nil]
      rfl
    have hrest : (∃ behind, next first (text ++ more) = .ok (values, behind) ∧
        readListEnd behind = .ok rest) ↔ rest = more ∧ listed [] values := hnext h hlength
    simp only [hturn, hstop, Takes, and_assoc, exists_and_left, hrest]
    exact and_left_comm
  | cons octets texts =>
    obtain ⟨hoctets, further, hfurther, hnextElement, hshort⟩ := h.nextElement_cons
    obtain ⟨hwhole, hbehind⟩ := hshort more
    have hturn : nextElement first (text ++ more) >>=
        orStop (stop first (text ++ more)) (readField value (next false)) =
          readField value (next false) (octets ++ (further ++ more)) := by
      rw [hnextElement]
      rfl
    have hhere : ∀ {value' rest}, value (octets ++ (further ++ more)) = .ok (value', rest) ↔
        rest = further ++ more ∧ reads octets value' :=
      hvalue.here hoctets (hfurther.stops more) (by omega)
    have hrest : (∃ behind, next false (further ++ more) = .ok (values, behind) ∧
        readListEnd behind = .ok rest) ↔ rest = more ∧ listed texts values :=
      hnext hfurther (by omega)
    simp only [hturn, readField_eq_ok, hhere, Takes]
    constructor
    · rintro ⟨behind, ⟨_, ⟨rfl, hreads⟩, hread⟩, hend⟩
      obtain ⟨hmore, hlisted⟩ := hrest.mp ⟨behind, hread, hend⟩
      exact ⟨hmore, hreads, hlisted⟩
    · rintro ⟨hmore, hreads, hlisted⟩
      obtain ⟨behind, hread, hend⟩ := hrest.mpr ⟨hmore, hlisted⟩
      exact ⟨behind, ⟨_, ⟨rfl, hreads⟩, hread⟩, hend⟩

/-- The fields are read from the texts in their order. -/
theorem Fields.readElements_listed (n : Nat) (title : String) (size : Nat) : (fields : Fields) →
    (index : Nat) → ListedReads n (fields.readElements n title size index) fields.Listed
  | .nil, _ => by
    intro h hlength
    rw [Listed, ← h.readListEnd]
    constructor
    · rintro ⟨behind, hread, hend⟩
      rwa [← (ok_pair_inj hread).2] at hend
    · exact fun hend => ⟨_, rfl, hend⟩
  | .required _ schema rest, index =>
    listedReads_field (schema.placedReads n) (rest.readElements_listed n title size (index + 1))
      none (fun _ input => .error (.here (.mismatch (.tooShort index title size))
        (behindClose input))) (by simp)
  | .optional _ schema rest, index =>
    listedReads_field (fun hoctets hblanks hstops hlength =>
        schema.readOptional_placed hoctets hblanks hstops hlength)
      (rest.readElements_listed n title size (index + 1)) (some none)
      (fun first => (rest.readElements n title size (index + 1) first).andThen
        fun values rest => .ok ((none, values), rest)) absentField_eq_ok
  | .defaulted _ item rest, index =>
    listedReads_field ((Schema.list item).placedReads n)
      (rest.readElements_listed n title size (index + 1)) (some [])
      (fun first => (rest.readElements n title size (index + 1) first).andThen
        fun values rest => .ok (([], values), rest)) absentField_eq_ok

theorem behindElements_eq_ok {elements : Reader α} {input rest : Octets} {value : α} :
    elements.andThen (fun value => (passing readListEnd).andThen fun _ rest => .ok (value, rest))
        input = .ok (value, rest) ↔
      ∃ behind, elements input = .ok (value, behind) ∧ readListEnd behind = .ok rest := by
  refine andThen_eq_ok.trans ?_
  constructor
  · rintro ⟨value', behind, helements, hend⟩
    obtain ⟨_, rest', hclose, hvalue⟩ := andThen_eq_ok.mp hend
    obtain ⟨rfl, rfl⟩ := ok_pair_inj hvalue
    exact ⟨behind, helements, passing_eq_ok.mp hclose⟩
  · rintro ⟨behind, helements, hend⟩
    exact ⟨value, behind, helements, andThen_eq_ok.mpr ⟨(), rest, passing_eq_ok.mpr hend, rfl⟩⟩

/-- A record is read from an array by the order of its fields. -/
theorem Schema.readAll_listed {fields : Fields} {texts : List Octets} {array : Octets}
    (h : SpelledArray texts array) (title : String) {values : fields.Val} :
    (Schema.record title fields).readAll array = .ok values ↔ fields.Listed texts values := by
  refine Iff.trans (readAll_value h.isValue (Nat.lt_succ_self _)) ?_
  obtain ⟨hitems⟩ := h
  rename_i text
  have hbracket : skipBlank (Ascii.openBracket :: text) = Ascii.openBracket :: text :=
    skipBlank_self (by decide) text
  have hlisted : (∃ behind, fields.readElements (text.length + 2) title fields.size 0 true
      (text ++ []) = .ok (values, behind) ∧ readListEnd behind = .ok []) ↔
        [] = [] ∧ fields.Listed texts values :=
    fields.readElements_listed _ title _ 0 hitems (by simp)
  have hrecord : readRecord title (text.length + 2)
      (fields.readElements (text.length + 2) title fields.size 0 true)
      (fields.readEntry (text.length + 2)) fields.noSlots fields.collect
      (Ascii.openBracket :: text) =
        (fields.readElements (text.length + 2) title fields.size 0 true).andThen (fun value =>
          (passing Wire.readListEnd).andThen fun _ rest => .ok (value, rest)) text := by
    rw [readRecord_eq, leading_cons hbracket, if_pos rfl]
  rw [List.append_nil, ← behindElements_eq_ok, ← hrecord] at hlisted
  exact hlisted.trans (and_iff_right rfl)

end Records

end MacroPlugin.Wire
