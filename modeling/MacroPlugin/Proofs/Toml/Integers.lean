import MacroPlugin.Toml.Document

/-!
Every integer of a configuration file fits a word of 64 bits. An integer is refused by its reader
if it does not; everything that is done with a value afterwards puts it into a table or an array
and leaves its integers as they are.
-/

namespace MacroPlugin.Toml

/-- A value all of whose integers fit a word of 64 bits with a sign. -/
inductive Value.InRange : Value → Prop
  | scalar (extent : Extent) {scalar : Scalar}
      (h : ∀ n, scalar = .integer n → -9223372036854775808 ≤ n ∧ n ≤ 9223372036854775807) :
      InRange (.scalar extent scalar)
  | array (extent : Extent) {items : List Value} (h : ∀ item ∈ items, InRange item) :
      InRange (.array extent items)
  | table (origin : Origin) (extent : Option Extent) {entries : List (Key × Value)}
      (h : ∀ entry ∈ entries, InRange entry.2) : InRange (.table origin extent entries)
  | tables {items : List Value} (h : ∀ item ∈ items, InRange item) : InRange (.tables items)

/-- Entries of which every value is in range. -/
def AllInRange (entries : Entries) : Prop :=
  ∀ entry ∈ entries, entry.2.InRange

theorem allInRange_nil : AllInRange [] := by
  intro entry hmem
  simp at hmem

theorem AllInRange.append {entries : Entries} (h : AllInRange entries) {key : Key} {value : Value}
    (hvalue : value.InRange) : AllInRange (entries ++ [(key, value)]) := by
  intro entry hmem
  rcases List.mem_append.mp hmem with hmem | hmem
  · exact h entry hmem
  · rw [List.mem_singleton.mp hmem]
    exact hvalue

/-! Scalars -/

theorem bounded?_inRange {value n : Int} (h : Number.bounded? value = some n) :
    -9223372036854775808 ≤ n ∧ n ≤ 9223372036854775807 := by
  unfold Number.bounded? at h
  split at h
  · next hvalue =>
    rw [Bool.and_eq_true, decide_eq_true_eq, decide_eq_true_eq] at hvalue
    rwa [← Option.some.inj h]
  · simp at h

theorem integer?_inRange {word : List Char} {n : Int} (h : Number.integer? word = some n) :
    -9223372036854775808 ≤ n ∧ n ≤ 9223372036854775807 := by
  unfold Number.integer? at h
  split at h
  all_goals
    simp only [bind, Option.bind_eq_some_iff] at h
    obtain ⟨_, -, h⟩ := h
    exact bounded?_inRange h

theorem ofWord?_inRange {word : List Char} {scalar : Scalar} (extent : Extent)
    (h : Scalar.ofWord? word = some scalar) : (Value.scalar extent scalar).InRange := by
  refine .scalar extent ?_
  rintro n rfl
  unfold Scalar.ofWord? at h
  split at h
  · simp at h
  split at h
  · simp at h
  split at h
  · simp at h
  split at h
  · next value hvalue =>
    simp only [Option.some.injEq, Scalar.integer.injEq] at h
    rw [← h]
    exact integer?_inRange hvalue
  · simp at h

theorem readWord_inRange {input rest : List Char} {scalar : Scalar} (extent : Extent)
    (h : Scalar.readWord input = some (scalar, rest)) : (Value.scalar extent scalar).InRange := by
  have hplain : ∀ {word left : List Char},
      (Scalar.ofWord? word).map (·, left) = some (scalar, rest) →
      (Value.scalar extent scalar).InRange := by
    intro word left hword
    obtain ⟨other, hother, heq⟩ := Option.map_eq_some_iff.mp hword
    rw [← (Prod.mk.inj heq).1]
    exact ofWord?_inRange extent hother
  unfold Scalar.readWord at h
  dsimp only at h
  split at h
  · split at h
    · simp only [Option.some.injEq, Prod.mk.injEq] at h
      refine .scalar extent ?_
      rw [← h.1]
      simp
    · exact hplain h
  · exact hplain h

/-! Tables -/

section Tables

variable {change : Value → Option Value}

theorem replaceEntry_inRange {name : String}
    (hchange : ∀ {value value'}, value.InRange → change value = some value' → value'.InRange)
    {entries entries' : Entries} (h : AllInRange entries)
    (hreplace : replaceEntry name change entries = some entries') : AllInRange entries' := by
  induction entries generalizing entries' with
  | nil => simp [replaceEntry] at hreplace
  | cons entry entries ih =>
    obtain ⟨key, value⟩ := entry
    have hvalue : value.InRange := h (key, value) List.mem_cons_self
    have hentries : AllInRange entries := fun entry hmem => h entry (List.mem_cons_of_mem _ hmem)
    unfold replaceEntry at hreplace
    split at hreplace
    · simp only [bind, Option.bind_eq_some_iff, pure, Option.some.injEq] at hreplace
      obtain ⟨value', hvalue', rfl⟩ := hreplace
      intro entry hmem
      rcases List.mem_cons.mp hmem with rfl | hmem
      · exact hchange hvalue hvalue'
      · exact hentries entry hmem
    · simp only [bind, Option.bind_eq_some_iff, pure, Option.some.injEq] at hreplace
      obtain ⟨rest, hrest, rfl⟩ := hreplace
      intro entry hmem
      rcases List.mem_cons.mp hmem with rfl | hmem
      · exact hvalue
      · exact ih hentries hrest entry hmem

theorem changeLast_inRange
    (hchange : ∀ {value value'}, value.InRange → change value = some value' → value'.InRange)
    {items items' : List Value} (h : ∀ item ∈ items, item.InRange)
    (hlast : changeLast change items = some items') : ∀ item ∈ items', item.InRange := by
  fun_induction changeLast change items generalizing items' with
  | case1 => simp at hlast
  | case2 a =>
    simp only [bind, Option.bind_eq_some_iff, pure, Option.some.injEq] at hlast
    obtain ⟨a', ha', rfl⟩ := hlast
    intro item hmem
    rw [List.mem_singleton.mp hmem]
    exact hchange (h a List.mem_cons_self) ha'
  | case3 a rest _ ih =>
    simp only [bind, Option.bind_eq_some_iff, pure, Option.some.injEq] at hlast
    obtain ⟨rest', hrest', rfl⟩ := hlast
    intro item hmem
    rcases List.mem_cons.mp hmem with rfl | hmem
    · exact h item List.mem_cons_self
    · exact ih (fun item hmem => h item (List.mem_cons_of_mem a hmem)) hrest' item hmem

theorem changeEntries_inRange {change : Entries → Option Entries}
    (hchange : ∀ {entries entries'}, AllInRange entries → change entries = some entries' →
      AllInRange entries')
    {value value' : Value} (h : value.InRange) (hvalue : changeEntries change value = some value') :
    value'.InRange := by
  unfold changeEntries at hvalue
  split at hvalue
  · next origin extent entries =>
    simp only [bind, Option.bind_eq_some_iff, pure, Option.some.injEq] at hvalue
    obtain ⟨entries', hentries', rfl⟩ := hvalue
    cases h with
    | table _ _ h => exact .table origin extent (hchange h hentries')
  · simp at hvalue

/-- Only the last table of an array is changed. -/
theorem changeTables_inRange {change : Entries → Option Entries}
    (hchange : ∀ {entries entries'}, AllInRange entries → change entries = some entries' →
      AllInRange entries')
    {items : List Value} {value : Value} (h : (Value.tables items).InRange)
    (hvalue : (do return .tables (← changeLast (changeEntries change) items)) = some value) :
    value.InRange := by
  simp only [bind, Option.bind_eq_some_iff, pure, Option.some.injEq] at hvalue
  obtain ⟨items', hitems', rfl⟩ := hvalue
  cases h with
  | tables h => exact .tables (changeLast_inRange (changeEntries_inRange hchange) h hitems')

theorem assign_inRange : (path : List Key) → {value : Value} → value.InRange →
    {entries entries' : Entries} → AllInRange entries →
    assign path value entries = some entries' → AllInRange entries'
  | [], _, _, _, _, _, h => by simp [assign] at h
  | [key], value, hvalue, entries, entries', hentries, h => by
    unfold assign at h
    split at h
    · simp at h
    · rw [← Option.some.inj h]
      exact hentries.append hvalue
  | key :: next :: path, value, hvalue, entries, entries', hentries, h => by
    have hdeeper : ∀ {inner inner' : Entries}, AllInRange inner →
        assign (next :: path) value inner = some inner' → AllInRange inner' :=
      fun hinner => assign_inRange (next :: path) hvalue hinner
    unfold assign at h
    dsimp only at h
    split at h
    · refine replaceEntry_inRange ?_ hentries h
      intro old new hold hnew
      split at hnew
      · exact changeEntries_inRange hdeeper hold hnew
      · split at hnew
        · simp at hnew
        · exact changeEntries_inRange hdeeper hold hnew
      · split at hnew
        · simp at hnew
        · exact changeTables_inRange hdeeper hold hnew
      · simp at hnew
    · simp only [bind, Option.bind_eq_some_iff, pure, Option.some.injEq] at h
      obtain ⟨inner, hinner, rfl⟩ := h
      exact hentries.append (.table .dotted none (hdeeper allInRange_nil hinner))

theorem openTable_inRange {fill : Entries → Option Entries}
    (hfill : ∀ {inner inner'}, AllInRange inner → fill inner = some inner' → AllInRange inner')
    (repeated : Bool) (extent : Extent) : (path : List Key) →
    {entries entries' : Entries} → AllInRange entries →
    openTable path repeated extent fill entries = some entries' → AllInRange entries'
  | [], _, _, _, h => by simp [openTable] at h
  | [key], entries, entries', hentries, h => by
    have hopened : ∀ {inner inner' : Entries}, AllInRange inner → fill inner = some inner' →
        (Value.table .headed (some extent) inner').InRange :=
      fun hinner hinner' => .table .headed (some extent) (hfill hinner hinner')
    unfold openTable at h
    dsimp only at h
    split at h
    · simp only [bind, Option.bind_eq_some_iff, pure, Option.some.injEq] at h
      obtain ⟨_, ⟨inner, hinner, rfl⟩, rfl⟩ := h
      exact hentries.append (hopened allInRange_nil hinner)
    · simp only [bind, Option.bind_eq_some_iff, pure, Option.some.injEq] at h
      obtain ⟨_, ⟨inner, hinner, rfl⟩, rfl⟩ := h
      refine hentries.append (.tables fun item hmem => ?_)
      rw [List.mem_singleton.mp hmem]
      exact hopened allInRange_nil hinner
    · next other _ inner hfind =>
      simp only [bind, Option.bind_eq_some_iff, pure, Option.some.injEq] at h
      obtain ⟨_, ⟨inner', hinner', rfl⟩, rfl⟩ := h
      have hother := hentries _ (List.mem_of_find?_eq_some hfind)
      cases hother with
      | table _ _ hinner =>
        have hkept : AllInRange (entries.filter (·.1.name ≠ key.name)) :=
          fun entry hmem => hentries entry (List.mem_filter.mp hmem).1
        exact hkept.append (hopened hinner hinner')
    · refine replaceEntry_inRange ?_ hentries h
      intro old new hold hnew
      split at hnew
      · simp only [bind, Option.bind_eq_some_iff, pure, Option.some.injEq] at hnew
        obtain ⟨_, ⟨inner, hinner, rfl⟩, rfl⟩ := hnew
        cases hold with
        | tables hold =>
          refine .tables fun item hmem => ?_
          rcases List.mem_append.mp hmem with hmem | hmem
          · exact hold item hmem
          · rw [List.mem_singleton.mp hmem]
            exact hopened allInRange_nil hinner
      · simp at hnew
    · simp at h
  | key :: next :: path, entries, entries', hentries, h => by
    have hdeeper : ∀ {inner inner' : Entries}, AllInRange inner →
        openTable (next :: path) repeated extent fill inner = some inner' → AllInRange inner' :=
      fun hinner => openTable_inRange hfill repeated extent (next :: path) hinner
    unfold openTable at h
    dsimp only at h
    split at h
    · refine replaceEntry_inRange ?_ hentries h
      intro old new hold hnew
      split at hnew
      · simp at hnew
      · exact changeTables_inRange hdeeper hold hnew
      · exact changeEntries_inRange hdeeper hold hnew
    · simp only [bind, Option.bind_eq_some_iff, pure, Option.some.injEq] at h
      obtain ⟨inner, hinner, rfl⟩ := h
      exact hentries.append (.table .implied none (hdeeper allInRange_nil hinner))

end Tables

/-! Values -/

section Values

variable {item : List Char → Option (Value × List Char)}
  (hitem : ∀ {input value rest}, item input = some (value, rest) → value.InRange)

include hitem in
theorem readItems_inRange {fuel : Nat} {taken items : List Value} {input rest : List Char}
    (htaken : ∀ item ∈ taken, item.InRange)
    (h : readItems item fuel taken input = some (items, rest)) : ∀ item ∈ items, item.InRange := by
  induction fuel generalizing taken input with
  | zero => simp [readItems] at h
  | succ fuel ih =>
    unfold readItems at h
    split at h
    · simp only [Option.some.injEq, Prod.mk.injEq] at h
      rw [← h.1]
      simpa using htaken
    · simp only [bind, Option.bind_eq_some_iff] at h
      obtain ⟨⟨value, left⟩, hvalue, h⟩ := h
      have hcons : ∀ item ∈ value :: taken, item.InRange := by
        intro other hmem
        rcases List.mem_cons.mp hmem with rfl | hmem
        · exact hitem hvalue
        · exact htaken other hmem
      dsimp only at h
      split at h
      · exact ih hcons h
      · simp only [Option.some.injEq, Prod.mk.injEq] at h
        rw [← h.1]
        intro other hmem
        exact hcons other (List.mem_reverse.mp hmem)
      · simp at h

include hitem in
theorem readAssignment_inRange {input rest : List Char} {path : List Key} {value : Value}
    (h : readAssignment item input = some ((path, value), rest)) : value.InRange := by
  unfold readAssignment at h
  simp only [bind, Option.bind_eq_some_iff] at h
  obtain ⟨⟨keys, left⟩, -, h⟩ := h
  split at h
  · simp only [Option.bind_eq_some_iff, pure, Option.some.injEq, Prod.mk.injEq] at h
    obtain ⟨⟨value', left'⟩, hvalue, ⟨-, rfl⟩, -⟩ := h
    exact hitem hvalue
  · simp at h

include hitem in
theorem readInline_inRange {fuel : Nat} {entries entries' : Entries} {input rest : List Char}
    (hentries : AllInRange entries)
    (h : readInline item fuel entries input = some (entries', rest)) : AllInRange entries' := by
  induction fuel generalizing entries input with
  | zero => simp [readInline] at h
  | succ fuel ih =>
    unfold readInline at h
    simp only [bind, Option.bind_eq_some_iff] at h
    obtain ⟨⟨⟨path, value⟩, left⟩, hassignment, added, hadded, h⟩ := h
    have hvalue := readAssignment_inRange hitem hassignment
    have hnext := assign_inRange path hvalue hentries hadded
    split at h
    · exact ih hnext h
    · simp only [Option.some.injEq, Prod.mk.injEq] at h
      rwa [← h.1]
    · simp at h

end Values

theorem readValue_inRange {depth : Nat} {input rest : List Char} {value : Value}
    (h : readValue depth input = some (value, rest)) : value.InRange := by
  induction depth using Nat.strongRecOn generalizing input rest value with
  | _ depth ih =>
    unfold readValue at h
    dsimp only at h
    split at h
    · simp at h
    · simp at h
    · simp only [bind, Option.bind_eq_some_iff, pure, Option.some.injEq, Prod.mk.injEq] at h
      obtain ⟨⟨items, left⟩, hitems, rfl, -⟩ := h
      exact .array _ (readItems_inRange (ih _ (Nat.lt_succ_self _)) (by simp) hitems)
    · split at h
      · simp only [Option.some.injEq, Prod.mk.injEq] at h
        rw [← h.1]
        exact .table .inline _ allInRange_nil
      · simp only [bind, Option.bind_eq_some_iff, pure, Option.some.injEq, Prod.mk.injEq] at h
        obtain ⟨⟨entries, left⟩, hentries, rfl, -⟩ := h
        exact .table .inline _
          (readInline_inRange (ih _ (Nat.lt_succ_self _)) allInRange_nil hentries)
    · simp only [bind, Option.bind_eq_some_iff, pure, Option.some.injEq, Prod.mk.injEq] at h
      obtain ⟨⟨text, left⟩, -, rfl, -⟩ := h
      exact .scalar _ (by simp)
    · simp only [bind, Option.bind_eq_some_iff, pure, Option.some.injEq, Prod.mk.injEq] at h
      obtain ⟨⟨text, left⟩, -, rfl, -⟩ := h
      exact .scalar _ (by simp)
    · simp only [bind, Option.bind_eq_some_iff, pure, Option.some.injEq, Prod.mk.injEq] at h
      obtain ⟨⟨scalar, left⟩, hword, rfl, -⟩ := h
      exact readWord_inRange _ hword

/-! Lines and sections -/

/-- A line that assigns nothing out of range. -/
def Line.InRange : Line → Prop
  | .assignment _ value => value.InRange
  | _ => True

theorem readStatement_inRange {input rest : List Char} {line : Line}
    (h : readStatement input = some (line, rest)) : line.InRange := by
  unfold readStatement at h
  split at h
  any_goals
    simp only [Option.some.injEq, Prod.mk.injEq] at h
    rw [← h.1]
    trivial
  · obtain ⟨header, -, heq⟩ := Option.map_eq_some_iff.mp h
    rw [← (Prod.mk.inj heq).1]
    trivial
  · obtain ⟨⟨⟨path, value⟩, left⟩, hassignment, heq⟩ := Option.map_eq_some_iff.mp h
    rw [← (Prod.mk.inj heq).1]
    exact readAssignment_inRange readValue_inRange hassignment

theorem readLines_inRange {fuel : Nat} {input : List Char} {lines : List Line}
    (h : readLines fuel input = some lines) : ∀ line ∈ lines, line.InRange := by
  induction fuel generalizing input lines with
  | zero =>
    cases input with
    | nil => simp_all [readLines]
    | cons => simp [readLines] at h
  | succ fuel ih =>
    cases input with
    | nil => simp_all [readLines]
    | cons c input =>
      simp only [readLines, bind, Option.bind_eq_some_iff, pure, Option.some.injEq] at h
      obtain ⟨⟨line, rest⟩, hline, later, hlater, rfl⟩ := h
      simp only [readLine, bind, Option.bind_eq_some_iff, pure, Option.some.injEq,
        Prod.mk.injEq] at hline
      obtain ⟨⟨line', left⟩, hstatement, _, -, rfl, -⟩ := hline
      intro other hmem
      rcases List.mem_cons.mp hmem with rfl | hmem
      · exact readStatement_inRange hstatement
      · exact ih hlater other hmem

/-- A section that assigns nothing out of range. -/
def Section.InRange (s : Section) : Prop :=
  ∀ assignment ∈ s.assignments, assignment.2.InRange

theorem sections_inRange {lines : List Line} (h : ∀ line ∈ lines, line.InRange) :
    ∀ s ∈ sections lines, s.InRange := by
  induction lines with
  | nil =>
    intro s hmem
    rw [List.mem_singleton.mp hmem]
    intro assignment hmem
    simp at hmem
  | cons line lines ih =>
    have hlater := ih fun line hmem => h line (List.mem_cons_of_mem _ hmem)
    have hline := h line List.mem_cons_self
    unfold sections at hlater ⊢
    rw [List.foldr_cons]
    split
    · next path value first rest hsections =>
      rw [hsections] at hlater
      intro s hmem
      rcases List.mem_cons.mp hmem with rfl | hmem
      · intro assignment hmem
        rcases List.mem_cons.mp hmem with rfl | hmem
        · exact hline
        · exact hlater first List.mem_cons_self assignment hmem
      · exact hlater s (List.mem_cons_of_mem first hmem)
    · next header first rest hsections =>
      rw [hsections] at hlater
      intro s hmem
      rcases List.mem_cons.mp hmem with rfl | hmem
      · intro assignment hmem
        simp at hmem
      · rcases List.mem_cons.mp hmem with rfl | hmem
        · exact hlater first List.mem_cons_self
        · exact hlater s (List.mem_cons_of_mem first hmem)
    · exact hlater

/-- What a fold in `Option` keeps, if every step keeps it. -/
theorem foldlM_keeps {α β : Type} {P : β → Prop} {Q : α → Prop} {step : β → α → Option β}
    (hstep : ∀ {b b' a}, P b → Q a → step b a = some b' → P b') {items : List α} {b b' : β}
    (hb : P b) (hitems : ∀ item ∈ items, Q item) (h : items.foldlM step b = some b') : P b' := by
  induction items generalizing b with
  | nil =>
    rw [List.foldlM_nil] at h
    rwa [← Option.some.inj h]
  | cons item items ih =>
    simp only [List.foldlM_cons, bind, Option.bind_eq_some_iff] at h
    obtain ⟨next, hnext, h⟩ := h
    have hkept := hstep hb (hitems item List.mem_cons_self) hnext
    exact ih hkept (fun item hmem => hitems item (List.mem_cons_of_mem _ hmem)) h

theorem Section.fill_inRange {s : Section} (h : s.InRange) {entries entries' : Entries}
    (hentries : AllInRange entries) (hfill : s.fill entries = some entries') :
    AllInRange entries' := by
  refine foldlM_keeps ?_ hentries h hfill
  rintro inner inner' ⟨path, value⟩ hinner hvalue hassign
  exact assign_inRange path hvalue hinner hassign

theorem Section.place_inRange {s : Section} (h : s.InRange) {root root' : Entries}
    (hroot : AllInRange root) (hplace : s.place root = some root') : AllInRange root' := by
  unfold place at hplace
  split at hplace
  · exact fill_inRange h hroot hplace
  · next header _ =>
    exact openTable_inRange (fun hinner => fill_inRange h hinner) _ _ header.path hroot hplace

/-- All integers of a configuration file fit a word of 64 bits with a sign. -/
theorem parse?_inRange {text : List Char} {entries : Entries} (h : parse? text = some entries) :
    AllInRange entries := by
  simp only [parse?, bind, Option.bind_eq_some_iff] at h
  obtain ⟨lines, hlines, h⟩ := h
  refine foldlM_keeps (fun hroot hsection hplace => Section.place_inRange hsection hroot hplace)
    allInRange_nil ?_ h
  exact sections_inRange (readLines_inRange hlines)

end MacroPlugin.Toml
