import MacroPlugin.Proofs.Wire.LocalSchema

/-!
The fuel of a loop is never used up. Every turn of a loop takes at least one octet, so two fuels
above the length of the input give the same result, a fault included.
-/

namespace MacroPlugin.Wire

open Json

/-- Two readers that agree on all inputs shorter than a bound. -/
def SameBelow {β : Type} (bound : Nat) (f g : Octets → Except Fault β) : Prop :=
  ∀ input, input.length < bound → f input = g input

section Same

variable {α β : Type} {bound : Nat}

theorem sameBelow_refl (bound : Nat) (f : Octets → Except Fault β) : SameBelow bound f f :=
  fun _ _ => rfl

theorem SameBelow.mono {f g : Octets → Except Fault β} {smaller : Nat} (h : SameBelow bound f g)
    (hle : smaller ≤ bound) : SameBelow smaller f g :=
  fun input hinput => h input (Nat.lt_of_lt_of_le hinput hle)

theorem SameBelow.andThen {f g : Reader α} {next next' : α → Reader β} (h : SameBelow bound f g)
    (hshort : Peeking f) (hnext : ∀ value, SameBelow bound (next value) (next' value)) :
    SameBelow bound (f.andThen next) (g.andThen next') := by
  intro input hinput
  unfold Reader.andThen
  rw [← h input hinput]
  cases hread : f input with
  | error fault => rfl
  | ok result =>
    obtain ⟨value, rest⟩ := result
    have hrest := hshort.length_le hread
    exact hnext value rest (by omega)

theorem SameBelow.map {f g : Reader α} (h : SameBelow bound f g) (hshort : Peeking f)
    (change : α → β) :
    SameBelow bound (f.andThen fun value rest => .ok (change value, rest))
      (g.andThen fun value rest => .ok (change value, rest)) :=
  h.andThen hshort fun _ => sameBelow_refl bound _

/-- Behind a reader that takes something the bound is lower. -/
theorem SameBelow.andThen_whole {f g : Reader α} {next next' : α → Reader β}
    (h : SameBelow (bound + 1) f g) (hshort : Whole f)
    (hnext : ∀ value, SameBelow bound (next value) (next' value)) :
    SameBelow (bound + 1) (f.andThen next) (g.andThen next') := by
  intro input hinput
  unfold Reader.andThen
  rw [← h input hinput]
  cases hread : f input with
  | error fault => rfl
  | ok result =>
    obtain ⟨value, rest⟩ := result
    have hrest := hshort.length_lt hread
    exact hnext value rest (by omega)

/-- What is read behind octets that are passed over. -/
theorem SameBelow.behind {f : Octets → Except Fault Octets} {g g' : Octets → Except Fault β}
    (hf : Peeking (passing f)) (h : SameBelow bound g g') :
    SameBelow bound (fun input => f input >>= g) fun input => f input >>= g' := by
  intro input hinput
  cases hpass : f input with
  | error fault => simp only [hpass]; rfl
  | ok rest =>
    have hread : passing f input = .ok ((), rest) := passing_eq_ok.mpr hpass
    have hrest := hf.length_le hread
    simp only [hpass]
    exact h rest (by omega)

theorem skipBlank_length {input rest : Octets} {octet : UInt8}
    (hskip : skipBlank input = octet :: rest) : rest.length + 1 ≤ input.length := by
  have hlength := (List.dropWhile_suffix (l := input) isBlank).length_le
  unfold skipBlank at hskip
  rwa [hskip] at hlength

/-- Behind the octet that is read first the input is shorter. -/
theorem SameBelow.lead {fault : Fault} {body body' : UInt8 → Octets → Except Fault β}
    (h : ∀ octet rest, rest.length + 1 < bound → body octet rest = body' octet rest) :
    SameBelow bound (leading fault body) (leading fault body') := by
  intro input hinput
  refine leading_congr fun octet rest hskip => h octet rest ?_
  have hlength := skipBlank_length hskip
  omega

end Same

/-! Passing over -/

namespace Skip

open Json.Skip

theorem close_length {outer still : List Container} {input rest : Octets}
    (h : close outer input = .ok (still, rest)) : rest.length ≤ input.length :=
  (close_closing outer).peeking.length_le h

theorem values_same {fuel fuel' bound : Nat} (hfuel : bound ≤ fuel) (hfuel' : bound ≤ fuel')
    (outer : List Container) :
    SameBelow bound (Skip.values fuel outer) (Skip.values fuel' outer) := by
  induction bound generalizing fuel fuel' outer with
  | zero => exact fun _ hinput => absurd hinput (Nat.not_lt_zero _)
  | succ bound ih =>
    obtain ⟨fuel, rfl⟩ := Nat.exists_eq_add_of_le' (Nat.le_trans (Nat.le_add_left 1 bound) hfuel)
    obtain ⟨fuel', rfl⟩ := Nat.exists_eq_add_of_le' (Nat.le_trans (Nat.le_add_left 1 bound) hfuel')
    have hvalues : ∀ outer, SameBelow bound (Skip.values fuel outer) (Skip.values fuel' outer) :=
      fun outer => ih (by omega) (by omega) outer
    have hresume : ∀ outer, SameBelow bound (resume fuel outer) (resume fuel' outer) := by
      intro outer input hinput
      unfold resume
      match hclose : close outer input with
      | .error fault => rfl
      | .ok ([], rest) => rfl
      | .ok (container :: outer, rest) =>
        have hrest := close_length hclose
        exact hvalues (container :: outer) rest (by omega)
    have hinside : ∀ container, SameBelow bound (valuesInside fuel container outer)
        (valuesInside fuel' container outer) := by
      intro container
      refine .lead fun octet rest hrest => ?_
      split
      · exact hresume outer rest (by omega)
      · exact (hvalues (container :: outer)).behind (label_closing container).peeking
          (octet :: rest) hrest
    rw [values_succ, values_succ]
    refine .lead fun octet rest hrest => ?_
    cases Container.ofFirst? octet with
    | none => exact (hresume outer).behind (scalar_closing octet).peeking rest (by omega)
    | some container => exact hinside container rest (by omega)

end Skip

theorem skipValue_same {fuel fuel' bound : Nat} (hfuel : bound ≤ fuel) (hfuel' : bound ≤ fuel') :
    SameBelow bound (skipValue fuel) (skipValue fuel') :=
  Skip.values_same hfuel hfuel' []

/-! Lists -/

section Lists

variable {α : Type} {bound : Nat}

/-- Where a part of a list or an object begins: at once, or behind the comma that follows the
part before it. -/
inductive Begins : Bool → Octets → Octets → Prop
  | first {input : Octets} : Begins true input input
  | next {input start : Octets} (hcomma : skipBlank input = Ascii.comma :: start) :
      Begins false input start

theorem Begins.length_le {first : Bool} {input start : Octets} (h : Begins first input start) :
    start.length ≤ input.length := by
  cases h with
  | first => exact Nat.le_refl _
  | next hcomma =>
    have hlength := skipBlank_length hcomma
    omega

/-- An element was found where a part begins, and it does not begin with the end of a list. -/
theorem nextElement_begins {first : Bool} {input input' : Octets}
    (h : nextElement first input = .ok (some input')) :
    ∃ start octet rest, Begins first input start ∧ skipBlank start = octet :: rest ∧
      octet ≠ Ascii.closeBracket ∧ octet :: rest = input' := by
  unfold nextElement at h
  split at h
  · simp at h
  · next octet rest hskip =>
    split at h
    · simp at h
    · next hclose =>
      cases first with
      | true =>
        have hfound := Option.some.inj (Except.ok.inj h)
        exact ⟨input, octet, rest, .first, hskip, hclose, hfound⟩
      | false =>
        simp only [Bool.false_eq_true, if_false] at h
        split at h
        · next hcomma =>
          subst hcomma
          split at h
          · simp at h
          · next octet' rest' hskip' =>
            split at h
            · simp at h
            · next hclose' =>
              have hfound := Option.some.inj (Except.ok.inj h)
              exact ⟨rest, octet', rest', .next hskip, hskip', hclose', hfound⟩
        · simp at h

theorem nextElement_length {first : Bool} {input input' : Octets}
    (h : nextElement first input = .ok (some input')) : input'.length ≤ input.length := by
  obtain ⟨start, octet, rest, hbegins, hskip, -, rfl⟩ := nextElement_begins h
  have hstart := hbegins.length_le
  have hlength := skipBlank_length hskip
  rw [List.length_cons]
  omega

/-- Readers that go on with the next element in the same way. -/
theorem SameBelow.element {first : Bool} {reader reader' stop stop' more more' : Reader α}
    (hreader : ∀ input, reader input = nextElement first input >>= orStop (stop input) more)
    (hreader' : ∀ input, reader' input = nextElement first input >>= orStop (stop' input) more')
    (hstop : SameBelow bound stop stop') (hmore : SameBelow bound more more') :
    SameBelow bound reader reader' := by
  intro input hinput
  rw [hreader, hreader']
  cases hnext : nextElement first input with
  | error fault => rfl
  | ok next =>
    cases next with
    | none => exact hstop input hinput
    | some input' =>
      have hlength := nextElement_length hnext
      exact hmore input' (by omega)

theorem readElements_same {item item' : Reader α} (hwhole : Whole item)
    (hitem : SameBelow bound item item') {fuel fuel' : Nat} (hfuel : bound ≤ fuel)
    (hfuel' : bound ≤ fuel') (first : Bool) (taken : List α) :
    SameBelow bound (readElements item fuel first taken)
      (readElements item' fuel' first taken) := by
  induction bound generalizing fuel fuel' first taken with
  | zero => exact fun _ hinput => absurd hinput (Nat.not_lt_zero _)
  | succ bound ih =>
    obtain ⟨fuel, rfl⟩ := Nat.exists_eq_add_of_le' (Nat.le_trans (Nat.le_add_left 1 bound) hfuel)
    obtain ⟨fuel', rfl⟩ := Nat.exists_eq_add_of_le' (Nat.le_trans (Nat.le_add_left 1 bound) hfuel')
    have hlater : ∀ value, SameBelow bound (readElements item fuel false (value :: taken))
        (readElements item' fuel' false (value :: taken)) :=
      fun value => ih (hitem.mono (Nat.le_succ bound)) (by omega) (by omega) false _
    exact .element (fun _ => rfl) (fun _ => rfl)
      (sameBelow_refl _ fun input => .ok (taken.reverse, behindClose input))
      (hitem.andThen_whole hwhole hlater)

theorem readList_same {item item' : Reader α} (hwhole : Whole item)
    (hitem : SameBelow bound item item') {fuel fuel' : Nat} (hfuel : bound ≤ fuel)
    (hfuel' : bound ≤ fuel') : SameBelow bound (readList item fuel) (readList item' fuel') := by
  rw [readList_eq, readList_eq]
  refine .lead fun octet rest hrest => ?_
  rw [readElements_same hwhole hitem hfuel hfuel' true [] rest (by omega)]

theorem readOptional_same {value value' : Reader α} (h : SameBelow bound value value') :
    SameBelow bound (readOptional value) (readOptional value') := by
  rw [readOptional_eq, readOptional_eq]
  refine .lead fun octet rest hrest => ?_
  have hvalue : value (octet :: rest) = value' (octet :: rest) := h (octet :: rest) hrest
  unfold Reader.andThen
  rw [hvalue]

end Lists

/-! Objects -/

section Objects

variable {α σ : Type} {bound : Nat}

/-- A key was found behind a quote where a part begins. -/
theorem nextKey_begins {first : Bool} {input input' : Octets}
    (h : nextKey first input = .ok (some input')) :
    ∃ start, Begins first input start ∧ skipBlank start = Ascii.quote :: input' := by
  unfold nextKey at h
  split at h
  · simp at h
  · next octet rest hskip =>
    split at h
    · simp at h
    · cases first with
      | true =>
        simp only [if_true] at h
        split at h
        · next hquote =>
          rw [hquote, Option.some.inj (Except.ok.inj h)] at hskip
          exact ⟨input, .first, hskip⟩
        · simp at h
      | false =>
        simp only [Bool.false_eq_true, if_false] at h
        split at h
        · next hcomma =>
          subst hcomma
          split at h
          · simp at h
          · next octet' rest' hskip' =>
            split at h
            · next hquote =>
              rw [hquote, Option.some.inj (Except.ok.inj h)] at hskip'
              exact ⟨rest, .next hskip, hskip'⟩
            · split at h <;> simp at h
        · simp at h

theorem nextKey_length {first : Bool} {input input' : Octets}
    (h : nextKey first input = .ok (some input')) : input'.length + 1 ≤ input.length := by
  obtain ⟨start, hbegins, hskip⟩ := nextKey_begins h
  have hstart := hbegins.length_le
  have hlength := skipBlank_length hskip
  omega

theorem readEntries_same {entry entry' : String → σ → Reader σ}
    (hwhole : ∀ key state, Whole (entry key state))
    (hentry : ∀ key state, SameBelow bound (entry key state) (entry' key state))
    {fuel fuel' : Nat} (hfuel : bound ≤ fuel) (hfuel' : bound ≤ fuel') (first : Bool)
    (state : σ) :
    SameBelow bound (readEntries entry fuel first state)
      (readEntries entry' fuel' first state) := by
  induction bound generalizing fuel fuel' first state with
  | zero => exact fun _ hinput => absurd hinput (Nat.not_lt_zero _)
  | succ bound ih =>
    obtain ⟨fuel, rfl⟩ := Nat.exists_eq_add_of_le' (Nat.le_trans (Nat.le_add_left 1 bound) hfuel)
    obtain ⟨fuel', rfl⟩ := Nat.exists_eq_add_of_le' (Nat.le_trans (Nat.le_add_left 1 bound) hfuel')
    have hkeyed : SameBelow bound (readKeyed entry fuel state) (readKeyed entry' fuel' state) := by
      refine (sameBelow_refl bound readText).andThen readText_whole.peeking fun key => ?_
      refine ((hentry key state).mono (Nat.le_succ bound)).andThen (hwhole key state).peeking
        fun state => ?_
      exact ih (fun key state => (hentry key state).mono (Nat.le_succ bound)) (by omega) (by omega)
        false state
    intro input hinput
    rw [readEntries, readEntries]
    cases hnext : nextKey first input with
    | error fault => rfl
    | ok next =>
      cases next with
      | none => rfl
      | some input' =>
        have hlength := nextKey_length hnext
        exact hkeyed input' (by omega)

theorem readRecord_same (title : String) {elements elements' : Reader α}
    {entry entry' : String → σ → Reader σ} (helements : SameBelow bound elements elements')
    (hwhole : ∀ key state, Whole (entry key state))
    (hentry : ∀ key state, SameBelow bound (entry key state) (entry' key state))
    {fuel fuel' : Nat} (hfuel : bound ≤ fuel) (hfuel' : bound ≤ fuel') (start : σ)
    (collect : σ → Except String α) :
    SameBelow bound (readRecord title fuel elements entry start collect)
      (readRecord title fuel' elements' entry' start collect) := by
  rw [readRecord_eq, readRecord_eq]
  refine .lead fun octet rest hrest => ?_
  have hentries := readEntries_same hwhole hentry hfuel hfuel' true start rest (by omega)
  unfold Reader.andThen
  rw [helements rest (by omega), hentries]

theorem fillSlot_same (key : String) (slot : Option α) {value value' : Reader α}
    (h : SameBelow bound value value') :
    SameBelow bound (fillSlot key slot value) (fillSlot key slot value') := by
  cases slot with
  | some _ => exact sameBelow_refl _ _
  | none =>
    intro input hinput
    unfold fillSlot
    dsimp only
    cases hcolon : readColon input with
    | error fault => rfl
    | ok rest =>
      have hread : passing readColon input = .ok ((), rest) := passing_eq_ok.mpr hcolon
      have hrest := readColon_whole.length_lt hread
      simp only [bind, Except.bind]
      rw [h rest (by omega)]

theorem slotEntry_same {key : String} {value value' : Reader α}
    {next next' : String → σ → Reader σ} (h : SameBelow bound value value')
    (hnext : ∀ given state, SameBelow bound (next given state) (next' given state))
    (given : String) (slots : Option α × σ) :
    SameBelow bound (slotEntry key value next given slots)
      (slotEntry key value' next' given slots) := by
  intro input hinput
  obtain ⟨slot, state⟩ := slots
  simp only [slotEntry]
  rw [fillSlot_same key slot h input hinput, hnext given state input hinput]

end Objects

/-! Names -/

section Names

variable {α : Type} {names : List String} {bound : Nat}

theorem nameObject_same {content content' : Fin names.length → Reader α}
    (hwhole : ∀ index, Whole (content index))
    (h : ∀ index, SameBelow bound (content index) (content' index)) :
    SameBelow bound (nameObject content) (nameObject content') := by
  refine (sameBelow_refl bound _).andThen (readName_whole names).peeking fun index => ?_
  refine ((h index).behind readColon_whole.peeking).andThen ?_ fun value => sameBelow_refl bound _
  exact (readColon_whole.passed (hwhole index).toClosing).peeking

theorem readNamed_same (alone : Fin names.length → Except Fault α)
    {content content' : Fin names.length → Reader α} (hwhole : ∀ index, Whole (content index))
    (h : ∀ index, SameBelow bound (content index) (content' index)) :
    SameBelow bound (readNamed names alone content) (readNamed names alone content') := by
  have hobject : SameBelow bound (nameBehindBrace content) (nameBehindBrace content') := by
    refine .lead fun octet rest hrest => ?_
    rw [nameObject_same hwhole h rest (by omega)]
  rw [readNamed_eq, readNamed_eq]
  refine .lead fun octet rest hrest => ?_
  rw [hobject rest (by omega)]

end Names

/-! Schemas -/

theorem readField_same {α β : Type} {bound : Nat} {value value' : Reader α} {next next' : Reader β}
    (hwhole : Whole value) (hpeek : Peeking next) (h : SameBelow bound value value')
    (hnext : SameBelow bound next next') :
    SameBelow bound (readField value next) (readField value' next') :=
  h.andThen hwhole.peeking fun _ => hnext.andThen hpeek fun _ => sameBelow_refl bound _

theorem unknownEntry_same {bound fuel fuel' : Nat} (hfuel : bound ≤ fuel)
    (hfuel' : bound ≤ fuel') :
    SameBelow bound
      (fun input => (do return ((), ← skipValue fuel (← readColon input)) :
        Except Fault (Unit × Octets)))
      (fun input => (do return ((), ← skipValue fuel' (← readColon input)))) := by
  intro input hinput
  have hskip := (skipValue_same hfuel hfuel').behind readColon_whole.peeking input hinput
  rw [unknownEntry_eq, unknownEntry_eq]
  exact passing_congr hskip

mutual

/-- A reader's fuel makes no difference as long as it exceeds the length of the input. -/
theorem Schema.read_same {bound fuel fuel' : Nat} (hfuel : bound ≤ fuel) (hfuel' : bound ≤ fuel') :
    (schema : Schema) → SameBelow bound (schema.read fuel) (schema.read fuel')
  | .text | .word _ | .boolean | .choice _ => sameBelow_refl bound _
  | .list item => readList_same (item.read_whole fuel) (item.read_same hfuel hfuel') hfuel hfuel'
  | .record title fields =>
    readRecord_same title (fields.readElements_same hfuel hfuel' title fields.size 0 true)
      (fields.readEntry_whole fuel) (fields.readEntry_same hfuel hfuel') hfuel hfuel'
      fields.noSlots fields.collect
  | .union cases =>
    readNamed_same _ (fun index => cases.readContent_whole fuel index)
      fun index => cases.readContent_same hfuel hfuel' index

theorem Fields.readElements_same {bound fuel fuel' : Nat} (hfuel : bound ≤ fuel)
    (hfuel' : bound ≤ fuel') : (fields : Fields) → (title : String) → (size index : Nat) →
    (first : Bool) → SameBelow bound (fields.readElements fuel title size index first)
      (fields.readElements fuel' title size index first)
  | .nil, _, _, _, _ => sameBelow_refl bound _
  | .required _ schema rest, title, size, index, _ =>
    .element (fun _ => rfl) (fun _ => rfl) (sameBelow_refl bound fun input =>
        .error (.here (.mismatch (.tooShort index title size)) (behindClose input)))
      (readField_same (schema.read_whole fuel) (rest.readElements_peeking fuel title size _ _)
        (schema.read_same hfuel hfuel') (rest.readElements_same hfuel hfuel' title size _ _))
  | .optional _ schema rest, title, size, _, first =>
    .element (fun _ => rfl) (fun _ => rfl)
      ((rest.readElements_same hfuel hfuel' title size _ first).map
        (rest.readElements_peeking fuel title size _ _) fun values => (none, values))
      (readField_same (readOptional_whole (schema.read_whole fuel))
        (rest.readElements_peeking fuel title size _ _)
        (readOptional_same (schema.read_same hfuel hfuel'))
        (rest.readElements_same hfuel hfuel' title size _ _))
  | .defaulted _ item rest, title, size, _, first =>
    .element (fun _ => rfl) (fun _ => rfl)
      ((rest.readElements_same hfuel hfuel' title size _ first).map
        (rest.readElements_peeking fuel title size _ _) fun values => ([], values))
      (readField_same (readList_whole (item.read_whole fuel) fuel)
        (rest.readElements_peeking fuel title size _ _)
        (readList_same (item.read_whole fuel) (item.read_same hfuel hfuel') hfuel hfuel')
        (rest.readElements_same hfuel hfuel' title size _ _))

theorem Fields.readEntry_same {bound fuel fuel' : Nat} (hfuel : bound ≤ fuel)
    (hfuel' : bound ≤ fuel') : (fields : Fields) → (given : String) → (slots : fields.Slots) →
    SameBelow bound (fields.readEntry fuel given slots) (fields.readEntry fuel' given slots)
  | .nil, _, _ => unknownEntry_same hfuel hfuel'
  | .required _ schema rest, given, slots =>
    slotEntry_same (schema.read_same hfuel hfuel') (rest.readEntry_same hfuel hfuel') given slots
  | .optional _ schema rest, given, slots =>
    slotEntry_same (readOptional_same (schema.read_same hfuel hfuel'))
      (rest.readEntry_same hfuel hfuel') given slots
  | .defaulted _ item rest, given, slots =>
    slotEntry_same
      (readList_same (item.read_whole fuel) (item.read_same hfuel hfuel') hfuel hfuel')
      (rest.readEntry_same hfuel hfuel') given slots

theorem Cases.readContent_same {bound fuel fuel' : Nat} (hfuel : bound ≤ fuel)
    (hfuel' : bound ≤ fuel') : (cases : Cases) → (index : Nat) →
    SameBelow bound (cases.readContent fuel index) (cases.readContent fuel' index)
  | .nil, _ => sameBelow_refl bound _
  | .cons _ title fields _, 0 =>
    (readRecord_same title (fields.readElements_same hfuel hfuel' title fields.size 0 true)
      (fields.readEntry_whole fuel) (fields.readEntry_same hfuel hfuel') hfuel hfuel'
      fields.noSlots fields.collect).map (readRecord_whole title fuel
        (fields.readElements_peeking fuel title fields.size 0 true)
        (fields.readEntry_whole fuel) fields.noSlots fields.collect).peeking Sum.inl
  | .cons _ _ _ rest, index + 1 =>
    (rest.readContent_same hfuel hfuel' index).map (rest.readContent_whole fuel index).peeking
      Sum.inr

end

end MacroPlugin.Wire
