import MacroPlugin.Proofs.Wire.LocalSkip
import MacroPlugin.Proofs.Wire.RoundTrip

/-!
The reader of every schema takes something, ends with an octet that is no blank, and leaves alone
what is behind it. Only the fields of an array are read by looking at its end without taking it,
which the array itself makes good.
-/

namespace MacroPlugin.Wire

open Json

section Looking

variable {α : Type} {reader : Reader α}

/-- Passes over the blanks at the front. -/
theorem skipBlank_peeking : Peeking (passing fun input => .ok (skipBlank input)) where
  takes := by
    intro input value rest hread
    rw [passing_eq_ok, Except.ok.injEq] at hread
    exact ⟨input.takeWhile isBlank, by rw [← hread]; exact List.takeWhile_append_dropWhile.symm⟩
  frame := by
    intro front value rest back hrest
    simp only [passing_eq_ok, Except.ok.injEq]
    unfold skipBlank
    rw [List.dropWhile_append]
    split
    · next hempty =>
      have hnil : front.dropWhile isBlank = [] := List.isEmpty_iff.mp hempty
      rw [hnil]
      constructor
      · intro hback
        have hlength := (List.dropWhile_suffix (l := back) isBlank).length_le
        rw [hback, List.length_append] at hlength
        obtain rfl : rest = [] := List.length_eq_zero_iff.mp (by omega)
        rfl
      · rintro rfl
        exact absurd blank_nil hrest
    · exact List.append_left_inj back

/-- Reads in a way that depends on the octet behind the blanks, without taking anything first. -/
theorem Peeking.look (fault : Fault) (body : UInt8 → Reader α)
    (hreader : ∀ input, reader input = leading fault (fun octet _ => body octet input) input)
    (hbody : ∀ octet, isBlank octet = false → Peeking (body octet)) : Peeking reader := by
  have hlook : ∀ {input result}, reader input = .ok result → ∃ octet rest,
      skipBlank input = octet :: rest ∧ body octet input = .ok result := by
    intro input result hread
    rw [hreader] at hread
    exact leading_eq_ok.mp hread
  have htakes : ∀ {input value rest}, reader input = .ok (value, rest) →
      ∃ taken, input = taken ++ rest := by
    intro input value rest hread
    obtain ⟨octet, _, hskip, hbehind⟩ := hlook hread
    exact (hbody octet (isBlank_of_skipBlank hskip)).takes hbehind
  refine ⟨htakes, ?_⟩
  intro front value rest back hrest
  cases hskip : skipBlank front with
  | nil =>
    -- What is read from blanks alone leaves only blanks.
    have hblank : Blank front := skipBlank_eq_nil_iff.mp hskip
    constructor
    · intro hread
      obtain ⟨taken, hinput⟩ := htakes hread
      rw [← List.append_assoc, List.append_cancel_right_eq] at hinput
      exact absurd (Blank.of_append (hinput ▸ hblank)).2 hrest
    · intro hread
      obtain ⟨octet, rest', hcons, -⟩ := hlook hread
      exact absurd (hskip.symm.trans hcons) (by simp)
  | cons octet front' =>
    have hskip' : skipBlank (front ++ back) = octet :: (front' ++ back) := by
      unfold skipBlank at hskip ⊢
      rw [List.dropWhile_append, hskip]
      rfl
    rw [hreader, hreader, leading_cons hskip, leading_cons hskip']
    exact (hbody octet (isBlank_of_skipBlank hskip)).frame back hrest

end Looking

/-! Lists -/

section Lists

variable {α : Type} {reader : Reader α}

/-- Passes over the octet behind the blanks. -/
def skipToken : Octets → Except Fault Octets :=
  leading (.here .endOfValue []) fun _ => .ok

theorem skipToken_whole : Whole (passing skipToken) :=
  .passing_lead fun _ _ => .pass

/-- What is read from the place where the next element begins. -/
theorem Peeking.unblanked {more : Reader α} (hmore : Peeking more) :
    Peeking fun input => more (skipBlank input) := by
  have hpassed : (passing fun input => .ok (skipBlank input)).andThen (fun _ => more) =
      fun input => more (skipBlank input) := rfl
  rw [← hpassed]
  exact skipBlank_peeking.andThen fun _ => hmore

/-- Reads on where a next part begins, and stops where there is none. -/
def orStop (stop : Except Fault (α × Octets)) (more : Reader α) :
    Option Octets → Except Fault (α × Octets)
  | none => stop
  | some input => more input

/-- Reads on behind a comma of an array, where an element has to follow. -/
def elementBehindComma (more : Reader α) : Reader α :=
  leading (.here .endOfValue []) fun octet rest =>
    if octet = Ascii.closeBracket then .error (.next .trailingComma (octet :: rest))
    else more (octet :: rest)

theorem elementBehindComma_peeking {more : Reader α} (hmore : Peeking more) :
    Peeking (elementBehindComma more) := by
  refine .look (.here .endOfValue []) (fun octet => if octet = Ascii.closeBracket then
      fun input => .error (.next .trailingComma (skipBlank input))
    else fun input => more (skipBlank input)) (fun input => leading_congr ?_) ?_
  · intro octet rest hskip
    rw [← hskip]
    split <;> rfl
  · intro octet _
    split
    · exact (Whole.fault _).peeking
    · exact hmore.unblanked

theorem elementBehindComma_whole {more : Reader α} (hmore : Whole more) :
    Whole (elementBehindComma more) :=
  .lead fun octet _ => .ite (fun _ => (Whole.fault _).toClosing) fun _ => hmore.unread octet

/-- The octet behind the blanks tells whether there is a next element, and where. -/
theorem nextElement_bind (first : Bool) (stop : Except Fault (α × Octets)) (more : Reader α)
    (input : Octets) :
    nextElement first input >>= orStop stop more =
      leading (.here .endOfList []) (fun octet rest =>
        if octet = Ascii.closeBracket then stop
        else if first then more (octet :: rest)
        else if octet = Ascii.comma then elementBehindComma more rest
        else .error (.next .expectedListEnd (octet :: rest))) input := by
  unfold nextElement leading
  cases skipBlank input with
  | nil => rfl
  | cons octet rest =>
    dsimp only
    by_cases hclose : octet = Ascii.closeBracket
    · simp only [if_pos hclose]
      rfl
    · by_cases hfirst : first = true
      · simp only [if_neg hclose, if_pos hfirst]
        rfl
      · by_cases hcomma : octet = Ascii.comma
        · simp only [if_neg hclose, if_neg hfirst, if_pos hcomma]
          unfold elementBehindComma leading
          cases skipBlank rest with
          | nil => rfl
          | cons octet rest =>
            dsimp only
            split <;> rfl
        · simp only [if_neg hclose, if_neg hfirst, if_neg hcomma]
          rfl

/-- The next element of an array is read, or what stands for it where the array ends. -/
theorem Peeking.element {first : Bool} (stop more : Reader α)
    (hreader : ∀ input, reader input = nextElement first input >>= orStop (stop input) more)
    (hstop : Peeking stop) (hmore : Peeking more) : Peeking reader := by
  refine .look (.here .endOfList []) (fun octet =>
    if octet = Ascii.closeBracket then stop
    else if first then fun input => more (skipBlank input)
    else if octet = Ascii.comma then
      (passing skipToken).andThen fun _ => elementBehindComma more
    else fun input => .error (.next .expectedListEnd (skipBlank input))) ?_ ?_
  · intro input
    rw [hreader, nextElement_bind]
    refine leading_congr fun octet rest hskip => ?_
    have htoken : (passing skipToken).andThen (fun _ => elementBehindComma more) input =
        elementBehindComma more rest := by
      have hpassed : passing skipToken input = .ok ((), rest) :=
        passing_eq_ok.mpr (leading_cons hskip)
      unfold Reader.andThen
      rw [hpassed]
      rfl
    rw [← hskip, ← htoken]
    split
    · rfl
    · split
      · rfl
      · split <;> rfl
  · intro octet _
    split
    · exact hstop
    · split
      · exact hmore.unblanked
      · split
        · exact skipToken_whole.peeking.andThen fun _ => elementBehindComma_peeking hmore
        · exact (Whole.fault _).peeking

theorem behindClose_eq {input rest : Octets} {octet : UInt8}
    (hskip : skipBlank input = octet :: rest) : behindClose input = rest := by
  unfold behindClose
  rw [hskip]
  rfl

/-- The next element of a list is read, or its end taken. -/
theorem Whole.element {first : Bool} (stop more : Reader α)
    (hreader : ∀ input, reader input =
      nextElement first input >>= orStop (stop (behindClose input)) more)
    (hstop : Closing stop) (hmore : Whole more) : Whole reader := by
  have hlead : reader = leading (.here .endOfList []) fun octet rest =>
      if octet = Ascii.closeBracket then stop rest
      else if first then more (octet :: rest)
      else if octet = Ascii.comma then elementBehindComma more rest
      else .error (.next .expectedListEnd (octet :: rest)) := by
    funext input
    rw [hreader, nextElement_bind]
    exact leading_congr fun octet rest hskip => by rw [behindClose_eq hskip]
  rw [hlead]
  refine .lead fun octet _ => .ite (fun _ => hstop) fun _ => ?_
  refine .ite (fun _ => hmore.unread octet) fun _ => ?_
  exact .ite (fun _ => (elementBehindComma_whole hmore).toClosing)
    fun _ => (Whole.fault _).toClosing

theorem readElements_whole {item : Reader α} (hitem : Whole item) (fuel : Nat) (first : Bool)
    (taken : List α) : Whole (readElements item fuel first taken) := by
  induction fuel generalizing first taken with
  | zero => exact .fault _
  | succ fuel ih =>
    exact .element (fun rest => .ok (taken.reverse, rest))
      (item.andThen fun value => readElements item fuel false (value :: taken)) (fun _ => rfl)
      (.ok _) (hitem.andThen fun value => (ih false (value :: taken)).toClosing)

theorem readList_eq (item : Reader α) (fuel : Nat) :
    readList item fuel = leading (.here .endOfValue []) fun octet rest =>
      if octet = Ascii.openBracket then readElements item fuel true [] rest
      else .error (unexpected "a sequence" (octet :: rest)) :=
  rfl

theorem readList_whole {item : Reader α} (hitem : Whole item) (fuel : Nat) :
    Whole (readList item fuel) := by
  rw [readList_eq]
  refine .lead fun octet _ => ?_
  exact .ite (fun _ => (readElements_whole hitem fuel true []).toClosing)
    fun _ => (Whole.fault _).toClosing

/-- What is wrong behind a comma where the end of an array has to follow. -/
def listEndBehindComma : Octets → Except Fault Octets :=
  leading (.here .trailingOctets []) fun octet rest =>
    if octet = Ascii.closeBracket then .error (.next .trailingComma (octet :: rest))
    else .error (.next .trailingOctets (octet :: rest))

theorem readListEnd_eq : readListEnd = leading (.here .endOfList []) fun octet rest =>
    if octet = Ascii.closeBracket then .ok rest
    else if octet = Ascii.comma then listEndBehindComma rest
    else .error (.next .trailingOctets (octet :: rest)) :=
  rfl

theorem listEndBehindComma_ne_ok {input rest : Octets} : listEndBehindComma input ≠ .ok rest := by
  intro hread
  obtain ⟨octet, behind, -, hread⟩ := leading_eq_ok.mp hread
  split at hread <;> simp at hread

theorem readListEnd_whole : Whole (passing readListEnd) := by
  rw [readListEnd_eq]
  refine .passing_lead fun octet _ => .passing_ite (fun _ => .pass) fun _ => ?_
  refine .passing_ite (fun _ => ?_) fun _ => (Whole.passing_fault _).toClosing
  exact (Whole.never fun _ _ hread =>
    listEndBehindComma_ne_ok (passing_eq_ok.mp hread)).toClosing

end Lists

/-! Objects -/

section Objects

variable {α σ : Type}

theorem fault_closing (cause : Cause) (octet : UInt8) : Closing fun rest =>
    (.error (.next cause (octet :: rest)) : Except Fault (α × Octets)) :=
  (Whole.fault fun rest => .next cause (octet :: rest)).toClosing

/-- Reads on behind a comma of an object, where a key has to follow. -/
def keyBehindComma (more : Reader α) : Reader α :=
  leading (.here .endOfValue []) fun octet rest =>
    if octet = Ascii.quote then more rest
    else if octet = Ascii.closeBrace then .error (.next .trailingComma (octet :: rest))
    else .error (.next .keyNotText (octet :: rest))

theorem keyBehindComma_whole {more : Reader α} (hmore : Whole more) :
    Whole (keyBehindComma more) := by
  refine .lead fun octet _ => .ite (fun _ => hmore.toClosing) fun _ => ?_
  exact .ite (fun _ => fault_closing _ octet) fun _ => fault_closing _ octet

/-- The octet behind the blanks tells whether there is a next key, and where. -/
theorem nextKey_bind (first : Bool) (stop : Except Fault (α × Octets)) (more : Reader α)
    (input : Octets) :
    nextKey first input >>= orStop stop more =
      leading (.here .endOfObject []) (fun octet rest =>
        if octet = Ascii.closeBrace then stop
        else if first then
          if octet = Ascii.quote then more rest else .error (.next .keyNotText (octet :: rest))
        else if octet = Ascii.comma then keyBehindComma more rest
        else .error (.next .expectedObjectEnd (octet :: rest))) input := by
  unfold nextKey leading
  cases skipBlank input with
  | nil => rfl
  | cons octet rest =>
    dsimp only
    by_cases hclose : octet = Ascii.closeBrace
    · simp only [if_pos hclose]
      rfl
    · by_cases hfirst : first = true
      · simp only [if_neg hclose, if_pos hfirst]
        split <;> rfl
      · by_cases hcomma : octet = Ascii.comma
        · simp only [if_neg hclose, if_neg hfirst, if_pos hcomma]
          unfold keyBehindComma leading
          cases skipBlank rest with
          | nil => rfl
          | cons octet rest =>
            dsimp only
            split
            · rfl
            · split <;> rfl
        · simp only [if_neg hclose, if_neg hfirst, if_neg hcomma]
          rfl

/-- The next key of an object is read on from behind its quote, or the object's end taken. -/
theorem Whole.key {reader : Reader α} {first : Bool} (stop more : Reader α)
    (hreader : ∀ input, reader input =
      nextKey first input >>= orStop (stop (behindClose input)) more)
    (hstop : Closing stop) (hmore : Whole more) : Whole reader := by
  have hlead : reader = leading (.here .endOfObject []) fun octet rest =>
      if octet = Ascii.closeBrace then stop rest
      else if first then
        if octet = Ascii.quote then more rest else .error (.next .keyNotText (octet :: rest))
      else if octet = Ascii.comma then keyBehindComma more rest
      else .error (.next .expectedObjectEnd (octet :: rest)) := by
    funext input
    rw [hreader, nextKey_bind]
    exact leading_congr fun octet rest hskip => by rw [behindClose_eq hskip]
  rw [hlead]
  refine .lead fun octet _ => .ite (fun _ => hstop) fun _ => .ite (fun _ => ?_) fun _ => ?_
  · exact .ite (fun _ => hmore.toClosing) fun _ => fault_closing _ octet
  · exact .ite (fun _ => (keyBehindComma_whole hmore).toClosing) fun _ => fault_closing _ octet

theorem readEntries_whole {entry : String → σ → Reader σ}
    (hentry : ∀ key state, Whole (entry key state)) (fuel : Nat) (first : Bool) (state : σ) :
    Whole (readEntries entry fuel first state) := by
  induction fuel generalizing first state with
  | zero => exact .fault _
  | succ fuel ih =>
    refine .key (fun rest => .ok (state, rest)) (readKeyed entry fuel state) (fun _ => rfl)
      (.ok state) ?_
    exact readText_whole.andThen fun key =>
      ((hentry key state).andThen fun state => (ih false state).toClosing).toClosing

theorem collectRecord_closing (collect : σ → Except String α) (state : σ) :
    Closing (collectRecord collect state) := by
  unfold collectRecord
  cases collect state with
  | ok value => exact .ok value
  | error key => exact (Whole.fault _).toClosing

theorem readRecord_eq (title : String) (fuel : Nat) (elements : Reader α)
    (entry : String → σ → Reader σ) (start : σ) (collect : σ → Except String α) :
    readRecord title fuel elements entry start collect =
      leading (.here .endOfValue []) fun octet rest =>
        if octet = Ascii.openBracket then
          elements.andThen (fun value =>
            (passing readListEnd).andThen fun _ rest => .ok (value, rest)) rest
        else if octet = Ascii.openBrace then
          (readEntries entry fuel true start).andThen (collectRecord collect) rest
        else .error (unexpected title (octet :: rest)) := by
  funext input
  unfold readRecord leading
  cases skipBlank input with
  | nil => rfl
  | cons octet rest =>
    dsimp only
    split
    · unfold Reader.andThen passing
      cases elements rest with
      | error fault => rfl
      | ok result =>
        simp only [bind, Except.bind]
        cases readListEnd result.2 <;> rfl
    · rfl

theorem readRecord_whole (title : String) (fuel : Nat) {elements : Reader α}
    {entry : String → σ → Reader σ} (helements : Peeking elements)
    (hentry : ∀ key state, Whole (entry key state)) (start : σ)
    (collect : σ → Except String α) :
    Whole (readRecord title fuel elements entry start collect) := by
  rw [readRecord_eq]
  refine .lead fun octet _ => .ite (fun _ => ?_) fun _ => .ite (fun _ => ?_) fun _ => ?_
  · exact (helements.andThen_whole fun value =>
      readListEnd_whole.andThen fun _ => .ok value).toClosing
  · exact ((readEntries_whole hentry fuel true start).andThen
      (collectRecord_closing collect)).toClosing
  · exact (Whole.fault _).toClosing

theorem fillSlot_whole {value : Reader α} (hvalue : Whole value) (key : String)
    (slot : Option α) : Whole (fillSlot key slot value) := by
  cases slot with
  | some _ => exact .fault _
  | none =>
    have hfill : fillSlot key none value =
        fun input => readColon input >>= value.andThen fun value rest => .ok (some value, rest) :=
      rfl
    rw [hfill]
    exact readColon_whole.passed (hvalue.map some).toClosing

theorem slotEntry_whole {key : String} {value : Reader α} {next : String → σ → Reader σ}
    (hvalue : Whole value) (hnext : ∀ key state, Whole (next key state)) (given : String)
    (slots : Option α × σ) : Whole (slotEntry key value next given slots) := by
  obtain ⟨slot, state⟩ := slots
  by_cases hgiven : given = key
  · have hslot : slotEntry key value next given (slot, state) =
        (fillSlot key slot value).andThen fun slot rest => .ok ((slot, state), rest) := by
      funext input
      simp only [slotEntry, if_pos hgiven]
      rfl
    rw [hslot]
    exact (fillSlot_whole hvalue key slot).map fun slot => (slot, state)
  · rw [funext (slotEntry_other hgiven slot state)]
    exact (hnext given state).map fun state => (slot, state)

end Objects

/-! Names -/

section Names

variable {α : Type} {names : List String}

theorem readName_whole (names : List String) : Whole (readName names) := by
  change Whole (Reader.andThen readText (findName names))
  refine readText_whole.andThen fun name => ?_
  unfold findName
  cases names.finIdxOf? name with
  | some index => exact .ok index
  | none => exact (Whole.fault _).toClosing

theorem readOnlyEnd_eq (value : α) :
    readOnlyEnd value = leading (.here .endOfObject []) fun octet rest =>
      if octet = Ascii.closeBrace then .ok (value, rest)
      else .error (.here .expectedValue (octet :: rest)) :=
  rfl

theorem readOnlyEnd_whole (value : α) : Whole (readOnlyEnd value) := by
  rw [readOnlyEnd_eq]
  exact .lead fun octet _ => .ite (fun _ => .ok value) fun _ => (Whole.fault _).toClosing

/-- What a name that stands alone means. -/
def nameAlone (alone : Fin names.length → Except Fault α) (index : Fin names.length) : Reader α :=
  fun rest => do return (← alone index, rest)

theorem nameAlone_closing (alone : Fin names.length → Except Fault α)
    (index : Fin names.length) : Closing (nameAlone alone index) := by
  unfold nameAlone
  cases alone index with
  | ok value => exact .ok value
  | error fault => exact (Whole.never fun rest result => by simp [bind, Except.bind]).toClosing

/-- The object of a name, behind the opening quote of the name. -/
def nameObject (content : Fin names.length → Reader α) : Reader α :=
  (readName names).andThen fun index =>
    Reader.andThen (fun input => readColon input >>= content index) readOnlyEnd

theorem nameObject_eq (content : Fin names.length → Reader α) (rest : Octets) :
    (do
      let (index, rest) ← readName names rest
      let (value, rest) ← content index (← readColon rest)
      readOnlyEnd value rest) = nameObject content rest := by
  unfold nameObject Reader.andThen
  cases readName names rest with
  | error fault => rfl
  | ok result =>
    obtain ⟨index, rest⟩ := result
    simp only [bind, Except.bind]
    cases readColon rest with
    | error fault => rfl
    | ok rest => rfl

theorem nameObject_whole {content : Fin names.length → Reader α}
    (hcontent : ∀ index, Whole (content index)) : Whole (nameObject content) :=
  (readName_whole names).andThen fun index =>
    ((readColon_whole.passed (hcontent index).toClosing).andThen
      fun value => (readOnlyEnd_whole value).toClosing).toClosing

/-- What follows the brace of a name's object. -/
def nameBehindBrace (content : Fin names.length → Reader α) : Reader α :=
  leading (.here .endOfObject []) fun octet rest =>
    if octet = Ascii.quote then nameObject content rest
    else if octet = Ascii.closeBrace then .error (.next .expectedValue (octet :: rest))
    else .error (.next .keyNotText (octet :: rest))

theorem nameBehindBrace_whole {content : Fin names.length → Reader α}
    (hcontent : ∀ index, Whole (content index)) : Whole (nameBehindBrace content) := by
  refine .lead fun octet _ => .ite (fun _ => (nameObject_whole hcontent).toClosing) fun _ => ?_
  exact .ite (fun _ => fault_closing _ octet) fun _ => fault_closing _ octet

theorem readNamed_eq (alone : Fin names.length → Except Fault α)
    (content : Fin names.length → Reader α) :
    readNamed names alone content = leading (.here .endOfValue []) fun octet rest =>
      if octet = Ascii.quote then (readName names).andThen (nameAlone alone) rest
      else if octet = Ascii.openBrace then nameBehindBrace content rest
      else .error (.next .expectedValue (octet :: rest)) := by
  funext input
  unfold readNamed
  refine leading_congr fun octet rest _ => ?_
  split
  · rfl
  · split
    · unfold nameBehindBrace leading
      cases skipBlank rest with
      | nil => rfl
      | cons octet rest =>
        dsimp only
        split
        · exact nameObject_eq content rest
        · rfl
    · rfl

theorem readNamed_whole (alone : Fin names.length → Except Fault α)
    {content : Fin names.length → Reader α} (hcontent : ∀ index, Whole (content index)) :
    Whole (readNamed names alone content) := by
  rw [readNamed_eq]
  refine .lead fun octet _ => .ite (fun _ => ?_) fun _ => .ite (fun _ => ?_) fun _ => ?_
  · exact ((readName_whole names).andThen (nameAlone_closing alone)).toClosing
  · exact (nameBehindBrace_whole hcontent).toClosing
  · exact fault_closing _ octet

end Names

/-! Schemas -/

section Elements

variable {α β γ : Type}

/-- Reads a field from an element of an array, and then the fields behind it. -/
def readField (value : Reader α) (next : Reader β) : Reader (α × β) :=
  value.andThen fun value => next.andThen fun values rest => .ok ((value, values), rest)

theorem readField_peeking {value : Reader α} {next : Reader β} (hvalue : Whole value)
    (hnext : Peeking next) : Peeking (readField value next) :=
  hvalue.peeking.andThen fun value =>
    hnext.andThen fun values => (Closing.ok (value, values)).peeking

theorem readUnit_choice_whole (names : List String) (index : Fin names.length) :
    Whole fun input => (do return (index, (← readUnit input).2) : Except Fault _) := by
  have hmap : (fun input => (do return (index, (← readUnit input).2) : Except Fault _)) =
      readUnit.andThen fun _ rest => .ok (index, rest) := by
    funext input
    unfold Reader.andThen
    cases readUnit input <;> rfl
  rw [hmap]
  exact readUnit_whole.map fun _ => index

/-- Passes over what follows a key that names no field. -/
theorem unknownEntry_eq (fuel : Nat) :
    (fun input => (do return ((), ← skipValue fuel (← readColon input)) :
      Except Fault (Unit × Octets))) = passing fun input => readColon input >>= skipValue fuel := by
  funext input
  simp only [passing]
  cases readColon input <;> rfl

theorem unknownEntry_whole (fuel : Nat) :
    Whole fun input => (do return ((), ← skipValue fuel (← readColon input)) :
      Except Fault (Unit × Octets)) := by
  rw [unknownEntry_eq]
  exact readColon_whole.bind (skipValue_whole fuel).toClosing

end Elements

mutual

/-- The reader of a schema leaves alone what it does not take. -/
theorem Schema.read_whole (fuel : Nat) : (schema : Schema) → Whole (schema.read fuel)
  | .text => readTextValue_whole
  | .word size => readWord_whole size
  | .boolean => readBoolean_whole
  | .list item => readList_whole (item.read_whole fuel) fuel
  | .choice names => readNamed_whole _ (readUnit_choice_whole names)
  | .record title fields =>
    readRecord_whole title fuel (fields.readElements_peeking fuel title fields.size 0 true)
      (fields.readEntry_whole fuel) fields.noSlots fields.collect
  | .union cases => readNamed_whole _ fun index => cases.readContent_whole fuel index

theorem Fields.readElements_peeking (fuel : Nat) : (fields : Fields) → (title : String) →
    (size index : Nat) → (first : Bool) → Peeking (fields.readElements fuel title size index first)
  | .nil, _, _, _, _ => (Closing.ok ()).peeking
  | .required _ schema rest, title, size, index, _ =>
    .element (fun input => .error (.here (.mismatch (.tooShort index title size))
        (behindClose input)))
      (readField (schema.read fuel) (rest.readElements fuel title size (index + 1) false))
      (fun _ => rfl) (Whole.fault _).peeking
      (readField_peeking (schema.read_whole fuel) (rest.readElements_peeking fuel title size _ _))
  | .optional _ schema rest, title, size, index, first =>
    .element ((rest.readElements fuel title size (index + 1) first).andThen
        fun values rest => .ok ((none, values), rest))
      (readField (readOptional (schema.read fuel))
        (rest.readElements fuel title size (index + 1) false)) (fun _ => rfl)
      ((rest.readElements_peeking fuel title size _ _).andThen fun _ => (Closing.ok _).peeking)
      (readField_peeking (readOptional_whole (schema.read_whole fuel))
        (rest.readElements_peeking fuel title size _ _))
  | .defaulted _ item rest, title, size, index, first =>
    .element ((rest.readElements fuel title size (index + 1) first).andThen
        fun values rest => .ok (([], values), rest))
      (readField (readList (item.read fuel) fuel)
        (rest.readElements fuel title size (index + 1) false)) (fun _ => rfl)
      ((rest.readElements_peeking fuel title size _ _).andThen fun _ => (Closing.ok _).peeking)
      (readField_peeking (readList_whole (item.read_whole fuel) fuel)
        (rest.readElements_peeking fuel title size _ _))

theorem Fields.readEntry_whole (fuel : Nat) : (fields : Fields) → (given : String) →
    (slots : fields.Slots) → Whole (fields.readEntry fuel given slots)
  | .nil, _, _ => unknownEntry_whole fuel
  | .required _ schema rest, given, slots =>
    slotEntry_whole (schema.read_whole fuel) (rest.readEntry_whole fuel) given slots
  | .optional _ schema rest, given, slots =>
    slotEntry_whole (readOptional_whole (schema.read_whole fuel)) (rest.readEntry_whole fuel)
      given slots
  | .defaulted _ item rest, given, slots =>
    slotEntry_whole (readList_whole (item.read_whole fuel) fuel) (rest.readEntry_whole fuel)
      given slots

theorem Cases.readContent_whole (fuel : Nat) : (cases : Cases) → (index : Nat) →
    Whole (cases.readContent fuel index)
  | .nil, _ => .fault _
  | .cons _ title fields _, 0 =>
    (readRecord_whole title fuel (fields.readElements_peeking fuel title fields.size 0 true)
      (fields.readEntry_whole fuel) fields.noSlots fields.collect).map Sum.inl
  | .cons _ _ _ rest, index + 1 => (rest.readContent_whole fuel index).map Sum.inr

end

end MacroPlugin.Wire
