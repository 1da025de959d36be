import MacroPlugin.Proofs.Json.Lexeme
import MacroPlugin.Proofs.Json.Numeral

/-!
The ways to write a JSON value. `Written value text` leaves one thing open, namely which blanks
stand between the tokens; it fixes the order of entries, the escapes and the numerals. The reader
is shown to understand every such text, and each way of printing a value to be one of them.
-/

namespace MacroPlugin.Json

/-- Octets that mean nothing between two tokens. -/
def Blank (octets : Octets) : Prop :=
  ∀ octet ∈ octets, isBlank octet = true

theorem blank_nil : Blank [] := by
  intro octet hmem
  simp at hmem

theorem skipBlank_append {blanks : Octets} (hblank : Blank blanks) {octet : UInt8}
    (hoctet : isBlank octet = false) (rest : Octets) :
    skipBlank (blanks ++ octet :: rest) = octet :: rest := by
  unfold skipBlank
  rw [List.dropWhile_append_of_pos hblank, List.dropWhile_cons_of_neg (by simp [hoctet])]

theorem skipBlank_self {octet : UInt8} (hoctet : isBlank octet = false) (rest : Octets) :
    skipBlank (octet :: rest) = octet :: rest :=
  skipBlank_append blank_nil hoctet rest

theorem skipBlank_token {blanks : Octets} (hblank : Blank blanks) {octet : UInt8}
    (hoctet : isBlank octet = false) (rest : Octets) :
    skipBlank (blanks ++ octet :: rest) = skipBlank (octet :: rest) := by
  rw [skipBlank_append hblank hoctet, skipBlank_self hoctet]

theorem skipBlank_blank {blanks : Octets} (hblank : Blank blanks) : skipBlank blanks = [] := by
  unfold skipBlank
  rw [← List.append_nil blanks, List.dropWhile_append_of_pos hblank]
  rfl

mutual

inductive Written : Json → Octets → Prop
  | null : Written .null (.ofText "null")
  | boolean (value : Bool) : Written (.boolean value) (.ofText (if value then "true" else "false"))
  | number (value : Nat) : Written (.number value) (numeral value)
  | text (value : String) : Written (.text value) (Ascii.quote :: textBody value)
  | array {items : List Json} {text : Octets} (h : WrittenItems true items text) :
      Written (.array items) (Ascii.openBracket :: text)
  | object {entries : List (String × Json)} {text : Octets} (h : WrittenEntries true entries text) :
      Written (.object entries) (Ascii.openBrace :: text)

/-- What stands behind the opening bracket of an array, or behind an item that is not the first. -/
inductive WrittenItems : Bool → List Json → Octets → Prop
  | nil {first : Bool} {blanks : Octets} (hblank : Blank blanks) :
      WrittenItems first [] (blanks ++ [Ascii.closeBracket])
  | head {item : Json} {items : List Json} {blanks text more : Octets} (hblank : Blank blanks)
      (hitem : Written item text) (hmore : WrittenItems false items more) :
      WrittenItems true (item :: items) (blanks ++ (text ++ more))
  | next {item : Json} {items : List Json} {blanks blanks' text more : Octets}
      (hblank : Blank blanks) (hblank' : Blank blanks') (hitem : Written item text)
      (hmore : WrittenItems false items more) :
      WrittenItems false (item :: items) (blanks ++ Ascii.comma :: (blanks' ++ (text ++ more)))

/-- What stands behind the opening brace of an object, or behind an entry that is not the first. -/
inductive WrittenEntries : Bool → List (String × Json) → Octets → Prop
  | nil {first : Bool} {blanks : Octets} (hblank : Blank blanks) :
      WrittenEntries first [] (blanks ++ [Ascii.closeBrace])
  | head {key : String} {value : Json} {entries : List (String × Json)}
      {blanks text more : Octets} (hblank : Blank blanks) (hvalue : WrittenContent value text)
      (hmore : WrittenEntries false entries more) :
      WrittenEntries true ((key, value) :: entries)
        (blanks ++ Ascii.quote :: (textBody key ++ (text ++ more)))
  | next {key : String} {value : Json} {entries : List (String × Json)}
      {blanks blanks' text more : Octets} (hblank : Blank blanks) (hblank' : Blank blanks')
      (hvalue : WrittenContent value text) (hmore : WrittenEntries false entries more) :
      WrittenEntries false ((key, value) :: entries)
        (blanks ++ Ascii.comma :: (blanks' ++ Ascii.quote :: (textBody key ++ (text ++ more))))

/-- What stands behind a key: a colon and the value. -/
inductive WrittenContent : Json → Octets → Prop
  | mk {value : Json} {blanks blanks' text : Octets} (hblank : Blank blanks)
      (hblank' : Blank blanks') (hvalue : Written value text) :
      WrittenContent value (blanks ++ Ascii.colon :: (blanks' ++ text))

end

/-! The first octet of a written value tells it from blanks and from the end of a list. -/

theorem isBlank_digitOctet : ∀ d < 10, isBlank (digitOctet d) = false := by decide

theorem digitOctet_ne_closeBracket : ∀ d < 10, digitOctet d ≠ Ascii.closeBracket := by decide

theorem ofFirst?_digitOctet : ∀ d < 10, Literal.ofFirst? (digitOctet d) = none := by decide

theorem numeral_first (n : Nat) :
    ∃ digit rest, numeral n = digitOctet digit :: rest ∧ digit < 10 := by
  obtain ⟨digit, rest, hnumeral, hdigit, -⟩ := numeral_digits n
  exact ⟨digit, rest, hnumeral, hdigit⟩

theorem Written.first {value : Json} {text : Octets} (h : Written value text) :
    ∃ octet rest, text = octet :: rest ∧ isBlank octet = false ∧ octet ≠ Ascii.closeBracket ∧
      (value ≠ .null → Literal.ofFirst? octet ≠ some .null) := by
  cases h with
  | null => exact ⟨0x6E, _, rfl, by decide, by decide, fun h => absurd rfl h⟩
  | boolean value =>
    cases value with
    | false => exact ⟨0x66, _, rfl, by decide, by decide, fun _ => by decide⟩
    | true => exact ⟨0x74, _, rfl, by decide, by decide, fun _ => by decide⟩
  | number value =>
    obtain ⟨digit, rest, hnumeral, hdigit⟩ := numeral_first value
    refine ⟨digitOctet digit, rest, hnumeral, isBlank_digitOctet digit hdigit,
      digitOctet_ne_closeBracket digit hdigit, fun _ => ?_⟩
    rw [ofFirst?_digitOctet digit hdigit]
    simp
  | text value => exact ⟨_, _, rfl, by decide, by decide, fun _ => by decide⟩
  | array h => exact ⟨_, _, rfl, by decide, by decide, fun _ => by decide⟩
  | object h => exact ⟨_, _, rfl, by decide, by decide, fun _ => by decide⟩

theorem Written.length_pos {value : Json} {text : Octets} (h : Written value text) :
    0 < text.length := by
  obtain ⟨octet, rest, rfl, -⟩ := h.first
  simp

theorem WrittenContent.length_pos {value : Json} {text : Octets} (h : WrittenContent value text) :
    0 < text.length := by
  cases h with
  | mk =>
    simp only [List.length_append, List.length_cons]
    omega

/-! What follows an item or an entry cannot continue a number. -/

theorem digit?_of_isBlank {octet : UInt8} (h : isBlank octet = true) :
    Ascii.digit? octet = none ∧ octet ≠ Ascii.point ∧ Number.isExponentMark octet = false := by
  simp only [isBlank, Bool.or_eq_true, decide_eq_true_eq] at h
  rcases h with ((rfl | rfl) | rfl) | rfl <;> decide

theorem stops_blank {blanks front : Octets} (hblank : Blank blanks) (hstops : Stops front) :
    Stops (blanks ++ front) := by
  cases blanks with
  | nil => exact hstops
  | cons octet blanks =>
    intro other hmem
    simp only [List.cons_append, List.head?_cons, Option.mem_def, Option.some.injEq] at hmem
    subst hmem
    exact digit?_of_isBlank (hblank octet (by simp))

theorem stops_cons {octet : UInt8} {rest : Octets}
    (h : Ascii.digit? octet = none ∧ octet ≠ Ascii.point ∧
      Number.isExponentMark octet = false) : Stops (octet :: rest) := by
  intro other hmem
  simp only [List.head?_cons, Option.mem_def, Option.some.injEq] at hmem
  subst hmem
  exact h

theorem WrittenItems.stops {items : List Json} {text : Octets}
    (h : WrittenItems false items text) : Stops text ∧ text ≠ [] := by
  cases h with
  | nil hblank => exact ⟨stops_blank hblank (stops_cons (by decide)), by simp⟩
  | next hblank => exact ⟨stops_blank hblank (stops_cons (by decide)), by simp⟩

theorem WrittenEntries.stops {entries : List (String × Json)} {text : Octets}
    (h : WrittenEntries false entries text) : Stops text ∧ text ≠ [] := by
  cases h with
  | nil hblank => exact ⟨stops_blank hblank (stops_cons (by decide)), by simp⟩
  | next hblank => exact ⟨stops_blank hblank (stops_cons (by decide)), by simp⟩

/-! Printing without blanks. -/

mutual

theorem compact_written : (value : Json) → Written value (Octets.ofText value.compact)
  | .null => .null
  | .boolean value => .boolean value
  | .number value => .number value
  | .text value => by
    rw [compact, ofText_quote]
    exact .text value
  | .array items => by
    rw [compact, Octets.ofText_append, Octets.ofText_append]
    exact .array (compactItems_written items).1
  | .object entries => by
    rw [compact, Octets.ofText_append, Octets.ofText_append]
    exact .object (compactEntries_written entries).1

/-- The items of an array, at its start and behind an earlier item. -/
theorem compactItems_written : (items : List Json) →
    WrittenItems true items (Octets.ofText (compactItems items) ++ [Ascii.closeBracket]) ∧
      (items ≠ [] → WrittenItems false items
        (Ascii.comma :: (Octets.ofText (compactItems items) ++ [Ascii.closeBracket])))
  | [] => ⟨.nil blank_nil, fun h => absurd rfl h⟩
  | [item] => by
    have hitem := compact_written item
    have hend : WrittenItems false [] [Ascii.closeBracket] := .nil blank_nil
    exact ⟨.head blank_nil hitem hend, fun _ => .next blank_nil blank_nil hitem hend⟩
  | item :: other :: items => by
    have hitem := compact_written item
    have hmore := (compactItems_written (other :: items)).2 (by simp)
    have htext : Octets.ofText (compactItems (item :: other :: items)) ++ [Ascii.closeBracket] =
        Octets.ofText item.compact ++ (Ascii.comma ::
          (Octets.ofText (compactItems (other :: items)) ++ [Ascii.closeBracket])) := by
      simp only [compactItems, Octets.ofText_append, List.append_assoc]
      rfl
    rw [htext]
    exact ⟨.head blank_nil hitem hmore, fun _ => .next blank_nil blank_nil hitem hmore⟩

/-- The entries of an object, at its start and behind an earlier entry. -/
theorem compactEntries_written : (entries : List (String × Json)) →
    WrittenEntries true entries (Octets.ofText (compactEntries entries) ++ [Ascii.closeBrace]) ∧
      (entries ≠ [] → WrittenEntries false entries
        (Ascii.comma :: (Octets.ofText (compactEntries entries) ++ [Ascii.closeBrace])))
  | [] => ⟨.nil blank_nil, fun h => absurd rfl h⟩
  | [(key, value)] => by
    have hvalue : WrittenContent value (Ascii.colon :: Octets.ofText value.compact) :=
      .mk blank_nil blank_nil (compact_written value)
    have hend : WrittenEntries false [] [Ascii.closeBrace] := .nil blank_nil
    have htext : Octets.ofText (compactEntries [(key, value)]) ++ [Ascii.closeBrace] =
        Ascii.quote :: (textBody key ++
          ((Ascii.colon :: Octets.ofText value.compact) ++ [Ascii.closeBrace])) := by
      rw [compactEntries, Octets.ofText_append, Octets.ofText_append, ofText_quote]
      simp only [List.cons_append, List.append_assoc]
      rfl
    rw [htext]
    exact ⟨.head blank_nil hvalue hend, fun _ => .next blank_nil blank_nil hvalue hend⟩
  | (key, value) :: other :: entries => by
    have hvalue : WrittenContent value (Ascii.colon :: Octets.ofText value.compact) :=
      .mk blank_nil blank_nil (compact_written value)
    have hmore := (compactEntries_written (other :: entries)).2 (by simp)
    have htext : Octets.ofText (compactEntries ((key, value) :: other :: entries)) ++
        [Ascii.closeBrace] = Ascii.quote :: (textBody key ++
          ((Ascii.colon :: Octets.ofText value.compact) ++
            (Ascii.comma :: (Octets.ofText (compactEntries (other :: entries)) ++
              [Ascii.closeBrace])))) := by
      simp only [compactEntries, Octets.ofText_append, ofText_quote, List.cons_append,
        List.append_assoc]
      rfl
    rw [htext]
    exact ⟨.head blank_nil hvalue hmore, fun _ => .next blank_nil blank_nil hvalue hmore⟩

end

mutual

/-- Whatever texts a value holds, it is printed on one line. -/
theorem compact_unbroken : (value : Json) → Octets.Unbroken (Octets.ofText value.compact)
  | .null | .boolean true | .boolean false => by decide
  | .number value => numeral_unbroken value
  | .text value => quote_unbroken value
  | .array items => by
    rw [compact, Octets.ofText_append, Octets.ofText_append]
    exact (Octets.Unbroken.append (by decide) (compactItems_unbroken items)).append (by decide)
  | .object entries => by
    rw [compact, Octets.ofText_append, Octets.ofText_append]
    exact (Octets.Unbroken.append (by decide) (compactEntries_unbroken entries)).append (by decide)

theorem compactItems_unbroken : (items : List Json) →
    Octets.Unbroken (Octets.ofText (compactItems items))
  | [] => by decide
  | [item] => compact_unbroken item
  | item :: other :: items => by
    rw [compactItems, Octets.ofText_append, Octets.ofText_append]
    · exact ((compact_unbroken item).append (by decide)).append
        (compactItems_unbroken (other :: items))
    · simp

theorem compactEntries_unbroken : (entries : List (String × Json)) →
    Octets.Unbroken (Octets.ofText (compactEntries entries))
  | [] => by decide
  | [(key, value)] => by
    rw [compactEntries, Octets.ofText_append, Octets.ofText_append]
    exact (Octets.Unbroken.append (quote_unbroken key) (by decide)).append (compact_unbroken value)
  | (key, value) :: other :: entries => by
    rw [compactEntries]
    · simp only [Octets.ofText_append]
      exact (((Octets.Unbroken.append (quote_unbroken key) (by decide)).append
        (compact_unbroken value)).append (by decide)).append
        (compactEntries_unbroken (other :: entries))
    · simp

end

end MacroPlugin.Json
