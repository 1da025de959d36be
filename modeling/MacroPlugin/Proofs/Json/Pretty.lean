import MacroPlugin.Proofs.Json.Written
import MacroPlugin.Text.Blank

/-!
The indented way to print a value. It is one of the ways to write the value (`pretty_written`), so a
reader understands it as it understands the way without blanks. And the two have the same tokens in
the same order: if all white space between tokens is dropped from the indented text, what is left is
the other one (`unspaced_pretty`). White space inside a text is part of a token, and so are braces,
colons and escaped quotes; `Zone` keeps track of where a text begins and ends.
-/

namespace MacroPlugin.Json

/-! Blanks of an indented text -/

theorem newline_blank (depth : Nat) : Blank (Octets.ofText (newline depth)) := by
  intro octet hmem
  rw [newline, Octets.ofText_append, List.mem_append] at hmem
  rcases hmem with hmem | hmem
  · have hline : ∀ octet ∈ Octets.ofText "\n", isBlank octet = true :=
      List.forall_mem_singleton.mpr rfl
    exact hline octet hmem
  · rw [Octets.ofText_ofList] at hmem
    obtain ⟨c, hc, hoctet⟩ := List.mem_flatMap.mp hmem
    have hspace : ∀ octet ∈ String.utf8EncodeChar ' ', isBlank octet = true :=
      List.forall_mem_singleton.mpr rfl
    exact hspace octet (List.eq_of_mem_replicate hc ▸ hoctet)

theorem space_blank : Blank [Ascii.space] := by
  simp [Blank, isBlank]

/-- What stands behind a key in an indented text. -/
theorem content_written {value : Json} {text : Octets} (h : Written value text) :
    WrittenContent value (Octets.ofText ": " ++ text) :=
  .mk blank_nil space_blank h

mutual

theorem prettyAt_written (depth : Nat) : (value : Json) →
    Written value (Octets.ofText (value.prettyAt depth))
  | .null => .null
  | .boolean value => .boolean value
  | .number value => .number value
  | .text value => by
    rw [prettyAt, ofText_quote]
    exact .text value
  | .array [] => .array (.nil blank_nil)
  | .array (item :: items) => by
    have hitems := (prettyItems_written (depth + 1) (item :: items) (by simp)
      (newline_blank depth)).1
    simp only [prettyAt, Octets.ofText_append, List.append_assoc]
    exact .array hitems
  | .object [] => .object (.nil blank_nil)
  | .object (entry :: entries) => by
    have hentries := (prettyEntries_written (depth + 1) (entry :: entries) (by simp)
      (newline_blank depth)).1
    simp only [prettyAt, Octets.ofText_append, List.append_assoc]
    exact .object hentries

/-- The items of an array that is not empty, at its start and behind an earlier item, up to the
bracket on a line of its own. -/
theorem prettyItems_written (depth : Nat) : (items : List Json) → items ≠ [] →
    {close : Octets} → Blank close →
      let text := Octets.ofText (prettyItems depth items) ++ (close ++ [Ascii.closeBracket])
      WrittenItems true items text ∧ WrittenItems false items (Ascii.comma :: text)
  | [], h, _, _ => absurd rfl h
  | [item], _, close, hclose => by
    have hitem := prettyAt_written depth item
    have hend : WrittenItems false [] (close ++ [Ascii.closeBracket]) := .nil hclose
    simp only [prettyItems, Octets.ofText_append, List.append_assoc]
    exact ⟨.head (newline_blank depth) hitem hend,
      .next blank_nil (newline_blank depth) hitem hend⟩
  | item :: other :: items, _, close, hclose => by
    have hitem := prettyAt_written depth item
    have hmore := (prettyItems_written depth (other :: items) (by simp) hclose).2
    simp only [prettyItems, Octets.ofText_append, List.append_assoc]
    exact ⟨.head (newline_blank depth) hitem hmore,
      .next blank_nil (newline_blank depth) hitem hmore⟩

/-- The entries of an object that is not empty, in the same way. -/
theorem prettyEntries_written (depth : Nat) : (entries : List (String × Json)) → entries ≠ [] →
    {close : Octets} → Blank close →
      let text := Octets.ofText (prettyEntries depth entries) ++ (close ++ [Ascii.closeBrace])
      WrittenEntries true entries text ∧ WrittenEntries false entries (Ascii.comma :: text)
  | [], h, _, _ => absurd rfl h
  | [(key, value)], _, close, hclose => by
    have hvalue := content_written (prettyAt_written depth value)
    have hend : WrittenEntries false [] (close ++ [Ascii.closeBrace]) := .nil hclose
    have htext : Octets.ofText (prettyEntries depth [(key, value)]) ++
        (close ++ [Ascii.closeBrace]) = Octets.ofText (newline depth) ++
          Ascii.quote :: (textBody key ++ ((Octets.ofText ": " ++
            Octets.ofText (value.prettyAt depth)) ++ (close ++ [Ascii.closeBrace]))) := by
      simp only [prettyEntries, Octets.ofText_append, ofText_quote, List.append_assoc,
        List.cons_append]
    rw [htext]
    exact ⟨.head (newline_blank depth) hvalue hend,
      .next blank_nil (newline_blank depth) hvalue hend⟩
  | (key, value) :: other :: entries, _, close, hclose => by
    have hvalue := content_written (prettyAt_written depth value)
    have hmore := (prettyEntries_written depth (other :: entries) (by simp) hclose).2
    have htext : Octets.ofText (prettyEntries depth ((key, value) :: other :: entries)) ++
        (close ++ [Ascii.closeBrace]) = Octets.ofText (newline depth) ++
          Ascii.quote :: (textBody key ++ ((Octets.ofText ": " ++
            Octets.ofText (value.prettyAt depth)) ++ (Ascii.comma ::
              (Octets.ofText (prettyEntries depth (other :: entries)) ++
                (close ++ [Ascii.closeBrace]))))) := by
      simp only [prettyEntries, Octets.ofText_append, ofText_quote, List.append_assoc,
        List.cons_append]
      rfl
    rw [htext]
    exact ⟨.head (newline_blank depth) hvalue hmore,
      .next blank_nil (newline_blank depth) hvalue hmore⟩

end

theorem pretty_written (value : Json) : Written value (Octets.ofText value.pretty) :=
  prettyAt_written 0 value

/-! White space between tokens -/

/-- Where a reader of JSON stands: between tokens, inside a text, or in it behind a backslash. -/
inductive Zone where
  | between
  | inside
  | escaped
  deriving DecidableEq, Repr

/-- The zone behind a character. -/
def Zone.behind : Zone → Char → Zone
  | .between, c => if c = '"' then .inside else .between
  | .inside, c => if c = '"' then .between else if c = '\\' then .escaped else .inside
  | .escaped, _ => .inside

/-- Drops the white space between tokens, from a zone on. -/
def unspacedFrom (zone : Zone) : List Char → List Char
  | [] => []
  | c :: rest =>
    if zone = .between ∧ MacroPlugin.Blank.isBlank c = true then unspacedFrom zone rest
    else c :: unspacedFrom (zone.behind c) rest

/-- Drops all white space of a JSON text that is not part of a text in it. -/
def unspaced (text : String) : String :=
  String.ofList (unspacedFrom .between text.toList)

/-- A piece that begins and ends between tokens, and what is left of it. -/
def Unspaces (piece result : String) : Prop :=
  ∀ rest, unspacedFrom .between (piece.toList ++ rest) =
    result.toList ++ unspacedFrom .between rest

theorem Unspaces.append {piece piece' result result' : String} (h : Unspaces piece result)
    (h' : Unspaces piece' result') : Unspaces (piece ++ piece') (result ++ result') := by
  intro rest
  rw [String.toList_append, List.append_assoc, h, h', String.toList_append, List.append_assoc]

theorem Unspaces.append_blank {piece piece' result : String} (h : Unspaces piece result)
    (h' : Unspaces piece' "") : Unspaces (piece ++ piece') result := by
  simpa using h.append h'

theorem Unspaces.blank_append {piece piece' result : String} (h : Unspaces piece "")
    (h' : Unspaces piece' result) : Unspaces (piece ++ piece') result := by
  simpa using h.append h'

theorem Unspaces.whole {piece result : String} (h : Unspaces piece result) :
    unspaced piece = result := by
  have hrest := h []
  rw [List.append_nil] at hrest
  rw [unspaced, hrest, unspacedFrom, List.append_nil, String.ofList_toList]

/-- A piece without blanks and quotes. -/
theorem unspaces_token {piece : String}
    (h : ∀ c ∈ piece.toList, MacroPlugin.Blank.isBlank c = false ∧ c ≠ '"') :
    Unspaces piece piece := by
  intro rest
  generalize piece.toList = text at h
  induction text with
  | nil => rfl
  | cons c text ih =>
    obtain ⟨hblank, hquote⟩ := h c (by simp)
    rw [List.cons_append, unspacedFrom, if_neg (by simp [hblank]), Zone.behind, if_neg hquote,
      ih fun other hmem => h other (by simp [hmem])]
    rfl

/-- A piece of nothing but blanks. -/
theorem unspaces_blank {piece : String}
    (h : ∀ c ∈ piece.toList, MacroPlugin.Blank.isBlank c = true) : Unspaces piece "" := by
  intro rest
  generalize piece.toList = text at h
  induction text with
  | nil => rfl
  | cons c text ih =>
    rw [List.cons_append, unspacedFrom, if_pos ⟨rfl, h c (by simp)⟩,
      ih fun other hmem => h other (by simp [hmem])]

theorem unspaces_newline (depth : Nat) : Unspaces (newline depth) "" := by
  refine unspaces_blank fun c hmem => ?_
  rw [newline, String.toList_append, List.mem_append] at hmem
  rcases hmem with hmem | hmem
  · have hline : ∀ c ∈ "\n".toList, MacroPlugin.Blank.isBlank c = true :=
      List.forall_mem_singleton.mpr rfl
    exact hline c hmem
  · rw [String.toList_ofList] at hmem
    rw [List.eq_of_mem_replicate hmem]
    decide

theorem unspaces_colon : Unspaces ": " ":" := by
  intro rest
  rfl

theorem unspaces_number (n : Nat) : Unspaces (toString n) (toString n) := by
  refine unspaces_token fun c hmem => ?_
  rw [Nat.toString_eq_ofList_toDigits, String.toList_ofList] at hmem
  have hdigit := Nat.isDigit_of_mem_toDigits (by decide) (by decide) hmem
  have hbounds : 48 ≤ c.toNat ∧ c.toNat ≤ 57 := by
    simpa [Char.isDigit, UInt32.le_iff_toNat_le] using hdigit
  constructor
  · simp [MacroPlugin.Blank.isBlank, MacroPlugin.Blank.ranges]
    omega
  · rintro rfl
    exact absurd hbounds.1 (by decide)

theorem unspaces_mark : ∀ mark ∈ ["[", "]", "\x7b", "\x7d", ",", "[]", "\x7b\x7d", "null", "true",
    "false"], Unspaces mark mark := by
  intro mark hmem
  have hmarks : ∀ mark ∈ ["[", "]", "\x7b", "\x7d", ",", "[]", "\x7b\x7d", "null", "true", "false"],
      (mark.toList.all fun c => !MacroPlugin.Blank.isBlank c && c != '"') = true :=
    List.all_eq_true.mp rfl
  refine unspaces_token fun c hc => ?_
  simpa using List.all_eq_true.mp (hmarks mark hmem) c hc

/-! Texts -/

theorem unspacedFrom_inside {c : Char} (hquote : c ≠ '"') (hslash : c ≠ '\\') (rest : List Char) :
    unspacedFrom .inside (c :: rest) = c :: unspacedFrom .inside rest := by
  rw [unspacedFrom, if_neg (by simp), Zone.behind, if_neg hquote, if_neg hslash]

theorem digitChar_inside : ∀ d < 16, Nat.digitChar d ≠ '"' ∧ Nat.digitChar d ≠ '\\' := by decide

/-- A character of a text is left as it is written, and the text goes on behind it. -/
theorem unspacedFrom_escape (c : Char) (rest : List Char) :
    unspacedFrom .inside ((escape c).toList ++ rest) =
      (escape c).toList ++ unspacedFrom .inside rest := by
  unfold escape
  split
  case h_8 hquote hslash _ _ _ _ _ =>
    split
    · next hcontrol =>
      obtain ⟨hhigh, hhigh'⟩ := digitChar_inside (c.toNat / 16) (by omega)
      obtain ⟨hlow, hlow'⟩ := digitChar_inside (c.toNat % 16) (by omega)
      have hdigits : unspacedFrom .inside
          (Nat.digitChar (c.toNat / 16) :: Nat.digitChar (c.toNat % 16) :: rest) =
            Nat.digitChar (c.toNat / 16) :: Nat.digitChar (c.toNat % 16) ::
              unspacedFrom .inside rest := by
        rw [unspacedFrom_inside hhigh hhigh', unspacedFrom_inside hlow hlow']
      have hescape : (hexEscape c.toNat).toList = "\\u00".toList ++
          [Nat.digitChar (c.toNat / 16), Nat.digitChar (c.toNat % 16)] := by
        rw [hexEscape, String.toList_append]
        exact congrArg ("\\u00".toList ++ ·) String.toList_ofList
      rw [hescape, List.append_assoc, List.append_assoc]
      exact congrArg ("\\u00".toList ++ ·) hdigits
    · rw [Char.toString, String.toList_singleton]
      exact unspacedFrom_inside hquote hslash rest
  all_goals rfl

theorem unspaces_quote (text : String) : Unspaces (quote text) (quote text) := by
  have hjoin : ∀ (text rest : List Char), unspacedFrom .inside
      ((String.join (text.map escape)).toList ++ rest) =
        (String.join (text.map escape)).toList ++ unspacedFrom .inside rest := by
    intro text rest
    induction text with
    | nil => rfl
    | cons c text ih =>
      rw [List.map_cons, String.join_cons, String.toList_append, List.append_assoc,
        unspacedFrom_escape, ih, List.append_assoc]
  intro rest
  have hquote : unspacedFrom .inside ("\"".toList ++ rest) =
      "\"".toList ++ unspacedFrom .between rest := rfl
  rw [quote, String.toList_append, String.toList_append, List.append_assoc, List.append_assoc,
    List.append_assoc, List.append_assoc, ← hquote, ← hjoin]
  rfl

/-! Values -/

mutual

/-- At any depth the indented text becomes the one without blanks. -/
theorem prettyAt_unspaces (depth : Nat) : (value : Json) →
    Unspaces (value.prettyAt depth) value.compact
  | .null => unspaces_mark "null" (by decide)
  | .boolean true => unspaces_mark "true" (by decide)
  | .boolean false => unspaces_mark "false" (by decide)
  | .number value => unspaces_number value
  | .text value => unspaces_quote value
  | .array [] => unspaces_mark "[]" (by decide)
  | .array (item :: items) => by
    have hitems := prettyItems_unspaces (depth + 1) (item :: items)
    exact (((unspaces_mark "[" (by decide)).append hitems).append_blank
      (unspaces_newline depth)).append (unspaces_mark "]" (by decide))
  | .object [] => unspaces_mark "\x7b\x7d" (by decide)
  | .object (entry :: entries) => by
    have hentries := prettyEntries_unspaces (depth + 1) (entry :: entries)
    exact (((unspaces_mark "\x7b" (by decide)).append hentries).append_blank
      (unspaces_newline depth)).append (unspaces_mark "\x7d" (by decide))

theorem prettyItems_unspaces (depth : Nat) : (items : List Json) →
    Unspaces (prettyItems depth items) (compactItems items)
  | [] => unspaces_blank (by simp [prettyItems])
  | [item] => (unspaces_newline depth).blank_append (prettyAt_unspaces depth item)
  | item :: other :: items => by
    have hitem := (unspaces_newline depth).blank_append (prettyAt_unspaces depth item)
    have hmore := prettyItems_unspaces depth (other :: items)
    exact (hitem.append (unspaces_mark "," (by decide))).append hmore

theorem prettyEntries_unspaces (depth : Nat) : (entries : List (String × Json)) →
    Unspaces (prettyEntries depth entries) (compactEntries entries)
  | [] => unspaces_blank (by simp [prettyEntries])
  | [(key, value)] => by
    have hkey := (unspaces_newline depth).blank_append (unspaces_quote key)
    exact (hkey.append unspaces_colon).append (prettyAt_unspaces depth value)
  | (key, value) :: other :: entries => by
    have hkey := (unspaces_newline depth).blank_append (unspaces_quote key)
    have hentry := (hkey.append unspaces_colon).append (prettyAt_unspaces depth value)
    have hmore := prettyEntries_unspaces depth (other :: entries)
    exact (hentry.append (unspaces_mark "," (by decide))).append hmore

end

theorem unspaced_pretty (value : Json) : unspaced value.pretty = value.compact :=
  (prettyAt_unspaces 0 value).whole

/-- A blank behind an escaped quote is still inside its text. -/
example : unspaced "[\n  \"a\\\" : b\",\n  \x7b\x7d\n]" = "[\"a\\\" : b\",\x7b\x7d]" := by decide

end MacroPlugin.Json
