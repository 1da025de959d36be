import MacroPlugin.Json.Lexeme
import MacroPlugin.Json.Value
import MacroPlugin.Proofs.Text.Encoding

/-!
Texts and literals read back. A written text is its characters with the escapes that `Json.escape`
chooses, and a reader behind the opening quote gathers exactly the octets of those characters. Of
an accepted text that is cut short, the reader can only say that the input ended: what it has seen
so far, it accepts with any continuation.
-/

namespace MacroPlugin.Json

/-! Literals -/

theorem readExactly_append (wanted rest : Octets) :
    readExactly wanted (wanted ++ rest) = .ok rest := by
  induction wanted with
  | nil => rfl
  | cons octet wanted ih => simp only [List.cons_append, readExactly, if_pos, ih]

theorem readExactly_cut {wanted front back : Octets} (hcut : wanted = front ++ back)
    (hback : back ≠ []) : readExactly wanted front = .error (.here .endOfValue []) := by
  induction front generalizing wanted with
  | nil =>
    cases wanted with
    | nil => exact absurd (by simpa using hcut.symm) hback
    | cons octet wanted => rfl
  | cons octet front ih =>
    subst hcut
    simp only [List.cons_append, readExactly, if_pos]
    exact ih rfl

/-! Texts -/

/-- What stands behind the opening quote of a written text. -/
def textBody (text : String) : Octets :=
  text.toList.flatMap (fun c => Octets.ofText (escape c)) ++ [Ascii.quote]

theorem ofText_quote (text : String) :
    Octets.ofText (quote text) = Ascii.quote :: textBody text := by
  unfold quote textBody
  rw [Octets.ofText_append, Octets.ofText_append, Octets.ofText_join, List.flatMap_map]
  rfl

/-- Octets that stand for themselves inside a text. -/
def IsPlain (octet : UInt8) : Prop :=
  octet ≠ Ascii.quote ∧ octet ≠ Ascii.backslash ∧ Ascii.space ≤ octet

theorem gatherText_plain {octets : Octets} (hplain : ∀ octet ∈ octets, IsPlain octet)
    (taken tail : Octets) :
    gatherText .plain taken (octets ++ tail) =
      gatherText .plain (octets.reverse ++ taken) tail := by
  induction octets generalizing taken with
  | nil => rfl
  | cons octet octets ih =>
    obtain ⟨hquote, hslash, hspace⟩ := hplain octet (by simp)
    have hnot : ¬ octet < Ascii.space := UInt8.not_lt.mpr hspace
    rw [List.cons_append, gatherText]
    simp only [TextState.ends, TextState.step, hquote, hslash, hnot, decide_false,
      Bool.false_eq_true, if_false]
    rw [ih (fun other hmem => hplain other (by simp [hmem]))]
    simp

/-- The escape of a control character: four digits that denote its code point. -/
theorem hexEscape_octets : ∀ n < 0x20,
    ∃ high low, Octets.ofText (hexEscape n) = [0x5C, 0x75, 0x30, 0x30, high, low] ∧
      hexValue? [low, high, 0x30, 0x30] = some n ∧ 0x20 ≤ high ∧ 0x20 ≤ low := by
  intro n hn
  refine ⟨(Nat.digitChar (n / 16)).toNat.toUInt8, (Nat.digitChar (n % 16)).toNat.toUInt8, ?_⟩
  revert n
  decide

theorem gatherText_hexEscape (c : Char) (hc : c.toNat < 0x20) (taken tail : Octets) :
    gatherText .plain taken (.ofText (hexEscape c.toNat) ++ tail) =
      gatherText .plain ((String.utf8EncodeChar c).reverse ++ taken) tail := by
  obtain ⟨high, low, hoctets, hvalue, -, -⟩ := hexEscape_octets c.toNat hc
  have htrail : isTrailSurrogate c.toNat = false := by
    simp only [isTrailSurrogate, Bool.and_eq_false_iff, decide_eq_false_iff_not]
    omega
  have hlead : isLeadSurrogate c.toNat = false := by
    simp only [isLeadSurrogate, Bool.and_eq_false_iff, decide_eq_false_iff_not]
    omega
  rw [hoctets]
  simp [gatherText, TextState.ends, TextState.step, TextState.complete, isHexMark, Ascii.quote,
    Ascii.backslash, hvalue, htrail, hlead]

/-- A character that needs no escape is written in plain octets. -/
theorem encodeChar_plain {c : Char} (hquote : c ≠ '"') (hslash : c ≠ '\\')
    (hcontrol : 0x20 ≤ c.toNat) : ∀ octet ∈ String.utf8EncodeChar c, IsPlain octet := by
  intro octet hmem
  by_cases hascii : c.toNat < 0x80
  · rw [Octets.encodeChar_of_ascii hascii, List.mem_singleton] at hmem
    have hoctet : octet.toNat = c.toNat := by
      rw [hmem, UInt8.toNat_ofNat', Nat.mod_eq_of_lt (by omega)]
    refine ⟨?_, ?_, ?_⟩
    · rintro rfl
      exact hquote (Char.toNat_inj.mp hoctet.symm)
    · rintro rfl
      exact hslash (Char.toNat_inj.mp hoctet.symm)
    · rw [UInt8.le_iff_toNat_le, hoctet]
      exact hcontrol
  · have hhigh := Octets.encodeChar_ge (Nat.le_of_not_lt hascii) octet hmem
    rw [UInt8.le_iff_toNat_le] at hhigh
    refine ⟨?_, ?_, UInt8.le_iff_toNat_le.mpr (Nat.le_trans (by decide) hhigh)⟩
    · rintro rfl
      exact absurd hhigh (by decide)
    · rintro rfl
      exact absurd hhigh (by decide)

/-- A reader gathers the octets of a character from the way the character is written. -/
theorem gatherText_escape (c : Char) (taken tail : Octets) :
    gatherText .plain taken (.ofText (escape c) ++ tail) =
      gatherText .plain ((String.utf8EncodeChar c).reverse ++ taken) tail := by
  unfold escape
  split
  case h_8 hquote hslash _ _ _ _ _ =>
    split
    · next hcontrol => exact gatherText_hexEscape c hcontrol taken tail
    · next hcontrol =>
      rw [Octets.ofText_singleton]
      exact gatherText_plain (encodeChar_plain hquote hslash (Nat.le_of_not_lt hcontrol)) taken tail
  all_goals rfl

/-- No character is written with an octet below the space. -/
theorem escape_unbroken (c : Char) : Octets.Unbroken (Octets.ofText (escape c)) := by
  unfold escape
  split
  case h_8 hquote hslash _ _ _ _ _ =>
    split
    · next hcontrol =>
      obtain ⟨high, low, hoctets, -, hhigh, hlow⟩ := hexEscape_octets c.toNat hcontrol
      rw [hoctets]
      intro octet hmem
      simp only [List.mem_cons, List.not_mem_nil, or_false] at hmem
      rcases hmem with rfl | rfl | rfl | rfl | rfl | rfl
      · decide
      · decide
      · decide
      · decide
      · exact hhigh
      · exact hlow
    · next hcontrol =>
      rw [Octets.ofText_singleton]
      intro octet hmem
      exact (encodeChar_plain hquote hslash (Nat.le_of_not_lt hcontrol) octet hmem).2.2
  all_goals decide

theorem quote_unbroken (text : String) : Octets.Unbroken (Octets.ofText (quote text)) := by
  intro octet hmem
  simp only [ofText_quote, textBody, List.mem_cons, List.mem_append, List.mem_flatMap,
    List.not_mem_nil, or_false] at hmem
  rcases hmem with rfl | ⟨c, -, hmem⟩ | rfl
  · decide
  · exact escape_unbroken c octet hmem
  · decide

theorem gatherText_escapes (text : List Char) (taken rest : Octets) :
    gatherText .plain taken
        (text.flatMap (fun c => Octets.ofText (escape c)) ++ Ascii.quote :: rest) =
      .ok (taken.reverse ++ text.flatMap String.utf8EncodeChar, rest) := by
  induction text generalizing taken with
  | nil => simp [gatherText, TextState.ends]
  | cons c text ih =>
    simp only [List.flatMap_cons, List.append_assoc]
    rw [gatherText_escape, ih]
    simp

/-- A written text is read as that text. -/
theorem readText_textBody (text : String) (rest : Octets) :
    readText (textBody text ++ rest) = .ok (text, rest) := by
  unfold readText textBody
  rw [List.append_assoc, List.singleton_append, gatherText_escapes, List.reverse_nil,
    List.nil_append, ← Octets.ofText_eq_flatMap]
  simp only [bind, Except.bind, Octets.toText?_ofText]

/-- What lies behind the closing quote plays no part; without one, only the end is at fault. -/
theorem gatherText_append {state : TextState} {taken front back octets rest : Octets}
    (h : gatherText state taken (front ++ back) = .ok (octets, rest)) :
    gatherText state taken front = .error (.here .endOfText []) ∨
      ∃ behind, rest = behind ++ back ∧ gatherText state taken front = .ok (octets, behind) := by
  induction front generalizing state taken with
  | nil => exact .inl rfl
  | cons octet front ih =>
    rw [List.cons_append, gatherText] at h
    rw [gatherText]
    split at h
    · next hends =>
      simp only [Except.ok.injEq, Prod.mk.injEq] at h
      rw [if_pos hends]
      exact .inr ⟨front, h.2.symm, by rw [h.1]⟩
    · next hends =>
      rw [if_neg hends]
      split at h
      · next next added hstep => exact ih h
      · simp at h

theorem readText_cut {text : String} {front back : Octets} (hcut : textBody text = front ++ back)
    (hback : back ≠ []) : readText front = .error (.here .endOfText []) := by
  have hwhole := gatherText_escapes text.toList [] []
  rw [← textBody, hcut] at hwhole
  rcases gatherText_append hwhole with hended | ⟨behind, hrest, -⟩
  · unfold readText
    rw [hended]
    rfl
  · exact absurd (List.append_eq_nil_iff.mp hrest.symm).2 hback

end MacroPlugin.Json
