import Mathlib.Data.List.TakeWhile
import MacroPlugin.Proofs.Json.Grammar

/-!
What was taken for a text or a number is one. A text that was read is spelled by the octets up to
its closing quote; a text that was passed over has the form of one; and what was passed over as a
number is sign, whole part, fraction and exponent.

A text is read octet by octet, while a spelling is made of characters. The two meet because an
escape stands for whole characters: an octet that continues a character can only be continued by
octets that stand for themselves.
-/

namespace MacroPlugin.Json

/-! Texts that were read -/

/-- The ways to escape a character. -/
inductive IsEscape : Char → Octets → Prop
  | short {letter meant : UInt8} (hletter : shortEscape? letter = some meant) :
      IsEscape (Char.ofNat meant.toNat) [Ascii.backslash, letter]
  | hex {digits : Octets} {value : Nat} (hdigits : HexDigits digits value)
      (hlead : isLeadSurrogate value = false) (htrail : isTrailSurrogate value = false) :
      IsEscape (Char.ofNat value) (Ascii.backslash :: 0x75 :: digits)
  | pair {digits digits' : Octets} {lead trail : Nat} (hdigits : HexDigits digits lead)
      (hlead : isLeadSurrogate lead = true) (hdigits' : HexDigits digits' trail)
      (htrail : isTrailSurrogate trail = true) :
      IsEscape (Char.ofNat (joinSurrogates lead trail))
        (Ascii.backslash :: 0x75 :: (digits ++ Ascii.backslash :: 0x75 :: digits'))

theorem IsEscape.spells {c : Char} {escape octets : Octets} {text : List Char}
    (h : IsEscape c escape) (htext : Spells text octets) : Spells (c :: text) (escape ++ octets) := by
  cases h with
  | short hletter => exact .short hletter htext
  | hex hdigits hlead htrail => exact .hex hdigits hlead htrail htext
  | pair hdigits hlead hdigits' htrail =>
    rw [List.cons_append, List.cons_append, List.append_assoc, List.cons_append, List.cons_append]
    exact .pair hdigits hlead hdigits' htrail htext

/-- What octets between two quotes add to a text, one octet or escape after the other. -/
inductive Adds : Octets → Octets → Prop
  | nil : Adds [] []
  | plain {octet : UInt8} {octets added : Octets} (hplain : IsPlain octet)
      (h : Adds octets added) : Adds (octet :: octets) (octet :: added)
  | escape {c : Char} {escape octets added : Octets} (hescape : IsEscape c escape)
      (h : Adds octets added) : Adds (escape ++ octets) (String.utf8EncodeChar c ++ added)

/-- Octets that continue a character stand for themselves. -/
theorem Adds.continued {octets others added : Octets}
    (hothers : ∀ octet ∈ others, ¬ octet.IsUTF8FirstByte) (h : Adds octets (others ++ added)) :
    ∃ behind, octets = others ++ behind ∧ (∀ octet ∈ others, IsPlain octet) ∧
      Adds behind added := by
  induction others generalizing octets with
  | nil => exact ⟨octets, rfl, by simp, h⟩
  | cons other others ih =>
    rw [List.cons_append] at h
    generalize hall : other :: (others ++ added) = all at h
    cases h with
    | nil => simp at hall
    | plain hplain hmore =>
      obtain ⟨rfl, rfl⟩ := List.cons.inj hall
      obtain ⟨behind, rfl, hrest, hbehind⟩ :=
        ih (fun octet hmem => hothers octet (List.mem_cons_of_mem other hmem)) hmore
      exact ⟨behind, rfl, List.forall_mem_cons.mpr ⟨hplain, hrest⟩, hbehind⟩
    | @escape c escape octets' added' hescape hmore =>
      obtain ⟨first, rest, hencode, hfirst, -⟩ := Octets.encodeChar_first c
      rw [hencode, List.cons_append] at hall
      rw [← (List.cons.inj hall).1] at hfirst
      exact absurd hfirst (hothers other List.mem_cons_self)

/-- A character that stands for itself. -/
theorem Spells.plainly {c : Char} {text : List Char} {octets : Octets}
    (hplain : ∀ octet ∈ String.utf8EncodeChar c, IsPlain octet) (h : Spells text octets) :
    Spells (c :: text) (String.utf8EncodeChar c ++ octets) := by
  have hascii : c.toNat < 0x80 → IsPlain c.toNat.toUInt8 := by
    intro hc
    apply hplain
    rw [Octets.encodeChar_of_ascii hc]
    exact List.mem_singleton_self _
  refine .plain ?_ ?_ ?_ h
  · rintro rfl
    exact (hascii (by decide)).1 rfl
  · rintro rfl
    exact (hascii (by decide)).2.1 rfl
  · by_contra hcontrol
    have hspace := (hascii (by omega)).2.2
    rw [UInt8.le_iff_toNat_le, Nat.toUInt8, UInt8.toNat_ofNat', Nat.mod_eq_of_lt (by omega)]
      at hspace
    exact hcontrol hspace

/-- What adds the octets of a text spells the text. -/
theorem Adds.spells {text : List Char} {octets : Octets}
    (h : Adds octets (text.flatMap String.utf8EncodeChar)) : Spells text octets := by
  induction text generalizing octets with
  | nil =>
    rw [List.flatMap_nil] at h
    generalize hall : ([] : Octets) = all at h
    cases h with
    | nil => exact .nil
    | plain => simp at hall
    | escape => simp [String.utf8EncodeChar_ne_nil] at hall
  | cons c text ih =>
    rw [List.flatMap_cons] at h
    generalize hall : String.utf8EncodeChar c ++ text.flatMap String.utf8EncodeChar = all at h
    obtain ⟨first, others, hencode, -, hothers⟩ := Octets.encodeChar_first c
    cases h with
    | nil => simp [hencode] at hall
    | plain hplain hmore =>
      rw [hencode, List.cons_append] at hall
      obtain ⟨rfl, rfl⟩ := List.cons.inj hall
      obtain ⟨behind, rfl, hrest, hbehind⟩ := hmore.continued hothers
      have hspelled := Spells.plainly (c := c) (by
        rw [hencode]
        exact List.forall_mem_cons.mpr ⟨hplain, hrest⟩) (ih hbehind)
      rwa [hencode] at hspelled
    | escape hescape hmore =>
      obtain ⟨rfl, rfl⟩ := Octets.encodeChar_append_inj hall
      exact hescape.spells (ih hmore)

section Gathering

variable {state : TextState} {taken input octets rest : Octets}

/-- Inside an escape nothing ends the text: one more octet is taken in. -/
theorem gatherText_inside (hstate : state ≠ .plain)
    (h : gatherText state taken input = .ok (octets, rest)) :
    ∃ octet behind next added, input = octet :: behind ∧ state.step octet = .ok (next, added) ∧
      gatherText next (added.reverse ++ taken) behind = .ok (octets, rest) := by
  cases input with
  | nil => simp [gatherText] at h
  | cons octet behind =>
    have hends : state.ends octet = false := by cases state <;> simp [TextState.ends] at hstate ⊢
    rw [gatherText, hends] at h
    cases hstep : state.step octet with
    | error cause => simp [hstep] at h
    | ok result =>
      obtain ⟨next, added⟩ := result
      simp only [hstep, Bool.false_eq_true, if_false] at h
      exact ⟨octet, behind, next, added, rfl, hstep, h⟩

/-- Behind the mark of a hexadecimal escape there are four digits. -/
theorem gatherText_digits {lead : Option Nat}
    (h : gatherText (.hex lead []) taken input = .ok (octets, rest)) :
    ∃ digits value behind next added, input = digits ++ behind ∧ HexDigits digits value ∧
      TextState.complete lead value = .ok (next, added) ∧
      gatherText next (added.reverse ++ taken) behind = .ok (octets, rest) := by
  have hdigit : ∀ {seen input}, seen.length < 3 →
      gatherText (.hex lead seen) taken input = .ok (octets, rest) →
      ∃ digit behind, input = digit :: behind ∧
        gatherText (.hex lead (digit :: seen)) taken behind = .ok (octets, rest) := by
    intro seen input hseen h
    obtain ⟨digit, behind, next, added, rfl, hstep, h⟩ := gatherText_inside (by simp) h
    rw [TextState.step, if_pos hseen] at hstep
    obtain ⟨rfl, rfl⟩ := Prod.mk.inj (Except.ok.inj hstep)
    exact ⟨digit, behind, rfl, h⟩
  obtain ⟨a, input', rfl, ha⟩ := hdigit (by decide) h
  obtain ⟨b, input', rfl, hb⟩ := hdigit (by simp) ha
  obtain ⟨c, input', rfl, hc⟩ := hdigit (by simp) hb
  obtain ⟨d, behind, next, added, rfl, hstep, h⟩ := gatherText_inside (by simp) hc
  rw [TextState.step, if_neg (by simp)] at hstep
  cases hvalue : hexValue? [d, c, b, a] with
  | none => simp [hvalue] at hstep
  | some value =>
    simp only [hvalue] at hstep
    exact ⟨[a, b, c, d], value, behind, next, added, rfl, ⟨rfl, hvalue⟩, hstep, h⟩

/-- Behind the first half of a surrogate pair there is the second half. -/
theorem gatherText_secondHalf {lead : Nat}
    (h : gatherText (.pair lead) taken input = .ok (octets, rest)) :
    ∃ digits trail behind, input = Ascii.backslash :: 0x75 :: (digits ++ behind) ∧
      HexDigits digits trail ∧ isTrailSurrogate trail = true ∧
      gatherText .plain ((String.utf8EncodeChar
        (Char.ofNat (joinSurrogates lead trail))).reverse ++ taken) behind = .ok (octets, rest) := by
  obtain ⟨slash, behind, next, added, rfl, hstep, h⟩ := gatherText_inside (by simp) h
  rw [TextState.step] at hstep
  split at hstep
  · next hslash =>
    obtain ⟨rfl, rfl⟩ := Prod.mk.inj (Except.ok.inj hstep)
    obtain ⟨mark, behind, next, added, rfl, hstep, h⟩ := gatherText_inside (by simp) h
    rw [TextState.step] at hstep
    split at hstep
    · next hmark =>
      obtain ⟨rfl, rfl⟩ := Prod.mk.inj (Except.ok.inj hstep)
      obtain ⟨digits, trail, behind, next, added, rfl, hdigits, hcomplete, h⟩ :=
        gatherText_digits h
      rw [TextState.complete] at hcomplete
      split at hcomplete
      · next htrail =>
        obtain ⟨rfl, rfl⟩ := Prod.mk.inj (Except.ok.inj hcomplete)
        rw [isHexMark, decide_eq_true_eq] at hmark
        exact ⟨digits, trail, behind, by rw [hslash, hmark], hdigits, htrail, h⟩
      · simp at hcomplete
    · simp at hstep
  · simp at hstep

/-- Behind a backslash there is the rest of an escape. -/
theorem gatherText_behindSlash (h : gatherText .escape taken input = .ok (octets, rest)) :
    ∃ c escape behind, input = escape ++ behind ∧ IsEscape c (Ascii.backslash :: escape) ∧
      gatherText .plain ((String.utf8EncodeChar c).reverse ++ taken) behind = .ok (octets, rest) := by
  obtain ⟨octet, behind, next, added, rfl, hstep, h⟩ := gatherText_inside (by simp) h
  rw [TextState.step] at hstep
  split at hstep
  · next hmark =>
    obtain rfl : octet = 0x75 := by simpa [isHexMark] using hmark
    obtain ⟨rfl, rfl⟩ := Prod.mk.inj (Except.ok.inj hstep)
    obtain ⟨digits, value, behind, next, added, rfl, hdigits, hcomplete, h⟩ := gatherText_digits h
    rw [TextState.complete] at hcomplete
    split at hcomplete
    · simp at hcomplete
    · next htrail =>
      split at hcomplete
      · next hlead =>
        obtain ⟨rfl, rfl⟩ := Prod.mk.inj (Except.ok.inj hcomplete)
        obtain ⟨digits', trail, behind, rfl, hdigits', htrail', h⟩ := gatherText_secondHalf h
        exact ⟨_, 0x75 :: (digits ++ Ascii.backslash :: 0x75 :: digits'), behind, by simp,
          .pair hdigits hlead hdigits' htrail', h⟩
      · next hlead =>
        obtain ⟨rfl, rfl⟩ := Prod.mk.inj (Except.ok.inj hcomplete)
        exact ⟨_, 0x75 :: digits, behind, rfl,
          .hex hdigits (eq_false_of_ne_true hlead) (eq_false_of_ne_true htrail), h⟩
  · split at hstep
    · next meant hletter =>
      obtain ⟨rfl, rfl⟩ := Prod.mk.inj (Except.ok.inj hstep)
      refine ⟨_, [octet], behind, rfl, .short hletter, ?_⟩
      rwa [encodeChar_shortEscape hletter]
    · simp at hstep

/-- What was gathered up to a quote is what the octets in front of it add. -/
theorem gatherText_adds (h : gatherText .plain taken input = .ok (octets, rest)) :
    ∃ body added, input = body ++ Ascii.quote :: rest ∧ octets = taken.reverse ++ added ∧
      Adds body added := by
  -- On the length, since an escape is several octets at once.
  induction hlength : input.length using Nat.strongRecOn generalizing taken input with
  | _ length ih =>
    cases input with
    | nil => simp [gatherText] at h
    | cons octet behind =>
      have hshorter : ∀ {behind' : Octets}, behind'.length ≤ behind.length →
          behind'.length < length := by
        intro behind' hle
        rw [← hlength, List.length_cons]
        omega
      rw [gatherText] at h
      by_cases hquote : octet = Ascii.quote
      · simp only [TextState.ends, hquote, decide_true, if_true, Except.ok.injEq,
          Prod.mk.injEq] at h
        obtain ⟨rfl, rfl⟩ := h
        exact ⟨[], [], by rw [hquote]; rfl, by simp, .nil⟩
      · simp only [TextState.ends, hquote, decide_false, Bool.false_eq_true, if_false,
          TextState.step] at h
        by_cases hslash : octet = Ascii.backslash
        · simp only [hslash, if_true, List.reverse_nil, List.nil_append] at h
          obtain ⟨c, escape, behind', rfl, hescape, h⟩ := gatherText_behindSlash h
          obtain ⟨body, added, rfl, rfl, hadds⟩ := ih _ (hshorter (by simp)) h rfl
          refine ⟨Ascii.backslash :: escape ++ body, String.utf8EncodeChar c ++ added, ?_, ?_,
            .escape hescape hadds⟩
          · rw [hslash]
            simp
          · simp
        · by_cases hspace : octet < Ascii.space
          · simp [hslash, hspace] at h
          · simp only [hslash, hspace, if_false] at h
            obtain ⟨body, added, rfl, rfl, hadds⟩ := ih _ (hshorter (Nat.le_refl _)) h rfl
            have hplain : IsPlain octet := ⟨hquote, hslash, UInt8.not_lt.mp hspace⟩
            exact ⟨octet :: body, octet :: added, rfl, by simp, .plain hplain hadds⟩

end Gathering

/-- Reading a text is finding one of its spellings and a quote behind it. -/
theorem readText_eq_ok {text : String} {input rest : Octets} :
    readText input = .ok (text, rest) ↔
      ∃ spelling, Spells text.toList spelling ∧ input = spelling ++ Ascii.quote :: rest := by
  constructor
  · intro h
    unfold readText at h
    cases hgather : gatherText .plain [] input with
    | error fault => simp [hgather, bind, Except.bind] at h
    | ok result =>
      obtain ⟨octets, behind⟩ := result
      simp only [hgather, bind, Except.bind] at h
      cases htext : octets.toText? with
      | none => simp [htext] at h
      | some value =>
        simp only [htext, Except.ok.injEq, Prod.mk.injEq] at h
        obtain ⟨rfl, rfl⟩ := h
        obtain ⟨body, added, rfl, rfl, hadds⟩ := gatherText_adds hgather
        have hoctets := Octets.ofText_of_toText? htext
        rw [Octets.ofText_eq_flatMap] at hoctets
        rw [← hoctets] at hadds
        exact ⟨body, hadds.spells, rfl⟩
  · rintro ⟨spelling, hspells, rfl⟩
    exact hspells.read rest

namespace Skip

/-! Texts that were passed over -/

section Texts

variable {state : State} {input rest : Octets}

theorem textFrom_inside (hstate : state ≠ .plain) (h : textFrom state input = .ok rest) :
    ∃ octet behind next, input = octet :: behind ∧ state.step octet = .ok next ∧
      textFrom next behind = .ok rest := by
  cases input with
  | nil => simp [textFrom] at h
  | cons octet behind =>
    rw [textFrom, if_neg (by simp [hstate])] at h
    cases hstep : state.step octet with
    | error fault =>
      obtain ⟨cause, taken⟩ := fault
      cases taken <;> simp [hstep] at h
    | ok next =>
      simp only [hstep] at h
      exact ⟨octet, behind, next, rfl, hstep, h⟩

theorem textFrom_digits (h : textFrom (.hex []) input = .ok rest) :
    ∃ digits value behind, input = digits ++ behind ∧ HexDigits digits value ∧
      textFrom .plain behind = .ok rest := by
  have hdigit : ∀ {seen input}, seen.length < 3 → textFrom (.hex seen) input = .ok rest →
      ∃ digit behind, input = digit :: behind ∧
        textFrom (.hex (digit :: seen)) behind = .ok rest := by
    intro seen input hseen h
    obtain ⟨digit, behind, next, rfl, hstep, h⟩ := textFrom_inside (by simp) h
    rw [State.step, if_pos hseen] at hstep
    rw [← Except.ok.inj hstep] at h
    exact ⟨digit, behind, rfl, h⟩
  obtain ⟨a, input', rfl, ha⟩ := hdigit (by decide) h
  obtain ⟨b, input', rfl, hb⟩ := hdigit (by simp) ha
  obtain ⟨c, input', rfl, hc⟩ := hdigit (by simp) hb
  obtain ⟨d, behind, next, rfl, hstep, h⟩ := textFrom_inside (by simp) hc
  rw [State.step, if_neg (by simp)] at hstep
  split at hstep
  · next hsome =>
    obtain ⟨value, hvalue⟩ := Option.isSome_iff_exists.mp hsome
    rw [← Except.ok.inj hstep] at h
    exact ⟨[a, b, c, d], value, behind, rfl, ⟨rfl, hvalue⟩, h⟩
  · simp at hstep

/-- What was passed over up to a quote is the inside of a text. -/
theorem text_eq_ok (h : text input = .ok rest) :
    ∃ body, IsTextBody body ∧ input = body ++ Ascii.quote :: rest := by
  unfold text at h
  induction hlength : input.length using Nat.strongRecOn generalizing input with
  | _ length ih =>
    cases input with
    | nil => simp [textFrom] at h
    | cons octet behind =>
      have hshorter : ∀ {behind' : Octets}, behind'.length ≤ behind.length →
          behind'.length < length := by
        intro behind' hle
        rw [← hlength, List.length_cons]
        omega
      rw [textFrom] at h
      by_cases hquote : octet = Ascii.quote
      · simp only [hquote, decide_true, Bool.and_self, if_true, Except.ok.injEq] at h
        exact ⟨[], .nil, by rw [hquote, h]; rfl⟩
      · simp only [hquote, decide_false, Bool.and_false, Bool.false_eq_true, if_false,
          State.step] at h
        by_cases hslash : octet = Ascii.backslash
        · simp only [hslash, if_true] at h
          obtain ⟨letter, behind, next, rfl, hstep, h⟩ := textFrom_inside (by simp) h
          rw [State.step] at hstep
          split at hstep
          · next hmark =>
            rw [← Except.ok.inj hstep] at h
            rw [isHexMark, decide_eq_true_eq] at hmark
            obtain ⟨digits, value, behind, rfl, hdigits, h⟩ := textFrom_digits h
            obtain ⟨body, hbody, rfl⟩ := ih _ (hshorter (by simp; omega)) h rfl
            exact ⟨_, .hex hdigits.length hdigits.isSome hbody, by simp [hslash, hmark]⟩
          · split at hstep
            · next hletter =>
              rw [← Except.ok.inj hstep] at h
              obtain ⟨body, hbody, rfl⟩ := ih _ (hshorter (by simp)) h rfl
              exact ⟨_, .short hletter hbody, by simp [hslash]⟩
            · simp at hstep
        · by_cases hspace : octet < Ascii.space
          · simp [hslash, hspace] at h
          · simp only [hslash, hspace, if_false] at h
            obtain ⟨body, hbody, rfl⟩ := ih _ (hshorter (Nat.le_refl _)) h rfl
            exact ⟨_, .plain ⟨hquote, hslash, UInt8.not_lt.mp hspace⟩ hbody, rfl⟩

end Texts

/-! Numbers that were passed over -/

section Numbers

variable {input rest : Octets}

theorem digits_split (input : Octets) :
    ∃ row, input = row ++ digits input ∧ ∀ octet ∈ row, (Ascii.digit? octet).isSome = true := by
  refine ⟨input.takeWhile fun octet => (Ascii.digit? octet).isSome,
    List.takeWhile_append_dropWhile.symm, ?_⟩
  intro octet hmem
  have hdigit := List.mem_takeWhile_imp hmem
  exact hdigit

/-- A digit and those behind it. -/
theorem isDigits_cons {octet : UInt8} {row : Octets} (hoctet : (Ascii.digit? octet).isSome = true)
    (hrow : ∀ octet ∈ row, (Ascii.digit? octet).isSome = true) : IsDigits (octet :: row) :=
  ⟨List.cons_ne_nil octet row, List.forall_mem_cons.mpr ⟨hoctet, hrow⟩⟩

theorem exponentIfAny_eq_ok (h : exponentIfAny input = .ok rest) :
    ∃ exponent, IsExponent exponent ∧ input = exponent ++ rest := by
  have hdigits : ∀ {octet behind}, (if (Ascii.digit? octet).isSome then
      .ok (digits behind) else .error (Fault.here .badNumber behind)) = Except.ok rest →
      ∃ row, IsDigits (octet :: row) ∧ behind = row ++ rest := by
    intro octet behind h
    split at h
    · next hoctet =>
      obtain ⟨row, hsplit, hrow⟩ := digits_split behind
      rw [Except.ok.inj h] at hsplit
      exact ⟨row, isDigits_cons hoctet hrow, hsplit⟩
    · simp at h
  cases input with
  | nil => exact ⟨[], .inl rfl, Except.ok.inj h⟩
  | cons mark input =>
    rw [exponentIfAny] at h
    split at h
    · next hmark =>
      cases input with
      | nil => simp [exponent] at h
      | cons octet input =>
        by_cases hsign : octet = Ascii.plus ∨ octet = Ascii.minus
        · rw [exponent] at h
          simp only [Bool.or_eq_true, decide_eq_true_eq, if_pos hsign] at h
          cases input with
          | nil => simp at h
          | cons digit input =>
            obtain ⟨row, hrow, rfl⟩ := hdigits h
            refine ⟨mark :: ([octet] ++ digit :: row), .inr ⟨mark, [octet], digit :: row, hmark, ?_,
              hrow, rfl⟩, rfl⟩
            exact .inr (hsign.imp (by rintro rfl; rfl) (by rintro rfl; rfl))
        · rw [exponent] at h
          simp only [Bool.or_eq_true, decide_eq_true_eq, if_neg hsign] at h
          obtain ⟨row, hrow, rfl⟩ := hdigits h
          exact ⟨mark :: octet :: row, .inr ⟨mark, [], octet :: row, hmark, .inl rfl, hrow, rfl⟩, rfl⟩
    · rw [← Except.ok.inj h]
      exact ⟨[], .inl rfl, rfl⟩

theorem fractionIfAny_eq_ok (h : fractionIfAny input = .ok rest) :
    ∃ fraction exponent, IsFraction fraction ∧ IsExponent exponent ∧
      input = fraction ++ (exponent ++ rest) := by
  cases input with
  | nil => exact ⟨[], [], .inl rfl, .inl rfl, Except.ok.inj h⟩
  | cons octet input =>
    rw [fractionIfAny] at h
    split at h
    · next hpoint =>
      split at h
      · next hstarts =>
        obtain ⟨exponent, hexponent, hbehind⟩ := exponentIfAny_eq_ok h
        obtain ⟨row, hsplit, hrow⟩ := digits_split input
        have hsome : row ≠ [] := by
          rintro rfl
          cases input with
          | nil => simp [Number.startsWithDigit] at hstarts
          | cons digit input =>
            have hdrop : digits (digit :: input) = digits input := List.dropWhile_cons_of_pos hstarts
            have hlength := congrArg List.length (hdrop.symm.trans hsplit.symm)
            have hle : (digits input).length ≤ input.length := List.length_dropWhile_le _ _
            rw [List.length_cons] at hlength
            omega
        refine ⟨octet :: row, exponent, .inr ⟨row, ⟨hsome, hrow⟩, by rw [hpoint]⟩, hexponent, ?_⟩
        rw [List.cons_append, ← hbehind, ← hsplit]
      · simp at h
    · obtain ⟨exponent, hexponent, hinput⟩ := exponentIfAny_eq_ok h
      exact ⟨[], exponent, .inl rfl, hexponent, hinput⟩

theorem magnitude_eq_ok (h : magnitude input = .ok rest) :
    ∃ whole fraction exponent, IsWholePart whole ∧ IsFraction fraction ∧ IsExponent exponent ∧
      input = whole ++ (fraction ++ (exponent ++ rest)) := by
  cases input with
  | nil => simp [magnitude] at h
  | cons octet input =>
    rw [magnitude] at h
    cases hdigit : Ascii.digit? octet with
    | none => simp [hdigit] at h
    | some digit =>
      cases digit with
      | zero =>
        simp only [hdigit] at h
        split at h
        · simp at h
        · obtain ⟨fraction, exponent, hfraction, hexponent, rfl⟩ := fractionIfAny_eq_ok h
          have hwhole : IsWholePart [octet] := .inl (by rw [digit?_eq_zero hdigit])
          exact ⟨[octet], fraction, exponent, hwhole, hfraction, hexponent, rfl⟩
      | succ digit =>
        simp only [hdigit] at h
        obtain ⟨fraction, exponent, hfraction, hexponent, hbehind⟩ := fractionIfAny_eq_ok h
        obtain ⟨row, hsplit, hrow⟩ := digits_split input
        have hne : octet ≠ Ascii.zero := by
          rintro rfl
          have hzero : Ascii.digit? Ascii.zero = some 0 := by decide
          simp [hzero] at hdigit
        refine ⟨octet :: row, fraction, exponent, .inr ⟨?_, by simpa using hne⟩, hfraction,
          hexponent, ?_⟩
        · exact isDigits_cons (by rw [hdigit]; rfl) hrow
        · rw [List.cons_append, ← hbehind, ← hsplit]

end Numbers

end Skip

end MacroPlugin.Json
