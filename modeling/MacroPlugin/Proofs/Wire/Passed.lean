import MacroPlugin.Proofs.Json.Recognition
import MacroPlugin.Proofs.Wire.Places

/-!
What was skipped is a value. Skipping passes over well-formed values only, whatever containers it
starts in; and since a reader stops where skipping does, a reader that succeeds has read the text of
a value with blanks in front of it.
-/

namespace MacroPlugin

namespace Json

theorem skipBlank_split {input rest : Octets} {octet : UInt8}
    (h : skipBlank input = octet :: rest) :
    ∃ blanks, Blank blanks ∧ input = blanks ++ octet :: rest := by
  refine ⟨input.takeWhile isBlank, ?_, ?_⟩
  · intro octet hmem
    have hblank := List.mem_takeWhile_imp hmem
    exact hblank
  · rw [← h]
    exact List.takeWhile_append_dropWhile.symm

/-- An octet begins at most one literal. -/
theorem Literal.octets_of_ofFirst? {octet : UInt8} {literal : Literal}
    (h : Literal.ofFirst? octet = some literal) : literal.octets = octet :: literal.remainder := by
  unfold Literal.ofFirst? at h
  split at h
  · next hoctet => rw [← Option.some.inj h, hoctet]; rfl
  · split at h
    · next hoctet => rw [← Option.some.inj h, hoctet]; rfl
    · split at h
      · next hoctet => rw [← Option.some.inj h, hoctet]; rfl
      · simp at h

/-- An octet opens at most one container. -/
theorem Skip.Container.opening_of_ofFirst? {octet : UInt8} {container : Skip.Container}
    (h : Skip.Container.ofFirst? octet = some container) : container.opening = octet := by
  unfold Skip.Container.ofFirst? at h
  split at h
  · next hoctet => rw [← Option.some.inj h, hoctet]; rfl
  · split at h
    · next hoctet => rw [← Option.some.inj h, hoctet]; rfl
    · simp at h

end Json

namespace Wire

open Json

theorem readColon_split {input rest : Octets} (h : readColon input = .ok rest) :
    ∃ blanks, Blank blanks ∧ input = blanks ++ Ascii.colon :: rest := by
  rw [readColon_eq] at h
  obtain ⟨octet, behind, hskip, hrest⟩ := leading_eq_ok.mp h
  split at hrest
  · next hcolon =>
    obtain rfl := Except.ok.inj hrest
    rw [hcolon] at hskip
    exact skipBlank_split hskip
  · simp at hrest

namespace Skip

open Json.Skip

variable {input rest : Octets}

/-- A value without parts that was passed over is one. -/
theorem scalar_split {octet : UInt8} (h : scalar octet input = .ok rest) :
    ∃ value, IsValue (octet :: value) ∧ input = value ++ rest := by
  unfold scalar at h
  split at h
  · next literal hliteral =>
    refine ⟨literal.remainder, ?_, readExactly_eq_ok.mp h⟩
    rw [← Literal.octets_of_ofFirst? hliteral]
    exact .literal literal
  · split at h
    · next hquote =>
      obtain ⟨body, hbody, rfl⟩ := text_eq_ok h
      refine ⟨body ++ [Ascii.quote], ?_, by simp⟩
      rw [hquote]
      exact .text hbody
    · split at h
      · next hminus =>
        obtain ⟨whole, fraction, exponent, hwhole, hfraction, hexponent, rfl⟩ := magnitude_eq_ok h
        refine ⟨whole ++ (fraction ++ exponent), ?_, by simp⟩
        rw [hminus]
        exact .number (.mk (.inr rfl) hwhole hfraction hexponent)
      · split at h
        · obtain ⟨whole, fraction, exponent, hwhole, hfraction, hexponent, hinput⟩ :=
            magnitude_eq_ok h
          have hnumber : IsNumber ([] ++ (whole ++ (fraction ++ exponent))) :=
            .mk (.inl rfl) hwhole hfraction hexponent
          cases whole with
          | nil =>
            -- A whole part is not empty.
            rcases hwhole with hzero | ⟨⟨hsome, -⟩, -⟩
            · simp at hzero
            · exact absurd rfl hsome
          | cons first whole =>
            obtain ⟨rfl, rfl⟩ := List.cons.inj hinput
            exact ⟨whole ++ (fraction ++ exponent), .number hnumber, by simp⟩
        · simp at h

/-- What precedes the value of a part takes in the blanks behind it. -/
theorem label_split {container : Container} (h : container.label input = .ok rest) :
    ∃ label, input = label ++ rest ∧
      ∀ {blanks}, Blank blanks → IsLabel container (label ++ blanks) := by
  cases container with
  | list => exact ⟨[], Except.ok.inj h, fun hblanks => .list hblanks⟩
  | object =>
    rw [label_object_eq] at h
    obtain ⟨octet, behind, hskip, hkeyed⟩ := leading_eq_ok.mp h
    split at hkeyed
    · next hquote =>
      obtain ⟨blanks, hblanks, rfl⟩ := skipBlank_split hskip
      obtain ⟨behind', htext, hcolon⟩ := bind_eq_ok.mp hkeyed
      obtain ⟨key, hkey, rfl⟩ := text_eq_ok htext
      obtain ⟨before, hbefore, rfl⟩ := readColon_split hcolon
      refine ⟨blanks ++ Ascii.quote :: (key ++ Ascii.quote :: (before ++ [Ascii.colon])), ?_, ?_⟩
      · rw [hquote]
        simp
      · intro behind hbehind
        have hlabel : IsLabel .object (blanks ++ Ascii.quote :: (key ++ Ascii.quote ::
            (before ++ Ascii.colon :: behind))) := .object hblanks hkey hbefore hbehind
        simpa using hlabel
    · simp at hkeyed

/-- Behind a part of a container there is a comma and a further part, or the end. -/
theorem passOn_split {container : Container} {outer : List Container}
    (h : passOn (container :: outer) input = .ok rest) :
    ∃ blanks behind, Blank blanks ∧
      ((input = blanks ++ Ascii.comma :: behind ∧
          container.label behind >>= pass (container :: outer) = .ok rest) ∨
        (input = blanks ++ container.close :: behind ∧ passOn outer behind = .ok rest)) := by
  unfold passOn at h
  obtain ⟨⟨still, behind⟩, hclose, -⟩ := bind_eq_ok.mp h
  rw [close_cons_eq] at hclose
  obtain ⟨octet, behind', hskip, hclose⟩ := leading_eq_ok.mp hclose
  obtain ⟨blanks, hblanks, hinput⟩ := skipBlank_split hskip
  refine ⟨blanks, behind', hblanks, ?_⟩
  split at hclose
  · next hcomma =>
    subst hcomma
    exact .inl ⟨hinput, (passOn_comma hskip).symm.trans h⟩
  · split at hclose
    · next hend =>
      subst hend
      exact .inr ⟨hinput, (passOn_close hskip).symm.trans h⟩
    · simp at hclose

/-- What is passed over first, from a place in front of a value, is a value. -/
def PassesValue (input : Octets) : Prop :=
  ∀ {outer rest}, pass outer input = .ok rest → ∃ blanks value behind, Blank blanks ∧
    IsValue value ∧ input = blanks ++ (value ++ behind) ∧ passOn outer behind = .ok rest

/-- What is passed over first, from a place in front of a part, are parts. -/
def PassesParts (input : Octets) : Prop :=
  ∀ {container outer rest},
    Container.label container input >>= pass (container :: outer) = .ok rest →
      ∃ parts behind, IsParts container parts ∧ input = parts ++ behind ∧
        passOn outer behind = .ok rest

/-- A part is a value with a label in front of it, and the parts behind it are fewer. -/
theorem passesParts_of {input : Octets}
    (hvalue : ∀ inner : Octets, inner.length ≤ input.length → PassesValue inner)
    (hparts : ∀ inner : Octets, inner.length < input.length → PassesParts inner) :
    PassesParts input := by
  intro container outer rest h
  obtain ⟨inner, hlabelled, hpass⟩ := bind_eq_ok.mp h
  obtain ⟨label, rfl, hlabel⟩ := label_split hlabelled
  obtain ⟨blanks, value, behind, hblanks, hisValue, rfl, hbehind⟩ :=
    hvalue inner (by simp) hpass
  obtain ⟨blanks', behind, hblanks', ⟨rfl, hmore⟩ | ⟨rfl, hend⟩⟩ := passOn_split hbehind
  · have hshorter : behind.length <
        (label ++ (blanks ++ (value ++ (blanks' ++ Ascii.comma :: behind)))).length := by
      simp only [List.length_append, List.length_cons]
      omega
    obtain ⟨parts, behind, hisParts, rfl, hrest⟩ := hparts behind hshorter hmore
    exact ⟨_, behind, .next (hlabel hblanks) hisValue hblanks' hisParts, by simp, hrest⟩
  · exact ⟨_, behind, .last (hlabel hblanks) hisValue hblanks', by simp, hend⟩

/-- A value has no parts, or it is a container with fewer octets in it. -/
theorem passesValue_of {input : Octets}
    (hparts : ∀ inner : Octets, inner.length < input.length → PassesParts inner) :
    PassesValue input := by
  intro outer rest h
  rw [pass_eq] at h
  obtain ⟨octet, behind, hskip, hturn⟩ := leading_eq_ok.mp h
  obtain ⟨blanks, hblanks, rfl⟩ := skipBlank_split hskip
  split at hturn
  · obtain ⟨behind', hscalar, hrest⟩ := bind_eq_ok.mp hturn
    obtain ⟨value, hvalue, rfl⟩ := scalar_split hscalar
    exact ⟨blanks, octet :: value, behind', hblanks, hvalue, rfl, hrest⟩
  · next container hfirst =>
    obtain rfl := Container.opening_of_ofFirst? hfirst
    obtain ⟨octet', behind', hskip', hinside⟩ := leading_eq_ok.mp hturn
    split at hinside
    · next hclose =>
      obtain ⟨inner, hinner, rfl⟩ := skipBlank_split hskip'
      refine ⟨blanks, _, behind', hblanks, .empty container hinner, ?_, hinside⟩
      rw [hclose]
      simp
    · next hclose =>
      have hlabel := (passParts_label hskip' hclose).symm.trans hturn
      have hshorter : behind.length < (blanks ++ container.opening :: behind).length := by
        rw [List.length_append, List.length_cons]
        omega
      obtain ⟨parts, behind, hisParts, rfl, hrest⟩ := hparts behind hshorter hlabel
      exact ⟨blanks, container.opening :: parts, behind, hblanks, .parts container hisParts, rfl,
        hrest⟩

theorem passes (input : Octets) : PassesValue input ∧ PassesParts input := by
  -- Inside a container there are fewer octets than with it, but the first value of a list may be
  -- all that its parts begin with; so at each length values come before parts.
  induction hlength : input.length using Nat.strongRecOn generalizing input with
  | _ length ih =>
    have hparts : ∀ {bound}, bound ≤ length → ∀ inner : Octets, inner.length < bound →
        PassesParts inner :=
      fun hbound inner hinner => (ih inner.length (by omega) inner rfl).2
    have hvalue : ∀ inner : Octets, inner.length ≤ length → PassesValue inner :=
      fun inner hinner => passesValue_of (hparts hinner)
    exact ⟨hvalue input (by omega), passesParts_of (by rwa [hlength]) (hparts (by omega))⟩

end Skip

/-- A reader that succeeds has read a value, with blanks in front of it. -/
theorem Skippable.split {α : Type} {reader : Reader α} (h : Skippable reader) {input rest : Octets}
    {value : α} (hread : reader input = .ok (value, rest)) :
    ∃ blanks text, Blank blanks ∧ IsValue text ∧ input = blanks ++ (text ++ rest) := by
  have hpass : Skip.pass [] input = .ok rest := h hread []
  obtain ⟨blanks, text, behind, hblanks, htext, rfl, hrest⟩ := (Skip.passes input).1 hpass
  obtain rfl := Except.ok.inj hrest
  exact ⟨blanks, text, hblanks, htext, rfl⟩

end Wire

end MacroPlugin
