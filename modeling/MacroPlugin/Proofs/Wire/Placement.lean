import MacroPlugin.Proofs.Wire.Fuel

/-!
The place of a value makes no difference to what it is read as: neither the blanks in front of it,
nor what is behind it, nor how much fuel there is. In particular blanks behind a text change
nothing, whether the text can be read or not.
-/

namespace MacroPlugin.Wire

open Json

theorem Blank.append {front back : Octets} (hfront : Blank front) (hback : Blank back) :
    Blank (front ++ back) := by
  intro octet hmem
  rcases List.mem_append.mp hmem with hmem | hmem
  · exact hfront octet hmem
  · exact hback octet hmem

theorem stops_of_blank {behind : Octets} (hbehind : Blank behind) : Stops behind := by
  have hstops := stops_blank hbehind stops_nil
  rwa [List.append_nil] at hstops

/-- Blanks behind sealed octets are not among them. -/
theorem Sealed.split {taken rest front behind : Octets} (hsealed : Sealed taken)
    (hbehind : Blank behind) (hinput : front ++ behind = taken ++ rest) :
    ∃ inner, front = taken ++ inner ∧ rest = inner ++ behind := by
  rcases List.append_eq_append_iff.mp hinput with ⟨inner, htaken, hrest⟩ | ⟨inner, hfront, hrest⟩
  · have hinner : inner = [] := by
      by_contra hsome
      have hlast := hsealed (inner.getLast hsome) (by
        rw [htaken, List.getLast?_append, List.getLast?_eq_some_getLast hsome]
        rfl)
      have hblank := hbehind (inner.getLast hsome) (by
        rw [hrest]
        exact List.mem_append_left rest (List.getLast_mem hsome))
      rw [hlast] at hblank
      exact absurd hblank (by simp)
    subst hinner
    exact ⟨[], by simpa using htaken.symm, by simpa using hrest.symm⟩
  · exact ⟨inner, hfront, hrest⟩

/-- A reader that takes something reads the same with blanks behind. -/
theorem Whole.behind {α : Type} {reader : Reader α} (h : Whole reader) {front behind : Octets}
    (hbehind : Blank behind) {value : α} :
    (∃ rest, reader (front ++ behind) = .ok (value, rest) ∧ Blank rest) ↔
      ∃ rest, reader front = .ok (value, rest) ∧ Blank rest := by
  have hstops := stops_of_blank hbehind
  constructor
  · rintro ⟨rest, hread, hrest⟩
    obtain ⟨taken, hinput, htaken⟩ := h.takes hread
    obtain ⟨inner, rfl, rfl⟩ := htaken.split hbehind hinput
    exact ⟨inner, (h.frame (.inr hstops)).mp hread, (Blank.of_append hrest).1⟩
  · rintro ⟨rest, hread, hrest⟩
    exact ⟨rest ++ behind, (h.frame (.inr hstops)).mpr hread, Blank.append hrest hbehind⟩

section Inputs

variable {schema : Schema} {value : schema.Val} {input behind : Octets}

/-- What it means to be read as a whole, with any fuel that suffices. -/
theorem Schema.readAll_eq_ok {fuel : Nat} (hfuel : input.length < fuel) :
    schema.readAll input = .ok value ↔
      ∃ rest, schema.read fuel input = .ok (value, rest) ∧ Blank rest := by
  have hsame := Schema.read_same (Nat.le_refl (input.length + 1)) hfuel schema input
    (Nat.lt_succ_self _)
  unfold readAll
  rw [hsame]
  cases schema.read fuel input with
  | error fault => simp
  | ok result =>
    obtain ⟨value', rest⟩ := result
    dsimp only
    cases hskip : skipBlank rest with
    | nil =>
      have hrest : Blank rest := skipBlank_eq_nil_iff.mp hskip
      constructor
      · intro h
        exact ⟨rest, by rw [Except.ok.inj h], hrest⟩
      · rintro ⟨rest', h, -⟩
        rw [(ok_pair_inj h).1]
    | cons octet rest' =>
      have hnot : ¬ Blank rest := fun hblank => by simp [skipBlank_blank hblank] at hskip
      constructor
      · intro h
        exact absurd h (by simp)
      · rintro ⟨left, h, hleft⟩
        rw [← (ok_pair_inj h).2] at hleft
        exact absurd hleft hnot

/-- Blanks behind a text neither help nor hurt it. -/
theorem Schema.readAll_behind (hbehind : Blank behind) :
    schema.readAll (input ++ behind) = .ok value ↔ schema.readAll input = .ok value := by
  have hlength : input.length < (input ++ behind).length + 1 := by
    rw [List.length_append]
    omega
  rw [readAll_eq_ok (Nat.lt_succ_self _), readAll_eq_ok hlength]
  exact (schema.read_whole _).behind hbehind

end Inputs

section Codec

variable {α : Type} [Wire α] {input behind : Octets} {message : α}

theorem decode_eq_ok :
    decode α input = .ok message ↔ (schema α).readAll input = .ok (values.forth message) := by
  unfold decode
  cases (schema α).readAll input with
  | error e => simp [Except.map]
  | ok value =>
    simp only [Except.map, Except.ok.injEq]
    constructor
    · rintro rfl
      rw [values.forth_back]
    · rintro rfl
      rw [values.back_forth]

theorem decode_behind (hbehind : Blank behind) :
    decode α (input ++ behind) = .ok message ↔ decode α input = .ok message := by
  rw [decode_eq_ok, decode_eq_ok]
  exact Schema.readAll_behind hbehind

end Codec

end MacroPlugin.Wire
