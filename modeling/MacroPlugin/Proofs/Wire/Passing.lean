import MacroPlugin.Proofs.Wire.Fuel

/-!
Skipping without fuel, one token after another: what is passed over from a place inside any
containers, from behind a value, and from behind the opening of a container.
-/

namespace MacroPlugin.Wire

open Json

/-- A computation in two parts succeeds when both do. -/
theorem bind_eq_ok {α β : Type} {f : Except Fault α} {g : α → Except Fault β} {result : β} :
    f >>= g = .ok result ↔ ∃ value, f = .ok value ∧ g value = .ok result := by
  cases f <;> simp [bind, Except.bind]

namespace Skip

open Json.Skip

/-- Passes over a value and everything up to the end of the containers around it. -/
def pass (outer : List Container) (input : Octets) : Except Fault Octets :=
  Skip.values (input.length + 1) outer input

/-- Goes on behind a value in these containers. -/
def passOn (outer : List Container) (rest : Octets) : Except Fault Octets := do
  match ← close outer rest with
  | ([], rest) => .ok rest
  | (outer, rest) => pass outer rest

/-- Goes on behind the octet that opens a container. -/
def passParts (container : Container) (outer : List Container) : Octets → Except Fault Octets :=
  leading (.here container.ended []) fun octet rest =>
    if octet = container.close then passOn outer rest
    else container.label (octet :: rest) >>= pass (container :: outer)

theorem values_eq_pass (fuel : Nat) (outer : List Container) :
    SameBelow fuel (Skip.values fuel outer) (pass outer) :=
  fun input hinput => values_same hinput (Nat.le_refl _) outer input (Nat.lt_succ_self _)

theorem resume_eq_passOn (fuel : Nat) (outer : List Container) :
    SameBelow fuel (resume fuel outer) (passOn outer) := by
  intro input hinput
  unfold resume passOn
  match hclose : close outer input with
  | .error fault => rfl
  | .ok ([], rest) => rfl
  | .ok (container :: outer, rest) =>
    have hrest := close_length hclose
    exact values_eq_pass fuel (container :: outer) rest (by omega)

theorem valuesInside_eq_passParts (fuel : Nat) (container : Container) (outer : List Container) :
    SameBelow fuel (valuesInside fuel container outer) (passParts container outer) := by
  refine .lead fun octet rest hrest => ?_
  split
  · exact resume_eq_passOn fuel outer rest (by omega)
  · exact (values_eq_pass fuel (container :: outer)).behind (label_closing container).peeking
      (octet :: rest) hrest

/-- One turn of skipping, without fuel. -/
theorem pass_eq (outer : List Container) :
    pass outer = leading (.here .endOfValue []) fun octet rest =>
      match Container.ofFirst? octet with
      | none => scalar octet rest >>= passOn outer
      | some container => passParts container outer rest := by
  funext input
  unfold pass
  rw [values_succ]
  refine leading_congr fun octet rest hskip => ?_
  have hlength := skipBlank_length hskip
  cases Container.ofFirst? octet with
  | none =>
    exact (resume_eq_passOn input.length outer).behind (scalar_closing octet).peeking rest
      (by omega)
  | some container => exact valuesInside_eq_passParts input.length container outer rest (by omega)

theorem pass_scalar {outer : List Container} {input rest rest' : Octets} {octet : UInt8}
    (hskip : skipBlank input = octet :: rest) (hoctet : Container.ofFirst? octet = none)
    (hscalar : scalar octet rest = .ok rest') : pass outer input = passOn outer rest' := by
  rw [pass_eq, leading_cons hskip, hoctet]
  dsimp only
  rw [hscalar]
  rfl

theorem pass_container {outer : List Container} {input rest : Octets} {octet : UInt8}
    {container : Container} (hskip : skipBlank input = octet :: rest)
    (hoctet : Container.ofFirst? octet = some container) :
    pass outer input = passParts container outer rest := by
  rw [pass_eq, leading_cons hskip, hoctet]

/-- Blanks in front of a value make no difference. -/
theorem pass_skip {outer : List Container} {input input' : Octets}
    (h : skipBlank input = skipBlank input') : pass outer input = pass outer input' := by
  rw [pass_eq]
  exact leading_skip h

theorem passOn_nil (rest : Octets) : passOn [] rest = .ok rest :=
  rfl

theorem passOn_close {outer : List Container} {container : Container} {input rest : Octets}
    (hskip : skipBlank input = container.close :: rest) :
    passOn (container :: outer) input = passOn outer rest := by
  have hcomma : container.close ≠ Ascii.comma := by cases container <;> decide
  unfold passOn
  rw [close_cons_eq, leading_cons hskip, if_neg hcomma, if_pos rfl]

theorem passOn_comma {outer : List Container} {container : Container} {input rest : Octets}
    (hskip : skipBlank input = Ascii.comma :: rest) :
    passOn (container :: outer) input = container.label rest >>= pass (container :: outer) := by
  unfold passOn
  rw [close_cons_eq, leading_cons hskip, if_pos rfl]
  cases container.label rest <;> rfl

theorem passParts_close {outer : List Container} {container : Container} {input rest : Octets}
    (hskip : skipBlank input = container.close :: rest) :
    passParts container outer input = passOn outer rest := by
  unfold passParts
  rw [leading_cons hskip, if_pos rfl]

/-- What precedes a value may have blanks in front of it. -/
theorem label_skip {outer : List Container} (container : Container) {input input' : Octets}
    (h : skipBlank input = skipBlank input') :
    container.label input >>= pass (container :: outer) =
      container.label input' >>= pass (container :: outer) := by
  cases container with
  | list => exact pass_skip h
  | object => rw [label_object_eq, leading_skip h]

theorem passParts_label {outer : List Container} {container : Container} {input rest : Octets}
    {octet : UInt8} (hskip : skipBlank input = octet :: rest) (hoctet : octet ≠ container.close) :
    passParts container outer input = container.label input >>= pass (container :: outer) := by
  unfold passParts
  rw [leading_cons hskip, if_neg hoctet, label_skip container (skipBlank_behind hskip)]

/-- What stands behind the opening octet of a container, or behind a part of it that is not the
first. -/
def passFrom (first : Bool) (container : Container) (outer : List Container) (input : Octets) :
    Except Fault Octets :=
  if first then passParts container outer input else passOn (container :: outer) input

/-- A part is passed over from where it begins. -/
theorem passFrom_begins {first : Bool} {outer : List Container} {container : Container}
    {input start rest : Octets} {octet : UInt8} (hbegins : Begins first input start)
    (hskip : skipBlank start = octet :: rest) (hoctet : octet ≠ container.close) :
    passFrom first container outer input = container.label start >>= pass (container :: outer) := by
  cases hbegins with
  | first => exact passParts_label hskip hoctet
  | next hcomma => exact passOn_comma hcomma

theorem passFrom_close {first : Bool} {outer : List Container} {container : Container}
    {input rest : Octets} (hskip : skipBlank input = container.close :: rest) :
    passFrom first container outer input = passOn outer rest := by
  cases first with
  | true => exact passParts_close hskip
  | false => exact passOn_close hskip

/-- Inside one value, the containers around it do not matter. -/
theorem close_around {inner : List Container} (outer : List Container) {input rest : Octets}
    {still : List Container} (h : close inner input = .ok (still, rest)) :
    close (inner ++ outer) input =
      if still = [] then close outer rest else .ok (still ++ outer, rest) := by
  induction inner generalizing input with
  | nil =>
    simp only [close, Except.ok.injEq, Prod.mk.injEq] at h
    rw [List.nil_append, ← h.1, ← h.2, if_pos rfl]
  | cons container inner ih =>
    rw [close_cons_eq] at h
    obtain ⟨octet, behind, hskip, h⟩ := leading_eq_ok.mp h
    rw [List.cons_append, close_cons_eq, leading_cons hskip]
    split at h
    · next hcomma =>
      rw [if_pos hcomma]
      obtain ⟨value, hlabel, hvalue⟩ := bind_eq_ok.mp h
      obtain ⟨rfl, rfl⟩ := ok_pair_inj hvalue
      rw [hlabel, if_neg (List.cons_ne_nil _ _)]
      rfl
    · next hcomma =>
      rw [if_neg hcomma]
      split at h
      · next hclose =>
        rw [if_pos hclose]
        exact ih h
      · simp at h

theorem values_around {fuel : Nat} {inner : List Container} (outer : List Container)
    {input rest : Octets} (h : Skip.values fuel inner input = .ok rest) :
    pass (inner ++ outer) input = passOn outer rest := by
  induction fuel generalizing inner input with
  | zero => simp [Skip.values] at h
  | succ fuel ih =>
    have hresume : ∀ {inner input}, resume fuel inner input = .ok rest →
        passOn (inner ++ outer) input = passOn outer rest := by
      intro inner input h
      unfold resume at h
      unfold passOn
      match hclose : close inner input with
      | .error fault => simp [hclose, bind, Except.bind] at h
      | .ok ([], behind) =>
        simp only [hclose, bind, Except.bind, Except.ok.injEq] at h
        rw [close_around outer hclose, if_pos rfl, h]
      | .ok (container :: still, behind) =>
        simp only [hclose, bind, Except.bind] at h
        rw [close_around outer hclose, if_neg (List.cons_ne_nil _ _)]
        exact ih h
    rw [values_succ] at h
    obtain ⟨octet, behind, hskip, h⟩ := leading_eq_ok.mp h
    cases hfirst : Container.ofFirst? octet with
    | none =>
      rw [hfirst] at h
      obtain ⟨behind', hscalar, h⟩ := bind_eq_ok.mp h
      rw [pass_scalar hskip hfirst hscalar]
      exact hresume h
    | some container =>
      rw [hfirst] at h
      obtain ⟨octet', behind', hskip', h⟩ := leading_eq_ok.mp h
      rw [pass_container hskip hfirst]
      split at h
      · next hclose =>
        subst hclose
        rw [passParts_close hskip']
        exact hresume h
      · next hclose =>
        obtain ⟨behind'', hlabel, h⟩ := bind_eq_ok.mp h
        have hparts : pass (container :: (inner ++ outer)) behind'' = passOn outer rest := ih h
        rw [passParts_label hskip' hclose, label_skip container (skipBlank_behind hskip').symm,
          hlabel]
        exact hparts

end Skip

end MacroPlugin.Wire
