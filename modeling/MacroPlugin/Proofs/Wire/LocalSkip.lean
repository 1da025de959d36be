import MacroPlugin.Proofs.Wire.LocalNumber

/-!
What passes over a value leaves alone what is behind it, like a reader. The containers around the
present place are closed behind a value, so a number at the very end still needs something that
stops it.
-/

namespace MacroPlugin.Wire

open Json

section Passing

variable {f g : Octets → Except Fault Octets}

theorem passing_bind (f g : Octets → Except Fault Octets) :
    passing (fun input => f input >>= g) = fun input => f input >>= passing g := by
  funext input
  cases hpass : f input <;> simp [passing, hpass, bind, Except.bind]

theorem Whole.bind (hf : Whole (passing f)) (hg : Closing (passing g)) :
    Whole (passing fun input => f input >>= g) := by
  rw [passing_bind]
  exact hf.passed hg

theorem Closing.bind (hf : Closing (passing f)) (hg : Closing (passing g)) :
    Closing (passing fun input => f input >>= g) := by
  rw [passing_bind]
  exact hf.passed hg

theorem Closing.bind_whole (hf : Closing (passing f)) (hg : Whole (passing g)) :
    Whole (passing fun input => f input >>= g) := by
  rw [passing_bind]
  exact hf.passed_whole hg

/-- What passes over nothing. -/
theorem Closing.pass : Closing (passing .ok) :=
  .ok ()

theorem Whole.passing_fault (fault : Octets → Fault) :
    Whole (passing fun input => .error (fault input)) :=
  .fault fault

theorem Closing.passing_ite {c : Prop} [Decidable c] (htrue : c → Closing (passing f))
    (hfalse : ¬ c → Closing (passing g)) :
    Closing (passing fun input => if c then f input else g input) := by
  by_cases hc : c
  · simp only [if_pos hc]
    exact htrue hc
  · simp only [if_neg hc]
    exact hfalse hc

theorem passing_congr {input input' : Octets} (h : f input = g input') :
    passing f input = passing g input' := by
  unfold passing
  rw [h]

theorem passing_leading (fault : Fault) (body : UInt8 → Octets → Except Fault Octets) :
    passing (leading fault body) = leading fault fun octet => passing (body octet) := by
  funext input
  unfold passing leading
  cases skipBlank input <;> rfl

/-- Passes on behind the blanks in front and the octet that follows them. -/
theorem Whole.passing_lead {fault : Fault} {body : UInt8 → Octets → Except Fault Octets}
    (hbody : ∀ octet, isBlank octet = false → Closing (passing (body octet))) :
    Whole (passing (leading fault body)) := by
  rw [passing_leading]
  exact .lead hbody

/-- Goes on where an octet continues a number, and ends the number otherwise. -/
theorem Closing.passing_peek (p : UInt8 → Bool) (stop : Octets → Except Fault Octets)
    (more : UInt8 → Octets → Except Fault Octets) (hp : ∀ octet, p octet = true → Continues octet)
    (hend : f [] = stop [])
    (hstep : ∀ octet rest, f (octet :: rest) =
      if p octet then more octet rest else stop (octet :: rest))
    (hstop : Closing (passing stop))
    (hmore : ∀ octet, p octet = true → Closing (passing (more octet))) : Closing (passing f) := by
  refine .peek p (passing stop) (fun octet => passing (more octet)) hp (passing_congr hend) ?_
    hstop hmore
  intro octet rest
  have hstep := hstep octet rest
  split
  · next hoctet => exact passing_congr (by rw [hstep, if_pos hoctet])
  · next hoctet => exact passing_congr (by rw [hstep, if_neg hoctet])

end Passing

theorem readColon_eq : readColon = leading (.here .endOfObject []) fun octet rest =>
    if octet = Ascii.colon then .ok rest else .error (.next .expectedColon (octet :: rest)) :=
  rfl

theorem readColon_whole : Whole (passing readColon) := by
  rw [readColon_eq]
  refine .passing_lead fun octet _ => ?_
  exact .passing_ite (fun _ => .pass) fun _ => (Whole.passing_fault _).toClosing

namespace Skip

open Json.Skip

/-! Texts and numbers -/

/-- One octet of `Skip.textFrom`. -/
def textStep (octet : UInt8) (state : State) : Except (Octets → Fault) (Unit ⊕ State) :=
  if state = .plain && octet = Ascii.quote then .ok (.inl ())
  else match state.step octet with
    | .ok state => .ok (.inr state)
    | .error (cause, true) => .error (.here cause)
    | .error (cause, false) => .error fun rest => .here cause (octet :: rest)

theorem textFrom_isMachine : IsMachine (fun state => passing (textFrom state)) textStep where
  nil := fun _ => ⟨_, rfl⟩
  cons := by
    intro state octet rest
    unfold passing
    rw [textFrom, textStep]
    by_cases hends : (state = .plain && octet = Ascii.quote) = true
    · simp only [if_pos hends]
      rfl
    · simp only [if_neg hends]
      rcases state.step octet with ⟨cause, taken⟩ | next
      · cases taken <;> rfl
      · rfl
  last := by
    intro state octet value hstep
    unfold textStep at hstep
    by_cases hends : (state = .plain && octet = Ascii.quote) = true
    · rw [Bool.and_eq_true, decide_eq_true_eq, decide_eq_true_eq] at hends
      rw [hends.2]
      rfl
    · rw [if_neg hends] at hstep
      rcases hnext : state.step octet with ⟨cause, taken⟩ | next
      · cases taken <;> simp [hnext] at hstep
      · simp [hnext] at hstep

theorem text_whole : Whole (passing text) :=
  textFrom_isMachine.whole .plain

/-- The digits at the front, as a row without a state. -/
def digitsRow (_ : Unit) (input : Octets) : Unit × Octets :=
  ((), digits input)

theorem digitsRow_isRow : IsRow digitsRow where
  append := by
    intro _ front back
    unfold digitsRow digits
    rw [List.dropWhile_append]
    simp only [List.isEmpty_iff]
    split <;> rfl
  takes := by
    intro _ input
    refine ⟨input.takeWhile fun octet => (Ascii.digit? octet).isSome,
      List.takeWhile_append_dropWhile.symm, ?_⟩
    intro octet hmem
    have hdigit := List.mem_takeWhile_imp (List.mem_of_getLast? hmem)
    exact Continues.isBlank_eq_false (.inl hdigit)
  stops := by
    intro _ rest hstops
    unfold digitsRow digits
    cases rest with
    | nil => rfl
    | cons octet rest =>
      rw [List.dropWhile_cons_of_neg (by simp [(hstops octet rfl).1])]

/-- Goes on behind the digits at the front. -/
theorem closing_digits {f : Octets → Except Fault Octets} (h : Closing (passing f)) :
    Closing (passing fun input => f (digits input)) :=
  (digitsRow_isRow.closing ()).andThen fun _ => h

/-- Goes on behind a digit that was looked at and those that follow it. -/
theorem closing_digits_cons {f : Octets → Except Fault Octets} (h : Closing (passing f))
    {octet : UInt8} (hoctet : (Ascii.digit? octet).isSome = true) :
    Closing (passing fun rest => f (digits (octet :: rest))) := by
  have hdigits : ∀ rest, digits (octet :: rest) = digits rest :=
    fun rest => List.dropWhile_cons_of_pos hoctet
  simp only [hdigits]
  exact closing_digits h

/-- Passes over the digits of an exponent. -/
def exponentDigits : Octets → Except Fault Octets
  | [] => .error (.here .badNumber [])
  | octet :: rest =>
    if (Ascii.digit? octet).isSome then .ok (digits rest) else .error (.here .badNumber rest)

theorem exponentDigits_whole : Whole (passing exponentDigits) := by
  refine .first (fun octet => passing fun rest => exponentDigits (octet :: rest))
    (fun result => by simp [passing, exponentDigits, bind, Except.bind]) (fun _ _ => rfl) ?_ ?_
  · intro octet rest result hblank
    simp [passing, exponentDigits, (digit?_of_isBlank hblank).1, bind, Except.bind]
  · intro octet _
    exact .passing_ite (fun _ => closing_digits .pass) fun _ => (Whole.passing_fault _).toClosing

/-- Passes over the sign of an exponent, if there is one. -/
def exponentSign : Reader Unit :=
  ifAny () fun octet => if octet = Ascii.plus || octet = Ascii.minus then some () else none

theorem exponent_eq :
    passing exponent = exponentSign.andThen fun _ => passing exponentDigits := by
  funext input
  unfold passing exponent Reader.andThen exponentSign ifAny
  cases input with
  | nil => rfl
  | cons octet rest =>
    dsimp only
    by_cases hsign : (octet = Ascii.plus || octet = Ascii.minus) = true
    · simp only [if_pos hsign]
      rfl
    · simp only [if_neg hsign]
      rfl

theorem exponent_whole : Whole (passing exponent) := by
  rw [exponent_eq]
  exact (ifAny_peeking _ _).andThen_whole fun _ => exponentDigits_whole

theorem exponentIfAny_closing : Closing (passing exponentIfAny) :=
  .passing_peek Number.isExponentMark .ok (fun _ => exponent) (fun _ h => .inr (.inr h)) rfl
    (fun _ _ => rfl) .pass fun _ _ => exponent_whole.toClosing

theorem fractionIfAny_closing : Closing (passing fractionIfAny) := by
  refine .passing_peek (fun octet => octet = Ascii.point) exponentIfAny
    (fun _ rest => if Number.startsWithDigit rest then exponentIfAny (digits rest)
      else .error (.next .badNumber rest)) ?_ rfl ?_ exponentIfAny_closing ?_
  · intro octet hpoint
    exact .inr (.inl (by simpa using hpoint))
  · intro octet rest
    simp [fractionIfAny]
  · intro _ _
    exact .passing_peek (fun octet => (Ascii.digit? octet).isSome)
      (fun rest => .error (.next .badNumber rest))
      (fun octet rest => exponentIfAny (digits (octet :: rest))) (fun _ => .inl) rfl
      (fun _ _ => rfl) (Whole.passing_fault _).toClosing fun octet hoctet =>
        closing_digits_cons exponentIfAny_closing hoctet

theorem magnitude_whole : Whole (passing magnitude) := by
  refine .first (fun octet => passing fun rest => magnitude (octet :: rest))
    (fun result => by simp [passing, magnitude, bind, Except.bind]) (fun _ _ => rfl) ?_ ?_
  · intro octet rest result hblank
    simp [passing, magnitude, (digit?_of_isBlank hblank).1, bind, Except.bind]
  · intro octet _
    cases hdigit : Ascii.digit? octet with
    | none =>
      simp only [magnitude, hdigit]
      exact (Whole.passing_fault _).toClosing
    | some digit =>
      cases digit with
      | zero =>
        simp only [magnitude, hdigit]
        exact .passing_peek (fun octet => (Ascii.digit? octet).isSome) fractionIfAny
          (fun octet rest => .error (.next .badNumber (octet :: rest))) (fun octet => .inl) rfl
          (fun _ _ => rfl) fractionIfAny_closing fun octet _ =>
            (Whole.passing_fault fun rest => .next .badNumber (octet :: rest)).toClosing
      | succ digit =>
        simp only [magnitude, hdigit]
        exact closing_digits fractionIfAny_closing

theorem scalar_closing (octet : UInt8) : Closing (passing (scalar octet)) := by
  unfold scalar
  cases Literal.ofFirst? octet with
  | some literal => exact readRemainder_closing literal
  | none =>
    refine .passing_ite (fun _ => text_whole.toClosing) fun _ => ?_
    refine .passing_ite (fun _ => magnitude_whole.toClosing) fun _ => ?_
    exact .passing_ite (fun _ => magnitude_whole.unread octet)
      fun _ => (Whole.passing_fault _).toClosing

/-! Containers -/

theorem label_object_eq : Container.object.label = leading (.here .endOfObject []) fun octet rest =>
    if octet = Ascii.quote then text rest >>= readColon
    else .error (.next .keyNotText (octet :: rest)) :=
  rfl

theorem label_closing (container : Container) : Closing (passing container.label) := by
  cases container with
  | list => exact .pass
  | object =>
    rw [label_object_eq]
    refine (Whole.passing_lead fun octet _ => ?_).toClosing
    exact .passing_ite (fun _ => (text_whole.bind readColon_whole.toClosing).toClosing)
      fun _ => (Whole.passing_fault _).toClosing

theorem close_cons_eq (container : Container) (outer : List Container) :
    close (container :: outer) = leading (.here container.ended []) fun octet rest =>
      if octet = Ascii.comma then
        container.label rest >>= fun rest => .ok (container :: outer, rest)
      else if octet = container.close then close outer rest
      else .error (.next container.unfinished (octet :: rest)) :=
  rfl

theorem close_closing (outer : List Container) : Closing (close outer) := by
  induction outer with
  | nil => exact .ok []
  | cons container outer ih =>
    rw [close_cons_eq]
    refine (Whole.lead fun octet _ => ?_).toClosing
    refine .ite (fun _ => (label_closing container).passed (.ok _)) fun _ => ?_
    exact .ite (fun _ => ih) fun _ => (Whole.fault _).toClosing

/-- Goes on behind the ends of containers: with the next part of the innermost one that is still
open, if there is one. -/
def resume (fuel : Nat) (outer : List Container) (rest : Octets) : Except Fault Octets := do
  match ← close outer rest with
  | ([], rest) => .ok rest
  | (outer, rest) => Skip.values fuel outer rest

theorem resume_eq (fuel : Nat) (outer : List Container) :
    passing (resume fuel outer) = Reader.andThen (close outer) fun outer rest =>
      match outer with
      | [] => .ok ((), rest)
      | container :: outer => passing (Skip.values fuel (container :: outer)) rest := by
  funext input
  unfold passing resume Reader.andThen
  match close outer input with
  | .error fault => rfl
  | .ok ([], rest) => rfl
  | .ok (container :: outer, rest) => rfl

/-- Goes on behind the octet that opens a container. -/
def valuesInside (fuel : Nat) (container : Container) (outer : List Container) :
    Octets → Except Fault Octets :=
  leading (.here container.ended []) fun octet rest =>
    if octet = container.close then resume fuel outer rest
    else container.label (octet :: rest) >>= Skip.values fuel (container :: outer)

theorem values_succ (fuel : Nat) (outer : List Container) :
    Skip.values (fuel + 1) outer = leading (.here .endOfValue []) fun octet rest =>
      match Container.ofFirst? octet with
      | none => scalar octet rest >>= resume fuel outer
      | some container => valuesInside fuel container outer rest :=
  rfl

theorem values_whole (fuel : Nat) (outer : List Container) :
    Whole (passing (Skip.values fuel outer)) := by
  induction fuel generalizing outer with
  | zero => exact .passing_fault _
  | succ fuel ih =>
    have hresume : Closing (passing (resume fuel outer)) := by
      rw [resume_eq]
      refine (close_closing outer).andThen fun outer => ?_
      cases outer with
      | nil => exact .ok ()
      | cons container outer => exact (ih (container :: outer)).toClosing
    rw [values_succ]
    refine .passing_lead fun octet _ => ?_
    cases Container.ofFirst? octet with
    | none => exact (scalar_closing octet).bind hresume
    | some container =>
      refine (Whole.passing_lead fun octet _ => ?_).toClosing
      refine .passing_ite (fun _ => hresume) fun _ => ?_
      exact ((label_closing container).bind_whole (ih (container :: outer))).unread octet

end Skip

theorem skipValue_whole (fuel : Nat) : Whole (passing (skipValue fuel)) :=
  Skip.values_whole fuel []

end MacroPlugin.Wire
