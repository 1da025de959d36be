import MacroPlugin.Proofs.Wire.Passing

/-!
Where a reader stops. Skipping knows nothing about schemas, and yet it passes over exactly what a
reader takes: when a reader succeeds, skipping from the same place with any containers around it
goes on from where the reader stopped. So the end of a value depends on the value only, and not on
what it is read as.
-/

namespace MacroPlugin.Wire

open Json

namespace Skip

open Json.Skip

/-! Texts -/

/-- What skipping remembers of a state inside a text: a surrogate is not waited for. -/
def stateOf : TextState → State
  | .plain | .pair _ => .plain
  | .escape | .pairEscape _ => .escape
  | .hex _ digits => .hex digits

theorem stateOf_complete {lead : Option Nat} {value : Nat} {next : TextState} {added : Octets}
    (h : TextState.complete lead value = .ok (next, added)) : stateOf next = .plain := by
  unfold TextState.complete at h
  repeat' split at h
  all_goals
    first
    | rw [← (ok_pair_inj h).1]; rfl
    | simp at h

theorem stateOf_step {state next : TextState} {octet : UInt8} {added : Octets}
    (hstep : state.step octet = .ok (next, added)) :
    (stateOf state).step octet = .ok (stateOf next) := by
  cases state with
  | plain =>
    simp only [TextState.step] at hstep
    unfold stateOf State.step
    split at hstep
    · next hslash =>
      rw [← (ok_pair_inj hstep).1]
      simp [hslash]
    · next hslash =>
      split at hstep
      · simp at hstep
      · next hspace =>
        rw [← (ok_pair_inj hstep).1]
        simp [hslash, hspace]
  | escape =>
    simp only [TextState.step] at hstep
    unfold stateOf State.step
    split at hstep
    · next hmark =>
      rw [← (ok_pair_inj hstep).1]
      simp [hmark]
    · next hmark =>
      split at hstep
      · next meant hmeant =>
        rw [← (ok_pair_inj hstep).1]
        simp [hmark, hmeant]
      · simp at hstep
  | hex lead digits =>
    simp only [TextState.step] at hstep
    split at hstep
    · next hlength =>
      rw [← (ok_pair_inj hstep).1]
      simp [stateOf, State.step, hlength]
    · next hlength =>
      split at hstep
      · next value hvalue =>
        rw [stateOf_complete hstep]
        simp [stateOf, State.step, hlength, hvalue]
      · simp at hstep
  | pair lead =>
    simp only [TextState.step] at hstep
    split at hstep
    · next hslash =>
      rw [← (ok_pair_inj hstep).1]
      simp [stateOf, State.step, hslash]
    · simp at hstep
  | pairEscape lead =>
    simp only [TextState.step] at hstep
    split at hstep
    · next hmark =>
      rw [← (ok_pair_inj hstep).1]
      simp [stateOf, State.step, hmark]
    · simp at hstep

/-- A quote that does not end a text that is read does not end it when it is skipped. -/
theorem stateOf_ends {state next : TextState} {octet : UInt8} {added : Octets}
    (hends : state.ends octet = false) (hstep : state.step octet = .ok (next, added)) :
    ¬ (stateOf state = .plain && octet = Ascii.quote) = true := by
  simp only [Bool.and_eq_true, decide_eq_true_eq]
  rintro ⟨hplain, rfl⟩
  cases state with
  | plain => simp [TextState.ends] at hends
  | pair lead => simp [TextState.step, Ascii.quote, Ascii.backslash] at hstep
  | escape | pairEscape _ | hex _ _ => simp [stateOf] at hplain

theorem textFrom_of_gatherText {state : TextState} {taken input octets rest : Octets}
    (h : gatherText state taken input = .ok (octets, rest)) :
    textFrom (stateOf state) input = .ok rest := by
  induction input generalizing state taken with
  | nil => simp [gatherText] at h
  | cons octet input ih =>
    rw [gatherText] at h
    rw [textFrom]
    cases hends : state.ends octet with
    | true =>
      have hplain : state = .plain ∧ octet = Ascii.quote := by
        cases state <;> simp [TextState.ends] at hends ⊢
        exact hends
      rw [if_pos hends] at h
      rw [hplain.1, hplain.2, (ok_pair_inj h).2]
      rfl
    | false =>
      rw [if_neg (by simp [hends])] at h
      cases hstep : state.step octet with
      | error cause => simp [hstep] at h
      | ok result =>
        obtain ⟨next, added⟩ := result
        rw [hstep] at h
        rw [if_neg (stateOf_ends hends hstep), stateOf_step hstep]
        exact ih h

theorem text_of_readText {input rest : Octets} {value : String}
    (h : readText input = .ok (value, rest)) : text input = .ok rest := by
  rw [readText_eq, andThen_eq_ok] at h
  obtain ⟨octets, behind, hgather, hspelled⟩ := h
  have hrest : behind = rest := by
    unfold spelled at hspelled
    split at hspelled
    · exact (ok_pair_inj hspelled).2
    · simp at hspelled
  rw [← hrest]
  exact textFrom_of_gatherText hgather

/-! Numbers -/

theorem digits_of_not_startsWithDigit {input : Octets}
    (h : Number.startsWithDigit input = false) : digits input = input := by
  cases input with
  | nil => rfl
  | cons octet input => exact List.dropWhile_cons_of_neg (by simpa [Number.startsWithDigit] using h)

theorem digits_cons {octet : UInt8} (h : (Ascii.digit? octet).isSome = true) (input : Octets) :
    digits (octet :: input) = digits input :=
  List.dropWhile_cons_of_pos h

theorem dropDigits_eq (count : Nat) (input : Octets) :
    (Number.dropDigits count input).2 = digits input := by
  induction input generalizing count with
  | nil => rfl
  | cons octet input ih =>
    rw [Number.dropDigits]
    split
    · next hdigit => rw [digits_cons hdigit, ih]
    · next hdigit =>
      exact (digits_of_not_startsWithDigit (by simpa [Number.startsWithDigit] using hdigit)).symm

/-- Digits that are kept and digits that are dropped are all digits. -/
theorem digits_takeDigits (limit word count : Nat) (input : Octets) :
    digits (Number.takeDigits limit word count input).2.2 = digits input := by
  induction input generalizing word count with
  | nil => rfl
  | cons octet input ih =>
    rw [Number.takeDigits]
    split
    · rfl
    · next digit hdigit =>
      split
      · rw [ih, digits_cons (by rw [hdigit]; rfl)]
      · rfl

theorem finish_rest {negative : Bool} {word : Nat} {exponent : Int} {input rest : Octets}
    {value : Number} (h : Number.finish negative word exponent input = .ok (value, rest)) :
    rest = input := by
  unfold Number.finish at h
  split at h
  · exact (ok_pair_inj h).2.symm
  · simp at h

section Numbers

variable {negative : Bool} {word : Nat} {exponent : Int} {input rest : Octets} {value : Number}

theorem exponent_of_readExponent
    (h : Number.readExponent negative word exponent input = .ok (value, rest)) :
    Json.Skip.exponent input = .ok rest := by
  have hdigits : ∀ {downward input},
      Wire.exponentDigits negative word exponent downward input = .ok (value, rest) →
      exponentDigits input = .ok rest := by
    intro downward input h
    cases input with
    | nil => simp [Wire.exponentDigits] at h
    | cons octet behind =>
      unfold Wire.exponentDigits at h
      unfold exponentDigits
      dsimp only at h ⊢
      split at h
      · simp at h
      · next digit hdigit =>
        rw [if_pos (by rw [hdigit]; rfl)]
        obtain ⟨power, behind', hrow, hpower⟩ := andThen_eq_ok.mp h
        have hbehind : digits behind' = digits behind := by
          rw [← digits_takeDigits Number.maxExponent digit 0 behind]
          exact congrArg digits (ok_pair_inj hrow).2.symm
        rw [← hbehind]
        unfold exponentPower at hpower
        split at hpower
        · split at hpower
          · simp at hpower
          · rw [← dropDigits_eq 0, ← (ok_pair_inj hpower).2]
        · next hstops =>
          rw [finish_rest hpower, digits_of_not_startsWithDigit (by simpa using hstops)]
  rw [readExponent_eq, andThen_eq_ok] at h
  obtain ⟨downward, behind, hsign, h⟩ := h
  have hpassed : exponentSign input = .ok ((), behind) := by
    unfold Wire.exponentSign ifAny at hsign
    unfold exponentSign ifAny
    cases input with
    | nil => rw [← (ok_pair_inj hsign).2]
    | cons octet input =>
      dsimp only at hsign ⊢
      by_cases hplus : octet = Ascii.plus
      · simp_all
      · by_cases hminus : octet = Ascii.minus
        · simp_all
        · simp_all
  refine passing_eq_ok.mp (?_ : passing Json.Skip.exponent input = .ok ((), rest))
  rw [exponent_eq, andThen_eq_ok]
  exact ⟨(), behind, hpassed, passing_eq_ok.mpr (hdigits h)⟩

theorem exponentIfAny_of_readEnd
    (h : Number.readEnd negative word exponent input = .ok (value, rest)) :
    exponentIfAny input = .ok rest := by
  unfold Number.readEnd at h
  unfold exponentIfAny
  cases input with
  | nil => rw [finish_rest h]
  | cons octet input =>
    dsimp only at h ⊢
    split at h
    · next hmark =>
      rw [if_pos hmark]
      exact exponent_of_readExponent h
    · next hmark => rw [if_neg hmark, finish_rest h]

theorem startsWithDigit_takeDigits {limit word count : Nat} {input : Octets}
    (h : Number.startsWithDigit input = false) :
    Number.takeDigits limit word count input = (word, count, input) := by
  cases input with
  | nil => rfl
  | cons octet input =>
    have hnone : Ascii.digit? octet = none := by simpa [Number.startsWithDigit] using h
    rw [Number.takeDigits, hnone]

theorem fractionIfAny_of_readFraction
    (h : Number.readFraction negative word exponent input = .ok (value, rest)) :
    fractionIfAny (Ascii.point :: input) = .ok rest := by
  have hstarts : Number.startsWithDigit input = true := by
    cases hstarts : Number.startsWithDigit input with
    | true => rfl
    | false =>
      unfold Number.readFraction at h
      rw [startsWithDigit_takeDigits hstarts] at h
      simp [hstarts] at h
  have hpassed : exponentIfAny (digits input) = .ok rest := by
    unfold Number.readFraction at h
    rw [← digits_takeDigits Number.maxWord word 0 input]
    generalize Number.takeDigits Number.maxWord word 0 input = taken at h
    obtain ⟨word, count, behind⟩ := taken
    dsimp only at h ⊢
    split at h
    · rw [← dropDigits_eq 0]
      exact exponentIfAny_of_readEnd h
    · next hstops =>
      rw [digits_of_not_startsWithDigit (by simpa using hstops)]
      split at h
      · simp at h
      · exact exponentIfAny_of_readEnd h
  unfold fractionIfAny
  simp only [if_pos, hstarts]
  exact hpassed

theorem fractionIfAny_of_readRest {dropped : Nat}
    (h : Number.readRest negative word dropped input = .ok (value, rest)) :
    fractionIfAny input = .ok rest := by
  cases input with
  | nil =>
    unfold Number.readRest at h
    dsimp only at h
    split at h
    · rw [← (ok_pair_inj h).2]
      rfl
    · rw [finish_rest h]
      rfl
  | cons octet input =>
    unfold Number.readRest at h
    dsimp only at h
    split at h
    · next hpoint =>
      rw [hpoint]
      exact fractionIfAny_of_readFraction h
    · next hpoint =>
      unfold fractionIfAny exponentIfAny
      dsimp only
      rw [if_neg hpoint]
      split at h
      · next hmark =>
        rw [if_pos hmark]
        exact exponent_of_readExponent h
      · next hmark =>
        rw [if_neg hmark]
        split at h
        · rw [(ok_pair_inj h).2]
        · rw [finish_rest h]

theorem magnitude_of_readMagnitude
    (h : Number.readMagnitude negative input = .ok (value, rest)) :
    magnitude input = .ok rest := by
  cases input with
  | nil => simp [Number.readMagnitude] at h
  | cons octet input =>
    unfold Number.readMagnitude at h
    unfold magnitude
    dsimp only at h ⊢
    cases hdigit : Ascii.digit? octet with
    | none => simp [hdigit] at h
    | some digit =>
      cases digit with
      | zero =>
        simp only [hdigit] at h ⊢
        split at h
        · simp at h
        · next hstops =>
          rw [if_neg hstops]
          exact fractionIfAny_of_readRest h
      | succ digit =>
        simp only [hdigit] at h ⊢
        rw [← digits_takeDigits Number.maxWord (digit + 1) 0 input, ← dropDigits_eq 0]
        exact fractionIfAny_of_readRest h

end Numbers

/-- What begins a number begins nothing else. -/
theorem isFirst_only {octet : UInt8} (h : Number.isFirst octet = true) :
    Container.ofFirst? octet = none ∧ Literal.ofFirst? octet = none ∧ octet ≠ Ascii.quote := by
  have hother : ∀ other, Number.isFirst other = false → octet ≠ other := by
    rintro other hnot rfl
    rw [h] at hnot
    exact absurd hnot (by simp)
  unfold Container.ofFirst? Literal.ofFirst?
  rw [if_neg (hother _ (by decide)), if_neg (hother _ (by decide)), if_neg (hother _ (by decide)),
    if_neg (hother _ (by decide)), if_neg (hother _ (by decide))]
  exact ⟨rfl, rfl, hother _ (by decide)⟩

/-- What begins a number is passed over as a number. -/
theorem scalar_of_read {octet : UInt8} {input rest : Octets} {value : Number}
    (hfirst : Number.isFirst octet = true)
    (h : Number.read (octet :: input) = .ok (value, rest)) : scalar octet input = .ok rest := by
  obtain ⟨-, hliteral, hquote⟩ := isFirst_only hfirst
  unfold Number.read at h
  unfold scalar
  dsimp only at h
  rw [hliteral]
  dsimp only
  rw [if_neg hquote]
  split at h
  · next hminus =>
    rw [if_pos hminus]
    exact magnitude_of_readMagnitude h
  · next hminus =>
    have hdigit : (Ascii.digit? octet).isSome = true := by
      simpa [Number.isFirst, hminus] using hfirst
    rw [if_neg hminus, if_pos hdigit]
    exact magnitude_of_readMagnitude h

end Skip

open Json.Skip (Container scalar)
open Skip (pass passOn passParts passFrom)

/-- Where the reader succeeds, skipping goes on from where it stopped. -/
def Skippable {α : Type} (reader : Reader α) : Prop :=
  ∀ {input value rest}, reader input = .ok (value, rest) →
    ∀ outer, pass outer input = passOn outer rest

/-! Scalars -/

theorem Skippable.map {α β : Type} {reader : Reader α} (h : Skippable reader) (change : α → β) :
    Skippable (reader.andThen fun value rest => .ok (change value, rest)) := by
  intro input value rest hread outer
  obtain ⟨read, behind, hread, hvalue⟩ := andThen_eq_ok.mp hread
  rw [← (ok_pair_inj hvalue).2]
  exact h hread outer

theorem readTextValue_skippable : Skippable readTextValue := by
  intro input value rest h outer
  rw [readTextValue_eq] at h
  obtain ⟨octet, behind, hskip, h⟩ := leading_eq_ok.mp h
  split at h
  · next hquote =>
    subst hquote
    exact Skip.pass_scalar hskip (by decide) (Skip.text_of_readText h)
  · simp at h

theorem heldWord_rest {size : WordSize} {number : Number} {input rest : Octets} {word : size.Val}
    (h : heldWord size number input = .ok (word, rest)) : input = rest := by
  unfold heldWord at h
  split at h
  · exact (ok_pair_inj h).2
  · simp at h
  · simp at h

theorem readWord_skippable (size : WordSize) : Skippable (readWord size) := by
  intro input value rest h outer
  rw [readWord_eq] at h
  obtain ⟨octet, behind, hskip, h⟩ := leading_eq_ok.mp h
  split at h
  · next hfirst =>
    obtain ⟨number, behind', hread, hword⟩ := andThen_eq_ok.mp h
    rw [← heldWord_rest hword]
    exact Skip.pass_scalar hskip (Skip.isFirst_only hfirst).1 (Skip.scalar_of_read hfirst hread)
  · simp at h

theorem pass_literal {literal : Literal} {input behind rest : Octets} {octet : UInt8}
    (hskip : skipBlank input = octet :: behind) (hfirst : Literal.ofFirst? octet = some literal)
    (h : literal.readRemainder behind = .ok rest) (outer : List Container) :
    pass outer input = passOn outer rest := by
  have hother : ∀ other, Literal.ofFirst? other = none → octet ≠ other := by
    rintro other hnot rfl
    rw [hfirst] at hnot
    exact absurd hnot (by simp)
  have hcontainer : Container.ofFirst? octet = none := by
    unfold Container.ofFirst?
    rw [if_neg (hother _ (by decide)), if_neg (hother _ (by decide))]
  refine Skip.pass_scalar hskip hcontainer ?_
  unfold scalar
  rw [hfirst]
  exact h

theorem readBoolean_skippable : Skippable readBoolean := by
  intro input value rest h outer
  rw [readBoolean_eq] at h
  obtain ⟨octet, behind, hskip, h⟩ := leading_eq_ok.mp h
  unfold booleanBehind at h
  split at h
  · next hfirst =>
    obtain ⟨behind', hread, hvalue⟩ := bind_eq_ok.mp h
    rw [← (ok_pair_inj hvalue).2]
    exact pass_literal hskip hfirst hread outer
  · next hfirst =>
    obtain ⟨behind', hread, hvalue⟩ := bind_eq_ok.mp h
    rw [← (ok_pair_inj hvalue).2]
    exact pass_literal hskip hfirst hread outer
  · simp at h

theorem readUnit_skippable : Skippable readUnit := by
  intro input value rest h outer
  rw [readUnit_eq] at h
  obtain ⟨octet, behind, hskip, h⟩ := leading_eq_ok.mp h
  unfold unitBehind at h
  split at h
  · next hfirst =>
    obtain ⟨behind', hread, hvalue⟩ := bind_eq_ok.mp h
    rw [← (ok_pair_inj hvalue).2]
    exact pass_literal hskip hfirst hread outer
  · simp at h

theorem readOptional_skippable {α : Type} {value : Reader α} (hvalue : Skippable value) :
    Skippable (readOptional value) := by
  intro input result rest h outer
  rw [readOptional_eq] at h
  obtain ⟨octet, behind, hskip, h⟩ := leading_eq_ok.mp h
  split at h
  · next hfirst =>
    obtain ⟨behind', hread, hresult⟩ := bind_eq_ok.mp h
    rw [← (ok_pair_inj hresult).2]
    exact pass_literal hskip hfirst hread outer
  · rw [← Skip.pass_skip (skipBlank_behind hskip)]
    exact hvalue.map some h outer

/-! Lists -/

section Lists

variable {α : Type} {first : Bool} {input input' rest : Octets}

theorem nextElement_none (h : nextElement first input = .ok none) :
    skipBlank input = Container.list.close :: behindClose input := by
  unfold nextElement at h
  split at h
  · simp at h
  · next octet behind hskip =>
    split at h
    · next hclose => rw [behindClose_eq hskip, hskip, hclose]; rfl
    · split at h
      · simp at h
      · split at h
        · split at h
          · simp at h
          · split at h <;> simp at h
        · simp at h

theorem passFrom_nextElement (h : nextElement first input = .ok (some input'))
    (outer : List Container) : passFrom first .list outer input = pass (.list :: outer) input' := by
  obtain ⟨start, octet, behind, hbegins, hskip, hclose, rfl⟩ := nextElement_begins h
  have hlist : octet ≠ Container.list.close := hclose
  rw [Skip.passFrom_begins hbegins hskip hlist]
  exact Skip.pass_skip (skipBlank_behind hskip).symm

theorem readElements_skippable {item : Reader α} (hitem : Skippable item) {fuel : Nat}
    {taken values : List α}
    (h : readElements item fuel first taken input = .ok (values, rest))
    (outer : List Container) : passFrom first .list outer input = passOn outer rest := by
  induction fuel generalizing first taken input with
  | zero => simp [readElements] at h
  | succ fuel ih =>
    rw [readElements] at h
    obtain ⟨next, hnext, h⟩ := bind_eq_ok.mp h
    cases next with
    | none =>
      rw [← (ok_pair_inj h).2]
      exact Skip.passFrom_close (nextElement_none hnext)
    | some input' =>
      obtain ⟨⟨value, behind⟩, hread, h⟩ := bind_eq_ok.mp h
      rw [passFrom_nextElement hnext, hitem hread]
      exact ih h

theorem readList_skippable {item : Reader α} (hitem : Skippable item) (fuel : Nat) :
    Skippable (readList item fuel) := by
  intro input values rest h outer
  rw [readList_eq] at h
  obtain ⟨octet, behind, hskip, h⟩ := leading_eq_ok.mp h
  split at h
  · next hopen =>
    subst hopen
    have hcontainer : Container.ofFirst? Ascii.openBracket = some .list := by decide
    have hparts : passFrom true .list outer behind = passOn outer rest :=
      readElements_skippable hitem h outer
    rw [Skip.pass_container hskip hcontainer]
    exact hparts
  · simp at h

theorem readListEnd_close (h : readListEnd input = .ok rest) :
    skipBlank input = Container.list.close :: rest := by
  rw [readListEnd_eq] at h
  obtain ⟨octet, behind, hskip, h⟩ := leading_eq_ok.mp h
  split at h
  · next hclose => rw [hskip, hclose, Except.ok.inj h]; rfl
  · split at h
    · exact absurd h listEndBehindComma_ne_ok
    · simp at h

end Lists

/-! Objects -/

section Objects

variable {α σ : Type} {first : Bool} {input input' behind rest : Octets}

theorem nextKey_none (h : nextKey first input = .ok none) :
    skipBlank input = Container.object.close :: behindClose input := by
  unfold nextKey at h
  split at h
  · simp at h
  · next octet behind hskip =>
    split at h
    · next hclose => rw [behindClose_eq hskip, hskip, hclose]; rfl
    · split at h
      · split at h <;> simp at h
      · split at h
        · split at h
          · simp at h
          · split at h
            · simp at h
            · split at h <;> simp at h
        · simp at h

/-- What is behind the colon that follows a key. -/
theorem label_key {key : String} (hskip : skipBlank input = Ascii.quote :: input')
    (hkey : readText input' = .ok (key, behind)) (hcolon : readColon behind = .ok rest) :
    Container.object.label input = .ok rest := by
  rw [Skip.label_object_eq, leading_cons hskip, if_pos rfl, Skip.text_of_readText hkey]
  exact hcolon

theorem passFrom_nextKey (h : nextKey first input = .ok (some input')) {key : String}
    (hkey : readText input' = .ok (key, behind)) (hcolon : readColon behind = .ok rest)
    (outer : List Container) :
    passFrom first .object outer input = pass (.object :: outer) rest := by
  obtain ⟨start, hbegins, hskip⟩ := nextKey_begins h
  have hclose : Ascii.quote ≠ Container.object.close := by decide
  rw [Skip.passFrom_begins hbegins hskip hclose, label_key hskip hkey hcolon]
  rfl

/-- The same of what follows a key: a colon and then a value. -/
def SkippableEntry {α : Type} (reader : Reader α) : Prop :=
  ∀ {input value rest}, reader input = .ok (value, rest) →
    ∃ behind, readColon input = .ok behind ∧
      ∀ outer, pass outer behind = passOn outer rest

theorem readEntries_skippable {entry : String → σ → Reader σ}
    (hentry : ∀ key state, SkippableEntry (entry key state)) {fuel : Nat} {state state' : σ}
    (h : readEntries entry fuel first state input = .ok (state', rest))
    (outer : List Container) : passFrom first .object outer input = passOn outer rest := by
  induction fuel generalizing first state input with
  | zero => simp [readEntries] at h
  | succ fuel ih =>
    rw [readEntries] at h
    obtain ⟨next, hnext, h⟩ := bind_eq_ok.mp h
    cases next with
    | none =>
      rw [← (ok_pair_inj h).2]
      exact Skip.passFrom_close (nextKey_none hnext)
    | some input' =>
      obtain ⟨⟨key, behind⟩, hkey, h⟩ := bind_eq_ok.mp h
      obtain ⟨⟨state, behind'⟩, hread, h⟩ := bind_eq_ok.mp h
      obtain ⟨value, hcolon, hvalue⟩ := hentry key _ hread
      rw [passFrom_nextKey hnext hkey hcolon, hvalue]
      exact ih h

/-- From the elements of an array, whichever fields they leave. -/
def SkippableElements {α : Type} (first : Bool) (reader : Reader α) : Prop :=
  ∀ {input value rest}, reader input = .ok (value, rest) → ∃ first',
    ∀ outer, passFrom first .list outer input = passFrom first' .list outer rest

theorem collectRecord_eq_ok {collect : σ → Except String α} {state : σ} {value : α} :
    collectRecord collect state input = .ok (value, rest) ↔
      rest = input ∧ collect state = .ok value := by
  unfold collectRecord
  cases collect state with
  | ok collected =>
    simp only [Except.ok.injEq, Prod.mk.injEq]
    exact ⟨fun h => ⟨h.2.symm, h.1⟩, fun h => ⟨h.2, h.1.symm⟩⟩
  | error key => simp

theorem readRecord_skippable (title : String) (fuel : Nat) {elements : Reader α}
    (helements : SkippableElements true elements) {entry : String → σ → Reader σ}
    (hentry : ∀ key state, SkippableEntry (entry key state)) (start : σ)
    (collect : σ → Except String α) :
    Skippable (readRecord title fuel elements entry start collect) := by
  intro input value rest h outer
  rw [readRecord_eq] at h
  obtain ⟨octet, behind, hskip, h⟩ := leading_eq_ok.mp h
  split at h
  · next hopen =>
    subst hopen
    have hcontainer : Container.ofFirst? Ascii.openBracket = some .list := by decide
    obtain ⟨value', behind', hread, h⟩ := andThen_eq_ok.mp h
    obtain ⟨_, behind'', hend, h⟩ := andThen_eq_ok.mp h
    obtain ⟨first', hparts⟩ := helements hread
    have hparts : passParts .list outer behind = passFrom first' .list outer behind' :=
      hparts outer
    rw [Skip.pass_container hskip hcontainer, hparts,
      Skip.passFrom_close (readListEnd_close (passing_eq_ok.mp hend)), (ok_pair_inj h).2]
  · split at h
    · next hopen =>
      subst hopen
      have hcontainer : Container.ofFirst? Ascii.openBrace = some .object := by decide
      obtain ⟨state, behind', hread, h⟩ := andThen_eq_ok.mp h
      have hparts : passParts .object outer behind = passOn outer behind' :=
        readEntries_skippable hentry hread outer
      rw [Skip.pass_container hskip hcontainer, hparts, (collectRecord_eq_ok.mp h).1]
    · simp at h

end Objects

/-! Names -/

section Names

variable {α : Type} {names : List String} {input rest : Octets}

theorem readText_of_readName {index : Fin names.length}
    (h : readName names input = .ok (index, rest)) :
    readText input = .ok (names.get index, rest) := by
  obtain ⟨name, behind, hname, hfind⟩ : ∃ name behind, readText input = .ok (name, behind) ∧
      findName names name behind = .ok (index, rest) := andThen_eq_ok.mp h
  unfold findName at hfind
  split at hfind
  · next found hindex =>
    have hget : names.get found = name := (List.finIdxOf?_eq_some_iff.mp hindex).1
    obtain ⟨rfl, rfl⟩ := ok_pair_inj hfind
    rw [hname, hget]
  · simp at hfind

theorem text_of_readName {index : Fin names.length}
    (h : readName names input = .ok (index, rest)) : Json.Skip.text input = .ok rest :=
  Skip.text_of_readText (readText_of_readName h)

theorem nameAlone_rest {alone : Fin names.length → Except Fault α} {index : Fin names.length}
    {value : α} (h : nameAlone alone index input = .ok (value, rest)) : input = rest := by
  obtain ⟨value', -, h⟩ := bind_eq_ok.mp h
  exact (ok_pair_inj h).2

theorem readOnlyEnd_close {value value' : α} (h : readOnlyEnd value input = .ok (value', rest)) :
    value = value' ∧ skipBlank input = Container.object.close :: rest := by
  rw [readOnlyEnd_eq] at h
  obtain ⟨octet, behind, hskip, h⟩ := leading_eq_ok.mp h
  split at h
  · next hclose =>
    obtain ⟨rfl, rfl⟩ := ok_pair_inj h
    exact ⟨rfl, by rw [hskip, hclose]; rfl⟩
  · simp at h

/-- What follows the brace of a name's object is its only entry and its end. -/
theorem nameBehindBrace_skippable {content : Fin names.length → Reader α}
    (hcontent : ∀ index, Skippable (content index)) {value : α}
    (h : nameBehindBrace content input = .ok (value, rest)) (outer : List Container) :
    passParts .object outer input = passOn outer rest := by
  obtain ⟨octet, behind, hskip, h⟩ := leading_eq_ok.mp h
  split at h
  · next hquote =>
    subst hquote
    obtain ⟨index, behind', hname, h⟩ := andThen_eq_ok.mp h
    obtain ⟨value', behind'', hvalue, hend⟩ := andThen_eq_ok.mp h
    obtain ⟨inner, hcolon, hvalue⟩ := bind_eq_ok.mp hvalue
    have hclose : Ascii.quote ≠ Container.object.close := by decide
    have hlabel : Container.object.label input = .ok inner := by
      rw [Skip.label_object_eq, leading_cons hskip, if_pos rfl, text_of_readName hname]
      exact hcolon
    rw [Skip.passParts_label hskip hclose, hlabel]
    exact (hcontent index hvalue (.object :: outer)).trans
      (Skip.passOn_close (readOnlyEnd_close hend).2)
  · split at h <;> simp at h

theorem readNamed_skippable (alone : Fin names.length → Except Fault α)
    {content : Fin names.length → Reader α} (hcontent : ∀ index, Skippable (content index)) :
    Skippable (readNamed names alone content) := by
  intro input value rest h outer
  rw [readNamed_eq] at h
  obtain ⟨octet, behind, hskip, h⟩ := leading_eq_ok.mp h
  split at h
  · next hquote =>
    subst hquote
    obtain ⟨index, behind', hname, h⟩ := andThen_eq_ok.mp h
    rw [← nameAlone_rest h]
    exact Skip.pass_scalar hskip (by decide) (text_of_readName hname)
  · split at h
    · next hopen =>
      subst hopen
      have hcontainer : Container.ofFirst? Ascii.openBrace = some .object := by decide
      rw [Skip.pass_container hskip hcontainer]
      exact nameBehindBrace_skippable hcontent h outer
    · simp at h

end Names

/-! Schemas -/

theorem skipValue_skippable {fuel : Nat} {input rest : Octets}
    (h : skipValue fuel input = .ok rest) (outer : List Container) :
    pass outer input = passOn outer rest :=
  Skip.values_around outer h

theorem unknownEntry_eq_ok {fuel : Nat} {input rest : Octets} {value : Unit} :
    (do return ((), ← skipValue fuel (← readColon input)) : Except Fault (Unit × Octets)) =
        .ok (value, rest) ↔
      ∃ behind, readColon input = .ok behind ∧ skipValue fuel behind = .ok rest := by
  simp only [bind_eq_ok]
  simp [pure, Except.pure]

theorem slotEntry_skippable {α σ : Type} {key : String} {value : Reader α}
    {next : String → σ → Reader σ} (hvalue : Skippable value)
    (hnext : ∀ given state, SkippableEntry (next given state)) (given : String)
    (slots : Option α × σ) : SkippableEntry (slotEntry key value next given slots) := by
  obtain ⟨slot, state⟩ := slots
  intro input result rest h
  simp only [slotEntry] at h
  split at h
  · obtain ⟨⟨slot', behind⟩, hfill, h⟩ := bind_eq_ok.mp h
    rw [← (ok_pair_inj h).2]
    unfold fillSlot at hfill
    cases slot with
    | some _ => simp at hfill
    | none =>
      obtain ⟨inner, hcolon, hfill⟩ := bind_eq_ok.mp hfill
      obtain ⟨⟨value', tail⟩, hread, hfill⟩ := bind_eq_ok.mp hfill
      rw [← (ok_pair_inj hfill).2]
      exact ⟨inner, hcolon, fun outer => hvalue hread outer⟩
  · obtain ⟨⟨state', behind⟩, hread, h⟩ := bind_eq_ok.mp h
    rw [← (ok_pair_inj h).2]
    exact hnext given state hread

/-- From the place of an element on, whichever fields are left. -/
def SkippableField {α : Type} (reader : Reader α) : Prop :=
  ∀ {input value rest}, reader input = .ok (value, rest) → ∃ first,
    ∀ outer, pass (.list :: outer) input = passFrom first .list outer rest

section Elements

variable {α β : Type} {first : Bool}

theorem readField_skippable {value : Reader α} {next : Reader β} (hvalue : Skippable value)
    (hnext : SkippableElements false next) : SkippableField (readField value next) := by
  intro input result rest h
  obtain ⟨value', behind, hread, h⟩ := andThen_eq_ok.mp h
  obtain ⟨values, behind', hread', h⟩ := andThen_eq_ok.mp h
  obtain ⟨first', hparts⟩ := hnext hread'
  rw [← (ok_pair_inj h).2]
  exact ⟨first', fun outer => (hvalue hread _).trans (hparts outer)⟩

theorem SkippableElements.map {reader : Reader α} (h : SkippableElements first reader)
    (change : α → β) :
    SkippableElements first (reader.andThen fun value rest => .ok (change value, rest)) := by
  intro input value rest hread
  obtain ⟨read, behind, hread, hvalue⟩ := andThen_eq_ok.mp hread
  rw [← (ok_pair_inj hvalue).2]
  exact h hread

theorem SkippableElements.element {reader : Reader α} (stop more : Reader α)
    (hreader : ∀ input, reader input = nextElement first input >>= orStop (stop input) more)
    (hstop : SkippableElements first stop) (hmore : SkippableField more) :
    SkippableElements first reader := by
  intro input value rest h
  rw [hreader] at h
  obtain ⟨next, hnext, h⟩ := bind_eq_ok.mp h
  cases next with
  | none => exact hstop h
  | some input' =>
    obtain ⟨first', hparts⟩ := hmore h
    exact ⟨first', fun outer => (passFrom_nextElement hnext outer).trans (hparts outer)⟩

end Elements

theorem readUnit_choice_skippable (names : List String) (index : Fin names.length) :
    Skippable fun input => (do return (index, (← readUnit input).2) : Except Fault _) :=
  readUnit_skippable.map fun _ => index

mutual

/-- Whatever a value is read as, reading stops where skipping would go on. -/
theorem Schema.read_skippable (fuel : Nat) : (schema : Schema) → Skippable (schema.read fuel)
  | .text => readTextValue_skippable
  | .word size => readWord_skippable size
  | .boolean => readBoolean_skippable
  | .list item => readList_skippable (item.read_skippable fuel) fuel
  | .choice names => readNamed_skippable _ (readUnit_choice_skippable names)
  | .record title fields =>
    readRecord_skippable title fuel (fields.readElements_skippable fuel title fields.size 0 true)
      (fields.readEntry_skippable fuel) fields.noSlots fields.collect
  | .union cases => readNamed_skippable _ fun index => cases.readContent_skippable fuel index

theorem Fields.readElements_skippable (fuel : Nat) : (fields : Fields) → (title : String) →
    (size index : Nat) → (first : Bool) →
    SkippableElements first (fields.readElements fuel title size index first)
  | .nil, _, _, _, first => by
    intro h
    rw [← (ok_pair_inj h).2]
    exact ⟨first, fun _ => rfl⟩
  | .required _ schema rest, title, size, index, _ =>
    SkippableElements.element (fun input => .error (.here (.mismatch (.tooShort index title size))
        (behindClose input)))
      (readField (schema.read fuel) (rest.readElements fuel title size (index + 1) false))
      (fun _ => rfl) (fun h => by simp at h)
      (readField_skippable (schema.read_skippable fuel)
        (rest.readElements_skippable fuel title size _ _))
  | .optional _ schema rest, title, size, index, first =>
    SkippableElements.element ((rest.readElements fuel title size (index + 1) first).andThen
        fun values rest => .ok ((none, values), rest))
      (readField (readOptional (schema.read fuel))
        (rest.readElements fuel title size (index + 1) false)) (fun _ => rfl)
      (SkippableElements.map (rest.readElements_skippable fuel title size _ _)
        fun values => (none, values))
      (readField_skippable (readOptional_skippable (schema.read_skippable fuel))
        (rest.readElements_skippable fuel title size _ _))
  | .defaulted _ item rest, title, size, index, first =>
    SkippableElements.element ((rest.readElements fuel title size (index + 1) first).andThen
        fun values rest => .ok (([], values), rest))
      (readField (readList (item.read fuel) fuel)
        (rest.readElements fuel title size (index + 1) false)) (fun _ => rfl)
      (SkippableElements.map (rest.readElements_skippable fuel title size _ _)
        fun values => ([], values))
      (readField_skippable (readList_skippable (item.read_skippable fuel) fuel)
        (rest.readElements_skippable fuel title size _ _))

theorem Fields.readEntry_skippable (fuel : Nat) : (fields : Fields) → (given : String) →
    (slots : fields.Slots) → SkippableEntry (fields.readEntry fuel given slots)
  | .nil, _, _ => by
    intro h
    obtain ⟨behind, hcolon, hskip⟩ := unknownEntry_eq_ok.mp h
    exact ⟨behind, hcolon, fun outer => skipValue_skippable hskip outer⟩
  | .required _ schema rest, given, slots =>
    slotEntry_skippable (schema.read_skippable fuel) (rest.readEntry_skippable fuel) given slots
  | .optional _ schema rest, given, slots =>
    slotEntry_skippable (readOptional_skippable (schema.read_skippable fuel))
      (rest.readEntry_skippable fuel) given slots
  | .defaulted _ item rest, given, slots =>
    slotEntry_skippable (readList_skippable (item.read_skippable fuel) fuel)
      (rest.readEntry_skippable fuel) given slots

theorem Cases.readContent_skippable (fuel : Nat) : (cases : Cases) → (index : Nat) →
    Skippable (cases.readContent fuel index)
  | .nil, _ => fun h => by simp [Cases.readContent] at h
  | .cons _ title fields _, 0 =>
    Skippable.map (readRecord_skippable title fuel
      (fields.readElements_skippable fuel title fields.size 0 true)
      (fields.readEntry_skippable fuel) fields.noSlots fields.collect) Sum.inl
  | .cons _ _ _ rest, index + 1 => Skippable.map (rest.readContent_skippable fuel index) Sum.inr

end

end MacroPlugin.Wire
