import MacroPlugin.Proofs.Wire.LocalScalars

/-!
A number leaves alone what it does not take, provided that what follows does not continue it. Each
of its parts is a reader that goes on where an octet continues the number and ends it otherwise.
-/

namespace MacroPlugin.Wire

open Json

theorem isBlank_of_digit {octet : UInt8} {digit : Nat} (h : Ascii.digit? octet = some digit) :
    isBlank octet = false :=
  Continues.isBlank_eq_false (.inl (by rw [h]; rfl))

/-- Takes an octet if it means something. -/
def ifAny {α : Type} (missing : α) (meant? : UInt8 → Option α) : Reader α
  | [] => .ok (missing, [])
  | octet :: rest =>
    match meant? octet with
    | some value => .ok (value, rest)
    | none => .ok (missing, octet :: rest)

theorem ifAny_peeking {α : Type} (missing : α) (meant? : UInt8 → Option α) :
    Peeking (ifAny missing meant?) := by
  have htakes : ∀ {input value rest}, ifAny missing meant? input = .ok (value, rest) →
      ∃ taken, input = taken ++ rest := by
    intro input value rest hread
    cases input with
    | nil =>
      simp only [ifAny, Except.ok.injEq, Prod.mk.injEq] at hread
      exact ⟨[], hread.2⟩
    | cons octet input =>
      unfold ifAny at hread
      cases hmeant : meant? octet with
      | some meant =>
        simp only [hmeant, Except.ok.injEq, Prod.mk.injEq] at hread
        exact ⟨[octet], by rw [hread.2]; rfl⟩
      | none =>
        simp only [hmeant, Except.ok.injEq, Prod.mk.injEq] at hread
        exact ⟨[], hread.2⟩
  refine ⟨htakes, ?_⟩
  intro front value rest back hrest
  cases front with
  | nil =>
    constructor
    · intro hread
      obtain ⟨taken, hinput⟩ := htakes hread
      have hlength := congrArg List.length hinput
      simp only [List.nil_append, List.length_append] at hlength
      obtain rfl : rest = [] := List.length_eq_zero_iff.mp (by omega)
      exact absurd blank_nil hrest
    · intro hread
      obtain ⟨taken, hinput⟩ := htakes hread
      obtain rfl := (List.append_eq_nil_iff.mp hinput.symm).2
      exact absurd blank_nil hrest
  | cons octet front =>
    rw [List.cons_append]
    cases hmeant : meant? octet with
    | some meant => simp [ifAny, hmeant]
    | none =>
      simp only [ifAny, hmeant, Except.ok.injEq, Prod.mk.injEq]
      rw [← List.cons_append, List.append_cancel_right_eq]

/-! Rows of digits -/

/-- Takes octets into a state for as long as they belong to a row: where the octets run out, the
row is taken up again in the state reached. -/
structure IsRow {σ : Type} (row : σ → Octets → σ × Octets) : Prop where
  append : ∀ state front back, row state (front ++ back) =
    if (row state front).2 = [] then row (row state front).1 back
    else ((row state front).1, (row state front).2 ++ back)
  takes : ∀ state input, ∃ taken, input = taken ++ (row state input).2 ∧ Sealed taken
  stops : ∀ state {rest}, Stops rest → row state rest = (state, rest)

theorem IsRow.closing {σ : Type} {row : σ → Octets → σ × Octets} (h : IsRow row) (state : σ) :
    Closing fun input => .ok (row state input) where
  takes := by
    intro input value rest hread
    obtain ⟨taken, hinput, htaken⟩ := h.takes state input
    rw [Except.ok.injEq] at hread
    rw [hread] at hinput
    exact ⟨taken, hinput, htaken⟩
  frame := by
    intro front value rest back hrest
    simp only [Except.ok.injEq]
    rw [h.append]
    split
    · next hnil =>
      -- The row goes on behind the front, if at all.
      have hback : rest = [] → row (row state front).1 back = ((row state front).1, back) :=
        fun hnone => h.stops _ (hrest.resolve_left (by simp [hnone]))
      constructor
      · intro hread
        obtain ⟨taken, hinput, -⟩ := h.takes (row state front).1 back
        rw [hread] at hinput
        have hlength := congrArg List.length hinput
        simp only [List.length_append] at hlength
        obtain rfl : rest = [] := List.length_eq_zero_iff.mp (by omega)
        rw [hback rfl, Prod.mk.injEq] at hread
        exact Prod.ext hread.1 hnil
      · intro hread
        obtain rfl : rest = [] := by rw [← hnil, hread]
        rw [hback rfl, hread, List.nil_append]
    · simp [Prod.ext_iff]

/-- The state of `Number.takeDigits`: the word and the number of digits in it. -/
def takeRow (limit : Nat) (state : Nat × Nat) (input : Octets) : (Nat × Nat) × Octets :=
  let (word, count, rest) := Number.takeDigits limit state.1 state.2 input
  ((word, count), rest)

theorem takeRow_isRow (limit : Nat) : IsRow (takeRow limit) where
  append := by
    rintro ⟨word, count⟩ front back
    induction front generalizing word count with
    | nil => rfl
    | cons octet front ih =>
      unfold takeRow at ih ⊢
      rw [List.cons_append, Number.takeDigits, Number.takeDigits]
      cases Ascii.digit? octet with
      | none => rfl
      | some digit =>
        dsimp only
        split
        · exact ih _ _
        · rfl
  takes := by
    rintro ⟨word, count⟩ input
    induction input generalizing word count with
    | nil => exact ⟨[], rfl, sealed_nil⟩
    | cons octet input ih =>
      unfold takeRow at ih ⊢
      rw [Number.takeDigits]
      cases hdigit : Ascii.digit? octet with
      | none => exact ⟨[], rfl, sealed_nil⟩
      | some digit =>
        dsimp only
        split
        · obtain ⟨taken, hinput, htaken⟩ := ih (10 * word + digit) (count + 1)
          refine ⟨[octet] ++ taken, ?_, (sealed_singleton (isBlank_of_digit hdigit)).append htaken⟩
          rw [List.append_assoc, ← hinput]
          rfl
        · exact ⟨[], rfl, sealed_nil⟩
  stops := by
    rintro ⟨word, count⟩ rest hstops
    unfold takeRow
    rw [takeDigits_stops hstops]

theorem dropDigits_isRow : IsRow Number.dropDigits where
  append := by
    intro count front back
    induction front generalizing count with
    | nil => rfl
    | cons octet front ih =>
      rw [List.cons_append, Number.dropDigits, Number.dropDigits]
      split
      · exact ih _
      · rfl
  takes := by
    intro count input
    induction input generalizing count with
    | nil => exact ⟨[], rfl, sealed_nil⟩
    | cons octet input ih =>
      rw [Number.dropDigits]
      split
      · next hdigit =>
        obtain ⟨taken, hinput, htaken⟩ := ih (count + 1)
        refine ⟨[octet] ++ taken, ?_,
          (sealed_singleton (Continues.isBlank_eq_false (.inl hdigit))).append htaken⟩
        rw [List.append_assoc, ← hinput]
        rfl
      · exact ⟨[], rfl, sealed_nil⟩
  stops := fun count _ hstops => dropDigits_stops hstops count

/-! The parts of a number -/

section Parts

variable (negative : Bool) (word : Nat) (exponent : Int)

/-- What is read behind a digit and those that follow it. -/
theorem Closing.behindDigits {α : Type} {reader : Reader α} (h : Closing reader) {octet : UInt8}
    (hoctet : (Ascii.digit? octet).isSome = true) :
    Closing fun rest => reader (Number.dropDigits 0 (octet :: rest)).2 := by
  have hdrop : ∀ rest, Number.dropDigits 0 (octet :: rest) = Number.dropDigits 1 rest := by
    intro rest
    rw [Number.dropDigits, if_pos hoctet]
  simp only [hdrop]
  exact (dropDigits_isRow.closing 1).andThen fun _ => h

theorem finish_closing : Closing (Number.finish negative word exponent) := by
  unfold Number.finish
  cases Number.scale 4 word.toUInt64.toFloat exponent with
  | none => exact (Whole.fault _).toClosing
  | some value => exact .ok (Number.signed negative value)

/-- Reads the sign of an exponent, if there is one: whether it points downward. -/
def exponentSign : Reader Bool :=
  ifAny false fun octet =>
    if octet = Ascii.plus then some false else if octet = Ascii.minus then some true else none

/-- What is behind the digits of an exponent that are read one by one. -/
def exponentPower (downward : Bool) (power : Nat) : Reader Number := fun rest =>
  if Number.startsWithDigit rest then
    if word ≠ 0 && !downward then .error (.here .numberTooLarge rest.tail)
    else .ok (Number.signed negative 0, (Number.dropDigits 0 rest).2)
  else Number.finish negative word (if downward then exponent - power else exponent + power) rest

theorem exponentPower_closing (downward : Bool) (power : Nat) :
    Closing (exponentPower negative word exponent downward power) := by
  refine .peek (fun octet => (Ascii.digit? octet).isSome)
    (Number.finish negative word (if downward then exponent - power else exponent + power))
    (fun octet rest => if word ≠ 0 && !downward then .error (.here .numberTooLarge rest)
      else .ok (Number.signed negative 0, (Number.dropDigits 0 (octet :: rest)).2))
    (fun octet => .inl) rfl (fun octet rest => rfl) (finish_closing _ _ _) fun octet hoctet => ?_
  exact .ite (fun _ => (Whole.fault _).toClosing)
    fun _ => (Closing.ok (Number.signed negative 0)).behindDigits hoctet

/-- Reads the digits of an exponent. -/
def exponentDigits (downward : Bool) : Reader Number
  | [] => .error (.here .endOfValue [])
  | octet :: rest =>
    match Ascii.digit? octet with
    | none => .error (.here .badNumber rest)
    | some digit => Reader.andThen (fun rest => .ok (takeRow Number.maxExponent (digit, 0) rest))
        (fun power => exponentPower negative word exponent downward power.1) rest

theorem exponentDigits_whole (downward : Bool) :
    Whole (exponentDigits negative word exponent downward) := by
  refine .first (fun octet rest => exponentDigits negative word exponent downward (octet :: rest))
    (fun result => by simp [exponentDigits]) (fun _ _ => rfl) ?_ ?_
  · intro octet rest result hblank
    simp [exponentDigits, (digit?_of_isBlank hblank).1]
  · intro octet _
    cases hdigit : Ascii.digit? octet with
    | none =>
      simp only [exponentDigits, hdigit]
      exact (Whole.fault _).toClosing
    | some digit =>
      simp only [exponentDigits, hdigit]
      exact ((takeRow_isRow _).closing _).andThen fun power =>
        exponentPower_closing negative word exponent downward power.1

theorem readExponent_eq : Number.readExponent negative word exponent =
    exponentSign.andThen (exponentDigits negative word exponent) := by
  funext input
  unfold Number.readExponent Reader.andThen exponentSign ifAny
  cases input with
  | nil => rfl
  | cons octet rest =>
    dsimp only
    by_cases hplus : octet = Ascii.plus
    · simp only [if_pos hplus]
      rfl
    · by_cases hminus : octet = Ascii.minus
      · simp only [if_neg hplus, if_pos hminus]
        rfl
      · simp only [if_neg hplus, if_neg hminus]
        rfl

theorem readExponent_whole : Whole (Number.readExponent negative word exponent) := by
  rw [readExponent_eq]
  unfold exponentSign
  exact (ifAny_peeking _ _).andThen_whole fun downward =>
    exponentDigits_whole negative word exponent downward

theorem readEnd_closing : Closing (Number.readEnd negative word exponent) :=
  .peek Number.isExponentMark (Number.finish negative word exponent)
    (fun _ => Number.readExponent negative word exponent) (fun _ h => .inr (.inr h)) rfl
    (fun _ _ => rfl) (finish_closing negative word exponent)
    fun _ _ => (readExponent_whole negative word exponent).toClosing

/-- What is behind the digits of a fraction that are read one by one. -/
def fractionTail (count : Nat) : Reader Number := fun rest =>
  if Number.startsWithDigit rest then
    Number.readEnd negative word (exponent - count) (Number.dropDigits 0 rest).2
  else if count = 0 then
    .error (.next (if rest.isEmpty then .endOfValue else .badNumber) rest)
  else Number.readEnd negative word (exponent - count) rest

theorem fractionTail_closing (count : Nat) :
    Closing (fractionTail negative word exponent count) := by
  have hend := readEnd_closing negative word (exponent - count)
  refine .peek (fun octet => (Ascii.digit? octet).isSome)
    (fun rest => if count = 0 then
        .error (.next (if rest.isEmpty then .endOfValue else .badNumber) rest)
      else Number.readEnd negative word (exponent - count) rest)
    (fun octet rest => Number.readEnd negative word (exponent - count)
      (Number.dropDigits 0 (octet :: rest)).2)
    (fun octet => .inl) rfl (fun octet rest => rfl) ?_ fun octet hoctet => hend.behindDigits hoctet
  exact .ite (fun _ => (Whole.fault _).toClosing) fun _ => hend

theorem readFraction_closing : Closing (Number.readFraction negative word exponent) :=
  ((takeRow_isRow Number.maxWord).closing (word, 0)).andThen fun state =>
    fractionTail_closing negative state.1 exponent state.2

end Parts

/-- What continues a number behind its whole part. -/
def continuesWhole (octet : UInt8) : Bool :=
  octet = Ascii.point || Number.isExponentMark octet

theorem readRest_closing (negative : Bool) (word dropped : Nat) :
    Closing (Number.readRest negative word dropped) := by
  refine .peek continuesWhole
    (fun rest => if dropped = 0 then .ok (Number.whole negative word, rest)
      else Number.finish negative word dropped rest)
    (fun octet rest => if octet = Ascii.point then Number.readFraction negative word dropped rest
      else Number.readExponent negative word dropped rest) ?_ rfl ?_ ?_ ?_
  · intro octet hoctet
    simp only [continuesWhole, Bool.or_eq_true, decide_eq_true_eq] at hoctet
    exact .inr hoctet
  · intro octet rest
    unfold Number.readRest continuesWhole
    by_cases hpoint : octet = Ascii.point
    · simp [hpoint]
    · simp [hpoint]
  · exact .ite (fun _ => .ok _) fun _ => finish_closing negative word dropped
  · intro octet _
    exact .ite (fun _ => readFraction_closing negative word dropped)
      fun _ => (readExponent_whole negative word dropped).toClosing

theorem readMagnitude_whole (negative : Bool) : Whole (Number.readMagnitude negative) := by
  refine .first (fun octet rest => Number.readMagnitude negative (octet :: rest))
    (fun result => by simp [Number.readMagnitude]) (fun _ _ => rfl) ?_ ?_
  · intro octet rest result hblank
    simp [Number.readMagnitude, (digit?_of_isBlank hblank).1]
  · intro octet _
    cases hdigit : Ascii.digit? octet with
    | none =>
      simp only [Number.readMagnitude, hdigit]
      exact (Whole.fault _).toClosing
    | some digit =>
      cases digit with
      | zero =>
        simp only [Number.readMagnitude, hdigit]
        exact .peek (fun octet => (Ascii.digit? octet).isSome) (Number.readRest negative 0 0)
          (fun octet rest => .error (.next .badNumber (octet :: rest))) (fun octet => .inl) rfl
          (fun octet rest => rfl) (readRest_closing negative 0 0)
          fun octet _ => (Whole.fault fun rest => .next .badNumber (octet :: rest)).toClosing
      | succ digit =>
        simp only [Number.readMagnitude, hdigit]
        exact ((takeRow_isRow Number.maxWord).closing (digit + 1, 0)).andThen fun state =>
          (dropDigits_isRow.closing 0).andThen fun dropped =>
            readRest_closing negative state.1 dropped

theorem read_whole : Whole Number.read := by
  refine .first (fun octet rest => Number.read (octet :: rest))
    (fun result => by simp [Number.read]) (fun _ _ => rfl) ?_ ?_
  · intro octet rest result hblank
    have hminus : octet ≠ Ascii.minus := by
      rintro rfl
      exact absurd hblank (by decide)
    simp [Number.read, Number.readMagnitude, hminus, (digit?_of_isBlank hblank).1]
  · intro octet _
    unfold Number.read
    exact .ite (fun _ => (readMagnitude_whole true).toClosing)
      fun _ => (readMagnitude_whole false).unread octet

/-- The word that a number denotes, or the fault of the number. -/
def heldWord (size : WordSize) (value : Number) : Reader size.Val := fun rest =>
  match wordOf? size value, value with
  | some word, _ => .ok (word, rest)
  | none, .integer _ => .error (.here (.mismatch (.wrongValue value.found size.title)) rest)
  | none, .real _ => .error (.here (.mismatch (.wrongType value.found size.title)) rest)

theorem heldWord_closing (size : WordSize) (value : Number) : Closing (heldWord size value) := by
  unfold heldWord
  cases wordOf? size value with
  | some word => exact .ok word
  | none =>
    cases value with
    | integer value => exact (Whole.fault _).toClosing
    | real value => exact (Whole.fault _).toClosing

theorem readWord_eq (size : WordSize) :
    readWord size = leading (.here .endOfValue []) fun octet rest =>
      if Number.isFirst octet then Reader.andThen Number.read (heldWord size) (octet :: rest)
      else .error (unexpected size.title (octet :: rest)) :=
  rfl

theorem readWord_whole (size : WordSize) : Whole (readWord size) := by
  rw [readWord_eq]
  refine .lead fun octet _ => ?_
  exact .ite (fun _ => (read_whole.andThen (heldWord_closing size)).unread octet)
    fun _ => (Whole.fault _).toClosing

end MacroPlugin.Wire
