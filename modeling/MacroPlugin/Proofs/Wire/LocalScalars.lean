import MacroPlugin.Proofs.Wire.Locality

/-!
Literals, texts and numbers leave alone what they do not take.
-/

namespace MacroPlugin.Wire

open Json

section Passing

variable {α : Type} {f : Octets → Except Fault Octets} {reader : Reader α}

/-- What passes over octets, as a reader without a value. -/
def passing (f : Octets → Except Fault Octets) : Reader Unit := fun input => do
  return ((), ← f input)

theorem passing_andThen (f : Octets → Except Fault Octets) (reader : Reader α) :
    (passing f).andThen (fun _ => reader) = fun input => f input >>= reader := by
  funext input
  cases hpass : f input <;>
    simp [passing, Reader.andThen, hpass, bind, Except.bind, pure, Except.pure]

theorem passing_eq_ok {input rest : Octets} {value : Unit} :
    passing f input = .ok (value, rest) ↔ f input = .ok rest := by
  unfold passing
  cases f input <;> simp [bind, Except.bind, pure, Except.pure]

theorem Whole.passed (h : Whole (passing f)) (hreader : Closing reader) :
    Whole fun input => f input >>= reader := by
  rw [← passing_andThen]
  exact h.andThen fun _ => hreader

theorem Closing.passed (h : Closing (passing f)) (hreader : Closing reader) :
    Closing fun input => f input >>= reader := by
  rw [← passing_andThen]
  exact h.andThen fun _ => hreader

theorem Closing.passed_whole (h : Closing (passing f)) (hreader : Whole reader) :
    Whole fun input => f input >>= reader := by
  rw [← passing_andThen]
  exact h.peeking.andThen_whole fun _ => hreader

end Passing

/-! Literals -/

theorem readExactly_eq_ok {wanted input rest : Octets} :
    readExactly wanted input = .ok rest ↔ input = wanted ++ rest := by
  constructor
  · intro hread
    induction wanted generalizing input with
    | nil =>
      rw [readExactly, Except.ok.injEq] at hread
      exact hread
    | cons want wanted ih =>
      cases input with
      | nil => simp [readExactly] at hread
      | cons octet input =>
        rw [readExactly] at hread
        split at hread
        · next heq => rw [heq, ih hread, List.cons_append]
        · simp at hread
  · rintro rfl
    exact readExactly_append wanted rest

theorem readRemainder_closing (literal : Literal) : Closing (passing literal.readRemainder) where
  takes := by
    intro input value rest hread
    rw [passing_eq_ok, Literal.readRemainder, readExactly_eq_ok] at hread
    refine ⟨literal.remainder, hread, ?_⟩
    cases literal <;> exact fun octet hmem => by simp_all [Literal.remainder]; subst hmem; decide
  frame := by
    intro front value rest back _
    simp only [passing_eq_ok, Literal.readRemainder, readExactly_eq_ok]
    rw [← List.append_assoc]
    exact ⟨List.append_cancel_right, fun h => by rw [h]⟩

/-! Texts -/

section Machine

variable {α σ : Type}

/-- Takes in octets one at a time, from state to state, until one of them completes the value. -/
structure IsMachine (run : σ → Reader α) (step : UInt8 → σ → Except (Octets → Fault) (α ⊕ σ)) :
    Prop where
  nil : ∀ state, ∃ fault, run state [] = .error fault
  cons : ∀ state octet rest, run state (octet :: rest) =
    match step octet state with
    | .ok (.inl value) => .ok (value, rest)
    | .ok (.inr state) => run state rest
    | .error fault => .error (fault rest)
  last : ∀ {state octet value}, step octet state = .ok (.inl value) → isBlank octet = false

variable {run : σ → Reader α} {step : UInt8 → σ → Except (Octets → Fault) (α ⊕ σ)}

theorem IsMachine.takes (h : IsMachine run step) {state : σ} {input rest : Octets} {value : α}
    (hread : run state input = .ok (value, rest)) :
    ∃ front last, input = front ++ last :: rest ∧ isBlank last = false := by
  induction input generalizing state with
  | nil =>
    obtain ⟨fault, hfault⟩ := h.nil state
    rw [hfault] at hread
    simp at hread
  | cons octet input ih =>
    rw [h.cons] at hread
    match hstep : step octet state with
    | .ok (.inl meant) =>
      simp only [hstep, Except.ok.injEq, Prod.mk.injEq] at hread
      exact ⟨[], octet, by rw [hread.2]; rfl, h.last hstep⟩
    | .ok (.inr state) =>
      simp only [hstep] at hread
      obtain ⟨front, last, rfl, hlast⟩ := ih hread
      exact ⟨octet :: front, last, rfl, hlast⟩
    | .error fault => simp [hstep] at hread

theorem IsMachine.frame (h : IsMachine run step) {state : σ} {front back rest : Octets}
    {value : α} :
    run state (front ++ back) = .ok (value, rest ++ back) ↔
      run state front = .ok (value, rest) := by
  induction front generalizing state with
  | nil =>
    constructor
    · intro hread
      obtain ⟨front, last, hinput, -⟩ := h.takes hread
      have hlength := congrArg List.length hinput
      simp only [List.nil_append, List.length_append, List.length_cons] at hlength
      omega
    · intro hread
      obtain ⟨fault, hfault⟩ := h.nil state
      rw [hfault] at hread
      simp at hread
  | cons octet front ih =>
    rw [List.cons_append, h.cons, h.cons]
    match step octet state with
    | .ok (.inl meant) => simp
    | .ok (.inr state) => exact ih
    | .error fault => simp

theorem IsMachine.whole (h : IsMachine run step) (state : σ) : Whole (run state) where
  takes := by
    intro input value rest hread
    obtain ⟨front, last, rfl, hlast⟩ := h.takes hread
    exact ⟨front ++ [last], by simp, (sealed_singleton hlast).behind (by simp) front⟩
  frame := fun _ => h.frame
  moves := by
    intro input value rest hread
    obtain ⟨front, last, rfl, -⟩ := h.takes hread
    intro heq
    have hlength := congrArg List.length heq
    simp only [List.length_append, List.length_cons] at hlength
    omega

end Machine

theorem isBlank_of_ends {state : TextState} {octet : UInt8}
    (h : state.ends octet = true) : isBlank octet = false := by
  cases state with
  | plain =>
    rw [TextState.ends, decide_eq_true_eq] at h
    rw [h]
    rfl
  | escape | hex | pair | pairEscape => simp [TextState.ends] at h

/-- One octet of `gatherText`, which keeps the octets gathered before. -/
def gatherStep (octet : UInt8) (state : TextState × Octets) :
    Except (Octets → Fault) (Octets ⊕ (TextState × Octets)) :=
  if state.1.ends octet then .ok (.inl state.2.reverse)
  else match state.1.step octet with
    | .ok (next, added) => .ok (.inr (next, added.reverse ++ state.2))
    | .error cause => .error (.here cause)

theorem gatherText_isMachine :
    IsMachine (fun state : TextState × Octets => gatherText state.1 state.2) gatherStep where
  nil := fun _ => ⟨_, rfl⟩
  cons := by
    rintro ⟨state, taken⟩ octet rest
    rw [gatherText, gatherStep]
    by_cases hends : state.ends octet = true
    · simp only [if_pos hends]
    · simp only [if_neg hends]
      cases state.step octet with
      | error cause => rfl
      | ok result => rfl
  last := by
    rintro ⟨state, taken⟩ octet value hstep
    unfold gatherStep at hstep
    by_cases hends : state.ends octet = true
    · exact isBlank_of_ends hends
    · rw [if_neg hends] at hstep
      cases hnext : state.step octet with
      | error cause => simp [hnext] at hstep
      | ok result => simp [hnext] at hstep

/-- Takes gathered octets for the text that they spell. -/
def spelled (octets : Octets) : Reader String := fun rest =>
  match octets.toText? with
  | some value => .ok (value, rest)
  | none => .error (.here (.badUnicode (octets.length - Utf8.wellFormedLength octets)) rest)

theorem readText_eq : readText = Reader.andThen (gatherText .plain []) spelled := rfl

theorem readText_whole : Whole readText := by
  rw [readText_eq]
  refine (gatherText_isMachine.whole (.plain, [])).andThen fun octets => ?_
  unfold spelled
  cases octets.toText? with
  | none => exact (Whole.fault _).toClosing
  | some text => exact .ok text

theorem readTextValue_eq : readTextValue = leading (.here .endOfValue []) fun octet rest =>
    if octet = Ascii.quote then readText rest
    else .error (unexpected "a string" (octet :: rest)) :=
  rfl

theorem readTextValue_whole : Whole readTextValue := by
  rw [readTextValue_eq]
  refine .lead fun octet _ => ?_
  exact .ite (fun _ => readText_whole.toClosing) fun _ => (Whole.fault _).toClosing

/-! Truth values and what is absent -/

/-- Reads the truth value that begins with an octet, behind that octet. -/
def booleanBehind (octet : UInt8) : Reader Bool := fun rest =>
  match Literal.ofFirst? octet with
  | some .yes => do return (true, ← Literal.yes.readRemainder rest)
  | some .no => do return (false, ← Literal.no.readRemainder rest)
  | _ => .error (unexpected "a boolean" (octet :: rest))

theorem booleanBehind_closing (octet : UInt8) : Closing (booleanBehind octet) := by
  unfold booleanBehind
  split
  · exact (readRemainder_closing .yes).passed (.ok true)
  · exact (readRemainder_closing .no).passed (.ok false)
  · exact (Whole.fault _).toClosing

theorem readBoolean_eq : readBoolean = leading (.here .endOfValue []) booleanBehind :=
  rfl

theorem readBoolean_whole : Whole readBoolean := by
  rw [readBoolean_eq]
  exact .lead fun octet _ => booleanBehind_closing octet

/-- Reads the literal `null` that begins with an octet, behind that octet. -/
def unitBehind (octet : UInt8) : Reader Unit := fun rest =>
  match Literal.ofFirst? octet with
  | some .null => do return ((), ← Literal.null.readRemainder rest)
  | _ => .error (unexpected "unit" (octet :: rest))

theorem unitBehind_closing (octet : UInt8) : Closing (unitBehind octet) := by
  unfold unitBehind
  split
  · exact (readRemainder_closing .null).passed (.ok ())
  · exact (Whole.fault _).toClosing

theorem readUnit_eq : readUnit = leading (.here .endOfValue []) unitBehind :=
  rfl

theorem readUnit_whole : Whole readUnit := by
  rw [readUnit_eq]
  exact .lead fun octet _ => unitBehind_closing octet

theorem readOptional_eq {α : Type} (value : Reader α) :
    readOptional value = leading (.here .endOfValue []) fun octet rest =>
      if Literal.ofFirst? octet = some .null then do
        return (none, ← Literal.null.readRemainder rest)
      else value.andThen (fun value rest => .ok (some value, rest)) (octet :: rest) :=
  rfl

theorem readOptional_whole {α : Type} {value : Reader α} (h : Whole value) :
    Whole (readOptional value) := by
  rw [readOptional_eq]
  refine .lead fun octet _ => ?_
  exact .ite (fun _ => (readRemainder_closing .null).passed (.ok none))
    fun _ => (h.map some).unread octet

end MacroPlugin.Wire
