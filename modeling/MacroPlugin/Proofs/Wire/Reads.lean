import MacroPlugin.Proofs.Json.Written
import MacroPlugin.Wire.Reader

/-!
What it means that a reader understands a text, and how that is put together from the parts of the
text. `Reads closed n reader text value` says two things. Before any continuation the reader takes
exactly the text and returns the value. And when the text is cut short, the reader is at fault at
the end of the input and for no other reason. Only a number does not say where it ends: it needs a
continuation that stops it, and may be read short when it is cut. All other texts are `closed`.

The number `n` bounds the octets in question. The loops of a reader have a fuel for inputs of a
certain size, and say nothing about larger ones.
-/

namespace MacroPlugin.Wire

open Json

/-- A result at the end of the input: a fault for lack of octets, or, unless the text is closed, a
number that may have been cut. -/
def CutShort {α : Type} (closed : Bool) : Except Fault (α × Octets) → Prop
  | .error fault => fault.cause.category = .ended
  | .ok (_, rest) => closed = false ∧ rest = []

/-- A fault for lack of octets. -/
def Ended {α : Type} (result : Except Fault α) : Prop :=
  ∃ fault, result = .error fault ∧ fault.cause.category = .ended

structure Reads {α : Type} (closed : Bool) (n : Nat) (reader : Reader α) (text : Octets)
    (value : α) : Prop where
  whole : ∀ rest, closed = true ∨ Stops rest → text.length ≤ n →
    reader (text ++ rest) = .ok (value, rest)
  cut : ∀ front back, text = front ++ back → back ≠ [] → front.length ≤ n →
    CutShort closed (reader front)

section Ends

variable {α β : Type}

theorem ended_here {cause : Cause} (h : cause.category = .ended) (rest : Octets) :
    Ended (.error (.here cause rest) : Except Fault α) :=
  ⟨_, rfl, h⟩

theorem Ended.bind {result : Except Fault α} (h : Ended result) (next : α → Except Fault β) :
    Ended (result >>= next) := by
  obtain ⟨fault, rfl, hcategory⟩ := h
  exact ⟨fault, rfl, hcategory⟩

theorem Ended.cutShort {closed : Bool} {result : Except Fault (α × Octets)} (h : Ended result) :
    CutShort closed result := by
  obtain ⟨fault, rfl, hcategory⟩ := h
  exact hcategory

theorem CutShort.ended {result : Except Fault (α × Octets)} (h : CutShort true result) :
    Ended result := by
  cases result with
  | error fault => exact ⟨fault, rfl, h⟩
  | ok result => exact absurd h.1 (by simp)

end Ends

/-- Reads with one reader, then with another that depends on the value. -/
def Reader.andThen {α β : Type} (reader : Reader α) (next : α → Reader β) : Reader β :=
  fun input => do
    let (value, rest) ← reader input
    next value rest

section Parts

variable {α β : Type} {closed closed' : Bool} {n m : Nat} {reader reader' : Reader α}
  {next : α → Reader β} {text text' : Octets} {value : α} {value' : β}

theorem Reads.of_closed (h : Reads true n reader text value) :
    Reads closed n reader text value where
  whole rest _ := h.whole rest (.inl rfl)
  cut front back hcut hback hlength := (h.cut front back hcut hback hlength).ended.cutShort

theorem Reads.opened (h : Reads closed n reader text value) :
    Reads false n reader text value := by
  cases closed with
  | false => exact h
  | true => exact h.of_closed

theorem Reads.of_le (h : Reads closed n reader text value) (hle : m ≤ n) :
    Reads closed m reader text value where
  whole rest hrest hlength := h.whole rest hrest (Nat.le_trans hlength hle)
  cut front back hcut hback hlength := h.cut front back hcut hback (Nat.le_trans hlength hle)

/-- Returns a value and reads nothing. -/
theorem Reads.pure (closed : Bool) (n : Nat) (hreader : ∀ rest, reader rest = .ok (value, rest)) :
    Reads closed n reader [] value where
  whole rest _ _ := hreader rest
  cut _ _ hcut hback _ := absurd (List.append_eq_nil_iff.mp hcut.symm).2 hback

/-- Where two texts in a row are cut: inside the second one or at one of its ends, or inside the
first one. -/
theorem cut_append {front back : Octets} (hcut : text ++ text' = front ++ back) :
    (∃ inner, front = text ++ inner ∧ text' = inner ++ back) ∨
      ∃ inner, inner ≠ [] ∧ text = front ++ inner := by
  rcases List.append_eq_append_iff.mp hcut with ⟨inner, hfront, htext'⟩ | ⟨inner, htext, hback⟩
  · exact .inl ⟨inner, hfront, htext'⟩
  · cases inner with
    | nil => exact .inl ⟨[], by simpa using htext.symm, by simpa using hback.symm⟩
    | cons octet inner => exact .inr ⟨octet :: inner, by simp, htext⟩

theorem stops_start {front back : Octets} (hstops : Stops (front ++ back)) : Stops front := by
  cases front with
  | nil => exact stops_nil
  | cons octet front => exact hstops

/-- Two texts in a row. A part that is not closed needs one behind it that stops it and is missed
when the input ends. -/
theorem Reads.andThen (hreads : Reads closed n reader text value)
    (hnext : Reads closed' m (next value) text' value') (hbudget : n ≤ m + text.length)
    (hstops : closed = true ∨
      Stops text' ∧ text' ≠ [] ∧ ∀ value, Ended (next value [])) :
    Reads closed' n (reader.andThen next) (text ++ text') value' where
  whole rest hrest hlength := by
    rw [List.length_append] at hlength
    have hfollow : closed = true ∨ Stops (text' ++ rest) := by
      rcases hstops with hclosed | ⟨hstop, hsome, -⟩
      · exact .inl hclosed
      · exact .inr (stops_append hstop hsome rest)
    unfold Reader.andThen
    rw [List.append_assoc, hreads.whole _ hfollow (by omega)]
    exact hnext.whole rest hrest (by omega)
  cut front back hcut hback hlength := by
    unfold Reader.andThen
    rcases cut_append hcut with ⟨inner, rfl, htext'⟩ | ⟨inner, hinner, htext⟩
    · -- The first text is whole, and the second one is cut.
      rw [List.length_append] at hlength
      have hfollow : closed = true ∨ Stops inner := by
        rcases hstops with hclosed | ⟨hstop, -, -⟩
        · exact .inl hclosed
        · exact .inr (stops_start (htext' ▸ hstop))
      rw [hreads.whole _ hfollow (by omega)]
      exact hnext.cut inner back htext' hback (by omega)
    · -- The first text is cut, so either it is missed or a number in it is read short.
      have hshort := hreads.cut front inner htext hinner hlength
      cases hresult : reader front with
      | error fault =>
        rw [hresult] at hshort
        exact hshort
      | ok result =>
        rw [hresult] at hshort
        obtain ⟨hopen, hrest⟩ := hshort
        rcases hstops with hclosed | ⟨-, -, hmissed⟩
        · exact absurd hclosed (by simp [hopen])
        · obtain ⟨early, rest⟩ := result
          subst hrest
          exact (hmissed early).cutShort

/-- Where no octet may be read, only the end of the input is in question. -/
theorem Reads.zero (hend : Ended (reader [])) (htext : text ≠ []) :
    Reads closed 0 reader text value where
  whole rest _ hlength := absurd (List.length_eq_zero_iff.mp (Nat.le_zero.mp hlength)) htext
  cut front back _ _ hlength := by
    rw [List.length_eq_zero_iff.mp (Nat.le_zero.mp hlength)]
    exact hend.cutShort

/-- What is done with the value of a closed text without reading on. -/
theorem Reads.finish (h : Reads true n reader text value)
    (hnext : ∀ rest, next value rest = .ok (value', rest)) :
    Reads true n (reader.andThen next) text value' := by
  have hreads := h.andThen (.pure true n hnext) (Nat.le_add_right _ _) (.inl rfl)
  rwa [List.append_nil] at hreads

/-- Reads a value and changes it. -/
theorem Reads.map (f : α → β) (h : Reads closed n reader text value) :
    Reads closed n (reader.andThen fun value rest => .ok (f value, rest)) text (f value) where
  whole rest hrest hlength := by
    unfold Reader.andThen
    rw [h.whole rest hrest hlength]
    rfl
  cut front back hcut hback hlength := by
    have hshort := h.cut front back hcut hback hlength
    unfold Reader.andThen
    cases hresult : reader front with
    | error fault =>
      rw [hresult] at hshort
      exact hshort
    | ok result =>
      rw [hresult] at hshort
      exact hshort

/-- A text that begins with blanks and a given octet, of which the first reader leaves `kept`
unread. -/
theorem Reads.lead {blanks : Octets} {octet : UInt8} (kept : Octets) (hblank : Blank blanks)
    (hend : ∀ input, Blank input → Ended (reader input))
    (hstep : ∀ rest, reader (blanks ++ octet :: rest) = reader' (kept ++ rest))
    (hkept : kept.length ≤ 1) (h : Reads closed n reader' (kept ++ text) value) :
    Reads closed n reader (blanks ++ octet :: text) value where
  whole rest hrest hlength := by
    simp only [List.length_append, List.length_cons] at hlength
    rw [List.append_assoc, List.cons_append, hstep, ← List.append_assoc]
    exact h.whole rest hrest (by rw [List.length_append]; omega)
  cut front back hcut hback hlength := by
    rcases cut_append hcut with ⟨inner, rfl, hinner⟩ | ⟨inner, -, rfl⟩
    · cases inner with
      | nil =>
        rw [List.append_nil]
        exact (hend blanks hblank).cutShort
      | cons other inner =>
        rw [List.cons_append] at hinner
        obtain ⟨rfl, htext⟩ := List.cons.inj hinner
        simp only [List.length_append, List.length_cons] at hlength
        rw [hstep]
        exact h.cut (kept ++ inner) back (by rw [htext, List.append_assoc]) hback
          (by rw [List.length_append]; omega)
    · exact (hend front fun octet hmem => hblank octet (by simp [hmem])).cutShort

/-- A text that begins with a token of one octet. -/
theorem Reads.token {blanks : Octets} {octet : UInt8} (hblank : Blank blanks)
    (hend : ∀ input, Blank input → Ended (reader input))
    (hstep : ∀ rest, reader (blanks ++ octet :: rest) = reader' rest)
    (h : Reads closed n reader' text value) :
    Reads closed n reader (blanks ++ octet :: text) value :=
  .lead [] hblank hend hstep (by simp) h

/-- Blanks in front of a text that begins with a given octet. -/
theorem Reads.blanks {blanks : Octets} {octet : UInt8} (hblank : Blank blanks)
    (hend : ∀ input, Blank input → Ended (reader input))
    (hstep : ∀ rest, reader (blanks ++ octet :: rest) = reader' (octet :: rest))
    (h : Reads closed n reader' (octet :: text) value) :
    Reads closed n reader (blanks ++ octet :: text) value :=
  .lead [octet] hblank hend hstep (by simp) h

end Parts

end MacroPlugin.Wire
