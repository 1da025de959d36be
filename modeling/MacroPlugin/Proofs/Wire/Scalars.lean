import MacroPlugin.Proofs.Wire.Reads

/-!
Texts, words, truth values and optional values: each of their readers understands every way to
write a value that it reads.
-/

namespace MacroPlugin.Wire

open Json

section

variable {n : Nat} {blanks : Octets} (hblank : Blank blanks)

/-! Texts -/

theorem readText_reads (n : Nat) (text : String) : Reads true n readText (textBody text) text where
  whole rest _ _ := readText_textBody text rest
  cut front back hcut hback _ := by
    rw [readText_cut hcut hback]
    rfl

include hblank in
theorem readTextValue_reads (text : String) :
    Reads true n readTextValue (blanks ++ Ascii.quote :: textBody text) text := by
  refine .token hblank ?_ ?_ (readText_reads n text)
  · intro input hinput
    unfold readTextValue
    rw [skipBlank_blank hinput]
    exact ended_here rfl _
  · intro rest
    unfold readTextValue
    rw [skipBlank_append hblank (by decide)]
    rfl

/-! Words -/

theorem ofNat?_toNat (size : WordSize) (word : size.Val) :
    size.ofNat? (size.toNat word) = some word := by
  cases size with
  | half =>
    simp only [WordSize.ofNat?, WordSize.toNat, UInt32.toNat_lt_size, if_true]
    rw [UInt32.ofNat_toNat]
  | full =>
    simp only [WordSize.ofNat?, WordSize.toNat, UInt64.toNat_lt_size, if_true]
    rw [UInt64.ofNat_toNat]

theorem ofNat?_of_le {size : WordSize} {word : size.Val} {m : Nat} (h : m ≤ size.toNat word) :
    ∃ smaller, size.ofNat? m = some smaller := by
  cases size with
  | half => exact ⟨_, if_pos (Nat.lt_of_le_of_lt h (UInt32.toNat_lt_size word))⟩
  | full => exact ⟨_, if_pos (Nat.lt_of_le_of_lt h (UInt64.toNat_lt_size word))⟩

theorem le_maxWord_of_ofNat? {size : WordSize} {word : size.Val} {m : Nat}
    (h : size.ofNat? m = some word) : m ≤ Number.maxWord := by
  cases size with
  | half =>
    by_cases hlt : m < UInt32.size
    · exact Nat.le_trans (Nat.le_of_lt hlt) (by decide)
    · simp [WordSize.ofNat?, hlt] at h
  | full =>
    by_cases hlt : m < UInt64.size
    · exact Nat.le_of_lt_succ hlt
    · simp [WordSize.ofNat?, hlt] at h

theorem readWord_numeral {size : WordSize} {m : Nat} {word : size.Val}
    (hword : size.ofNat? m = some word) {rest : Octets} (hstops : Stops rest) :
    readWord size (numeral m ++ rest) = .ok (word, rest) := by
  have hread := read_numeral (le_maxWord_of_ofNat? hword) hstops
  have hdenoted : wordOf? size (.integer (m : Int)) = some word := hword
  obtain ⟨digit, digits, hnumeral, hdigit⟩ := numeral_first m
  rw [hnumeral, List.cons_append] at hread ⊢
  unfold readWord
  rw [skipBlank_self (isBlank_digitOctet digit hdigit)]
  simp only [isFirst_digitOctet digit hdigit, if_true, hread, bind, Except.bind, hdenoted]

theorem readWord_blank {size : WordSize} {input : Octets} (hinput : Blank input) :
    Ended (readWord size input) := by
  unfold readWord
  rw [skipBlank_blank hinput]
  exact ended_here rfl _

include hblank in
/-- A word is not closed: cut between its digits, it is read as a smaller one. -/
theorem readWord_reads (size : WordSize) (word : size.Val) :
    Reads false n (readWord size) (blanks ++ numeral (size.toNat word)) word := by
  obtain ⟨digit, digits, hnumeral, hdigit⟩ := numeral_first (size.toNat word)
  rw [hnumeral]
  have hstep : ∀ rest, readWord size (blanks ++ digitOctet digit :: rest) =
      readWord size (digitOctet digit :: rest) := by
    intro rest
    unfold readWord
    rw [skipBlank_token hblank (isBlank_digitOctet digit hdigit)]
  refine .blanks hblank (fun _ => readWord_blank) hstep ?_
  rw [← hnumeral]
  constructor
  · intro rest hrest _
    exact readWord_numeral (ofNat?_toNat size word) (hrest.resolve_left (by simp))
  · intro front back hcut _ _
    cases front with
    | nil => exact (readWord_blank blank_nil).cutShort
    | cons octet front =>
      obtain ⟨m, hm, hfront⟩ := numeral_start hcut (by simp)
      obtain ⟨smaller, hsmaller⟩ := ofNat?_of_le hm
      have hread := readWord_numeral hsmaller stops_nil
      rw [List.append_nil, ← hfront] at hread
      rw [hread]
      exact ⟨rfl, rfl⟩

/-! Truth values -/

theorem readRemainder_reads {α : Type} (n : Nat) (literal : Literal) (value : α) :
    Reads true n (fun input => do return (value, ← literal.readRemainder input)) literal.remainder
      value where
  whole rest _ _ := by
    unfold Literal.readRemainder
    rw [readExactly_append]
    rfl
  cut front back hcut hback _ := by
    unfold Literal.readRemainder
    rw [readExactly_cut hcut hback]
    rfl

include hblank in
theorem readBoolean_reads (value : Bool) :
    Reads true n readBoolean (blanks ++ .ofText (if value then "true" else "false")) value := by
  have hend : ∀ input, Blank input → Ended (readBoolean input) := by
    intro input hinput
    unfold readBoolean
    rw [skipBlank_blank hinput]
    exact ended_here rfl _
  cases value with
  | true =>
    change Reads true n readBoolean (blanks ++ 0x74 :: Literal.yes.remainder) true
    refine .token hblank hend ?_ (readRemainder_reads n .yes true)
    intro rest
    unfold readBoolean
    rw [skipBlank_append hblank (by decide)]
    rfl
  | false =>
    change Reads true n readBoolean (blanks ++ 0x66 :: Literal.no.remainder) false
    refine .token hblank hend ?_ (readRemainder_reads n .no false)
    intro rest
    unfold readBoolean
    rw [skipBlank_append hblank (by decide)]
    rfl

/-! Optional values -/

include hblank in
/-- A present value is read as present, since nothing but `null` begins like `null`. -/
theorem readOptional_reads {α : Type} {closed : Bool} {reader : Reader α} {value : α} {json : Json}
    {text : Octets} (hwritten : Written json text) (hnull : json ≠ .null)
    (h : Reads closed n reader text value) :
    Reads closed n (readOptional reader) (blanks ++ text) (some value) := by
  obtain ⟨octet, behind, rfl, hoctet, -, hliteral⟩ := hwritten.first
  refine .blanks hblank ?_ ?_ (h.map some)
  · intro input hinput
    unfold readOptional
    rw [skipBlank_blank hinput]
    exact ended_here rfl _
  · intro rest
    unfold readOptional
    rw [skipBlank_append hblank hoctet]
    simp only [if_neg (hliteral hnull)]
    rfl

end

end MacroPlugin.Wire
