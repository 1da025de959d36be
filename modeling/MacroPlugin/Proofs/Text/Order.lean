import MacroPlugin.Proofs.Text.Encoding

/-!
Texts in the order of their characters are in the order of their octets too. The first octet of a
character grows with the number of its octets, and characters of one size differ first in the
higher parts of their code points, so that two characters are told apart, in the right order,
before either of them ends.
-/

namespace MacroPlugin.Octets

/-- The first octets that differ decide. -/
theorem cons_lt_cons {m n : Nat} (hn : n < 256) {front back : Octets}
    (h : m < n ∨ m = n ∧ front < back) : UInt8.ofNat m :: front < UInt8.ofNat n :: back := by
  rw [List.cons_lt_cons_iff]
  rcases h with hlt | ⟨rfl, hbehind⟩
  · apply Or.inl
    rw [UInt8.lt_iff_toNat_lt, UInt8.toNat_ofNat', UInt8.toNat_ofNat', Nat.mod_eq_of_lt hn,
      Nat.mod_eq_of_lt (Nat.lt_trans hlt hn)]
    exact hlt
  · exact Or.inr ⟨rfl, hbehind⟩

/-- One digit of two numbers, and what it leaves to be compared if it is the same in both. -/
theorem cons_lt_cons_of_digit {m n base : Nat} (hbase : base + n < 256) {front back : Octets}
    (hle : m ≤ n) (hsame : m = n → front < back) :
    UInt8.ofNat (m + base) :: front < UInt8.ofNat (n + base) :: back := by
  apply cons_lt_cons (by omega)
  rcases Nat.lt_or_eq_of_le hle with hlt | heq
  · exact Or.inl (by omega)
  · exact Or.inr ⟨by omega, hsame heq⟩

theorem encodeChar_lt {c d : Char} (h : c < d) (front back : Octets) :
    String.utf8EncodeChar c ++ front < String.utf8EncodeChar d ++ back := by
  have hvalue : c.val.toNat < d.val.toNat := UInt32.lt_iff_toNat_lt.mp h
  have hmax : d.val.toNat < 0x110000 := by
    rcases d.valid with hsmall | ⟨-, hlarge⟩
    · exact Nat.lt_trans hsmall (by decide)
    · exact hlarge
  simp only [String.utf8EncodeChar]
  generalize c.val.toNat = m at hvalue
  generalize d.val.toNat = n at hvalue hmax
  split
  · -- The smaller character is one octet.
    split
    · exact cons_lt_cons (by omega) (.inl hvalue)
    · split
      · exact cons_lt_cons (by omega) (.inl (by omega))
      · split <;> exact cons_lt_cons (by omega) (.inl (by omega))
  rw [if_neg (by omega : ¬ n ≤ 127)]
  split
  · split
    · apply cons_lt_cons_of_digit (by omega) (by omega)
      intro hfirst
      exact cons_lt_cons (by omega) (.inl (by omega))
    · split <;> exact cons_lt_cons (by omega) (.inl (by omega))
  rw [if_neg (by omega : ¬ n ≤ 2047)]
  split
  · split
    · apply cons_lt_cons_of_digit (by omega) (by omega)
      intro hfirst
      apply cons_lt_cons_of_digit (by omega) (by omega)
      intro hsecond
      exact cons_lt_cons (by omega) (.inl (by omega))
    · exact cons_lt_cons (by omega) (.inl (by omega))
  · rw [if_neg (by omega : ¬ n ≤ 65535)]
    apply cons_lt_cons_of_digit (by omega) (by omega)
    intro hfirst
    apply cons_lt_cons_of_digit (by omega) (by omega)
    intro hsecond
    apply cons_lt_cons_of_digit (by omega) (by omega)
    intro hthird
    exact cons_lt_cons (by omega) (.inl (by omega))

theorem flatMap_encodeChar_lt {text text' : List Char} (h : text < text') :
    text.flatMap String.utf8EncodeChar < text'.flatMap String.utf8EncodeChar := by
  induction text generalizing text' with
  | nil =>
    cases text' with
    | nil => exact absurd h (List.not_lt_nil [])
    | cons c text' =>
      obtain ⟨first, others, hencode, -⟩ := encodeChar_first c
      rw [List.flatMap_nil, List.flatMap_cons, hencode]
      exact List.nil_lt_cons _ _
  | cons c text ih =>
    cases text' with
    | nil => exact absurd h (List.not_lt_nil (c :: text))
    | cons d text' =>
      rw [List.flatMap_cons, List.flatMap_cons]
      rcases List.cons_lt_cons_iff.mp h with hlt | ⟨rfl, hrest⟩
      · exact encodeChar_lt hlt _ _
      · exact List.append_left_lt (ih hrest)

theorem ofText_lt {a b : String} (h : a < b) : ofText a < ofText b := by
  rw [ofText_eq_flatMap, ofText_eq_flatMap]
  exact flatMap_encodeChar_lt h

end MacroPlugin.Octets
