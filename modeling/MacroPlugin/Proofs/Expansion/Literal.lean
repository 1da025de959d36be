import Mathlib.Data.List.Infix
import Mathlib.Order.Bounds.Defs
import MacroPlugin.Expansion.StringLiteral

/-!
What a string literal says to a reader. A literal has the same number of hashes around its quotes on
both sides; it ends at the first quote that so many hashes follow, and a backslash that so many
hashes follow starts an escape. A rendered text is read back without an escape, up to the closing
quote that was written and no further, whatever stands behind it. So different texts have different
literals, and none of them can break out of its literal.

The number of hashes is not wasteful: it is the first one, counting up from one, with which the text
has neither an end nor an escape in it. A text without quotes and backslashes needs none.
-/

namespace MacroPlugin.StringLiteral

/-- A row of hashes. -/
def hashes (n : Nat) : List Char :=
  List.replicate n '#'

/-! Reading -/

/-- What a reader comes to behind the opening quote. -/
inductive Scanned where
  | closed (text rest : List Char)
  | escape
  | unfinished
  deriving DecidableEq, Repr

/-- The same with one more character in front. -/
def Scanned.push (c : Char) : Scanned → Scanned
  | .closed text rest => .closed (c :: text) rest
  | .escape => .escape
  | .unfinished => .unfinished

/-- Reads behind the opening quote of a literal with `n` hashes, up to the first quote or backslash
that `n` hashes follow. -/
def scan (n : Nat) : List Char → Scanned
  | [] => .unfinished
  | c :: rest =>
    if isSpecial c ∧ hashes n <+: rest then
      if c = '"' then .closed [] (rest.drop n) else .escape
    else (scan n rest).push c

/-- Reads a literal from its first hash or quote on. -/
def read (input : List Char) : Scanned :=
  match input.dropWhile (· = '#') with
  | '"' :: rest => scan (input.takeWhile (· = '#')).length rest
  | _ => .unfinished

/-! The number of hashes -/

/-- Whether a text would end its literal, or start an escape in it, if there were `n` hashes. -/
def Clashes (text : List Char) (n : Nat) : Prop :=
  ('"' :: hashes n) <:+: text ∨ ('\\' :: hashes n) <:+: text

instance (text : List Char) (n : Nat) : Decidable (Clashes text n) :=
  inferInstanceAs (Decidable (_ ∨ _))

theorem hashes_prefix_iff {n : Nat} {text : List Char} :
    hashes n <+: text ↔ n ≤ (text.takeWhile (· = '#')).length := by
  unfold hashes
  induction text generalizing n with
  | nil => simp
  | cons c text ih =>
    cases n with
    | zero => simp
    | succ n =>
      rw [List.replicate_succ, List.cons_prefix_cons, ih]
      by_cases hhash : c = '#'
      · simp [hhash]
      · simp [hhash, Ne.symm hhash]

theorem clashes_cons {c : Char} {text : List Char} {n : Nat} :
    Clashes (c :: text) n ↔ (isSpecial c = true ∧ hashes n <+: text) ∨ Clashes text n := by
  have hspecial : isSpecial c = true ↔ '"' = c ∨ '\\' = c := by
    rw [isSpecial, Bool.or_eq_true, decide_eq_true_eq, decide_eq_true_eq, eq_comm, eq_comm (a := c)]
  unfold Clashes
  rw [List.infix_cons_iff, List.infix_cons_iff, List.cons_prefix_cons, List.cons_prefix_cons,
    hspecial, or_and_right, or_or_or_comm]

theorem longestRow_eq_zero {text : List Char} (h : text.any isSpecial = false) :
    longestRow text = 0 := by
  induction text with
  | nil => rfl
  | cons c text ih =>
    rw [List.any_cons, Bool.or_eq_false_iff] at h
    rw [longestRow, if_neg (by simp [h.1]), ih h.2]

/-- A text clashes with just the numbers up to the longest row behind a special character. -/
theorem clashes_iff {text : List Char} {n : Nat} :
    Clashes text n ↔ text.any isSpecial = true ∧ n ≤ longestRow text := by
  induction text with
  | nil => simp [Clashes]
  | cons c text ih =>
    rw [clashes_cons, ih, hashes_prefix_iff, List.any_cons, longestRow]
    cases hspecial : isSpecial c with
    | false => simp
    | true =>
      cases hany : text.any isSpecial with
      | true =>
        simp only [true_and, Bool.or_self, if_true]
        omega
      | false =>
        have hrow := longestRow_eq_zero hany
        simp [hrow]

/-- One more hash, as long as the text clashes with those there are. -/
def addHashes (text : List Char) (n : Nat) : Nat :=
  if Clashes text n then addHashes text (n + 1) else n
termination_by longestRow text + 1 - n
decreasing_by
  have hrow := (clashes_iff.mp ‹Clashes text n›).2
  omega

theorem addHashes_eq {text : List Char} (hspecial : text.any isSpecial = true) {n : Nat}
    (hn : n ≤ longestRow text + 1) : addHashes text n = longestRow text + 1 := by
  induction hsteps : longestRow text + 1 - n generalizing n with
  | zero =>
    have hclash : ¬ Clashes text n := by
      rw [clashes_iff]
      omega
    rw [addHashes, if_neg hclash]
    omega
  | succ steps ih =>
    have hclash : Clashes text n := clashes_iff.mpr ⟨hspecial, by omega⟩
    rw [addHashes, if_pos hclash]
    exact ih (by omega) (by omega)

/-- The number of hashes of a literal is found by adding one after the other. -/
theorem hashCount_eq_addHashes (text : List Char) :
    hashCount text = if text.any isSpecial then addHashes text 1 else 0 := by
  unfold hashCount
  split
  · next hspecial => rw [addHashes_eq hspecial (by omega)]
  · rfl

theorem hashCount_eq_zero_iff {text : List Char} :
    hashCount text = 0 ↔ '"' ∉ text ∧ '\\' ∉ text := by
  have hspecial : text.any isSpecial = true ↔ '"' ∈ text ∨ '\\' ∈ text := by
    simp only [List.any_eq_true, isSpecial, Bool.or_eq_true, decide_eq_true_eq]
    constructor
    · rintro ⟨c, hmem, rfl | rfl⟩
      · exact .inl hmem
      · exact .inr hmem
    · rintro (hmem | hmem)
      · exact ⟨_, hmem, .inl rfl⟩
      · exact ⟨_, hmem, .inr rfl⟩
  rw [← not_or, ← hspecial]
  unfold hashCount
  split
  · next h => simp [h]
  · next h => simp [h]

theorem not_clashes_hashCount (text : List Char) : ¬ Clashes text (hashCount text) := by
  rw [clashes_iff]
  rintro ⟨hspecial, hrow⟩
  rw [hashCount, if_pos hspecial] at hrow
  omega

/-- No smaller number of hashes will do, unless there are none at all. -/
theorem isLeast_hashCount {text : List Char} (h : hashCount text ≠ 0) :
    IsLeast {n | 1 ≤ n ∧ ¬ Clashes text n} (hashCount text) := by
  refine ⟨⟨Nat.one_le_iff_ne_zero.mpr h, not_clashes_hashCount text⟩, ?_⟩
  rintro n ⟨-, hn⟩
  have hspecial : text.any isSpecial = true := by
    by_contra hnone
    exact h (if_neg hnone)
  rw [hashCount, if_pos hspecial]
  by_contra hless
  exact hn (clashes_iff.mpr ⟨hspecial, by omega⟩)

/-! Reading what was rendered -/

/-- Hashes at the end of a text are not joined by those of the delimiter: its quote is between. -/
theorem hashes_prefix_append {n : Nat} {text more : List Char}
    (h : hashes n <+: text ++ '"' :: more) : hashes n <+: text := by
  rw [hashes_prefix_iff] at h ⊢
  induction text generalizing n with
  | nil => simpa using h
  | cons c text ih =>
    rw [List.cons_append, List.takeWhile_cons] at h
    rw [List.takeWhile_cons]
    split
    · next hhash =>
      rw [if_pos hhash, List.length_cons] at h
      rw [List.length_cons]
      have htail : n - 1 ≤ (text.takeWhile (· = '#')).length := ih (by omega)
      omega
    · next hhash =>
      rw [if_neg hhash] at h
      exact h

/-- A text that does not clash is read up to the quote behind it, and without an escape. -/
theorem scan_of_not_clashes {text : List Char} {n : Nat} (h : ¬ Clashes text n)
    (further : List Char) :
    scan n (text ++ '"' :: (hashes n ++ further)) = .closed text further := by
  induction text with
  | nil =>
    have hfound : isSpecial '"' = true ∧ hashes n <+: hashes n ++ further :=
      ⟨rfl, List.prefix_append _ _⟩
    have hlength : (hashes n).length = n := List.length_replicate
    rw [List.nil_append, scan, if_pos hfound, if_pos rfl, List.drop_left' hlength]
  | cons c text ih =>
    rw [clashes_cons, not_or] at h
    have hpassed : ¬ (isSpecial c = true ∧ hashes n <+: text ++ '"' :: (hashes n ++ further)) :=
      fun ⟨hspecial, hprefix⟩ => h.1 ⟨hspecial, hashes_prefix_append hprefix⟩
    rw [List.cons_append, scan, if_neg hpassed, ih h.2]
    rfl

theorem read_hashes (n : Nat) (rest : List Char) : read (hashes n ++ '"' :: rest) = scan n rest := by
  have hrow : ∀ c ∈ hashes n, decide (c = '#') = true := by
    intro c hmem
    rw [List.eq_of_mem_replicate hmem]
    rfl
  have hdrop : (hashes n ++ '"' :: rest).dropWhile (· = '#') = '"' :: rest := by
    rw [List.dropWhile_append_of_pos hrow]
    exact List.dropWhile_cons_of_neg (by decide)
  have htake : (hashes n ++ '"' :: rest).takeWhile (· = '#') = hashes n := by
    rw [List.takeWhile_append_of_pos hrow]
    exact List.append_nil (hashes n)
  have hlength : (hashes n).length = n := List.length_replicate
  rw [read, hdrop, htake, hlength]
  rfl

/-- A text comes back from its literal, and so does what stands behind the literal. -/
theorem read_render (text further : List Char) :
    read (render text ++ further) = .closed text further := by
  have hinput : render text ++ further = hashes (hashCount text) ++
      '"' :: (text ++ '"' :: (hashes (hashCount text) ++ further)) := by
    simp [render, hashes]
  rw [hinput, read_hashes]
  exact scan_of_not_clashes (not_clashes_hashCount text) further

/-- A literal is its text between two quotes, between as many hashes as the text makes necessary and
no more. A reader finds no escape in it, stops at its last quote, and has read the text. -/
theorem literal_says_text (text : List Char) :
    ∃ n, render text = hashes n ++ '"' :: text ++ '"' :: hashes n ∧
      n = (if text.any isSpecial then addHashes text 1 else 0) ∧
      (n = 0 ↔ '"' ∉ text ∧ '\\' ∉ text) ∧
      (n ≠ 0 → IsLeast {n | 1 ≤ n ∧ ¬ Clashes text n} n) ∧
      (∀ further, scan n (text ++ '"' :: hashes n ++ further) = .closed text further) ∧
      (∀ further, read (render text ++ further) = .closed text further) ∧
      ∀ other, render other = render text → other = text := by
  refine ⟨hashCount text, rfl, hashCount_eq_addHashes text, hashCount_eq_zero_iff,
    isLeast_hashCount, fun further => ?_, read_render text, fun other hsame => ?_⟩
  · rw [List.append_assoc, List.cons_append]
    exact scan_of_not_clashes (not_clashes_hashCount text) further
  · have hother := read_render other []
    rw [hsame, read_render] at hother
    exact (Scanned.closed.inj hother).1.symm

/-- A text that ends in a quote and a hash needs two hashes, and both of them are read as its own
closing delimiter. -/
example : render "a\"#".toList = "##\"a\"#\"##".toList ∧
    read "##\"a\"#\"###".toList = .closed "a\"#".toList ['#'] := by decide

end MacroPlugin.StringLiteral
