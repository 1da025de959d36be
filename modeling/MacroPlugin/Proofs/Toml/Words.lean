import MacroPlugin.Proofs.Toml.Spelling

/-!
Truth values and natural numbers as words. A number in decimal digits is read as that number: it is
no date or time, since it has no marks inside, and it does not begin with a needless zero.
-/

namespace MacroPlugin.Toml

theorem isWord_eq_false_of_isClosing {c : Char} (h : isClosing c = true) : isWord c = false := by
  simp only [isClosing, isBlank, Bool.or_eq_true, decide_eq_true_eq] at h
  rcases h with ((((((rfl | rfl) | rfl) | rfl) | rfl) | rfl) | rfl) <;> decide

theorem readWord_append {word rest : List Char} (hword : ∀ c ∈ word, isWord c = true)
    (hdate : DateTime.isDate word = false) (hrest : Closes rest) :
    Scalar.readWord (word ++ rest) = (Scalar.ofWord? word).map (·, rest) := by
  have hstops : Stops isWord rest := hrest.stops fun _ => isWord_eq_false_of_isClosing
  unfold Scalar.readWord
  rw [span_append hword hstops]
  dsimp only
  split
  · rw [hdate]
    rfl
  · rfl

/-- What begins with the character of a word is no text, array or table. -/
theorem readValue_word (depth : Nat) {c : Char} (hc : isWord c = true) (word : List Char) :
    readValue depth (c :: word) = (Scalar.readWord (c :: word)).map fun (scalar, rest) =>
      (.scalar ⟨(c :: word).length, rest.length⟩ scalar, rest) := by
  have hother : ∀ {first : Char} {rest : List Char}, isWord first = false →
      c :: word ≠ first :: rest := by
    intro first rest hfirst heq
    rw [(List.cons.inj heq).1, hfirst] at hc
    exact Bool.false_ne_true hc
  unfold readValue
  dsimp only
  split
  · next heq => exact absurd heq (hother (by decide))
  · next heq => exact absurd heq (hother (by decide))
  · next heq => exact absurd heq (hother (by decide))
  · next heq => exact absurd heq (hother (by decide))
  · next heq => exact absurd heq (hother (by decide))
  · next heq => exact absurd heq (hother (by decide))
  · cases Scalar.readWord (c :: word) <;> rfl

theorem isBlank_eq_false_of_isBare {c : Char} (h : isBare c = true) : isBlank c = false := by
  rw [isBlank, Bool.or_eq_false_iff, decide_eq_false_iff_not, decide_eq_false_iff_not]
  constructor <;> rintro rfl <;> exact absurd h (by decide)

/-! Decimal digits -/

section Digits

variable {word : List Char} (hdigits : ∀ c ∈ word, c.isDigit = true)

theorem isDigit_bounds {c : Char} (h : c.isDigit = true) : 48 ≤ c.toNat ∧ c.toNat ≤ 57 := by
  simpa [Char.isDigit, UInt32.le_iff_toNat_le] using h

theorem isWord_of_isDigit {c : Char} (h : c.isDigit = true) : isWord c = true := by
  simp [isWord, Char.isAlphanum, h]

theorem isBlank_eq_false_of_isDigit {c : Char} (h : c.isDigit = true) : isBlank c = false := by
  apply isBlank_eq_false_of_isBare
  simp [isBare, Char.isAlphanum, h]

theorem digit?_of_isDigit {c : Char} (h : c.isDigit = true) :
    Number.digit? 10 c = some (c.toNat - 48) := by
  obtain ⟨hlow, hhigh⟩ := isDigit_bounds h
  have hhex : hexDigit? c = some (c.toNat - 48) := by
    rw [hexDigit?, if_pos]
    simpa [Char.isDigit, Char.le_def] using h
  rw [Number.digit?, hhex, Option.filter_some, if_pos]
  simpa using (by omega : c.toNat - 48 < 10)

include hdigits in
theorem digits?_of_isDigit (hne : word ≠ []) :
    Number.digits? 10 word = some (word.map fun c => c.toNat - 48) := by
  fun_induction Number.digits? 10 word with
  | case1 => exact absurd rfl hne
  | case2 c =>
    rw [digit?_of_isDigit (hdigits c List.mem_cons_self)]
    rfl
  | case3 c rest =>
    have hmark := hdigits '_' (List.mem_cons_of_mem c List.mem_cons_self)
    exact absurd hmark (by decide)
  | case4 c rest hrest _ ih =>
    have hbehind := ih (fun c hmem => hdigits c (List.mem_cons_of_mem _ hmem)) hrest
    rw [digit?_of_isDigit (hdigits c List.mem_cons_self), hbehind]
    rfl

include hdigits in
theorem mark?_of_isDigit {mark : Char} (hmark : mark.isDigit = false) :
    DateTime.mark? mark word = none := by
  cases word with
  | nil => rfl
  | cons c word =>
    have hc := hdigits c List.mem_cons_self
    rw [DateTime.mark?, if_neg]
    rintro rfl
    simp [hc] at hmark

include hdigits in
theorem number?_mark? {mark : Char} (hmark : mark.isDigit = false) {count value : Nat}
    {rest : List Char} (h : DateTime.number? count word = some (value, rest)) :
    DateTime.mark? mark rest = none := by
  apply mark?_of_isDigit _ hmark
  intro c hmem
  unfold DateTime.number? at h
  simp only [List.splitAt_eq] at h
  split at h
  · obtain ⟨-, rfl⟩ := Prod.mk.inj (Option.some.inj h)
    exact hdigits c (List.mem_of_mem_drop hmem)
  · simp at h

/-- Digits alone are no date and no time: both have marks inside. -/
theorem isDateTime_of_isDigit (hdigits : ∀ c ∈ word, c.isDigit = true) :
    DateTime.isDate word = false ∧ DateTime.isDateTime word = false := by
  have hdate : DateTime.date? word = none := by
    rw [DateTime.date?]
    cases hyear : DateTime.number? 4 word with
    | none => rfl
    | some found =>
      have hmark := number?_mark? hdigits (by decide : ('-').isDigit = false) hyear
      simp [hmark]
  have htime : DateTime.time? word = none := by
    rw [DateTime.time?, DateTime.clock?]
    cases hhour : DateTime.number? 2 word with
    | none => rfl
    | some found =>
      have hmark := number?_mark? hdigits (by decide : (':').isDigit = false) hhour
      simp [hmark]
  simp [DateTime.isDate, DateTime.isDateTime, hdate, htime]

include hdigits in
theorem sign_of_isDigit : Number.sign word = (false, word) := by
  unfold Number.sign
  split
  · exact absurd (hdigits '-' List.mem_cons_self) (by decide)
  · exact absurd (hdigits '+' List.mem_cons_self) (by decide)
  · rfl

end Digits

/-! Natural numbers -/

theorem isDigit_of_mem_toDigits (n : Nat) : ∀ c ∈ Nat.toDigits 10 n, c.isDigit = true :=
  fun _ hmem => Nat.isDigit_of_mem_toDigits (by decide) (by decide) hmem

/-- Digits do not begin with a needless zero. -/
theorem toDigits_head {n : Nat} (hn : 0 < n) :
    ∃ first rest, Nat.toDigits 10 n = first :: rest ∧ first ≠ '0' := by
  induction n using Nat.strongRecOn with
  | _ n ih =>
    by_cases hsmall : n < 10
    · refine ⟨n.digitChar, [], Nat.toDigits_of_lt_base hsmall, ?_⟩
      have hdigit : ∀ d < 10, 0 < d → Nat.digitChar d ≠ '0' := by decide
      exact hdigit n hsmall hn
    · obtain ⟨first, rest, htens, hfirst⟩ := ih (n / 10) (by omega) (by omega)
      refine ⟨first, rest ++ [(n % 10).digitChar], ?_, hfirst⟩
      rw [Nat.toDigits_of_base_le (by decide) (by omega), htens]
      rfl

theorem whole?_toDigits (n : Nat) :
    ∃ digits, Number.whole? (Nat.toDigits 10 n) = some digits ∧ Number.value 10 digits = n := by
  have hdigits := digits?_of_isDigit (isDigit_of_mem_toDigits n) Nat.toDigits_ne_nil
  have hvalue : Number.value 10 ((Nat.toDigits 10 n).map fun c => c.toNat - 48) = n := by
    rw [Number.value, List.foldl_map]
    exact Nat.ofDigitChars_toDigits (by decide) (by decide)
  refine ⟨_, ?_, hvalue⟩
  rw [Number.whole?, hdigits]
  rcases Nat.eq_zero_or_pos n with rfl | hpos
  · rfl
  · obtain ⟨first, rest, htoDigits, hfirst⟩ := toDigits_head hpos
    have hbounds := isDigit_bounds (isDigit_of_mem_toDigits n first (by simp [htoDigits]))
    have hne : first.toNat ≠ 48 := fun h => hfirst (Char.toNat_inj.mp h)
    have hhead : first.toNat - 48 ≠ 0 := by omega
    simp [htoDigits, hhead]

theorem integer?_toDigits {n : Nat} (hn : n ≤ 9223372036854775807) :
    Number.integer? (Nat.toDigits 10 n) = some n := by
  have hdigits := isDigit_of_mem_toDigits n
  obtain ⟨digits, hwhole, hvalue⟩ := whole?_toDigits n
  unfold Number.integer?
  split
  · next heq => exact absurd (hdigits 'x' (by simp [heq])) (by decide)
  · next heq => exact absurd (hdigits 'o' (by simp [heq])) (by decide)
  · next heq => exact absurd (hdigits 'b' (by simp [heq])) (by decide)
  · rw [sign_of_isDigit hdigits]
    simp only [hwhole, hvalue, bind, Option.bind_some, Bool.false_eq_true, if_false,
      Number.bounded?]
    have hbounds : (decide (-9223372036854775808 ≤ (n : Int)) &&
        decide ((n : Int) ≤ 9223372036854775807)) = true := by
      rw [Bool.and_eq_true, decide_eq_true_eq, decide_eq_true_eq]
      omega
    exact if_pos hbounds

theorem ofWord?_toDigits {n : Nat} (hn : n ≤ 9223372036854775807) :
    Scalar.ofWord? (Nat.toDigits 10 n) = some (.integer n) := by
  have hdigits := isDigit_of_mem_toDigits n
  have htrue : Nat.toDigits 10 n ≠ ['t', 'r', 'u', 'e'] :=
    fun heq => absurd (hdigits 't' (by simp [heq])) (by decide)
  have hfalse : Nat.toDigits 10 n ≠ ['f', 'a', 'l', 's', 'e'] :=
    fun heq => absurd (hdigits 'f' (by simp [heq])) (by decide)
  rw [Scalar.ofWord?, if_neg htrue, if_neg hfalse, (isDateTime_of_isDigit hdigits).2,
    integer?_toDigits hn]
  rfl

/-- A word that is no date is read as what it means. -/
theorem readValue_of_word {word : List Char} {scalar : Scalar} (hne : word ≠ [])
    (hword : ∀ c ∈ word, isWord c = true) (hdate : DateTime.isDate word = false)
    (hscalar : Scalar.ofWord? word = some scalar) {rest : List Char} (hrest : Closes rest)
    (depth : Nat) : ∃ extent, readValue depth (word ++ rest) = some (.scalar extent scalar, rest) := by
  cases word with
  | nil => exact absurd rfl hne
  | cons c word =>
    have hread := readWord_append hword hdate hrest
    rw [hscalar, List.cons_append] at hread
    rw [List.cons_append, readValue_word depth (hword c List.mem_cons_self), hread]
    exact ⟨_, rfl⟩

theorem readValue_true {rest : List Char} (hrest : Closes rest) (depth : Nat) :
    ∃ extent, readValue depth ("true".toList ++ rest) =
      some (.scalar extent (.boolean true), rest) :=
  readValue_of_word (by decide) (List.all_eq_true.mp rfl) (by decide) rfl hrest depth

theorem readValue_false {rest : List Char} (hrest : Closes rest) (depth : Nat) :
    ∃ extent, readValue depth ("false".toList ++ rest) =
      some (.scalar extent (.boolean false), rest) :=
  readValue_of_word (by decide) (List.all_eq_true.mp rfl) (by decide) rfl hrest depth

theorem readValue_toDigits {n : Nat} (hn : n ≤ 9223372036854775807) {rest : List Char}
    (hrest : Closes rest) (depth : Nat) :
    ∃ extent, readValue depth (Nat.toDigits 10 n ++ rest) =
      some (.scalar extent (.integer n), rest) := by
  have hdigits := isDigit_of_mem_toDigits n
  exact readValue_of_word Nat.toDigits_ne_nil (fun c hmem => isWord_of_isDigit (hdigits c hmem))
    (isDateTime_of_isDigit hdigits).1 (ofWord?_toDigits hn) hrest depth

end MacroPlugin.Toml
