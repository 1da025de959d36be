import MacroPlugin.Json.Number
import MacroPlugin.Proofs.Text.Encoding

/-!
Natural numbers read back. A written number is its decimal digits, without a zero in front, and a
word of 64 bits is never too small for those that messages hold. A number does not say where it
ends: it is read whole if what follows cannot continue it, and every proper start of it that is
not empty is itself the numeral of a smaller number (`numeral_start`).
-/

namespace MacroPlugin.Json

/-- The octets of a written number. -/
def numeral (n : Nat) : Octets :=
  .ofText (toString n)

/-- The octet of a decimal digit. -/
def digitOctet (digit : Nat) : UInt8 :=
  UInt8.ofNat (48 + digit)

/-- Octets that cannot continue a number. -/
def Stops (rest : Octets) : Prop :=
  ∀ octet ∈ rest.head?,
    Ascii.digit? octet = none ∧ octet ≠ Ascii.point ∧ Number.isExponentMark octet = false

theorem stops_nil : Stops [] := by
  intro octet hmem
  simp at hmem

theorem stops_append {front : Octets} (hstops : Stops front) (hfront : front ≠ [])
    (back : Octets) : Stops (front ++ back) := by
  cases front with
  | nil => exact absurd rfl hfront
  | cons octet front => exact hstops

theorem digit?_digitOctet : ∀ d < 10, Ascii.digit? (digitOctet d) = some d := by decide

/-- Only the octet of zero denotes zero. -/
theorem digit?_eq_zero {octet : UInt8} (h : Ascii.digit? octet = some 0) : octet = Ascii.zero := by
  unfold Ascii.digit? at h
  split at h
  · next hrange =>
    simp only [Bool.and_eq_true, decide_eq_true_eq, UInt8.le_iff_toNat_le] at hrange
    have hvalue := Option.some.inj h
    have hzero : Ascii.zero.toNat = 48 := rfl
    apply UInt8.toNat_inj.mp
    omega
  · simp at h

theorem encodeChar_digitChar :
    ∀ d < 10, String.utf8EncodeChar (Nat.digitChar d) = [digitOctet d] := by decide

theorem numeral_of_lt {n : Nat} (hn : n < 10) : numeral n = [digitOctet n] := by
  unfold numeral
  rw [Nat.toString_eq_ofList_toDigits, Octets.ofText_ofList, Nat.toDigits_of_lt_base hn,
    List.flatMap_singleton, encodeChar_digitChar n hn]

theorem numeral_of_ge {n : Nat} (hn : 10 ≤ n) :
    numeral n = numeral (n / 10) ++ [digitOctet (n % 10)] := by
  unfold numeral
  simp only [Nat.toString_eq_ofList_toDigits, Octets.ofText_ofList]
  rw [Nat.toDigits_of_base_le (by decide) hn, List.flatMap_append, List.flatMap_singleton,
    encodeChar_digitChar _ (Nat.mod_lt n (by decide))]

/-- A numeral begins with a digit, which is zero only if it stands alone; gathering the digits
behind the first one builds up the number. -/
theorem numeral_digits (n : Nat) :
    ∃ first digits, numeral n = digitOctet first :: digits ∧ first < 10 ∧
      (first = 0 → n = 0 ∧ digits = []) ∧
      ∀ limit count rest, n ≤ limit →
        Number.takeDigits limit first count (digits ++ rest) =
          Number.takeDigits limit n (count + digits.length) rest := by
  induction n using Nat.strongRecOn with
  | _ n ih =>
    by_cases hn : n < 10
    · exact ⟨n, [], numeral_of_lt hn, hn, fun hzero => ⟨hzero, rfl⟩, fun _ _ _ _ => rfl⟩
    · obtain ⟨first, digits, hnumeral, hfirst, hzero, htake⟩ := ih (n / 10) (by omega)
      refine ⟨first, digits ++ [digitOctet (n % 10)], ?_, hfirst, ?_, ?_⟩
      · rw [numeral_of_ge (by omega), hnumeral, List.cons_append]
      · intro hfirst0
        obtain ⟨htens, -⟩ := hzero hfirst0
        omega
      · intro limit count rest hlimit
        have hvalue : 10 * (n / 10) + n % 10 = n := by omega
        rw [List.append_assoc, htake limit count _ (by omega), List.singleton_append,
          Number.takeDigits, digit?_digitOctet _ (Nat.mod_lt n (by decide))]
        simp only [hvalue, if_pos hlimit, List.length_append, List.length_singleton,
          Nat.add_assoc]

/-- A start of a numeral is the numeral of a number that is no larger. -/
theorem numeral_start {n : Nat} {front back : Octets} (hcut : numeral n = front ++ back)
    (hfront : front ≠ []) : ∃ m ≤ n, front = numeral m := by
  induction n using Nat.strongRecOn generalizing back with
  | _ n ih =>
    rcases List.eq_nil_or_concat back with rfl | ⟨back, last, rfl⟩
    · exact ⟨n, Nat.le_refl n, by rw [hcut, List.append_nil]⟩
    · by_cases hn : n < 10
      · rw [numeral_of_lt hn] at hcut
        have hlength := congrArg List.length hcut
        simp only [List.concat_eq_append, List.length_append, List.length_singleton] at hlength
        have hpos := List.length_pos_iff.mpr hfront
        omega
      · rw [numeral_of_ge (by omega), List.concat_eq_append, ← List.append_assoc] at hcut
        obtain ⟨htens, -⟩ := List.append_inj' hcut rfl
        obtain ⟨m, hm, hfront⟩ := ih (n / 10) (by omega) htens
        exact ⟨m, by omega, hfront⟩

theorem digitOctet_ge : ∀ d < 10, Ascii.space ≤ digitOctet d := by decide

theorem numeral_unbroken (n : Nat) : Octets.Unbroken (numeral n) := by
  induction n using Nat.strongRecOn with
  | _ n ih =>
    intro octet hmem
    by_cases hn : n < 10
    · rw [numeral_of_lt hn, List.mem_singleton] at hmem
      rw [hmem]
      exact digitOctet_ge n hn
    · rw [numeral_of_ge (by omega), List.mem_append, List.mem_singleton] at hmem
      rcases hmem with hmem | rfl
      · exact ih (n / 10) (by omega) octet hmem
      · exact digitOctet_ge _ (Nat.mod_lt n (by decide))

theorem takeDigits_stops {rest : Octets} (hstops : Stops rest) (limit word count : Nat) :
    Number.takeDigits limit word count rest = (word, count, rest) := by
  cases rest with
  | nil => rfl
  | cons octet rest =>
    obtain ⟨hdigit, -⟩ := hstops octet rfl
    rw [Number.takeDigits, hdigit]

theorem dropDigits_stops {rest : Octets} (hstops : Stops rest) (count : Nat) :
    Number.dropDigits count rest = (count, rest) := by
  cases rest with
  | nil => rfl
  | cons octet rest =>
    obtain ⟨hdigit, -⟩ := hstops octet rfl
    simp [Number.dropDigits, hdigit]

theorem readRest_stops {rest : Octets} (hstops : Stops rest) (word : Nat) :
    Number.readRest false word 0 rest = .ok (.integer word, rest) := by
  cases rest with
  | nil => rfl
  | cons octet rest =>
    obtain ⟨-, hpoint, hmark⟩ := hstops octet rfl
    simp [Number.readRest, Number.whole, hpoint, hmark]

theorem digitOctet_ne_minus : ∀ d < 10, digitOctet d ≠ Ascii.minus := by decide

theorem isFirst_digitOctet : ∀ d < 10, Number.isFirst (digitOctet d) = true := by decide

/-- A numeral is read as the number it is the numeral of. -/
theorem read_numeral {n : Nat} (hn : n ≤ Number.maxWord) {rest : Octets} (hstops : Stops rest) :
    Number.read (numeral n ++ rest) = .ok (.integer n, rest) := by
  obtain ⟨first, digits, hnumeral, hfirst, hzero, htake⟩ := numeral_digits n
  rw [hnumeral, List.cons_append, Number.read, if_neg (digitOctet_ne_minus first hfirst),
    Number.readMagnitude, digit?_digitOctet first hfirst]
  cases first with
  | zero =>
    obtain ⟨rfl, rfl⟩ := hzero rfl
    have hdigit : Number.startsWithDigit rest = false := by
      cases rest with
      | nil => rfl
      | cons octet rest => simp [Number.startsWithDigit, (hstops octet rfl).1]
    simp only [List.nil_append, hdigit, Bool.false_eq_true, if_false]
    exact readRest_stops hstops 0
  | succ first =>
    simp only [htake _ 0 rest hn, takeDigits_stops hstops, dropDigits_stops hstops]
    exact readRest_stops hstops n

end MacroPlugin.Json
