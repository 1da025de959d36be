import MacroPlugin.Transport.Stream

/-!
What a stream without failed reads delivers. Its octets are all that matters: how they are cut into
reads, and where reads are interrupted, plays no part in what is taken (`gather_gives`).
-/

namespace MacroPlugin

namespace Octets

@[simp] theorem ofWord_length (word : UInt64) : (ofWord word).length = 8 := by
  simp [ofWord]

theorem toNat_shift (word : UInt64) : ∀ place < 8,
    (word >>> (8 * place).toUInt64).toUInt8.toNat = word.toNat >>> (8 * place) % 256 := by
  intro place hplace
  have hsmall : (8 * place).toUInt64.toNat % 64 = 8 * place := by
    rw [Nat.toUInt64_eq, UInt64.toNat_ofNat']
    omega
  rw [UInt64.toNat_toUInt8, UInt64.toNat_shiftRight, hsmall]

/-- A header holds the length that was written into it. -/
@[simp] theorem toNat_ofWord (word : UInt64) : toNat (ofWord word) = word.toNat := by
  have hshift := toNat_shift word
  have hword := word.toNat_lt
  simp only [ofWord, List.range, List.range.loop, List.map_cons, List.map_nil, toNat]
  rw [hshift 0 (by decide), hshift 1 (by decide), hshift 2 (by decide), hshift 3 (by decide),
    hshift 4 (by decide), hshift 5 (by decide), hshift 6 (by decide), hshift 7 (by decide)]
  omega

theorem littleEndian_eq_map (count n : Nat) :
    littleEndian count n =
      (List.range count).map fun place => UInt8.ofNat (n >>> (8 * place)) := by
  induction count generalizing n with
  | zero => rfl
  | succ count ih =>
    rw [littleEndian, ih, List.range_succ_eq_map, List.map_cons, List.map_map, Nat.mul_zero,
      Nat.shiftRight_zero]
    refine congrArg (UInt8.ofNat n :: ·) (List.map_congr_left fun place _ => ?_)
    have hshift : n / 256 = n >>> 8 := (Nat.shiftRight_eq_div_pow n 8).symm
    rw [hshift, ← Nat.shiftRight_add, Function.comp_apply, Nat.mul_succ, Nat.add_comm]

/-- The word of a length has the lowest octets of the length. -/
theorem ofWord_eq_littleEndian (n : Nat) : ofWord n.toUInt64 = littleEndian 8 n := by
  rw [littleEndian_eq_map, ofWord]
  refine List.map_congr_left fun place hmem => ?_
  have hplace : place < 8 := List.mem_range.mp hmem
  apply UInt8.toNat_inj.mp
  rw [toNat_shift n.toUInt64 place hplace, UInt8.toNat_ofNat', Nat.toUInt64_eq,
    UInt64.toNat_ofNat', Nat.shiftRight_eq_div_pow, Nat.shiftRight_eq_div_pow]
  rcases place with _ | _ | _ | _ | _ | _ | _ | _ | place <;> omega

end Octets

namespace Stream

/-- All octets that are to come, however they are delivered. -/
def octets (s : Stream) : Octets :=
  s.flatMap Delivery.octets

/-- No read fails. -/
def Intact (s : Stream) : Prop :=
  ∀ message, Delivery.failed message ∉ s

theorem Intact.tail {delivery : Delivery} {rest : Stream}
    (h : Intact (delivery :: rest)) : Intact rest :=
  fun message hmem => h message (List.mem_cons_of_mem delivery hmem)

/-- The outcome of taking something off an intact stream, and the octets that are left on it. -/
def Gives {ε α : Type} (outcome : Except ε α × Stream) (result : Except ε α)
    (left : Octets) : Prop :=
  ∃ rest : Stream, outcome = (result, rest) ∧ rest.Intact ∧ rest.octets = left

theorem cut_taken (stop : UInt8 → Bool) (taken : Octets) (limit : Nat) (octets : Octets) :
    cut stop taken limit octets =
      (taken.reverse ++ (cut stop [] limit octets).1, (cut stop [] limit octets).2) := by
  induction octets generalizing taken limit with
  | nil => cases limit <;> simp [cut]
  | cons octet octets ih =>
    cases limit with
    | zero => simp [cut]
    | succ limit =>
      unfold cut
      split
      · simp
      · rw [ih (octet :: taken), ih [octet]]
        simp

/-- Cutting a sequence of octets in two goes on behind the first one where the limit allows. -/
theorem cut_append (stop : UInt8 → Bool) (taken : Octets) (limit : Nat) (front back : Octets) :
    cut stop taken limit (front ++ back) =
      let first := cut stop taken limit front
      let second := cut stop [] first.2.1 (first.2.2 ++ back)
      (first.1 ++ second.1, second.2) := by
  fun_induction cut stop taken limit front with
  | case1 taken front => simp [cut]
  | case2 taken limit => exact cut_taken stop taken (limit + 1) back
  | case3 taken limit octet front hstop => simp [cut, hstop]
  | case4 taken limit octet front hgo ih =>
    rw [List.cons_append, cut, if_neg hgo]
    exact ih

/-- Octets are left unread only where no more may be taken. -/
theorem cut_limit {stop : UInt8 → Bool} {taken front back octets : Octets} {limit left : Nat}
    (h : cut stop taken limit octets = (front, left, back)) (hback : back ≠ []) : left = 0 := by
  fun_induction cut stop taken limit octets with
  | case1 taken octets => simp_all
  | case2 taken limit =>
    simp only [Prod.mk.injEq] at h
    exact absurd h.2.2.symm hback
  | case3 taken limit octet rest hstop =>
    simp only [Prod.mk.injEq] at h
    exact h.2.1.symm
  | case4 taken limit octet rest hgo ih => exact ih h

theorem gather_gives {s : Stream} (hintact : s.Intact) (stop : UInt8 → Bool) (limit : Nat) :
    Gives (s.gather stop limit) (.ok (cut stop [] limit s.octets).1)
      (cut stop [] limit s.octets).2.2 := by
  induction s generalizing limit with
  | nil =>
    refine ⟨[], ?_, hintact, ?_⟩
    · unfold gather
      cases limit <;> simp [cut, octets]
    · cases limit <;> rfl
  | cons delivery rest ih =>
    by_cases hlimit : limit = 0
    · subst hlimit
      refine ⟨delivery :: rest, ?_, hintact, ?_⟩
      · unfold gather
        rw [if_pos rfl]
        simp [cut]
      · simp [cut]
    · cases delivery with
      | interrupted =>
        have hrest := ih hintact.tail limit
        unfold gather
        rw [if_neg hlimit]
        exact hrest
      | failed message => exact absurd List.mem_cons_self (hintact message)
      | data front =>
        have hoctets : octets (.data front :: rest) = front ++ octets rest := rfl
        unfold gather
        rw [if_neg hlimit, hoctets, cut_append]
        rcases hcut : cut stop [] limit front with ⟨taken, left, back⟩
        cases back with
        | nil =>
          obtain ⟨later, hlater, hwhole, hleft⟩ := ih hintact.tail left
          refine ⟨later, ?_, hwhole, hleft⟩
          simp only [hcut, hlater, Except.map, List.nil_append]
        | cons octet back =>
          have hleft : left = 0 := cut_limit hcut (by simp)
          subst hleft
          refine ⟨.data (octet :: back) :: rest, ?_, ?_, ?_⟩
          · simp [hcut, cut]
          · intro message hmem
            simp only [List.mem_cons, reduceCtorEq, false_or] at hmem
            exact hintact.tail message hmem
          · simp [cut, octets, Delivery.octets]

/-! What is taken from plain octets -/

theorem take_gives {s : Stream} (hintact : s.Intact) (count : Nat) :
    Gives (s.take count) (.ok (s.octets.take count)) (s.octets.drop count) := by
  have hcut : ∀ (taken octets : Octets) (count : Nat),
      cut (fun _ => false) taken count octets =
        (taken.reverse ++ octets.take count, count - octets.length, octets.drop count) := by
    intro taken octets count
    fun_induction cut (fun _ => false) taken count octets with
    | case1 taken octets => simp
    | case2 taken limit => simp
    | case3 taken limit octet rest hstop => simp at hstop
    | case4 taken limit octet rest hgo ih => simp [ih]
  have hgives := gather_gives hintact (fun _ => false) count
  rw [hcut] at hgives
  exact hgives

/-- A line is taken with its line feed and nothing behind it. -/
theorem cut_line {line : Octets} (hline : Ascii.newline ∉ line) {limit : Nat}
    (hlimit : line.length < limit) (behind : Octets) :
    cut (· = Ascii.newline) [] limit (line ++ Ascii.newline :: behind) =
      (line ++ [Ascii.newline], 0, behind) := by
  induction line generalizing limit with
  | nil => cases limit with
    | zero => simp at hlimit
    | succ limit => simp [cut]
  | cons octet line ih =>
    cases limit with
    | zero => simp at hlimit
    | succ limit =>
      have hoctet : ¬ octet = Ascii.newline := fun heq => hline (by simp [heq])
      have hrest : Ascii.newline ∉ line := fun hmem => hline (by simp [hmem])
      rw [List.cons_append, cut, if_neg (by simpa using hoctet), cut_taken,
        ih hrest (Nat.lt_of_succ_lt_succ hlimit)]
      rfl

/-- Without a line feed, all octets are taken. -/
theorem cut_unended {line : Octets} (hline : Ascii.newline ∉ line) {limit : Nat}
    (hlimit : line.length ≤ limit) :
    cut (· = Ascii.newline) [] limit line = (line, limit - line.length, []) := by
  induction line generalizing limit with
  | nil => cases limit <;> simp [cut]
  | cons octet line ih =>
    cases limit with
    | zero => simp at hlimit
    | succ limit =>
      have hoctet : ¬ octet = Ascii.newline := fun heq => hline (by simp [heq])
      have hrest : Ascii.newline ∉ line := fun hmem => hline (by simp [hmem])
      rw [cut, if_neg (by simpa using hoctet), cut_taken, ih hrest (Nat.le_of_succ_le_succ hlimit)]
      simp

end Stream

end MacroPlugin
