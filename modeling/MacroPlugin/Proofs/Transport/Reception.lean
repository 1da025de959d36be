import MacroPlugin.Transport.Frame

/-!
Everything that a stream has to say: the messages taken off it one by one, up to the first outcome
that is none. Taking a message uses up octets of the stream, so there are finitely many
(`receive_size_lt`), and the fuel of the line loop lasts.
-/

namespace MacroPlugin.Stream

/-- How many octets a read took; those taken before a failure are gone and do not count. -/
def taken : Except String Octets → Nat
  | .ok octets => octets.length
  | .error _ => 0

theorem cut_length (stop : UInt8 → Bool) (before : Octets) (limit : Nat) (octets : Octets) :
    (cut stop before limit octets).1.length + (cut stop before limit octets).2.2.length =
      before.length + octets.length := by
  fun_induction cut stop before limit octets with
  | case1 before octets => simp
  | case2 before limit => simp
  | case3 before limit octet rest hstop =>
    simp only [List.length_reverse, List.length_cons]
    omega
  | case4 before limit octet rest hgo ih =>
    simp only [List.length_cons] at ih ⊢
    omega

/-- What is gathered is no longer to come. -/
theorem gather_size (stop : UInt8 → Bool) (limit : Nat) (s : Stream) :
    (s.gather stop limit).2.size + taken (s.gather stop limit).1 ≤ s.size := by
  induction s generalizing limit with
  | nil =>
    unfold gather
    split <;> simp [taken, size]
  | cons delivery rest ih =>
    unfold gather
    split
    · simp [taken]
    · cases delivery with
      | interrupted =>
        simp only [size, Delivery.octets, List.length_nil, Nat.zero_add]
        exact ih limit
      | failed message =>
        simp only [taken, size]
        omega
      | data octets =>
        have hcut := cut_length stop [] limit octets
        rcases hrun : cut stop [] limit octets with ⟨front, left, back⟩
        simp only [hrun, List.length_nil, Nat.zero_add] at hcut
        cases back with
        | nil =>
          have hrest := ih left
          simp only [List.length_nil, Nat.add_zero] at hcut
          simp only [hrun, size, Delivery.octets]
          cases hresult : (gather stop left rest).1 with
          | error message => simp only [hresult, Except.map, taken] at hrest ⊢; omega
          | ok more =>
            simp only [hresult, Except.map, taken, List.length_append] at hrest ⊢
            omega
        | cons octet back =>
          simp only [hrun, taken, size, Delivery.octets]
          omega

theorem gather_size_ok {stop : UInt8 → Bool} {limit : Nat} {s rest : Stream} {front : Octets}
    (h : s.gather stop limit = (.ok front, rest)) : rest.size + front.length ≤ s.size := by
  have hsize := gather_size stop limit s
  rw [h] at hsize
  exact hsize

theorem gather_size_le (stop : UInt8 → Bool) (limit : Nat) (s : Stream) :
    (s.gather stop limit).2.size ≤ s.size :=
  Nat.le_trans (Nat.le_add_right _ _) (gather_size stop limit s)

/-- A body behind a length is taken together with its header. -/
theorem takeLengthPrefixed_size_lt {limit : Nat} {s rest : Stream} {body : Octets}
    (h : s.takeLengthPrefixed limit = (.ok (some body), rest)) : rest.size < s.size := by
  unfold takeLengthPrefixed take at h
  rcases hheader : s.gather (fun _ => false) headerSize with ⟨_ | header, behind⟩
  · simp [hheader] at h
  simp only [hheader] at h
  split at h
  · simp at h
  · next hfull =>
    split at h
    · simp at h
    · split at h
      · simp at h
      · split at h
        · simp at h
        · have hbehind := gather_size_ok hheader
          have hbody := gather_size_le (fun _ => false) (Octets.toNat header) behind
          rcases hread : behind.gather (fun _ => false) (Octets.toNat header) with
            ⟨_ | body, after⟩
          · simp [hread] at h
          simp only [hread] at h hbody
          split at h
          · simp at h
          · simp only [Prod.mk.injEq] at h
            have hpos : 0 < header.length :=
              List.length_pos_iff.mpr (by simpa [List.isEmpty_iff] using hfull)
            rw [← h.2]
            omega

/-- A line is taken with at least one octet, whatever blank lines were passed before it. -/
theorem takeTextLine_size_lt {fuel limit : Nat} {s rest : Stream} {line : Octets}
    (h : s.takeTextLine fuel limit = (.ok (some line), rest)) : rest.size < s.size := by
  induction fuel generalizing s with
  | zero => simp [takeTextLine] at h
  | succ fuel ih =>
    unfold takeTextLine takeLine at h
    rcases hread : s.gather (· = Ascii.newline) (min (limit + 1) (UInt64.size - 1)) with
      ⟨_ | front, behind⟩
    · simp only [hread, Prod.mk.injEq, reduceCtorEq, false_and] at h
    have hbehind := gather_size_ok hread
    simp only [hread] at h
    split at h
    · simp at h
    · next hsome =>
      have hpos : 0 < front.length :=
        List.length_pos_iff.mpr (by simpa [List.isEmpty_iff] using hsome)
      split at h
      · simp at h
      · split at h
        · have hlater := ih h
          omega
        · simp only [Prod.mk.injEq] at h
          rw [← h.2]
          omega

theorem receive_size_lt {α : Type} [Wire α] {framing : Framing} {limit : Nat} {s rest : Stream}
    {message : α} (h : s.receive α framing limit = (.ok (some message), rest)) :
    rest.size < s.size := by
  unfold receive at h
  rcases hframe : s.takeFrame framing limit with ⟨_ | _ | body, behind⟩
  · simp [hframe] at h
  · simp [hframe] at h
  · have hrest : behind = rest := by
      simp only [hframe] at h
      split at h
      · exact congrArg Prod.snd h
      · simp at h
    rw [← hrest]
    cases framing with
    | lengthPrefixed => exact takeLengthPrefixed_size_lt hframe
    | jsonLines => exact takeTextLine_size_lt hframe

/-- What a stream had to say: its messages in order, how they ended, and what is unread. -/
structure Reception (α : Type) where
  messages : List α
  ending : Except TransportError Unit
  rest : Stream

/-- Takes messages off a stream up to the first outcome that is none. -/
def receiveAll (α : Type) [Wire α] (framing : Framing) (limit : Nat) (s : Stream) : Reception α :=
  match _h : s.receive α framing limit with
  | (.error e, rest) => ⟨[], .error e, rest⟩
  | (.ok none, rest) => ⟨[], .ok (), rest⟩
  | (.ok (some message), rest) =>
    let later := receiveAll α framing limit rest
    { later with messages := message :: later.messages }
termination_by s.size
decreasing_by exact receive_size_lt _h

section Steps

variable {α : Type} [Wire α] {framing : Framing} {limit : Nat} {s rest : Stream}

theorem receive_of_error (framing : Framing) {e : TransportError}
    (hframe : s.takeFrame framing limit = (.error e, rest)) :
    s.receive α framing limit = (.error e, rest) := by
  unfold receive
  rw [hframe]

theorem receive_of_ok (framing : Framing) {body : Octets} {message : α}
    (hframe : s.takeFrame framing limit = (.ok (some body), rest))
    (hdecode : Wire.decode α body = .ok message) :
    s.receive α framing limit = (.ok (some message), rest) := by
  unfold receive
  simp only [hframe, hdecode]

theorem receive_of_undecodable (framing : Framing) {body : Octets} {e : Json.DecodeError}
    (hframe : s.takeFrame framing limit = (.ok (some body), rest))
    (hdecode : Wire.decode α body = .error e) :
    s.receive α framing limit = (.error (.decode e), rest) := by
  unfold receive
  simp only [hframe, hdecode]

theorem receiveAll_of_error {e : TransportError}
    (h : s.receive α framing limit = (.error e, rest)) :
    s.receiveAll α framing limit = ⟨[], .error e, rest⟩ := by
  rw [receiveAll.eq_def]
  split <;> simp_all

theorem receiveAll_of_none (h : s.receive α framing limit = (.ok none, rest)) :
    s.receiveAll α framing limit = ⟨[], .ok (), rest⟩ := by
  rw [receiveAll.eq_def]
  split <;> simp_all

theorem receiveAll_of_some {message : α}
    (h : s.receive α framing limit = (.ok (some message), rest)) :
    s.receiveAll α framing limit =
      { rest.receiveAll α framing limit with
        messages := message :: (rest.receiveAll α framing limit).messages } := by
  rw [receiveAll.eq_def]
  split <;> simp_all

end Steps

end MacroPlugin.Stream
