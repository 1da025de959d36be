import MacroPlugin.Proofs.Transport.Redelivery

/-!
One read of a body behind its length, for every sequence of octets that may be unread. What comes
of the read is settled by three numbers: how many octets are there, the length that the first eight
of them hold, and the limit. A body that is too large is not looked at, and one that is no message
is taken as a whole, so that a read leaves the stream where the next frame begins
(`receive_lengthPrefixed`). A limit that lets through more than a buffer can hold leaves it to the
buffer to refuse the rest (`receive_length_of_no_buffer`); any other keeps a reader from that
(`receive_within_buffers`).
-/

namespace MacroPlugin

namespace Stream

section Frames

variable {s : Stream}

theorem takeLengthPrefixed_end (hintact : s.Intact) (hoctets : s.octets = []) (limit : Nat) :
    Gives (s.takeLengthPrefixed limit) (.ok none) [] := by
  obtain ⟨rest, htake, hrest, hleft⟩ := take_gives hintact headerSize
  rw [hoctets, List.take_nil] at htake
  rw [hoctets, List.drop_nil] at hleft
  refine ⟨rest, ?_, hrest, hleft⟩
  unfold takeLengthPrefixed
  rw [htake]
  rfl

theorem takeLengthPrefixed_header (hintact : s.Intact) (hsome : s.octets ≠ [])
    (hshort : s.octets.length < headerSize) (limit : Nat) :
    Gives (s.takeLengthPrefixed limit) (.error (.truncated headerSize s.octets.length)) [] := by
  obtain ⟨rest, htake, hrest, hleft⟩ := take_gives hintact headerSize
  rw [List.take_of_length_le (Nat.le_of_lt hshort)] at htake
  rw [List.drop_of_length_le (Nat.le_of_lt hshort)] at hleft
  refine ⟨rest, ?_, hrest, hleft⟩
  unfold takeLengthPrefixed
  rw [htake]
  simp only [List.isEmpty_iff, hsome, if_false, hshort, if_true]

/-- Behind a whole header, the length that it holds is compared with the limit first, then with what
a buffer can hold, and then with what arrives. -/
theorem takeLengthPrefixed_headed (hintact : s.Intact) (hheader : headerSize ≤ s.octets.length)
    (limit : Nat) :
    let size := Octets.toNat (s.octets.take headerSize)
    let behind := s.octets.drop headerSize
    Gives (s.takeLengthPrefixed limit)
      (if limit < size then .error (.tooLarge size limit)
        else if bufferCapacity < size then .error .capacityOverflow
        else if behind.length < size then .error (.truncated size behind.length)
        else .ok (some (behind.take size)))
      (if limit < size ∨ bufferCapacity < size then behind else behind.drop size) := by
  intro size behind
  have hfull : (s.octets.take headerSize).length = headerSize := List.length_take_of_le hheader
  have hnonempty : (s.octets.take headerSize).isEmpty = false := by
    rw [List.isEmpty_eq_false_iff, ← List.length_pos_iff, hfull]
    decide
  obtain ⟨middle, htake, hmiddle, hbehind⟩ := take_gives hintact headerSize
  unfold takeLengthPrefixed
  rw [htake]
  simp only [hnonempty, hfull, Nat.lt_irrefl, if_false, Bool.false_eq_true]
  by_cases hlarge : limit < size
  · rw [if_pos hlarge, if_pos hlarge, if_pos (.inl hlarge)]
    exact ⟨middle, rfl, hmiddle, hbehind⟩
  rw [if_neg hlarge, if_neg hlarge]
  by_cases hunheld : bufferCapacity < size
  · rw [if_pos hunheld, if_pos hunheld, if_pos (.inr hunheld)]
    exact ⟨middle, rfl, hmiddle, hbehind⟩
  · rw [if_neg hunheld, if_neg hunheld, if_neg (not_or.mpr ⟨hlarge, hunheld⟩)]
    obtain ⟨last, hbody, hlast, hleft⟩ := take_gives hmiddle size
    rw [hbehind] at hbody hleft
    refine ⟨last, ?_, hlast, hleft⟩
    rw [hbody]
    dsimp only
    have hlength : (behind.take size).length = min size behind.length := List.length_take
    by_cases hshort : behind.length < size
    · have htaken : (behind.take size).length = behind.length := by omega
      rw [htaken, if_pos hshort, if_pos hshort]
    · have htaken : ¬ (behind.take size).length < size := by omega
      rw [if_neg htaken, if_neg hshort]

end Frames

/-- What a reader makes of the body of a frame. -/
def decoded (α : Type) [Wire α] (body : Octets) : Except TransportError (Option α) :=
  ((Wire.decode α body).mapError .decode).map some

section Messages

variable {α : Type} [Wire α] {framing : Framing} {limit : Nat} {s : Stream} {left : Octets}

theorem Gives.receive_none (h : Gives (s.takeFrame framing limit) (.ok none) left) :
    Gives (s.receive α framing limit) (.ok none) left := by
  obtain ⟨rest, hframe, hrest, hleft⟩ := h
  refine ⟨rest, ?_, hrest, hleft⟩
  unfold receive
  rw [hframe]

theorem Gives.receive_error {e : TransportError}
    (h : Gives (s.takeFrame framing limit) (.error e) left) :
    Gives (s.receive α framing limit) (.error e) left := by
  obtain ⟨rest, hframe, hrest, hleft⟩ := h
  exact ⟨rest, receive_of_error framing hframe, hrest, hleft⟩

theorem Gives.receive_some {body : Octets}
    (h : Gives (s.takeFrame framing limit) (.ok (some body)) left) :
    Gives (s.receive α framing limit) (decoded α body) left := by
  obtain ⟨rest, hframe, hrest, hleft⟩ := h
  refine ⟨rest, ?_, hrest, hleft⟩
  unfold decoded
  cases hdecode : Wire.decode α body with
  | ok message => exact receive_of_ok framing hframe hdecode
  | error e => exact receive_of_undecodable framing hframe hdecode

end Messages

/-- Streams without failed reads that have the same octets left are read alike from there on. -/
theorem results_of_octets {rest s' : Stream} (hrest : rest.Intact) (hs' : s'.Intact)
    (hsame : s'.octets = rest.octets) (β : Type) [Wire β] (framing : Framing) (limit count : Nat) :
    rest.results β framing limit count = s'.results β framing limit count :=
  results_alike ⟨hrest, hs', hsame.symm⟩ β framing limit count

/-- One read with a length in front, by what is unread. At the end there is no message, and a header
or a body that is cut short is told by how much of it is there. A length above the limit is refused
with nothing taken but the header, and so is one that no buffer can hold; otherwise the body is
taken whole and decoded. Whatever came of the read, later reads see just the octets that it left. -/
theorem receive_lengthPrefixed (α : Type) [Wire α] (limit : Nat) {s : Stream}
    (hintact : s.Intact) :
    let size := Octets.toNat (s.octets.take headerSize)
    let behind := s.octets.drop headerSize
    ∃ result rest, s.receive α .lengthPrefixed limit = (result, rest) ∧
      (result, rest.octets) =
        (if s.octets = [] then (.ok none, [])
          else if s.octets.length < headerSize then
            (.error (.truncated headerSize s.octets.length), [])
          else if limit < size then (.error (.tooLarge size limit), behind)
          else if bufferCapacity < size then (.error .capacityOverflow, behind)
          else if behind.length < size then (.error (.truncated size behind.length), [])
          else (decoded α (behind.take size), behind.drop size)) ∧
      ∀ s' : Stream, s'.Intact → s'.octets = rest.octets →
        ∀ (β : Type) [Wire β] (framing : Framing) (limit' count : Nat),
          rest.results β framing limit' count = s'.results β framing limit' count := by
  intro size behind
  suffices hgives : ∃ result left, Gives (s.receive α .lengthPrefixed limit) result left ∧
      (result, left) = _ by
    obtain ⟨result, left, ⟨rest, hread, hrest, rfl⟩, htable⟩ := hgives
    exact ⟨result, rest, hread, htable, fun s' hs' hsame β _ => results_of_octets hrest hs' hsame β⟩
  by_cases hnone : s.octets = []
  · have htake : Gives (s.takeFrame .lengthPrefixed limit) _ _ :=
      takeLengthPrefixed_end hintact hnone limit
    rw [if_pos hnone]
    exact ⟨_, _, htake.receive_none, rfl⟩
  rw [if_neg hnone]
  by_cases hheader : s.octets.length < headerSize
  · have htake : Gives (s.takeFrame .lengthPrefixed limit) _ _ :=
      takeLengthPrefixed_header hintact hnone hheader limit
    rw [if_pos hheader]
    exact ⟨_, _, htake.receive_error, rfl⟩
  rw [if_neg hheader]
  have htake : Gives (s.takeFrame .lengthPrefixed limit) _ _ :=
    takeLengthPrefixed_headed hintact (Nat.le_of_not_lt hheader) limit
  by_cases hlarge : limit < size
  · rw [if_pos hlarge]
    rw [if_pos hlarge, if_pos (.inl hlarge)] at htake
    exact ⟨_, _, htake.receive_error, rfl⟩
  by_cases hunheld : bufferCapacity < size
  · rw [if_neg hlarge, if_pos hunheld]
    rw [if_neg hlarge, if_pos hunheld, if_pos (.inr hunheld)] at htake
    exact ⟨_, _, htake.receive_error, rfl⟩
  rw [if_neg hlarge, if_neg hunheld]
  rw [if_neg hlarge, if_neg hunheld, if_neg (not_or.mpr ⟨hlarge, hunheld⟩)] at htake
  by_cases hshort : behind.length < size
  · rw [if_pos hshort]
    rw [if_pos hshort, List.drop_of_length_le (Nat.le_of_lt hshort)] at htake
    exact ⟨_, _, htake.receive_error, rfl⟩
  · rw [if_neg hshort]
    rw [if_neg hshort] at htake
    exact ⟨_, _, htake.receive_some, rfl⟩

/-- A stray brace in a frame of its own, cut inside its header, and a length behind it that is too
large: the brace is no message, and the next read begins with that length. -/
theorem receive_brace_then_length :
    let length : Octets := List.replicate 8 0xFF
    let octets := [1, 0, 0, 0, 0, 0, 0, 0, Ascii.openBrace] ++ length
    let s : Stream := [.data (octets.take 5), .interrupted, .data (octets.drop 5)]
    ∃ rest, s.receive Request .lengthPrefixed 100 = (decoded Request [Ascii.openBrace], rest) ∧
      rest.octets = length ∧
      rest.results Request .lengthPrefixed 100 1 =
        [.error (.tooLarge 18446744073709551615 100)] := by
  intro length octets s
  have hintact : s.Intact := by
    intro message hmem
    simp [s] at hmem
  have hoctets : s.octets = octets := rfl
  have hbody : (octets.drop headerSize).take (Octets.toNat (octets.take headerSize)) =
      [Ascii.openBrace] := by decide
  have hbehind : (octets.drop headerSize).drop (Octets.toNat (octets.take headerSize)) =
      length := by decide
  obtain ⟨result, rest, hread, htable, hlater⟩ := receive_lengthPrefixed Request 100 hintact
  rw [hoctets, hbody, hbehind] at htable
  rw [if_neg (by decide), if_neg (by decide), if_neg (by decide), if_neg (by decide),
    if_neg (by decide)] at htable
  obtain ⟨rfl, hleft⟩ := Prod.mk.inj htable
  refine ⟨rest, hread, hleft, ?_⟩
  rw [hlater [.data length] (by simp [Intact]) hleft.symm]
  rfl

/-- The least length that no buffer can hold, with nothing behind it and under the largest limit.
The read does not tell that the body is missing. -/
theorem receive_length_of_no_buffer :
    let s : Stream := [.data [0, 0, 0, 0, 0, 0, 0, 0x80]]
    let size := Octets.toNat (s.octets.take headerSize)
    let behind := s.octets.drop headerSize
    let limit := 18446744073709551615
    let read := s.receive Request .lengthPrefixed limit
    (s.Intact ∧ headerSize ≤ s.octets.length ∧ size ≤ limit ∧ behind.length < size) ∧
      read.1 = .error .capacityOverflow ∧ read.1 ≠ .error (.truncated size behind.length) := by
  intro s size behind limit read
  have hintact : s.Intact := by
    intro message hmem
    simp [s] at hmem
  have hread : read.1 = .error .capacityOverflow := rfl
  refine ⟨⟨hintact, by decide, by decide, by decide⟩, hread, ?_⟩
  rw [hread]
  simp

/-- No buffer is asked for where a limit refuses what none can hold. -/
theorem takeLengthPrefixed_within_buffers {limit : Nat} (hlimit : limit ≤ bufferCapacity)
    (s : Stream) : (s.takeLengthPrefixed limit).1 ≠ .error .capacityOverflow := by
  unfold takeLengthPrefixed
  split
  · simp
  · next header behind _ =>
    split
    · simp
    · split
      · simp
      · by_cases hlarge : limit < Octets.toNat header
        · simp [hlarge]
        · have hheld : ¬ bufferCapacity < Octets.toNat header := by omega
          simp only [hlarge, hheld, if_false]
          split
          · simp
          · split <;> simp

/-- Neither is one for a line, which grows with what arrives. -/
theorem takeTextLine_within_buffers (fuel limit : Nat) (s : Stream) :
    (s.takeTextLine fuel limit).1 ≠ .error .capacityOverflow := by
  induction fuel generalizing s with
  | zero => simp [takeTextLine]
  | succ fuel ih =>
    unfold takeTextLine
    split
    · simp
    · split
      · simp
      · split
        · simp
        · split
          · exact ih _
          · simp

/-- A limit that some buffer can hold keeps a read from the panic at one that none can. -/
theorem receive_within_buffers (α : Type) [Wire α] (framing : Framing) {limit : Nat}
    (hlimit : limit ≤ bufferCapacity) (s : Stream) :
    (s.receive α framing limit).1 ≠ .error .capacityOverflow := by
  have hframe : (s.takeFrame framing limit).1 ≠ .error .capacityOverflow := by
    cases framing with
    | lengthPrefixed => exact takeLengthPrefixed_within_buffers hlimit s
    | jsonLines => exact takeTextLine_within_buffers _ limit s
  unfold receive
  rcases htake : s.takeFrame framing limit with ⟨e | _ | body, rest⟩
  · rw [htake] at hframe
    simpa using hframe
  · simp
  · dsimp only
    split <;> simp

/-- So all that a stream has to say is said without that panic. -/
theorem receiveAll_within_buffers (α : Type) [Wire α] (framing : Framing) {limit : Nat}
    (hlimit : limit ≤ bufferCapacity) (s : Stream) :
    (s.receiveAll α framing limit).ending ≠ .error .capacityOverflow := by
  induction hsize : s.size using Nat.strongRecOn generalizing s with
  | _ size ih =>
    have hread := receive_within_buffers α framing hlimit s
    rcases hreceive : s.receive α framing limit with ⟨e | _ | message, rest⟩
    · rw [receiveAll_of_error hreceive]
      rw [hreceive] at hread
      simpa using hread
    · simp [receiveAll_of_none hreceive]
    · rw [receiveAll_of_some hreceive]
      exact ih rest.size (hsize ▸ receive_size_lt hreceive) rest rfl

end Stream

end MacroPlugin
