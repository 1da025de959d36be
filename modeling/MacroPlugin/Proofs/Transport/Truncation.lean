import MacroPlugin.Proofs.Transport.Headers
import MacroPlugin.Proofs.Transport.Transcript
import MacroPlugin.Proofs.Wire.RoundTrip

/-!
Written messages that are read back, all of them or up to a cut anywhere in between. A frame is
either there as a whole, and then it is read as the message that was written, or it is missed: a
length in front of a body is compared with what arrives, and a line that is cut short is no JSON.
So a reader never takes a part of a message for a message.
-/

namespace MacroPlugin

namespace Stream

/-! Lengths in front of bodies -/

section LengthPrefixed

variable {s : Stream} {limit : UInt64} {body : Octets}

@[simp] theorem frame_lengthPrefixed (body : Octets) :
    Framing.lengthPrefixed.frame body = Octets.ofWord body.length.toUInt64 ++ body := by
  rw [Octets.ofWord_eq_littleEndian]
  rfl

theorem toNat_header (hfits : body.length ≤ limit.toNat) :
    Octets.toNat (Octets.ofWord body.length.toUInt64) = body.length := by
  have hlimit := limit.toNat_lt
  rw [Octets.toNat_ofWord, Nat.toUInt64_eq, UInt64.toNat_ofNat']
  omega

/-- Behind a whole header, what arrives is compared with the length that the header holds. -/
theorem takeLengthPrefixed_body (hintact : s.Intact) (hfits : body.length ≤ limit.toNat)
    (hheld : body.length ≤ bufferCapacity) {part : Octets}
    (hoctets : s.octets = Octets.ofWord body.length.toUInt64 ++ part) :
    Gives (s.takeLengthPrefixed limit.toNat)
      (if part.length < body.length then .error (.truncated body.length part.length)
        else .ok (some (part.take body.length)))
      (part.drop body.length) := by
  have hheader : (Octets.ofWord body.length.toUInt64).length = headerSize :=
    Octets.ofWord_length _
  have hfull : headerSize ≤ s.octets.length := by
    rw [hoctets, List.length_append, hheader]
    exact Nat.le_add_right _ _
  have hgives := takeLengthPrefixed_headed hintact hfull limit.toNat
  rw [hoctets, List.take_left' hheader, List.drop_left' hheader, toNat_header hfits] at hgives
  dsimp only at hgives
  have hlarge : ¬ limit.toNat < body.length := Nat.not_lt.mpr hfits
  have hunheld : ¬ bufferCapacity < body.length := Nat.not_lt.mpr hheld
  rwa [if_neg hlarge, if_neg hunheld, if_neg (not_or.mpr ⟨hlarge, hunheld⟩)] at hgives

theorem takeLengthPrefixed_whole (hintact : s.Intact) (hfits : body.length ≤ limit.toNat)
    (hheld : body.length ≤ bufferCapacity) {behind : Octets}
    (hoctets : s.octets = Framing.lengthPrefixed.frame body ++ behind) :
    Gives (s.takeLengthPrefixed limit.toNat) (.ok (some body)) behind := by
  rw [frame_lengthPrefixed, List.append_assoc] at hoctets
  have hgives := takeLengthPrefixed_body hintact hfits hheld hoctets
  rw [List.take_left, List.drop_left, List.length_append,
    if_neg (Nat.not_lt.mpr (Nat.le_add_right _ _))] at hgives
  exact hgives

end LengthPrefixed

/-! Lines -/

section TextLines

variable {s : Stream} {limit : UInt64} {line : Octets}

@[simp] theorem frame_jsonLines (body : Octets) :
    Framing.jsonLines.frame body = body ++ [Ascii.newline] :=
  rfl

theorem takeTextLine_end (hintact : s.Intact) (hoctets : s.octets = []) (fuel limit : Nat) :
    Gives (s.takeTextLine (fuel + 1) limit) (.ok none) [] := by
  obtain ⟨rest, htake, hrest, hleft⟩ := gather_gives hintact (· = Ascii.newline)
    (min (limit + 1) (UInt64.size - 1))
  have hnone : Ascii.newline ∉ s.octets := by simp [hoctets]
  rw [cut_unended hnone (by simp [hoctets]), hoctets] at htake hleft
  refine ⟨rest, ?_, hrest, hleft⟩
  unfold takeTextLine takeLine
  rw [htake]
  rfl

/-- A line with something in it is taken at the first turn. -/
theorem takeTextLine_line {left : Octets} {fuel : Nat}
    (htake : Gives (s.takeLine (min (limit.toNat + 1) (UInt64.size - 1))) (.ok line) left)
    (hfits : line.length ≤ limit.toNat) (hsome : line.all Ascii.isBlank = false) :
    Gives (s.takeTextLine (fuel + 1) limit.toNat) (.ok (some line)) left := by
  obtain ⟨rest, htake, hrest, hleft⟩ := htake
  have hnonempty : line.isEmpty = false := by
    cases line with
    | nil => simp at hsome
    | cons octet line => rfl
  refine ⟨rest, ?_, hrest, hleft⟩
  unfold takeTextLine
  rw [htake]
  simp only [hnonempty, hsome, Nat.not_lt.mpr hfits, if_false, Bool.false_eq_true]

theorem takeTextLine_whole (hintact : s.Intact) (hfits : line.length + 1 ≤ limit.toNat)
    (hline : Ascii.newline ∉ line) (hsome : line.all Ascii.isBlank = false) {behind : Octets}
    (hoctets : s.octets = Framing.jsonLines.frame line ++ behind) (fuel : Nat) :
    Gives (s.takeTextLine (fuel + 1) limit.toNat) (.ok (some (line ++ [Ascii.newline])))
      behind := by
  have hlimit := limit.toNat_lt_size
  have htake := gather_gives hintact (· = Ascii.newline)
    (min (limit.toNat + 1) (UInt64.size - 1))
  rw [hoctets, frame_jsonLines, List.append_assoc, List.singleton_append,
    cut_line hline (by omega)] at htake
  exact takeTextLine_line htake (by simpa using hfits) (by simp [hsome])

theorem takeTextLine_unended (hintact : s.Intact) (hfits : line.length ≤ limit.toNat)
    (hline : Ascii.newline ∉ line) (hsome : line.all Ascii.isBlank = false)
    (hoctets : s.octets = line) (fuel : Nat) :
    Gives (s.takeTextLine (fuel + 1) limit.toNat) (.ok (some line)) [] := by
  have hlimit := limit.toNat_lt_size
  have htake := gather_gives hintact (· = Ascii.newline)
    (min (limit.toNat + 1) (UInt64.size - 1))
  rw [hoctets, cut_unended hline (by omega)] at htake
  exact takeTextLine_line htake hfits hsome

end TextLines

end Stream

/-! Messages -/

/-- How many octets of a frame count against the limit. -/
def Framing.counted : Framing → Octets → Nat
  | .lengthPrefixed, body => body.length
  | .jsonLines, body => body.length + 1

/-- Whether a reader can have the buffer that it asks for when a length announces the body. For a
line it asks for none. -/
def Framing.Held : Framing → Octets → Prop
  | .lengthPrefixed, body => body.length ≤ Stream.bufferCapacity
  | .jsonLines, _ => True

instance Framing.decidableHeld :
    (framing : Framing) → (body : Octets) → Decidable (framing.Held body)
  | .lengthPrefixed, body => inferInstanceAs (Decidable (body.length ≤ Stream.bufferCapacity))
  | .jsonLines, _ => inferInstanceAs (Decidable True)

section Messages

variable {α : Type} [Wire α]

/-- Every start of a written message is a start of a line that is not blank. -/
theorem Wire.encode_start {message : α} {front back : Octets}
    (hcut : Octets.ofText (Wire.encode message) = front ++ back) (hfront : front ≠ []) :
    Ascii.newline ∉ front ∧ front.all Ascii.isBlank = false := by
  have hunbroken : Octets.Unbroken (front ++ back) := hcut ▸ Json.compact_unbroken (toJson message)
  constructor
  · intro hmem
    have hspace := hunbroken Ascii.newline (by simp [hmem])
    exact absurd hspace (by decide)
  · obtain ⟨octet, rest, htext, hblank, -⟩ := (Json.compact_written (toJson message)).first
    cases front with
    | nil => exact absurd rfl hfront
    | cons first front =>
      obtain ⟨rfl, -⟩ := List.cons.inj (hcut.symm.trans htext)
      have hspace : Ascii.space ≤ first := hunbroken first (by simp)
      have hfirst : Ascii.isBlank first = false := by
        simp only [Ascii.isBlank, Bool.or_eq_false_iff, decide_eq_false_iff_not]
        refine ⟨⟨⟨⟨?_, ?_⟩, ?_⟩, ?_⟩, ?_⟩ <;> rintro rfl
        · exact absurd hblank (by decide)
        all_goals exact absurd hspace (by decide)
      simp [hfirst]

theorem Wire.encode_ne_nil (message : α) : Octets.ofText (Wire.encode message) ≠ [] :=
  List.length_pos_iff.mp (Json.compact_written (toJson message)).length_pos

/-- What is to be heard of some written messages when only the octets at the front of their
transcript arrive: all messages whose frames are there as a whole, and then, by the place of the
cut, the end of the stream or an error. -/
inductive Framing.Heard : Framing → List α → Octets → List α → Except TransportError Unit → Prop
  -- Between two frames, or at either end of the transcript.
  | boundary {framing : Framing} (whole later : List α) :
      Heard framing (whole ++ later) (framing.transcript whole) whole (.ok ())
  -- Inside the length in front of a body.
  | header (whole : List α) {message : α} (later : List α) {part back : Octets}
      (hcut : Octets.ofWord (Octets.ofText (Wire.encode message)).length.toUInt64 = part ++ back)
      (hpart : part ≠ []) (hback : back ≠ []) :
      Heard .lengthPrefixed (whole ++ message :: later)
        (Framing.lengthPrefixed.transcript whole ++ part) whole
        (.error (.truncated Stream.headerSize part.length))
  -- Behind that length, inside the body or in front of it.
  | body (whole : List α) {message : α} (later : List α) {part back : Octets}
      (hcut : Octets.ofText (Wire.encode message) = part ++ back) (hback : back ≠ []) :
      Heard .lengthPrefixed (whole ++ message :: later)
        (Framing.lengthPrefixed.transcript whole ++
          (Octets.ofWord (Octets.ofText (Wire.encode message)).length.toUInt64 ++ part)) whole
        (.error (.truncated (Octets.ofText (Wire.encode message)).length part.length))
  -- In front of the line feed that ends a line.
  | unended (whole : List α) (message : α) (later : List α) :
      Heard .jsonLines (whole ++ message :: later)
        (Framing.jsonLines.transcript whole ++ .ofText (Wire.encode message))
        (whole ++ [message]) (.ok ())
  -- Inside a line.
  | line (whole : List α) {message : α} (later : List α) {part back : Octets}
      (hcut : Octets.ofText (Wire.encode message) = part ++ back)
      (hpart : part ≠ []) (hback : back ≠ []) {e : Json.DecodeError}
      (hended : e.category = .ended) :
      Heard .jsonLines (whole ++ message :: later)
        (Framing.jsonLines.transcript whole ++ part) whole (.error (.decode e))

theorem Framing.transcript_cons (framing : Framing) (first : α) (messages : List α) :
    framing.transcript (first :: messages) =
      framing.frame (.ofText (Wire.encode first)) ++ framing.transcript messages :=
  List.flatMap_cons

/-- One more whole message in front. -/
theorem Framing.Heard.cons {framing : Framing} {messages heard : List α} {front : Octets}
    {ending : Except TransportError Unit} (h : framing.Heard messages front heard ending)
    (first : α) :
    framing.Heard (first :: messages) (framing.frame (.ofText (Wire.encode first)) ++ front)
      (first :: heard) ending := by
  cases h with
  | boundary _ later =>
    rw [← transcript_cons]
    exact .boundary (first :: heard) later
  | header _ later hcut hpart hback =>
    rw [← List.append_assoc, ← transcript_cons]
    exact .header (first :: heard) later hcut hpart hback
  | body _ later hcut hback =>
    rw [← List.append_assoc, ← transcript_cons]
    exact .body (first :: heard) later hcut hback
  | unended whole message later =>
    rw [← List.append_assoc, ← transcript_cons]
    exact .unended (first :: whole) message later
  | line _ later hcut hpart hback hended =>
    rw [← List.append_assoc, ← transcript_cons]
    exact .line (first :: heard) later hcut hpart hback hended

/-- No message is heard that was not written, and none is passed over. -/
theorem Framing.Heard.isPrefix {framing : Framing} {messages heard : List α} {front : Octets}
    {ending : Except TransportError Unit} (h : framing.Heard messages front heard ending) :
    heard <+: messages := by
  cases h with
  | boundary _ later => exact List.prefix_append heard later
  | header => exact List.prefix_append heard _
  | body => exact List.prefix_append heard _
  | unended whole message later =>
    exact ⟨later, by rw [List.append_assoc, List.singleton_append]⟩
  | line => exact List.prefix_append heard _

theorem Framing.transcript_append (framing : Framing) (whole later : List α) :
    framing.transcript (whole ++ later) = framing.transcript whole ++ framing.transcript later :=
  List.flatMap_append

/-- A frame is longer than its body. -/
theorem Framing.frame_length (framing : Framing) (body : Octets) :
    body.length < (framing.frame body).length := by
  cases framing with
  | lengthPrefixed => simp [Stream.frame_lengthPrefixed, Octets.ofWord_length]
  | jsonLines => simp [Stream.frame_jsonLines]

/-- Where all octets arrive, all messages are heard. -/
theorem Framing.Heard.complete {framing : Framing} {messages heard : List α}
    {ending : Except TransportError Unit}
    (h : framing.Heard messages (framing.transcript messages) heard ending) :
    heard = messages ∧ ending = .ok () := by
  generalize hfront : framing.transcript messages = front at h
  cases h with
  | boundary _ later =>
    rw [transcript_append] at hfront
    cases later with
    | nil => simp
    | cons message later =>
      have hframe := framing.frame_length (.ofText (Wire.encode message))
      have hlength := congrArg List.length hfront
      simp only [transcript_cons, List.length_append] at hlength
      omega
  | header _ later hcut hpart hback =>
    have hlength := congrArg List.length hfront
    have hheader := congrArg List.length hcut
    have hmissing := List.length_pos_iff.mpr hback
    simp only [transcript_append, transcript_cons, Stream.frame_lengthPrefixed,
      List.length_append] at hlength hheader
    omega
  | body _ later hcut hback =>
    have hlength := congrArg List.length hfront
    have hbody := congrArg List.length hcut
    have hmissing := List.length_pos_iff.mpr hback
    simp only [transcript_append, transcript_cons, Stream.frame_lengthPrefixed,
      List.length_append] at hlength hbody
    omega
  | unended whole message later =>
    have hframe := Framing.jsonLines.frame_length (.ofText (Wire.encode message))
    have hlength := congrArg List.length hfront
    simp only [transcript_append, transcript_cons, List.length_append] at hlength
    omega
  | line _ later hcut =>
    have hlength := congrArg List.length hfront
    have hbody := congrArg List.length hcut
    simp only [transcript_append, transcript_cons, Stream.frame_jsonLines,
      List.length_append, List.length_singleton] at hlength hbody
    omega

namespace Stream

variable {framing : Framing} {limit : UInt64} {s : Stream} {message : α}

theorem receive_end (hintact : s.Intact) (hoctets : s.octets = []) :
    Gives (s.receive α framing limit.toNat) (.ok none) [] := by
  have hframe : Gives (s.takeFrame framing limit.toNat) (.ok none) [] := by
    cases framing with
    | lengthPrefixed => exact takeLengthPrefixed_end hintact hoctets limit.toNat
    | jsonLines => exact takeTextLine_end hintact hoctets s.size limit.toNat
  obtain ⟨rest, hframe, hrest, hleft⟩ := hframe
  refine ⟨rest, ?_, hrest, hleft⟩
  unfold receive
  rw [hframe]

theorem receiveAll_end (α : Type) [Wire α] (framing : Framing) (limit : UInt64)
    (hintact : s.Intact) (hoctets : s.octets = []) :
    ∃ rest, s.receiveAll α framing limit.toNat = ⟨[], .ok (), rest⟩ := by
  have hend : Gives (s.receive α framing limit.toNat) (.ok none) [] :=
    receive_end hintact hoctets
  obtain ⟨rest, hend, -⟩ := hend
  exact ⟨rest, receiveAll_of_none hend⟩

theorem receive_whole (hdistinct : (Wire.schema α).distinct = true) (hintact : s.Intact)
    (hfits : framing.counted (.ofText (Wire.encode message)) ≤ limit.toNat)
    (hheld : framing.Held (.ofText (Wire.encode message))) {behind : Octets}
    (hoctets : s.octets = framing.frame (.ofText (Wire.encode message)) ++ behind) :
    Gives (s.receive α framing limit.toNat) (.ok (some message)) behind := by
  cases framing with
  | lengthPrefixed =>
    obtain ⟨rest, hframe, hrest, hleft⟩ := takeLengthPrefixed_whole hintact hfits hheld hoctets
    have hdecode := Wire.decode_encode hdistinct message Json.blank_nil
    rw [List.append_nil] at hdecode
    exact ⟨rest, receive_of_ok .lengthPrefixed hframe hdecode, hrest, hleft⟩
  | jsonLines =>
    obtain ⟨hline, hsome⟩ :=
      Wire.encode_start (List.append_nil _).symm (Wire.encode_ne_nil message)
    obtain ⟨rest, hframe, hrest, hleft⟩ :=
      takeTextLine_whole hintact hfits hline hsome hoctets s.size
    have hblank : Json.Blank [Ascii.newline] := by
      intro octet hmem
      rw [List.mem_singleton.mp hmem]
      rfl
    have hdecode := Wire.decode_encode hdistinct message hblank
    exact ⟨rest, receive_of_ok .jsonLines hframe hdecode, hrest, hleft⟩

/-- A line that lacks only its line feed is read as the message without it. -/
theorem receiveAll_unended (hdistinct : (Wire.schema α).distinct = true) (hintact : s.Intact)
    (hfits : (Octets.ofText (Wire.encode message)).length ≤ limit.toNat)
    (hoctets : s.octets = .ofText (Wire.encode message)) :
    ∃ rest, s.receiveAll α .jsonLines limit.toNat = ⟨[message], .ok (), rest⟩ := by
  obtain ⟨hline, hsome⟩ :=
    Wire.encode_start (List.append_nil _).symm (Wire.encode_ne_nil message)
  obtain ⟨rest, hframe, hrest, hleft⟩ :=
    takeTextLine_unended hintact hfits hline hsome hoctets s.size
  have hdecode := Wire.decode_encode hdistinct message Json.blank_nil
  rw [List.append_nil] at hdecode
  obtain ⟨last, hend⟩ := receiveAll_end α .jsonLines limit hrest hleft
  refine ⟨last, ?_⟩
  rw [receiveAll_of_some (receive_of_ok .jsonLines hframe hdecode), hend]

/-- A part of a frame that is all that arrives. -/
theorem receiveAll_part (hdistinct : (Wire.schema α).distinct = true)
    (hclosed : (Wire.schema α).closed = true) (hintact : s.Intact)
    (hfits : framing.counted (.ofText (Wire.encode message)) ≤ limit.toNat)
    (hheld : framing.Held (.ofText (Wire.encode message))) (later : List α) {back : Octets}
    (hcut : framing.frame (.ofText (Wire.encode message)) = s.octets ++ back)
    (hpart : s.octets ≠ []) (hback : back ≠ []) :
    framing.Heard (message :: later) s.octets
      (s.receiveAll α framing limit.toNat).messages
      (s.receiveAll α framing limit.toNat).ending := by
  cases framing with
  | lengthPrefixed =>
    rw [frame_lengthPrefixed] at hcut
    rcases Wire.cut_append hcut with ⟨inner, hoctets, hbody⟩ | ⟨inner, hinner, hheader⟩
    · -- The header is whole, and the body is cut.
      have hshort : inner.length < (Octets.ofText (Wire.encode message)).length := by
        rw [hbody, List.length_append]
        exact Nat.lt_add_of_pos_right (List.length_pos_iff.mpr hback)
      have hframe := takeLengthPrefixed_body hintact hfits hheld hoctets
      rw [if_pos hshort] at hframe
      obtain ⟨rest, hframe, -⟩ := hframe
      rw [receiveAll_of_error (receive_of_error .lengthPrefixed hframe), hoctets]
      exact .body [] later hbody hback
    · have hshort : s.octets.length < headerSize := by
        have hlength := congrArg List.length hheader
        have hpos := List.length_pos_iff.mpr hinner
        rw [Octets.ofWord_length, List.length_append] at hlength
        unfold headerSize
        omega
      obtain ⟨rest, hframe, -⟩ := takeLengthPrefixed_header hintact hpart hshort limit.toNat
      rw [receiveAll_of_error (receive_of_error .lengthPrefixed hframe)]
      exact .header [] later hheader hpart hinner
  | jsonLines =>
    have hlength : (Octets.ofText (Wire.encode message)).length ≤ limit.toNat :=
      Nat.le_of_succ_le hfits
    rw [frame_jsonLines] at hcut
    rcases Wire.cut_append hcut with ⟨inner, hoctets, hinner⟩ | ⟨inner, hinner, hbody⟩
    · -- Only the line feed is missing.
      have hnone : inner = [] := by
        cases inner with
        | nil => rfl
        | cons octet inner =>
          have hlast := congrArg List.length hinner
          have hpos := List.length_pos_iff.mpr hback
          simp only [List.length_append, List.length_cons, List.length_nil] at hlast
          omega
      rw [hnone, List.append_nil] at hoctets
      obtain ⟨rest, hread⟩ := receiveAll_unended hdistinct hintact hlength hoctets
      rw [hread, hoctets]
      exact .unended [] message later
    · obtain ⟨hline, hsome⟩ := Wire.encode_start hbody hpart
      have hshort : s.octets.length ≤ limit.toNat := by
        rw [hbody, List.length_append] at hlength
        omega
      obtain ⟨rest, hframe, -⟩ := takeTextLine_unended hintact hshort hline hsome rfl s.size
      obtain ⟨e, hdecode, hended⟩ := Wire.decode_cut hdistinct hclosed hbody hinner
      rw [receiveAll_of_error (receive_of_undecodable .jsonLines hframe hdecode)]
      exact .line [] later hbody hpart hinner hended

/-- Reading any start of a transcript, by induction on the messages: the first frame is there as a
whole and the rest is read behind it, or the stream ends inside it. -/
theorem receiveAll_prefix (hdistinct : (Wire.schema α).distinct = true)
    (hclosed : (Wire.schema α).closed = true) {messages : List α}
    (hfits : ∀ message ∈ messages,
      framing.counted (.ofText (Wire.encode message)) ≤ limit.toNat)
    (hheld : ∀ message ∈ messages, framing.Held (.ofText (Wire.encode message)))
    (hintact : s.Intact) {back : Octets} (hcut : framing.transcript messages = s.octets ++ back) :
    framing.Heard messages s.octets (s.receiveAll α framing limit.toNat).messages
      (s.receiveAll α framing limit.toNat).ending := by
  induction messages generalizing s with
  | nil =>
    have hoctets : s.octets = [] := (List.append_eq_nil_iff.mp hcut.symm).1
    obtain ⟨rest, hend⟩ := receiveAll_end α framing limit hintact hoctets
    rw [hend, hoctets]
    exact .boundary [] []
  | cons message messages ih =>
    rw [Framing.transcript_cons] at hcut
    rcases Wire.cut_append hcut with ⟨inner, hoctets, hinner⟩ | ⟨inner, hinner, hframe⟩
    · obtain ⟨rest, hreceive, hrest, hleft⟩ :=
        receive_whole hdistinct hintact (hfits message List.mem_cons_self)
          (hheld message List.mem_cons_self) hoctets
      subst hleft
      have hlater := ih (fun other hmem => hfits other (List.mem_cons_of_mem message hmem))
        (fun other hmem => hheld other (List.mem_cons_of_mem message hmem)) hrest hinner
      rw [receiveAll_of_some hreceive, hoctets]
      exact hlater.cons message
    · by_cases hpart : s.octets = []
      · obtain ⟨rest, hend⟩ := receiveAll_end α framing limit hintact hpart
        rw [hend, hpart]
        exact .boundary [] (message :: messages)
      · exact receiveAll_part hdistinct hclosed hintact (hfits message List.mem_cons_self)
          (hheld message List.mem_cons_self) messages hframe hpart hinner

end Stream

end Messages

/-- Messages of either side that are written with either framing and cut anywhere. However the
octets up to the cut are delivered, the messages whose frames are whole are read in order, and the
cut itself is told from the end of the stream; without a cut, all messages are read back. Each body
was in a buffer when it was written, so it is no longer than what a reader has a buffer for. -/
theorem Sender.receiveAll_written (sender : Sender) (framing : Framing) (limit : UInt64)
    (messages : List sender.Message)
    (hfits : ∀ message ∈ messages,
      framing.counted (.ofText (Wire.encode message)) ≤ limit.toNat)
    (hheld : ∀ message ∈ messages, framing.Held (.ofText (Wire.encode message)))
    {s : Stream} (hintact : s.Intact)
    (hfront : s.octets <+: (({} : Sink).sendAll framing messages).2.written) :
    let heard := s.receiveAll sender.Message framing limit.toNat
    framing.Heard messages s.octets heard.messages heard.ending ∧
      heard.messages <+: messages ∧
      (s.octets = (({} : Sink).sendAll framing messages).2.written →
        heard.messages = messages ∧ heard.ending = .ok ()) := by
  intro heard
  have hwritten : (({} : Sink).sendAll framing messages).2.written =
      framing.transcript messages := by
    rw [Sink.sendAll_unlimited, List.nil_append]
  rw [hwritten] at hfront ⊢
  obtain ⟨back, hcut⟩ := hfront
  have hheard : framing.Heard messages s.octets heard.messages heard.ending :=
    Stream.receiveAll_prefix sender.schema_distinct sender.schema_closed hfits hheld hintact
      hcut.symm
  refine ⟨hheard, hheard.isPrefix, fun hwhole => ?_⟩
  rw [hwhole] at hheard
  exact hheard.complete

/-- Two greetings, delivered in three reads of which one is interrupted. -/
theorem Sender.receiveAll_two_greetings :
    let greetings : List Request := [.getCapability none, .getCapability (some ⟨7⟩)]
    let written := (({} : Sink).sendAll .lengthPrefixed greetings).2.written
    let heard := Stream.receiveAll Request .lengthPrefixed 100
      [.data (written.take 5), .interrupted, .data (written.drop 5)]
    heard.messages = greetings ∧ heard.ending = .ok () := by
  intro greetings written heard
  have hoctets : Stream.octets
      [.data (written.take 5), .interrupted, .data (written.drop 5)] = written := by
    simp [Stream.octets, Delivery.octets]
  have hintact : Stream.Intact
      [.data (written.take 5), .interrupted, .data (written.drop 5)] := by
    intro message hmem
    simp at hmem
  have hread := Sender.receiveAll_written .host .lengthPrefixed 100 greetings (by decide)
    (by decide) (s := [.data (written.take 5), .interrupted, .data (written.drop 5)])
    hintact (hoctets ▸ List.prefix_refl written)
  exact hread.2.2 hoctets

end MacroPlugin
