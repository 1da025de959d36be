import MacroPlugin.Proofs.Transport.Serving
import MacroPlugin.Proofs.Transport.Truncation
import MacroPlugin.Proofs.Wire.Placement

/-!
The two framings carry the same sessions. A body that fits on a line is taken off a stream as it is
behind a length, and with a line feed or as the rest of the stream otherwise; the line feed is a
blank, which neither helps nor hurts the decoding. So the two sessions hear the same requests, stop
at the same body if there is one to stop at, and answer alike.
-/

namespace MacroPlugin

/-- A body that a line can carry. -/
structure Octets.FitsLine (limit : Nat) (body : Octets) : Prop where
  unbroken : Ascii.newline ∉ body
  visible : body.all Ascii.isBlank = false
  short : body.length + 1 ≤ limit

/-- Octets that carry these bodies, each in a frame of its own. A line at the very end may lack its
line feed. -/
def Framing.Carries (framing : Framing) (bodies : List Octets) (octets : Octets) : Prop :=
  octets = bodies.flatMap framing.frame ∨
    framing = .jsonLines ∧ octets ++ [Ascii.newline] = bodies.flatMap framing.frame

/-- Without the line feed at the end, the first line is whole, or it is the last one and is all
that there is. -/
theorem Framing.unended_cons {body octets : Octets} {bodies : List Octets}
    (hoctets : octets ++ [Ascii.newline] = (body :: bodies).flatMap Framing.jsonLines.frame) :
    (∃ left, octets = Framing.jsonLines.frame body ++ left ∧
        left ++ [Ascii.newline] = bodies.flatMap Framing.jsonLines.frame) ∨
      octets = body ∧ bodies = [] := by
  rw [List.flatMap_cons] at hoctets
  rcases List.append_eq_append_iff.mp hoctets with ⟨inner, hframe, hend⟩ | ⟨left, hfront, hleft⟩
  · cases bodies with
    | nil =>
      rw [List.flatMap_nil, List.append_nil, Stream.frame_jsonLines] at hoctets
      exact .inr ⟨List.append_cancel_right hoctets, rfl⟩
    | cons next bodies =>
      -- The frames behind the first one have an octet, so they end with the line feed.
      have hlength := congrArg List.length hend
      have hnext := Framing.jsonLines.frame_length next
      simp only [List.flatMap_cons, List.length_append, List.length_singleton] at hlength
      have hinner : inner = [] := List.length_eq_zero_iff.mp (by omega)
      subst hinner
      refine .inl ⟨[], ?_, ?_⟩
      · simpa using hframe.symm
      · simpa using hend
  · exact .inl ⟨left, hfront, hleft.symm⟩

namespace Stream

theorem blank_newline : Json.Blank [Ascii.newline] := by
  intro octet hmem
  rw [List.mem_singleton.mp hmem]
  rfl

/-- The first of the bodies is taken off, with nothing but blanks behind it, and the others are
still carried. -/
theorem takeFrame_carried {framing : Framing} {limit : UInt64} {s : Stream} {body : Octets}
    {bodies : List Octets} (hintact : s.Intact) (hbody : body.FitsLine limit.toNat)
    (hheld : framing.Held body) (hcarries : framing.Carries (body :: bodies) s.octets) :
    ∃ behind left, Json.Blank behind ∧ framing.Carries bodies left ∧
      Gives (s.takeFrame framing limit.toNat) (.ok (some (body ++ behind))) left := by
  have hlength : body.length ≤ limit.toNat := Nat.le_of_succ_le hbody.short
  rcases hcarries with hwhole | ⟨rfl, hunended⟩
  · rw [List.flatMap_cons] at hwhole
    cases framing with
    | lengthPrefixed =>
      have htaken := takeLengthPrefixed_whole hintact hlength hheld hwhole
      refine ⟨[], bodies.flatMap Framing.lengthPrefixed.frame, Json.blank_nil, .inl rfl, ?_⟩
      rw [List.append_nil]
      exact htaken
    | jsonLines =>
      have htaken := takeTextLine_whole hintact hbody.short hbody.unbroken hbody.visible hwhole
        s.size
      exact ⟨[Ascii.newline], bodies.flatMap Framing.jsonLines.frame, blank_newline, .inl rfl,
        htaken⟩
  · rcases Framing.unended_cons hunended with ⟨left, hoctets, hleft⟩ | ⟨hoctets, rfl⟩
    · have htaken := takeTextLine_whole hintact hbody.short hbody.unbroken hbody.visible hoctets
        s.size
      exact ⟨[Ascii.newline], left, blank_newline, .inr ⟨rfl, hleft⟩, htaken⟩
    · have htaken := takeTextLine_unended hintact hlength hbody.unbroken hbody.visible hoctets
        s.size
      refine ⟨[], [], Json.blank_nil, .inl rfl, ?_⟩
      rw [List.append_nil]
      exact htaken

end Stream

section Bodies

variable {α : Type} [Wire α]

/-- What is understood of bodies: their messages, up to the first body that is none. -/
inductive Understood : List Octets → List α → Except TransportError Unit → Prop
  | all : Understood [] [] (.ok ())
  | next {body : Octets} {bodies : List Octets} {message : α} {messages : List α}
      {ending : Except TransportError Unit} (hdecode : Wire.decode α body = .ok message)
      (hlater : Understood bodies messages ending) :
      Understood (body :: bodies) (message :: messages) ending
  | stuck {body : Octets} (bodies : List Octets) {e : Json.DecodeError}
      (hdecode : Wire.decode α body = .error e) (e' : Json.DecodeError) :
      Understood (body :: bodies) [] (.error (.decode e'))

/-- The messages of two readings of the same bodies are the same. -/
theorem Understood.messages_eq {bodies : List Octets} {messages messages' : List α}
    {ending ending' : Except TransportError Unit} (h : Understood bodies messages ending)
    (h' : Understood bodies messages' ending') : messages = messages' := by
  induction h generalizing messages' with
  | all =>
    cases h'
    rfl
  | next hdecode _ ih =>
    cases h' with
    | next hdecode' hlater' =>
      rw [hdecode, Except.ok.injEq] at hdecode'
      rw [hdecode', ih hlater']
    | stuck _ hdecode' => simp [hdecode] at hdecode'
  | stuck _ hdecode =>
    cases h' with
    | next hdecode' => simp [hdecode] at hdecode'
    | stuck => rfl

theorem Understood.decodes {bodies : List Octets} {messages : List α}
    {ending : Except TransportError Unit} (h : Understood bodies messages ending) :
    (bodies.take messages.length).map (Wire.decode α) = messages.map .ok := by
  induction h with
  | all => rfl
  | next hdecode _ ih =>
    rw [List.length_cons, List.take_succ_cons, List.map_cons, List.map_cons, hdecode, ih]
  | stuck => rfl

/-- A reading ends behind the last body or at one that cannot be decoded. -/
theorem Understood.ending_eq {bodies : List Octets} {messages : List α}
    {ending : Except TransportError Unit} (h : Understood bodies messages ending) :
    messages.length = bodies.length ∧ ending = .ok () ∨
      (∃ body e, bodies[messages.length]? = some body ∧ Wire.decode α body = .error e) ∧
        ∃ e, ending = .error (.decode e) := by
  induction h with
  | all => exact .inl ⟨rfl, rfl⟩
  | next _ _ ih =>
    rcases ih with ⟨hlength, hending⟩ | ⟨⟨body, e, hbody, hdecode⟩, hending⟩
    · exact .inl ⟨congrArg Nat.succ hlength, hending⟩
    · exact .inr ⟨⟨body, e, hbody, hdecode⟩, hending⟩
  | stuck _ hdecode e' => exact .inr ⟨⟨_, _, rfl, hdecode⟩, e', rfl⟩

/-- Where all bodies can be decoded, all of them are understood. -/
theorem Understood.complete {bodies : List Octets} {messages wanted : List α}
    {ending : Except TransportError Unit} (h : Understood bodies messages ending)
    (hbodies : bodies.map (Wire.decode α) = wanted.map .ok) :
    messages = wanted ∧ ending = .ok () := by
  induction h generalizing wanted with
  | all =>
    cases wanted with
    | nil => exact ⟨rfl, rfl⟩
    | cons => simp at hbodies
  | next hdecode _ ih =>
    cases wanted with
    | nil => simp at hbodies
    | cons message wanted =>
      rw [List.map_cons, List.map_cons, List.cons.injEq, hdecode, Except.ok.injEq] at hbodies
      obtain ⟨rfl, hlater⟩ := hbodies
      obtain ⟨rfl, hending⟩ := ih hlater
      exact ⟨rfl, hending⟩
  | stuck _ hdecode =>
    cases wanted with
    | nil => simp at hbodies
    | cons message wanted => simp [hdecode] at hbodies

/-- A stream that carries bodies says what is understood of them. -/
theorem Stream.receiveAll_carried {framing : Framing} {limit : UInt64} {bodies : List Octets}
    (hbodies : ∀ body ∈ bodies, body.FitsLine limit.toNat)
    (hheld : ∀ body ∈ bodies, framing.Held body) {s : Stream} (hintact : s.Intact)
    (hcarries : framing.Carries bodies s.octets) :
    Understood bodies (s.receiveAll α framing limit.toNat).messages
      (s.receiveAll α framing limit.toNat).ending := by
  induction bodies generalizing s with
  | nil =>
    have hoctets : s.octets = [] := by
      rcases hcarries with hnone | ⟨-, hnone⟩
      · exact hnone
      · exact absurd hnone (by simp)
    obtain ⟨rest, hend⟩ := receiveAll_end α framing limit hintact hoctets
    rw [hend]
    exact .all
  | cons body bodies ih =>
    obtain ⟨behind, left, hbehind, hleft, rest, hframe, hrest, rfl⟩ :=
      takeFrame_carried hintact (hbodies body List.mem_cons_self) (hheld body List.mem_cons_self)
        hcarries
    have hsame : ∀ message : α, Wire.decode α (body ++ behind) = .ok message ↔
        Wire.decode α body = .ok message := fun _ => Wire.decode_behind hbehind
    cases hdecode : Wire.decode α (body ++ behind) with
    | ok message =>
      rw [receiveAll_of_some (receive_of_ok framing hframe hdecode)]
      refine .next ((hsame message).mp hdecode) ?_
      exact ih (fun other hmem => hbodies other (List.mem_cons_of_mem body hmem))
        (fun other hmem => hheld other (List.mem_cons_of_mem body hmem)) hrest hleft
    | error e =>
      rw [receiveAll_of_error (receive_of_undecodable framing hframe hdecode)]
      cases hbody : Wire.decode α body with
      | ok message =>
        rw [(hsame message).mpr hbody] at hdecode
        exact absurd hdecode (by simp)
      | error e' => exact .stuck bodies hbody e

end Bodies

namespace Connection

/-- Bodies behind their lengths, and the same bodies on lines of which the last one may lack its
line feed: two sessions that hear them answer the same requests with the same replies, and leave
their dispatchers in the same state. Either both come to the end with the same tally, or both stop
at the same body, which is no request. The bodies are no longer than anything in memory is, so that
the one session gets a buffer for each of them. -/
theorem framings_serve_alike {limit : UInt64} {bodies : List Octets}
    (hbodies : ∀ body ∈ bodies, body.FitsLine limit.toNat)
    (hheld : ∀ body ∈ bodies, body.length ≤ Stream.bufferCapacity) {prefixed lines : Stream}
    (hintact : prefixed.Intact ∧ lines.Intact)
    (hprefixed : prefixed.octets = bodies.flatMap Framing.lengthPrefixed.frame)
    (hlines : lines.octets = bodies.flatMap Framing.jsonLines.frame ∨
      lines.octets ++ [Ascii.newline] = bodies.flatMap Framing.jsonLines.frame)
    (dispatcher : Dispatcher) :
    let served := serve ⟨.lengthPrefixed, limit.toNat, prefixed, {}, dispatcher⟩
    let served' := serve ⟨.jsonLines, limit.toNat, lines, {}, dispatcher⟩
    ∃ requests : List Request,
      let answered := dispatcher.answerAll requests
      (bodies.take requests.length).map (Wire.decode Request) = requests.map .ok ∧
      served.2.output.written = Framing.lengthPrefixed.transcript answered.1 ∧
      served'.2.output.written = Framing.jsonLines.transcript answered.1 ∧
      served.2.dispatcher = answered.2 ∧ served'.2.dispatcher = answered.2 ∧
      ((requests.length = bodies.length ∧
          ∃ tally, served.1 = .ok tally ∧ served'.1 = .ok tally) ∨
        (∃ body e, bodies[requests.length]? = some body ∧
            Wire.decode Request body = .error e) ∧
          ∃ e e', served.1 = .error (.decode e) ∧ served'.1 = .error (.decode e')) := by
  intro served served'
  have hprefixedHeld : ∀ body ∈ bodies, Framing.lengthPrefixed.Held body := hheld
  have hlinesHeld : ∀ body ∈ bodies, Framing.jsonLines.Held body := fun _ _ => trivial
  have hheard : Understood bodies (prefixed.receiveAll Request .lengthPrefixed limit.toNat).messages
      (prefixed.receiveAll Request .lengthPrefixed limit.toNat).ending :=
    Stream.receiveAll_carried hbodies hprefixedHeld hintact.1 (.inl hprefixed)
  have hheard' : Understood bodies (lines.receiveAll Request .jsonLines limit.toNat).messages
      (lines.receiveAll Request .jsonLines limit.toNat).ending :=
    Stream.receiveAll_carried hbodies hlinesHeld hintact.2
      (hlines.imp_right fun hunended => ⟨rfl, hunended⟩)
  have hsame := hheard.messages_eq hheard'
  have hserved := serve_unlimited .lengthPrefixed limit.toNat prefixed dispatcher
  have hserved' := serve_unlimited .jsonLines limit.toNat lines dispatcher
  refine ⟨(prefixed.receiveAll Request .lengthPrefixed limit.toNat).messages, hheard.decodes, ?_⟩
  dsimp only [served, served']
  rw [hserved, hserved', ← hsame]
  refine ⟨rfl, rfl, rfl, rfl, ?_⟩
  rcases hheard.ending_eq with ⟨hlength, hending⟩ | ⟨hbody, e, hending⟩
  · rcases hheard'.ending_eq with ⟨-, hending'⟩ | ⟨⟨body, e, hbody, -⟩, -⟩
    · exact .inl ⟨hlength, _, by rw [hending, Except.map], by rw [hending', Except.map]⟩
    · rw [← hsame, hlength, List.getElem?_eq_none (Nat.le_refl _)] at hbody
      simp at hbody
  · rcases hheard'.ending_eq with ⟨hlength', -⟩ | ⟨-, e', hending'⟩
    · obtain ⟨body, e, hbody, -⟩ := hbody
      rw [hsame, hlength', List.getElem?_eq_none (Nat.le_refl _)] at hbody
      simp at hbody
    · exact .inr ⟨hbody, e, e', by rw [hending, Except.map], by rw [hending', Except.map]⟩

/-- A greeting and a stray brace, on lines the last of which is not ended. -/
theorem framings_greeting_and_stray_brace :
    let greeting := Octets.ofText (Wire.encode (Request.getCapability none))
    let bodies := [greeting, [Ascii.openBrace]]
    let limit : UInt64 := 100
    let prefixed : Stream := [.data (bodies.flatMap Framing.lengthPrefixed.frame)]
    let lines : Stream :=
      [.data greeting, .interrupted, .data [Ascii.newline], .data [Ascii.openBrace]]
    let dispatcher := Dispatcher.fresh .empty .current false
    ∃ requests : List Request,
      let replies := (dispatcher.answerAll requests).1
      (serve ⟨.lengthPrefixed, limit.toNat, prefixed, {}, dispatcher⟩).2.output.written =
          Framing.lengthPrefixed.transcript replies ∧
        (serve ⟨.jsonLines, limit.toNat, lines, {}, dispatcher⟩).2.output.written =
          Framing.jsonLines.transcript replies := by
  intro greeting bodies limit prefixed lines dispatcher
  obtain ⟨hunbroken, hvisible⟩ := Wire.encode_start (List.append_nil greeting).symm
    (Wire.encode_ne_nil (Request.getCapability none))
  have hbodies : ∀ body ∈ bodies, body.FitsLine limit.toNat := by
    intro body hmem
    rcases List.mem_cons.mp hmem with rfl | hmem
    · exact ⟨hunbroken, hvisible, by decide⟩
    · rw [List.mem_singleton.mp hmem]
      exact ⟨by decide, by decide, by decide⟩
  have hheld : ∀ body ∈ bodies, body.length ≤ Stream.bufferCapacity := by decide
  have hintact : prefixed.Intact ∧ lines.Intact := by
    constructor <;> intro message hmem <;> simp [prefixed, lines] at hmem
  have hprefixed : prefixed.octets = bodies.flatMap Framing.lengthPrefixed.frame := by
    simp [prefixed, Stream.octets, Delivery.octets]
  have hlines : lines.octets ++ [Ascii.newline] = bodies.flatMap Framing.jsonLines.frame := by
    simp [lines, bodies, Stream.octets, Delivery.octets]
  obtain ⟨requests, -, hserved, hserved', -⟩ :=
    framings_serve_alike hbodies hheld hintact hprefixed (.inr hlines) dispatcher
  exact ⟨requests, hserved, hserved'⟩

end Connection

end MacroPlugin
