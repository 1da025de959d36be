import MacroPlugin.CommandLine.Task
import MacroPlugin.Proofs.Settings.Limit
import MacroPlugin.Proofs.Transport.Framings

/-!
A single request from a file and the same request at the end of a session. Both are decoded, both
are answered by the dispatcher of the same settings, and negotiating beforehand is nothing else
than answering a greeting; so what is printed for the file is the last line of the session.
-/

namespace MacroPlugin

namespace Wire

open Json

/-- A name begins with a quote or a brace, and so does not lie on a blank line. -/
theorem readNamed_visible {α : Type} {names : List String}
    {alone : Fin names.length → Except Fault α} {content : Fin names.length → Reader α}
    {input rest : Octets} {value : α}
    (h : readNamed names alone content input = .ok (value, rest)) :
    input.all Ascii.isBlank = false := by
  by_contra hblank
  have hblank : ∀ octet ∈ input, Ascii.isBlank octet = true := by
    simpa using hblank
  rw [readNamed_eq] at h
  obtain ⟨octet, behind, hskip, h⟩ := leading_eq_ok.mp h
  have hmem : octet ∈ input := by
    have hsuffix : skipBlank input <:+ input := List.dropWhile_suffix isBlank
    exact hsuffix.subset (hskip ▸ List.mem_cons_self)
  have hoctet := hblank octet hmem
  have hquote : octet ≠ Ascii.quote := by
    rintro rfl
    exact absurd hoctet (by decide)
  have hbrace : octet ≠ Ascii.openBrace := by
    rintro rfl
    exact absurd hoctet (by decide)
  rw [if_neg hquote, if_neg hbrace] at h
  simp at h

theorem Schema.readAll_visible {cases : Cases} {value : cases.Val} {input : Octets}
    (h : (Schema.union cases).readAll input = .ok value) : input.all Ascii.isBlank = false := by
  obtain ⟨rest, hread, -⟩ := (Schema.readAll_eq_ok (Nat.lt_succ_self _)).mp h
  exact readNamed_visible hread

theorem decode_request_visible {body : Octets} {request : Request}
    (h : decode Request body = .ok request) : body.all Ascii.isBlank = false :=
  Schema.readAll_visible (decode_eq_ok.mp h)

end Wire

namespace CommandLine

/-- The limit for frames is a word of 64 bits, wherever the settings come from. -/
theorem Surroundings.settings_limit {s : Surroundings} {config : Option String}
    {settings : Settings} (h : s.settings config = .ok settings) : settings.LimitFits := by
  have hload : ∀ {path}, Surroundings.settings.load s path = Except.ok settings →
      settings.LimitFits := by
    intro path hload
    unfold Surroundings.settings.load at hload
    cases htext : (s.find path).text with
    | error reason => simp [htext, Except.mapError, bind, Except.bind] at hload
    | ok text =>
      cases hparse : Settings.parse text with
      | error e => simp [htext, hparse, Except.mapError, bind, Except.bind] at hload
      | ok parsed =>
        simp only [htext, hparse, Except.mapError, bind, Except.bind, Except.ok.injEq] at hload
        rw [← hload]
        exact (Settings.parse_limit hparse).2
  unfold Surroundings.settings at h
  split at h
  · exact hload h
  · split at h
    · exact hload h
    · rw [← Except.ok.inj h]
      exact Settings.limitFits_default

/-- What a host of the given version opens a session with. -/
def openings (version : Option UInt32) : List Request :=
  version.toList.map fun version => .getCapability (some ⟨version⟩)

/-- Negotiating before a request is answered is answering a greeting before it. -/
theorem answerAll_openings (settings : Settings) (version : Option UInt32) (request : Request) :
    ∃ earlier, (settings.dispatcher.answerAll (openings version ++ [request])).1 =
      earlier ++ [replyAlone settings version request] := by
  cases version with
  | none => exact ⟨[], rfl⟩
  | some version => exact ⟨[_], rfl⟩

section Tasks

variable {s : Surroundings} {settings : Settings} {i : Invocation}

theorem task_expand (hsettings : s.settings i.config = .ok settings) {path : String}
    {version : Option UInt32} (hcommand : i.command = .expand path version) {text : String}
    (htext : (s.find path).text = .ok text) {request : Request}
    (hrequest : Wire.decode Request (.ofText text) = .ok request) :
    i.task s =
      .ok (.print (i.format.render (Wire.toJson (replyAlone settings version request)))) := by
  unfold Invocation.task
  simp only [hsettings, hcommand, htext, hrequest, Except.mapError, bind, Except.bind]
  rfl

theorem task_serve (hsettings : s.settings i.config = .ok settings) {framing : Option Framing}
    (hcommand : i.command = .serve framing) :
    i.task s = .ok (.serve (framing.getD settings.framing) settings.maxFrameBytes
      (i.logLevel settings) settings.dispatcher) := by
  unfold Invocation.task
  simp only [hsettings, hcommand, bind, Except.bind]
  rfl

end Tasks

/-- A line of JSON is one line. -/
theorem render_line {α : Type} [Wire α] (message : α) :
    Octets.ofText (OutputFormat.json.render (Wire.toJson message)) =
      Framing.jsonLines.frame (.ofText (Wire.encode message)) := by
  unfold OutputFormat.render
  rw [Octets.ofText_append, Stream.frame_jsonLines]
  rfl

/-- Expanding a single request prints the last line of a session. The session is served on lines
under the same settings; it hears a greeting, if a version is given, and then the same request,
each in any way that it can be written on a line within the limit. -/
theorem expand_prints_last_served_line {s : Surroundings} {settings : Settings}
    {arguments arguments' : List String} {i j : Invocation}
    (hread : Invocation.read s.environment.config arguments = .ok i)
    (hread' : Invocation.read s.environment.config arguments' = .ok j)
    (hsettings : s.settings i.config = .ok settings)
    (hsettings' : s.settings j.config = .ok settings)
    {path text : String} {version : Option UInt32} {request : Request}
    (hexpand : i.command = .expand path version) (hjson : i.format = .json)
    (htext : (s.find path).text = .ok text)
    (hrequest : Wire.decode Request (.ofText text) = .ok request)
    {framing : Option Framing} (hserve : j.command = .serve framing)
    (hframing : framing.getD settings.framing = .jsonLines)
    {bodies : List Octets}
    (hbodies : bodies.map (Wire.decode Request) = (openings version ++ [request]).map .ok)
    (hshort : ∀ body ∈ bodies,
      Ascii.newline ∉ body ∧ body.length + 1 ≤ settings.maxFrameBytes)
    {input : Stream} (hintact : input.Intact)
    (hinput : Framing.jsonLines.Carries bodies input.octets) (unused : Stream) :
    let expanded := run s arguments unused
    let served := run s arguments' input
    expanded.status = 0 ∧ served.status = 0 ∧
      ∃ earlier line, Ascii.newline ∉ line ∧ expanded.output = line ++ [Ascii.newline] ∧
        served.output = earlier ++ expanded.output ∧
        (earlier = [] ∨ earlier.getLast? = some Ascii.newline) := by
  intro expanded served
  have hlimit : (UInt64.ofNat settings.maxFrameBytes).toNat = settings.maxFrameBytes := by
    have hfits : settings.maxFrameBytes ≤ 9223372036854775807 :=
      Surroundings.settings_limit hsettings
    rw [UInt64.toNat_ofNat']
    omega
  have hfits : ∀ body ∈ bodies, body.FitsLine (UInt64.ofNat settings.maxFrameBytes).toNat := by
    intro body hmem
    have hdecoded := List.mem_map_of_mem (f := Wire.decode Request) hmem
    rw [hbodies] at hdecoded
    obtain ⟨decoded, -, hdecode⟩ := List.mem_map.mp hdecoded
    obtain ⟨hunbroken, hlength⟩ := hshort body hmem
    exact ⟨hunbroken, Wire.decode_request_visible hdecode.symm, by rwa [hlimit]⟩
  -- The session hears the greeting, if there is one, and the request, and then ends.
  have hheld : ∀ body ∈ bodies, Framing.jsonLines.Held body := fun _ _ => trivial
  have hunderstood := Stream.receiveAll_carried (α := Request) hfits hheld hintact hinput
  obtain ⟨hheard, hending⟩ := hunderstood.complete hbodies
  have hsession := Connection.serve_unlimited .jsonLines
    (UInt64.ofNat settings.maxFrameBytes).toNat input settings.dispatcher
  dsimp only at hsession
  rw [hheard, hending, hlimit] at hsession
  obtain ⟨replies, hreplies⟩ := answerAll_openings settings version request
  have hserved : served.status = 0 ∧ served.output = Framing.jsonLines.transcript
      (settings.dispatcher.answerAll (openings version ++ [request])).1 := by
    dsimp only [served]
    unfold run
    simp only [hread', task_serve hsettings' hserve, hframing, Task.run, hsession, Except.map]
    exact ⟨trivial, trivial⟩
  have hexpanded : expanded.status = 0 ∧ expanded.output = Framing.jsonLines.frame
      (.ofText (Wire.encode (replyAlone settings version request))) := by
    dsimp only [expanded]
    unfold run
    simp only [hread, task_expand hsettings hexpand htext hrequest, hjson, Task.run]
    exact ⟨trivial, render_line _⟩
  refine ⟨hexpanded.1, hserved.1, Framing.jsonLines.transcript replies,
    .ofText (Wire.encode (replyAlone settings version request)), ?_, ?_, ?_, ?_⟩
  · exact (Wire.encode_start (List.append_nil _).symm (Wire.encode_ne_nil _)).1
  · rw [hexpanded.2, Stream.frame_jsonLines]
  · rw [hserved.2, hexpanded.2, hreplies, Framing.transcript_append]
    simp [Framing.transcript]
  · rcases List.eq_nil_or_concat replies with rfl | ⟨before, last, rfl⟩
    · exact .inl rfl
    · right
      rw [List.concat_eq_append, Framing.transcript_append]
      simp [Framing.transcript]

/-- A greeting in a file, expanded behind a greeting of version 7, and a session that hears both,
the second with a space behind it. -/
theorem expand_prints_last_served_greeting :
    let request := Request.getCapability none
    let s : Surroundings := ⟨{}, fun _ => .file (.ofText (Wire.encode request))⟩
    let bodies : List Octets :=
      [.ofText (Wire.encode (Request.getCapability (some ⟨7⟩))),
        .ofText (Wire.encode request) ++ [Ascii.space]]
    let input : Stream := [.data (bodies.flatMap Framing.jsonLines.frame)]
    let expanded := run s ["--format=json", "expand", "r.json", "--protocol-version", "7"] []
    let served := run s ["serve", "--framing", "json-lines"] input
    ∃ earlier, served.output = earlier ++ expanded.output := by
  intro request s bodies input expanded served
  have hencoded : ∀ (request : Request) {behind : Octets}, Json.Blank behind →
      Wire.decode Request (.ofText (Wire.encode request) ++ behind) = .ok request :=
    Wire.decode_encode (by decide)
  have hbodies : bodies.map (Wire.decode Request) = (openings (some 7) ++ [request]).map .ok := by
    have hgreeting := hencoded (.getCapability (some ⟨7⟩)) Json.blank_nil
    have hspace : Json.Blank [Ascii.space] := by simp [Json.Blank, Json.isBlank]
    have hrequest := hencoded request hspace
    rw [List.append_nil] at hgreeting
    simp [bodies, openings, hgreeting, hrequest]
  have hshort : ∀ body ∈ bodies, Ascii.newline ∉ body ∧ body.length + 1 ≤ 67108864 := by
    decide
  have hintact : input.Intact := by
    intro message hmem
    simp [input] at hmem
  have hinput : Framing.jsonLines.Carries bodies input.octets := by
    left
    simp [input, Stream.octets, Delivery.octets]
  have htext : (s.find "r.json").text = .ok (Wire.encode request) := by
    simp [s, Entry.text]
  have hrequest : Wire.decode Request (.ofText (Wire.encode request)) = .ok request := by
    simpa using hencoded request Json.blank_nil
  have hread :
      Invocation.read none ["--format=json", "expand", "r.json", "--protocol-version", "7"] =
        .ok ⟨.json, false, none, .expand "r.json" (some 7)⟩ := rfl
  have hread' : Invocation.read none ["serve", "--framing", "json-lines"] =
      .ok ⟨.text, false, none, .serve (some .jsonLines)⟩ := rfl
  have hsettings : s.settings none = .ok {} := rfl
  obtain ⟨-, -, earlier, -, -, -, hserved, -⟩ :=
    expand_prints_last_served_line (s := s) hread hread' hsettings hsettings rfl rfl htext hrequest
      rfl rfl hbodies hshort hintact hinput []
  exact ⟨earlier, hserved⟩

end CommandLine

end MacroPlugin
