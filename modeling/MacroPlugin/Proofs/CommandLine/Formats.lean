import MacroPlugin.Proofs.CommandLine.SingleRequest
import MacroPlugin.Proofs.Json.Pretty

/-!
The two formats in which a message is printed. Both are read back as the message, and the indented
one differs from the other in white space between tokens only. So a request that is expanded is
answered alike in both formats (`expand_formats_agree`): what goes wrong does so before the format
is looked at, and what is printed is one reply, written in two ways.
-/

namespace MacroPlugin

namespace Wire

open Json

/-- A message is read back however it is written, and whatever blanks are behind it. -/
theorem decode_written {α : Type} [Wire α] (hdistinct : (schema α).distinct = true) {a : α}
    {text behind : Octets} (hwritten : Written (toJson a) text) (hbehind : Blank behind) :
    decode α (text ++ behind) = .ok a := by
  have hread := Schema.readAll_written hdistinct hwritten blank_nil hbehind
  rw [List.nil_append] at hread
  unfold decode
  rw [hread]
  exact congrArg Except.ok (values.back_forth a)

end Wire

namespace CommandLine

/-- A rendered message ends in a line feed, which is a blank to a reader. -/
theorem decode_render {α : Type} [Wire α] (hdistinct : (Wire.schema α).distinct = true) (a : α)
    (format : OutputFormat) :
    Wire.decode α (.ofText (format.render (Wire.toJson a))) = .ok a := by
  have hline : Json.Blank (Octets.ofText "\n") := Json.newline_blank 0
  cases format with
  | text =>
    rw [OutputFormat.render, Octets.ofText_append]
    exact Wire.decode_written hdistinct (Json.pretty_written _) hline
  | json =>
    rw [OutputFormat.render, Octets.ofText_append]
    exact Wire.decode_written hdistinct (Json.compact_written _) hline

/-- The format plays no part in a request to expand until its reply is printed. -/
theorem task_formats (s : Surroundings) {i : Invocation} {path : String} {version : Option UInt32}
    (hcommand : i.command = .expand path version) :
    (∃ problem, ∀ format, Invocation.task s { i with format } = .error problem) ∨
      ∃ reply : Reply, ∀ format,
        Invocation.task s { i with format } = .ok (.print (format.render (Wire.toJson reply))) := by
  unfold Invocation.task
  simp only [hcommand]
  cases s.settings i.config with
  | error problem => exact .inl ⟨problem, fun _ => rfl⟩
  | ok settings =>
    cases (s.find path).text with
    | error reason => exact .inl ⟨.requestUnread path reason, fun _ => rfl⟩
    | ok text =>
      cases hrequest : Wire.decode Request (.ofText text) with
      | error e =>
        refine .inl ⟨.request path e, fun format => ?_⟩
        simp only [hrequest, Except.mapError, bind, Except.bind]
      | ok request =>
        refine .inr ⟨replyAlone settings version request, fun format => ?_⟩
        simp only [hrequest, Except.mapError, bind, Except.bind]
        rfl

/-- Every message of either side is read back from its indented text, which without the white space
between its tokens is the text that goes over the wire. So two runs that expand one request, alike
but for the format, either fail alike or print one reply, and in the two formats. -/
theorem expand_formats_agree :
    (∀ (sender : Sender) (message : sender.Message),
      let pretty := (Wire.toJson message).pretty
      Wire.decode sender.Message (.ofText pretty) = .ok message ∧
        Json.unspaced pretty = Wire.encode message) ∧
    ∀ (s : Surroundings) (arguments arguments' : List String) (input input' : Stream)
      (i : Invocation) (path : String) (version : Option UInt32),
      i.command = .expand path version →
      Invocation.read s.environment.config arguments = .ok { i with format := .text } →
      Invocation.read s.environment.config arguments' = .ok { i with format := .json } →
      let asText := run s arguments input
      let asJson := run s arguments' input'
      (asText = asJson ∧ asText.status = 1 ∧ asText.output = []) ∨
        ∃ (reply : Reply) (text json : String),
          asText = ⟨0, .ofText (text ++ "\n"), ""⟩ ∧ asJson = ⟨0, .ofText (json ++ "\n"), ""⟩ ∧
          Wire.decode Reply asText.output = .ok reply ∧
          Wire.decode Reply asJson.output = .ok reply ∧
          Json.unspaced text = json ∧ json = Wire.encode reply := by
  constructor
  · intro sender message pretty
    have hread := Wire.decode_written sender.schema_distinct
      (Json.pretty_written (Wire.toJson message)) Json.blank_nil
    rw [List.append_nil] at hread
    exact ⟨hread, Json.unspaced_pretty _⟩
  · intro s arguments arguments' input input' i path version hcommand hread hread' asText asJson
    rcases task_formats s hcommand with ⟨problem, htask⟩ | ⟨reply, htask⟩
    · left
      have hfails : asText = problem.completion [] ∧ asJson = problem.completion [] := by
        simp only [asText, asJson, run, hread, hread', htask, and_self]
      obtain ⟨htext, hjson⟩ := hfails
      exact ⟨htext.trans hjson.symm, htext ▸ rfl, htext ▸ rfl⟩
    · right
      have hprints : asText = Task.run input (.print (OutputFormat.text.render (Wire.toJson reply))) ∧
          asJson = Task.run input' (.print (OutputFormat.json.render (Wire.toJson reply))) := by
        simp only [asText, asJson, run, hread, hread', htask, and_self]
      obtain ⟨htext, hjson⟩ := hprints
      refine ⟨reply, (Wire.toJson reply).pretty, Wire.encode reply, htext, hjson, ?_, ?_,
        Json.unspaced_pretty _, rfl⟩
      · rw [htext]
        exact decode_render (Sender.schema_distinct .plugin) reply .text
      · rw [hjson]
        exact decode_render (Sender.schema_distinct .plugin) reply .json

/-- A greeting in a file, expanded in both formats. -/
theorem expand_formats_agree_on_greeting :
    let s : Surroundings :=
      ⟨{}, fun _ => .file (.ofText (Wire.encode (Request.getCapability none)))⟩
    let asText := run s ["expand", "r.json"] []
    let asJson := run s ["expand", "--format=json", "r.json"] []
    ∃ reply : Reply, Wire.decode Reply asText.output = .ok reply ∧
      Wire.decode Reply asJson.output = .ok reply := by
  intro s asText asJson
  let i : Invocation := ⟨.text, false, none, .expand "r.json" none⟩
  have hread : Invocation.read s.environment.config ["expand", "r.json"] = .ok i := rfl
  have hread' : Invocation.read s.environment.config ["expand", "--format=json", "r.json"] =
      .ok { i with format := .json } := rfl
  have htext : (s.find "r.json").text = .ok (Wire.encode (Request.getCapability none)) := by
    simp [s, Entry.text]
  have hrequest : Wire.decode Request (.ofText (Wire.encode (Request.getCapability none))) =
      .ok (.getCapability none) := by
    have hdecode := Wire.decode_encode (by decide) (Request.getCapability none) Json.blank_nil
    rwa [List.append_nil] at hdecode
  have hsettings : s.settings i.config = .ok {} := rfl
  have htask := task_expand hsettings rfl htext hrequest
  have hstatus : asText.status = 0 := by
    simp only [asText, run, hread, htask, Task.run]
  rcases expand_formats_agree.2 s _ _ [] [] i _ _ rfl hread hread' with
    ⟨-, hfails, -⟩ | ⟨reply, -, -, -, -, hdecode, hdecode', -⟩
  · exact absurd (hstatus.symm.trans hfails) (by decide)
  · exact ⟨reply, hdecode, hdecode'⟩

end CommandLine

end MacroPlugin
