import MacroPlugin.Proofs.CommandLine.SingleRequest
import MacroPlugin.Proofs.Settings.Accepted

/-!
What a plugin declares under settings that were accepted. A host hears it as the reply to each of
its greetings, a user reads it on the command line, and it is the same capability both times. It
never offers to load libraries, and no request to load one is granted.
-/

namespace MacroPlugin

/-- Over a run of requests a dispatcher declares one capability and loads no library: every
capability that it sends is this one, every greeting is answered with it, and every request for a
library is declined and leaves the dispatcher as it was. -/
structure Dispatcher.DeclaresOver (d : Dispatcher) (declared : PluginCapability)
    (requests : List Request) : Prop where
  sent : ∀ capability, .capability capability ∈ (d.answerAll requests).1 → capability = declared
  greeted : ∀ before host after, requests = before ++ .getCapability host :: after →
    (d.answerAll requests).1[before.length]? = some (.capability declared)
  declined : ∀ before path moduleName after,
    requests = before ++ .loadLibrary path moduleName :: after →
      (d.answerAll requests).1[before.length]? = some (.libraryLoaded false []) ∧
      (d.answerAll (before ++ [.loadLibrary path moduleName])).2 = (d.answerAll before).2

namespace Dispatcher

/-- A capability is only sent to answer a greeting, and it is the one that the plugin has. -/
theorem capability_of_answer {d : Dispatcher} {request : Request} {capability : PluginCapability}
    (h : (d.answer request).1 = .capability capability) : capability = d.capability := by
  have hfits := answer_fits d request
  rw [h] at hfits
  cases request with
  | getCapability host => exact Reply.capability.inj hfits
  | expandFreestanding use =>
    simp only [Reply.Fits] at hfits
    split at hfits <;> simp at hfits
  | expandAttached use =>
    simp only [Reply.Fits] at hfits
    split at hfits <;> simp at hfits
  | loadLibrary path moduleName => simp [Reply.Fits] at hfits

theorem capability_of_answerAll {d : Dispatcher} {requests : List Request}
    {capability : PluginCapability}
    (h : .capability capability ∈ (d.answerAll requests).1) : capability = d.capability := by
  induction requests generalizing d with
  | nil => simp [answerAll] at h
  | cons request rest ih =>
    rw [answerAll_cons] at h
    rcases List.mem_cons.mp h with hfirst | hlater
    · exact capability_of_answer hfirst.symm
    · rw [ih hlater, answer_state]

theorem declaresOver (d : Dispatcher) (requests : List Request) :
    d.DeclaresOver d.capability requests where
  sent _ h := capability_of_answerAll h
  greeted := by
    rintro before host after rfl
    rw [answerAll_getElem?, answerAll_state]
    rfl
  declined := by
    rintro before path moduleName after rfl
    rw [answerAll_getElem?, answerAll_append]
    exact ⟨rfl, rfl⟩

end Dispatcher

namespace CommandLine

theorem settings_of_file {s : Surroundings} {path text : String} {settings : Settings}
    (htext : (s.find path).text = .ok text) (hparse : Settings.parse text = .ok settings) :
    s.settings (some path) = .ok settings := by
  simp only [Surroundings.settings, Surroundings.settings.load, htext, hparse, Except.mapError,
    bind, Except.bind]

theorem task_capability {s : Surroundings} {settings : Settings} {i : Invocation}
    (hsettings : s.settings i.config = .ok settings) (hcommand : i.command = .capability) :
    i.task s = .ok (.print (Listing.capability i.format settings.capability)) := by
  unfold Invocation.task
  simp only [hsettings, hcommand, bind, Except.bind]
  rfl

/-- Whatever is declared under settings that were accepted. The capability has the version of this
library and the configured features, without the one for loading libraries. It is what every
session with these settings sends, whatever macros it serves, and what the command for it prints as
JSON. -/
theorem accepted_settings_declare {text : String} {settings : Settings}
    (hparse : Settings.parse text = .ok settings) :
    let declared := settings.capability
    declared.Declares settings.features ∧
    declared.hasFeature PluginCapability.loadLibraryFeature = false ∧
    (∀ (registry : Registry) (framing : Framing) (input : Stream),
      let plugin := { settings.dispatcher with registry }
      let limit := settings.maxFrameBytes
      let requests := (input.receiveAll Request framing limit).messages
      let served := Connection.serve ⟨framing, limit, input, {}, plugin⟩
      served.2.output.written = framing.transcript (plugin.answerAll requests).1 ∧
      plugin.DeclaresOver declared requests) ∧
    ∀ (s : Surroundings) (arguments : List String) (i : Invocation) (path : String)
      (unused : Stream),
      Invocation.read s.environment.config arguments = .ok i →
      i.command = .capability → i.format = .json →
      i.config = some path → (s.find path).text = .ok text →
      let printed := run s arguments unused
      printed.status = 0 ∧
        printed.output = .ofText (Wire.encode declared) ++ [Ascii.newline] ∧
        Wire.decode PluginCapability printed.output = .ok declared := by
  intro declared
  refine ⟨settings.capability_declares, Settings.capability_of_parse hparse, ?_, ?_⟩
  · intro registry framing input plugin limit requests served
    refine ⟨?_, plugin.declaresOver requests⟩
    dsimp only [served]
    rw [Connection.serve_unlimited]
  · intro s arguments i path unused hread hcommand hformat hconfig htext printed
    have hsettings : s.settings i.config = .ok settings := by
      rw [hconfig]
      exact settings_of_file htext hparse
    have hprinted : printed =
        ⟨0, .ofText (OutputFormat.json.render (Wire.toJson declared)), ""⟩ := by
      dsimp only [printed]
      unfold run
      simp only [hread, task_capability hsettings hcommand, hformat]
      rfl
    rw [hprinted]
    dsimp only
    rw [render_line, Stream.frame_jsonLines]
    exact ⟨rfl, rfl, Wire.decode_encode (by decide) declared Stream.blank_newline⟩

/-- A file with a feature that is given twice, read from the command line. -/
theorem accepted_features_declare :
    let text := "capability.features = [\"a\", \"b\", \"a\"]"
    let s : Surroundings := ⟨{}, fun _ => .file (.ofText text)⟩
    let printed := run s ["--format=json", "--config=c.toml", "capability"] []
    Wire.decode PluginCapability printed.output = .ok ⟨7, some ["a", "b"]⟩ := by
  intro text s printed
  have hparsed : (Settings.parse text).toOption = some { features := ["a", "b", "a"] } := by
    decide +kernel
  have hparse : Settings.parse text = .ok { features := ["a", "b", "a"] } := by
    cases h : Settings.parse text with
    | error e => simp [h, Except.toOption] at hparsed
    | ok settings => simpa [h, Except.toOption] using hparsed
  have hread : Invocation.read none ["--format=json", "--config=c.toml", "capability"] =
      .ok ⟨.json, false, some "c.toml", .capability⟩ := rfl
  have htext : (s.find "c.toml").text = .ok text := by
    simp [s, Entry.text]
  obtain ⟨-, -, -, hcommand⟩ := accepted_settings_declare hparse
  exact (hcommand s _ _ "c.toml" [] hread rfl rfl rfl htext).2.2

end CommandLine

end MacroPlugin
