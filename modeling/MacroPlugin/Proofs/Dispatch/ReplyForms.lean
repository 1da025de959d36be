import MacroPlugin.Expansion.Builtin
import MacroPlugin.Proofs.Dispatch.History

/-!
The same expansion in the recent and in the older form. What a use of a macro expands to does not
depend on what was negotiated (`replyAfter_freestanding`, `replyAfter_attached`): a history decides
only in which form the expansion is sent. So a host that is sent the older form gets the same source
and the same diagnostics, and on the wire the two freestanding forms have the same content under two
names.
-/

namespace MacroPlugin

/-- An object with one entry, as it is written. -/
theorem Json.compact_entry (key : String) (content : Json) :
    (Json.object [(key, content)]).compact =
      "\x7b" ++ quote key ++ ":" ++ content.compact ++ "\x7d" := by
  simp only [compact, compactEntries, String.append_assoc]

namespace Reply

/-- The two freestanding forms have the same content on the wire, each under its own name. -/
theorem encode_freestanding_forms (source : Option String) (diagnostics : List Diagnostic) :
    ∃ content : String,
      Wire.encode (Reply.expansion source diagnostics) =
        "\x7b\"expandMacroResult\":" ++ content ++ "\x7d" ∧
      Wire.encode (Reply.freestandingExpansion source diagnostics) =
        "\x7b\"expandFreestandingMacroResult\":" ++ content ++ "\x7d" := by
  have hjson : ∃ content : Json,
      Wire.toJson (Reply.expansion source diagnostics) =
        .object [("expandMacroResult", content)] ∧
      Wire.toJson (Reply.freestandingExpansion source diagnostics) =
        .object [("expandFreestandingMacroResult", content)] :=
    ⟨_, rfl, rfl⟩
  obtain ⟨content, hrecent, holder⟩ := hjson
  have hname : "\x7b" ++ Json.quote "expandMacroResult" ++ ":" = "\x7b\"expandMacroResult\":" := by
    decide
  have hname' : "\x7b" ++ Json.quote "expandFreestandingMacroResult" ++ ":" =
      "\x7b\"expandFreestandingMacroResult\":" := by
    decide
  refine ⟨content.compact, ?_, ?_⟩
  · rw [Wire.encode, hrecent, Json.compact_entry, hname]
  · rw [Wire.encode, holder, Json.compact_entry, hname']

end Reply

namespace Dispatcher

/-- The reply to a request behind a history. -/
def replyAfter (d : Dispatcher) (history : List Request) (request : Request) : Reply :=
  ((d.answerAll history).2.answer request).1

/-- What a use of a macro on its own expands to, in whatever form it is sent. -/
def freestandingExpansion (d : Dispatcher) (use : FreestandingUse) : Expansion :=
  { d.runFreestanding use with
    source := d.freestandingSource (.expandFreestanding use) (d.runFreestanding use) }

/-- What a use of a macro as an attribute expands to, in whatever form it is sent. -/
def attachedExpansion (d : Dispatcher) (use : AttachedUse) : Expansion :=
  { d.runAttached use with
    source := (d.runAttached use).source.map (d.withEcho (.expandAttached use)) }

section Behind

variable (registry : Registry) (capability : PluginCapability) (echo : Bool)
  (history : List Request)

theorem replyAfter_freestanding (use : FreestandingUse) :
    (fresh registry capability echo).replyAfter history (.expandFreestanding use) =
      (ReplyForm.choose ⟨hostVersion history, capability.protocolVersion⟩ .freestanding).reply
        ((fresh registry capability echo).freestandingExpansion use) := by
  rw [← agreement_after registry capability echo, replyAfter, answerAll_state]
  rfl

theorem replyAfter_attached (use : AttachedUse) :
    (fresh registry capability echo).replyAfter history (.expandAttached use) =
      (ReplyForm.choose ⟨hostVersion history, capability.protocolVersion⟩ .attached).reply
        ((fresh registry capability echo).attachedExpansion use) := by
  rw [← agreement_after registry capability echo, replyAfter, answerAll_state]
  rfl

end Behind

/-- One use of a macro behind two histories, of which the first agreed on one kind of reply for all
expansions and the second, if it agreed on anything, did not. Both replies carry the same source and
the same diagnostics; in the older form an attribute's source is the only element of a list, and an
absent one leaves the list out. -/
theorem older_form_carries_same_expansion (registry : Registry) (capability : PluginCapability)
    (echo : Bool) (recent older : List Request)
    (hrecent : 5 ≤ min (hostVersion recent) capability.protocolVersion)
    (holder : min (hostVersion older) capability.protocolVersion < 5) :
    let plugin := fresh registry capability echo
    (∀ use : FreestandingUse, ∃ source diagnostics content,
      let reply := plugin.replyAfter recent (.expandFreestanding use)
      let reply' := plugin.replyAfter older (.expandFreestanding use)
      reply = .expansion source diagnostics ∧
      reply' = .freestandingExpansion source diagnostics ∧
      Wire.encode reply = "\x7b\"expandMacroResult\":" ++ content ++ "\x7d" ∧
      Wire.encode reply' = "\x7b\"expandFreestandingMacroResult\":" ++ content ++ "\x7d") ∧
    ∀ use : AttachedUse, ∃ source diagnostics,
      plugin.replyAfter recent (.expandAttached use) = .expansion source diagnostics ∧
      plugin.replyAfter older (.expandAttached use) =
        match source with
        | some text => .attachedExpansion (some [text]) diagnostics
        | none => .attachedExpansion none diagnostics := by
  have hunified : Agreement.isUnified ⟨hostVersion recent, capability.protocolVersion⟩ = true :=
    (isUnified_iff _).mpr hrecent
  have hdistinct : ¬ Agreement.isUnified ⟨hostVersion older, capability.protocolVersion⟩ = true :=
    mt (isUnified_iff _).mp (UInt32.not_le.mpr holder)
  intro plugin
  refine ⟨fun use => ?_, fun use => ?_⟩
  · have hreply : plugin.replyAfter recent (.expandFreestanding use) =
        .expansion (plugin.freestandingExpansion use).source
          (plugin.freestandingExpansion use).diagnostics := by
      rw [replyAfter_freestanding, ReplyForm.choose, if_pos hunified]
      rfl
    have hreply' : plugin.replyAfter older (.expandFreestanding use) =
        .freestandingExpansion (plugin.freestandingExpansion use).source
          (plugin.freestandingExpansion use).diagnostics := by
      rw [replyAfter_freestanding, ReplyForm.choose, if_neg hdistinct]
      rfl
    obtain ⟨content, hwire, hwire'⟩ := Reply.encode_freestanding_forms
      (plugin.freestandingExpansion use).source (plugin.freestandingExpansion use).diagnostics
    exact ⟨_, _, content, hreply, hreply', hreply ▸ hwire, hreply' ▸ hwire'⟩
  · refine ⟨(plugin.attachedExpansion use).source, (plugin.attachedExpansion use).diagnostics,
      ?_, ?_⟩
    · rw [replyAfter_attached, ReplyForm.choose, if_pos hunified]
      rfl
    · rw [replyAfter_attached, ReplyForm.choose, if_neg hdistinct, ReplyForm.reply]
      cases (plugin.attachedExpansion use).source with
      | none => rfl
      | some text => rfl

/-- The attribute that adds nothing: its source is empty but there. A host of version 7 is sent it
in the recent form; a host that never asked, in a list of one. -/
theorem older_form_carries_empty_source :
    let fragment : Fragment := ⟨.attr, "@Peer", ⟨"A/a.swift", "/a.swift", 0, 1, 1⟩⟩
    let use : AttachedUse :=
      ⟨⟨"ExampleMacros", "PeerMacro", "Peer"⟩, .peer, "d", fragment, fragment, none, none, none⟩
    let plugin := fresh Builtin.registry .current false
    plugin.replyAfter [.getCapability (some ⟨7⟩)] (.expandAttached use) = .expansion (some "") [] ∧
      plugin.replyAfter [] (.expandAttached use) = .attachedExpansion (some [""]) [] := by
  intro fragment use plugin
  have hreply : plugin.replyAfter [.getCapability (some ⟨7⟩)] (.expandAttached use) =
      .expansion (some "") [] := by
    decide
  obtain ⟨source, diagnostics, hrecent, holder⟩ :=
    (older_form_carries_same_expansion Builtin.registry .current false
      [.getCapability (some ⟨7⟩)] [] (by decide) (by decide)).2 use
  have hsame := hrecent.symm.trans hreply
  rw [Reply.expansion.injEq] at hsame
  obtain ⟨rfl, rfl⟩ := hsame
  exact ⟨hreply, holder⟩

end Dispatcher

end MacroPlugin
