import MacroPlugin.Proofs.Wire.Envelope
import MacroPlugin.Proofs.Wire.Structs

/-!
Which key of an object belongs to which field of a message. A record is decoded from an object just
in case each of its fields is what the object has under the key of the field. A request or a reply
is decoded from an object with one entry just in case the key of the entry is the kind of message
and its content has the fields. The order of entries and those with other keys do not come into it.
-/

namespace MacroPlugin

open Json Wire

namespace Wire

instance : Wire String :=
  ⟨.text, .same⟩

instance : Wire Bool :=
  ⟨.boolean, .same⟩

instance : Wire UInt32 :=
  ⟨.word .half, .same⟩

instance : Wire UInt64 :=
  ⟨.word .full, .same⟩

instance {α : Type} [Wire α] : Wire (List α) :=
  ⟨.list (schema α), .list values⟩

section Fields

variable {α : Type} [Wire α] {key : String} {entries : List (String × Octets)}

/-- There is just one entry with the key, and it is decoded as the value. -/
def RequiredAt (key : String) (entries : List (String × Octets)) (value : α) : Prop :=
  ∃ octets, under key entries = [octets] ∧ decode α octets = .ok value

/-- The same for a value that may be absent: then there is no entry with the key, or it is null. -/
def OptionalAt (key : String) (entries : List (String × Octets)) : Option α → Prop
  | none => under key entries = [] ∨ under key entries = [Literal.null.octets]
  | some value => ∃ octets,
    under key entries = [octets] ∧ octets ≠ Literal.null.octets ∧ decode α octets = .ok value

/-- The same for a list, which is empty where there is no entry with the key. -/
def DefaultedAt (key : String) (entries : List (String × Octets)) (items : List α) : Prop :=
  under key entries = [] ∧ items = [] ∨ RequiredAt key entries items

theorem requiredAt_iff {value : α} :
    RequiredAt key entries value ↔
      Says (schema α).ReadsAs none (under key entries) (values.forth value) := by
  unfold RequiredAt
  match under key entries with
  | [] => simp [Says]
  | [octets] => simp [Says, Schema.ReadsAs, decode_eq_ok]
  | first :: second :: others => simp [Says]

theorem optionalAt_iff {value : Option α} :
    OptionalAt key entries value ↔
      Says (schema α).ReadsOptional (some none) (under key entries)
        (value.map values.forth) := by
  unfold OptionalAt
  match under key entries with
  | [] => cases value <;> simp [Says]
  | [octets] =>
    by_cases hnull : octets = Literal.null.octets
    · cases value <;> simp [Says, Schema.ReadsOptional, hnull]
    · cases value <;> simp [Says, Schema.ReadsOptional, hnull, decode_eq_ok]
  | first :: second :: others => cases value <;> simp [Says]

theorem defaultedAt_iff {items : List α} :
    DefaultedAt key entries items ↔
      Says (Schema.list (schema α)).ReadsAs (some []) (under key entries)
        (items.map values.forth) := by
  unfold DefaultedAt RequiredAt
  match under key entries with
  | [] =>
    constructor
    · rintro (⟨-, rfl⟩ | ⟨octets, hone, -⟩)
      · rfl
      · simp at hone
    · intro hnone
      have hitems : items.map values.forth = [] := (Option.some.inj hnone).symm
      exact .inl ⟨rfl, List.map_eq_nil_iff.mp hitems⟩
  | [octets] =>
    have hitems : decode (List α) octets = .ok items ↔
        (Schema.list (schema α)).readAll octets = .ok (items.map values.forth) := decode_eq_ok
    simp [Says, Schema.ReadsAs, hitems]
  | first :: second :: others => simp [Says]

end Fields

/-- A text is the value of its schema as it is. -/
theorem forth_text (text : Option String) :
    (text.map values.forth : Option (schema String).Val) = text := by
  cases text <;> rfl

/-- So is a list of texts. -/
theorem forth_texts (texts : Option (List String)) :
    (texts.map values.forth : Option (schema (List String)).Val) = texts := by
  cases texts with
  | none => rfl
  | some texts => exact congrArg some (List.map_id texts)

section Objects

variable {α : Type} [Wire α] {fields : Fields} {entries : List (String × Octets)}
  {object content : Octets} {a : α} {parts : fields.Val}

theorem decode_record {title : String} (hdistinct : fields.distinct = true)
    (hobject : SpelledObject entries object)
    (hread : decode α object = .ok a ↔ (Schema.record title fields).readAll object = .ok parts) :
    decode α object = .ok a ↔ fields.Given entries parts :=
  hread.trans (Schema.readAll_given hdistinct hobject title)

theorem Cases.Has.injective {cases : Cases} {name : String} {value : fields.Val → cases.Val}
    (h : cases.Has name fields value) {parts' : fields.Val} (hsame : value parts = value parts') :
    parts = parts' := by
  induction h with
  | head => exact Sum.inl.inj hsame
  | tail _ ih => exact ih (Sum.inr.inj hsame)

theorem decode_case {cases : Cases} {name : String} {value : fields.Val → cases.Val}
    (hcase : cases.Has name fields value) (hdistinct : (Schema.union cases).distinct = true)
    (hcontent : SpelledObject entries content) (hobject : SpelledObject [(name, content)] object)
    (hread : decode α object = .ok a ↔
      (Schema.union cases).readAll object = .ok (value parts)) :
    decode α object = .ok a ↔ fields.Given entries parts := by
  refine hread.trans (((Schema.Struct.content hcase).readAll hdistinct hcontent hobject).trans ?_)
  constructor
  · rintro ⟨parts', hsame, hgiven⟩
    rw [hcase.injective hsame]
    exact hgiven
  · intro hgiven
    exact ⟨parts, rfl, hgiven⟩

end Objects

end Wire

/-! Records -/

section Records

variable {entries : List (String × Octets)} {object : Octets}
  (hobject : SpelledObject entries object)

include hobject

theorem HostCapability.decode_object {a : HostCapability} :
    decode HostCapability object = .ok a ↔
      RequiredAt "protocolVersion" entries a.protocolVersion := by
  simp only [requiredAt_iff]
  have hread : decode HostCapability object = .ok a ↔ _ :=
    decode_record (by decide) hobject decode_eq_ok
  exact hread.trans (and_iff_left trivial)

theorem PluginCapability.decode_object {a : PluginCapability} :
    decode PluginCapability object = .ok a ↔
      RequiredAt "protocolVersion" entries a.protocolVersion ∧
        OptionalAt "features" entries a.features := by
  simp only [requiredAt_iff, optionalAt_iff, forth_texts]
  have hread : decode PluginCapability object = .ok a ↔ _ :=
    decode_record (by decide) hobject decode_eq_ok
  exact hread.trans ⟨fun ⟨hversion, hfeatures, _⟩ => ⟨hversion, hfeatures⟩,
    fun ⟨hversion, hfeatures⟩ => ⟨hversion, hfeatures, trivial⟩⟩

theorem Reference.decode_object {a : Reference} :
    decode Reference object = .ok a ↔
      RequiredAt "moduleName" entries a.moduleName ∧
        RequiredAt "typeName" entries a.typeName ∧
        RequiredAt "name" entries a.declaredName := by
  simp only [requiredAt_iff]
  have hread : decode Reference object = .ok a ↔ _ :=
    decode_record (by decide) hobject decode_eq_ok
  exact hread.trans ⟨fun ⟨hmodule, htype, hname, _⟩ => ⟨hmodule, htype, hname⟩,
    fun ⟨hmodule, htype, hname⟩ => ⟨hmodule, htype, hname, trivial⟩⟩

theorem Location.decode_object {a : Location} :
    decode Location object = .ok a ↔
      RequiredAt "fileID" entries a.fileId ∧
        RequiredAt "fileName" entries a.fileName ∧
        RequiredAt "offset" entries a.offset ∧
        RequiredAt "line" entries a.line ∧
        RequiredAt "column" entries a.column := by
  simp only [requiredAt_iff]
  have hread : decode Location object = .ok a ↔ _ :=
    decode_record (by decide) hobject decode_eq_ok
  exact hread.trans
    ⟨fun ⟨hid, hfile, hoffset, hline, hcolumn, _⟩ =>
      ⟨hid, hfile, hoffset, hline, hcolumn⟩,
    fun ⟨hid, hfile, hoffset, hline, hcolumn⟩ =>
      ⟨hid, hfile, hoffset, hline, hcolumn, trivial⟩⟩

theorem Fragment.decode_object {a : Fragment} :
    decode Fragment object = .ok a ↔
      RequiredAt "kind" entries a.kind ∧
        RequiredAt "source" entries a.source ∧
        RequiredAt "location" entries a.location := by
  simp only [requiredAt_iff]
  have hread : decode Fragment object = .ok a ↔ _ :=
    decode_record (by decide) hobject decode_eq_ok
  exact hread.trans ⟨fun ⟨hkind, hsource, hlocation, _⟩ => ⟨hkind, hsource, hlocation⟩,
    fun ⟨hkind, hsource, hlocation⟩ => ⟨hkind, hsource, hlocation, trivial⟩⟩

theorem Position.decode_object {a : Position} :
    decode Position object = .ok a ↔
      RequiredAt "fileName" entries a.fileName ∧
        RequiredAt "offset" entries a.offset := by
  simp only [requiredAt_iff]
  have hread : decode Position object = .ok a ↔ _ :=
    decode_record (by decide) hobject decode_eq_ok
  exact hread.trans ⟨fun ⟨hfile, hoffset, _⟩ => ⟨hfile, hoffset⟩,
    fun ⟨hfile, hoffset⟩ => ⟨hfile, hoffset, trivial⟩⟩

theorem Span.decode_object {a : Span} :
    decode Span object = .ok a ↔
      RequiredAt "fileName" entries a.fileName ∧
        RequiredAt "startOffset" entries a.start ∧
        RequiredAt "endOffset" entries a.stop := by
  simp only [requiredAt_iff]
  have hread : decode Span object = .ok a ↔ _ :=
    decode_record (by decide) hobject decode_eq_ok
  exact hread.trans ⟨fun ⟨hfile, hstart, hstop, _⟩ => ⟨hfile, hstart, hstop⟩,
    fun ⟨hfile, hstart, hstop⟩ => ⟨hfile, hstart, hstop, trivial⟩⟩

theorem Note.decode_object {a : Note} :
    decode Note object = .ok a ↔
      RequiredAt "position" entries a.position ∧
        RequiredAt "message" entries a.message := by
  simp only [requiredAt_iff]
  have hread : decode Note object = .ok a ↔ _ :=
    decode_record (by decide) hobject decode_eq_ok
  exact hread.trans ⟨fun ⟨hposition, hmessage, _⟩ => ⟨hposition, hmessage⟩,
    fun ⟨hposition, hmessage⟩ => ⟨hposition, hmessage, trivial⟩⟩

theorem Change.decode_object {a : Change} :
    decode Change object = .ok a ↔
      RequiredAt "range" entries a.span ∧
        RequiredAt "newText" entries a.newText := by
  simp only [requiredAt_iff]
  have hread : decode Change object = .ok a ↔ _ :=
    decode_record (by decide) hobject decode_eq_ok
  exact hread.trans ⟨fun ⟨hspan, hnewText, _⟩ => ⟨hspan, hnewText⟩,
    fun ⟨hspan, hnewText⟩ => ⟨hspan, hnewText, trivial⟩⟩

theorem FixIt.decode_object {a : FixIt} :
    decode FixIt object = .ok a ↔
      RequiredAt "message" entries a.message ∧
        RequiredAt "changes" entries a.changes := by
  simp only [requiredAt_iff]
  have hread : decode FixIt object = .ok a ↔ _ :=
    decode_record (by decide) hobject decode_eq_ok
  exact hread.trans ⟨fun ⟨hmessage, hchanges, _⟩ => ⟨hmessage, hchanges⟩,
    fun ⟨hmessage, hchanges⟩ => ⟨hmessage, hchanges, trivial⟩⟩

theorem Diagnostic.decode_object {a : Diagnostic} :
    decode Diagnostic object = .ok a ↔
      RequiredAt "message" entries a.message ∧
        RequiredAt "severity" entries a.severity ∧
        RequiredAt "position" entries a.position ∧
        DefaultedAt "highlights" entries a.highlights ∧
        DefaultedAt "notes" entries a.notes ∧
        DefaultedAt "fixIts" entries a.fixIts := by
  simp only [requiredAt_iff, defaultedAt_iff]
  have hread : decode Diagnostic object = .ok a ↔ _ :=
    decode_record (by decide) hobject decode_eq_ok
  exact hread.trans
    ⟨fun ⟨hmessage, hseverity, hposition, hhighlights, hnotes, hfixIts, _⟩ =>
      ⟨hmessage, hseverity, hposition, hhighlights, hnotes, hfixIts⟩,
    fun ⟨hmessage, hseverity, hposition, hhighlights, hnotes, hfixIts⟩ =>
      ⟨hmessage, hseverity, hposition, hhighlights, hnotes, hfixIts, trivial⟩⟩

end Records

/-! Messages -/

section Messages

variable {name : String} {entries : List (String × Octets)} {content object : Octets}

/-- What the content of a request says about its fields. -/
def Request.ToldBy (entries : List (String × Octets)) : Request → Prop
  | .getCapability host => OptionalAt "capability" entries host
  | .expandFreestanding use =>
    RequiredAt "macro" entries use.reference ∧ OptionalAt "macroRole" entries use.role ∧
      RequiredAt "discriminator" entries use.discriminator ∧
      RequiredAt "syntax" entries use.fragment
  | .expandAttached use =>
    RequiredAt "macro" entries use.reference ∧ RequiredAt "macroRole" entries use.role ∧
      RequiredAt "discriminator" entries use.discriminator ∧
      RequiredAt "attributeSyntax" entries use.attr ∧ RequiredAt "declSyntax" entries use.decl ∧
      OptionalAt "parentDeclSyntax" entries use.parentDecl ∧
      OptionalAt "extendedTypeSyntax" entries use.extendedType ∧
      OptionalAt "conformanceListSyntax" entries use.conformanceList
  | .loadLibrary path moduleName =>
    RequiredAt "libraryPath" entries path ∧ RequiredAt "moduleName" entries moduleName

/-- What the content of a reply says about its fields. -/
def Reply.ToldBy (entries : List (String × Octets)) : Reply → Prop
  | .capability plugin => RequiredAt "capability" entries plugin
  | .expansion source diagnostics | .freestandingExpansion source diagnostics =>
    OptionalAt "expandedSource" entries source ∧ RequiredAt "diagnostics" entries diagnostics
  | .attachedExpansion sources diagnostics =>
    OptionalAt "expandedSources" entries sources ∧ RequiredAt "diagnostics" entries diagnostics
  | .libraryLoaded loaded diagnostics =>
    RequiredAt "loaded" entries loaded ∧ RequiredAt "diagnostics" entries diagnostics

/-- What is decoded from an object with one entry is of the kind that the entry names. -/
theorem Sender.kind_eq {s : Sender} (hobject : SpelledObject [(name, content)] object)
    {message : s.Message} (hdecode : decode s.Message object = .ok message) :
    s.kind message = name := by
  have henvelope : IsEnvelope (s.kind message) ([] ++ (object ++ [])) := by
    simpa using Sender.envelope hdecode
  obtain ⟨content', hentries⟩ := henvelope.entries blank_nil hobject
  exact (Prod.mk.inj (List.cons.inj hentries).1).1.symm

/-- The content of an object with one entry, which names the kind of a request. -/
theorem Request.decode_content (hcontent : SpelledObject entries content) {request : Request}
    (hobject : SpelledObject [(request.kind, content)] object) :
    decode Request object = .ok request ↔ request.ToldBy entries := by
  have hdistinct : (schema Request).distinct = true := Sender.schema_distinct .host
  cases request with
  | getCapability host =>
    have hread : decode Request object = .ok (.getCapability host) ↔ _ :=
      decode_case .head hdistinct hcontent hobject decode_eq_ok
    simp only [ToldBy, optionalAt_iff]
    exact hread.trans (and_iff_left trivial)
  | expandFreestanding use =>
    have hread : decode Request object = .ok (.expandFreestanding use) ↔ _ :=
      decode_case (.tail .head) hdistinct hcontent hobject decode_eq_ok
    simp only [ToldBy, requiredAt_iff, optionalAt_iff]
    exact hread.trans
      ⟨fun ⟨hused, hrole, hdiscriminator, hsyntax, _⟩ =>
        ⟨hused, hrole, hdiscriminator, hsyntax⟩,
      fun ⟨hused, hrole, hdiscriminator, hsyntax⟩ =>
        ⟨hused, hrole, hdiscriminator, hsyntax, trivial⟩⟩
  | expandAttached use =>
    have hread : decode Request object = .ok (.expandAttached use) ↔ _ :=
      decode_case (.tail (.tail .head)) hdistinct hcontent hobject decode_eq_ok
    simp only [ToldBy, requiredAt_iff, optionalAt_iff]
    exact hread.trans
      ⟨fun ⟨hused, hrole, hdiscriminator, hattr, hdecl, hparent, hextended, hconformances, _⟩ =>
        ⟨hused, hrole, hdiscriminator, hattr, hdecl, hparent, hextended, hconformances⟩,
      fun ⟨hused, hrole, hdiscriminator, hattr, hdecl, hparent, hextended, hconformances⟩ =>
        ⟨hused, hrole, hdiscriminator, hattr, hdecl, hparent, hextended, hconformances, trivial⟩⟩
  | loadLibrary path moduleName =>
    have hread : decode Request object = .ok (.loadLibrary path moduleName) ↔ _ :=
      decode_case (.tail (.tail (.tail .head))) hdistinct hcontent hobject decode_eq_ok
    simp only [ToldBy, requiredAt_iff]
    exact hread.trans ⟨fun ⟨hpath, hmodule, _⟩ => ⟨hpath, hmodule⟩,
      fun ⟨hpath, hmodule⟩ => ⟨hpath, hmodule, trivial⟩⟩

/-- A request is decoded from an object with one entry as one of the kind that the entry names. -/
theorem Request.decode_object (hcontent : SpelledObject entries content)
    (hobject : SpelledObject [(name, content)] object) {request : Request} :
    decode Request object = .ok request ↔ name = request.kind ∧ request.ToldBy entries := by
  constructor
  · intro hdecode
    have hname : request.kind = name := Sender.kind_eq (s := .host) hobject hdecode
    subst hname
    exact ⟨rfl, (decode_content hcontent hobject).mp hdecode⟩
  · rintro ⟨rfl, htold⟩
    exact (decode_content hcontent hobject).mpr htold

/-- The content of an object with one entry, which names the kind of a reply. -/
theorem Reply.decode_content (hcontent : SpelledObject entries content) {reply : Reply}
    (hobject : SpelledObject [(reply.kind, content)] object) :
    decode Reply object = .ok reply ↔ reply.ToldBy entries := by
  have hdistinct : (schema Reply).distinct = true := Sender.schema_distinct .plugin
  cases reply with
  | capability plugin =>
    have hread : decode Reply object = .ok (.capability plugin) ↔ _ :=
      decode_case .head hdistinct hcontent hobject decode_eq_ok
    simp only [ToldBy, requiredAt_iff]
    exact hread.trans (and_iff_left trivial)
  | expansion source diagnostics =>
    have hread : decode Reply object = .ok (.expansion source diagnostics) ↔ _ :=
      decode_case (.tail .head) hdistinct hcontent hobject decode_eq_ok
    simp only [ToldBy, requiredAt_iff, optionalAt_iff, forth_text]
    exact hread.trans ⟨fun ⟨hsource, hdiagnostics, _⟩ => ⟨hsource, hdiagnostics⟩,
      fun ⟨hsource, hdiagnostics⟩ => ⟨hsource, hdiagnostics, trivial⟩⟩
  | freestandingExpansion source diagnostics =>
    have hread : decode Reply object = .ok (.freestandingExpansion source diagnostics) ↔ _ :=
      decode_case (.tail (.tail .head)) hdistinct hcontent hobject decode_eq_ok
    simp only [ToldBy, requiredAt_iff, optionalAt_iff, forth_text]
    exact hread.trans ⟨fun ⟨hsource, hdiagnostics, _⟩ => ⟨hsource, hdiagnostics⟩,
      fun ⟨hsource, hdiagnostics⟩ => ⟨hsource, hdiagnostics, trivial⟩⟩
  | attachedExpansion sources diagnostics =>
    have hread : decode Reply object = .ok (.attachedExpansion sources diagnostics) ↔ _ :=
      decode_case (.tail (.tail (.tail .head))) hdistinct hcontent hobject decode_eq_ok
    simp only [ToldBy, requiredAt_iff, optionalAt_iff, forth_texts]
    exact hread.trans ⟨fun ⟨hsources, hdiagnostics, _⟩ => ⟨hsources, hdiagnostics⟩,
      fun ⟨hsources, hdiagnostics⟩ => ⟨hsources, hdiagnostics, trivial⟩⟩
  | libraryLoaded loaded diagnostics =>
    have hread : decode Reply object = .ok (.libraryLoaded loaded diagnostics) ↔ _ :=
      decode_case (.tail (.tail (.tail (.tail .head)))) hdistinct hcontent hobject decode_eq_ok
    simp only [ToldBy, requiredAt_iff]
    exact hread.trans ⟨fun ⟨hloaded, hdiagnostics, _⟩ => ⟨hloaded, hdiagnostics⟩,
      fun ⟨hloaded, hdiagnostics⟩ => ⟨hloaded, hdiagnostics, trivial⟩⟩

/-- A reply is decoded from an object with one entry as one of the kind that the entry names. -/
theorem Reply.decode_object (hcontent : SpelledObject entries content)
    (hobject : SpelledObject [(name, content)] object) {reply : Reply} :
    decode Reply object = .ok reply ↔ name = reply.kind ∧ reply.ToldBy entries := by
  constructor
  · intro hdecode
    have hname : reply.kind = name := Sender.kind_eq (s := .plugin) hobject hdecode
    subst hname
    exact ⟨rfl, (decode_content hcontent hobject).mp hdecode⟩
  · rintro ⟨rfl, htold⟩
    exact (decode_content hcontent hobject).mpr htold

end Messages

end MacroPlugin

