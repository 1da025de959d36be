import MacroPlugin.Proofs.Dispatch.ReplyForms

/-!
Uses of macros that cannot be expanded. There are four causes: no implementation is registered under
the key, or one of the other shape; or the implementation fails, or breaks off. In either shape, each
of them leads to a reply with one diagnostic, which is an error at the start of the use and names the
macro (`failing_use_reported`). The dispatcher is left as it was.

The two shapes are treated as one where they agree: `Usage` is a use of either.
-/

namespace MacroPlugin

/-- The use of a macro, of either shape. -/
inductive Usage where
  | freestanding (use : FreestandingUse)
  | attached (use : AttachedUse)
  deriving DecidableEq, Repr

namespace Usage

def shape : Usage → Shape
  | .freestanding _ => .freestanding
  | .attached _ => .attached

def reference : Usage → Reference
  | .freestanding use => use.reference
  | .attached use => use.reference

/-- The fragment at which the macro is used: for an attribute, the attribute and not its
declaration. -/
def anchor : Usage → Fragment
  | .freestanding use => use.fragment
  | .attached use => use.attr

def request : Usage → Request
  | .freestanding use => .expandFreestanding use
  | .attached use => .expandAttached use

/-- How an implementation of the same shape ends on the use. -/
def run? : Usage → Implementation → Option Outcome
  | .freestanding use, .freestanding expand => some (expand use)
  | .attached use, .attached expand => some (expand use)
  | _, _ => none

/-- The macro is registered, but with the other shape. -/
def Misplaced (registry : Registry) (usage : Usage) : Prop :=
  ∃ implementation, registry.find? usage.reference.key = some implementation ∧
    implementation.shape ≠ usage.shape

/-- Why a use cannot be expanded. -/
inductive Fails (registry : Registry) (usage : Usage) : Prop
  | unregistered (hfind : registry.find? usage.reference.key = none)
  | misplaced (h : usage.Misplaced registry)
  | failed {implementation : Implementation} {failure : Failure}
      (hfind : registry.find? usage.reference.key = some implementation)
      (hrun : usage.run? implementation = some (.failed failure))
  | brokeOff {implementation : Implementation} {reason : Option String}
      (hfind : registry.find? usage.reference.key = some implementation)
      (hrun : usage.run? implementation = some (.brokeOff reason))

variable {registry : Registry} {usage : Usage} {implementation : Implementation}

theorem run?_eq_none : usage.run? implementation = none ↔ implementation.shape ≠ usage.shape := by
  cases usage <;> cases implementation <;> simp [run?, shape, Implementation.shape]

theorem not_misplaced (hfind : registry.find? usage.reference.key = some implementation)
    {outcome : Outcome} (hrun : usage.run? implementation = some outcome) :
    ¬ usage.Misplaced registry := by
  rintro ⟨other, hother, hshape⟩
  obtain rfl := Option.some.inj (hfind.symm.trans hother)
  rw [run?_eq_none.mpr hshape] at hrun
  simp at hrun

end Usage

/-! Diagnostics that name a macro -/

/-- A text has another one in it. -/
def Mentions (message text : String) : Prop :=
  ∃ before after, message = before ++ text ++ after

theorem Mentions.append {message text : String} (h : Mentions message text) (more : String) :
    Mentions (message ++ more) text := by
  obtain ⟨before, after, rfl⟩ := h
  exact ⟨before, after ++ more, String.append_assoc⟩

theorem Mentions.behind {message text : String} (h : Mentions message text) (more : String) :
    Mentions (more ++ message) text := by
  obtain ⟨before, after, rfl⟩ := h
  exact ⟨more ++ before, after, by simp only [String.append_assoc]⟩

/-- The diagnostic is an error at the start of a use, and says which macro it is about. It has a
note if the macro has another shape, and none otherwise. -/
structure Usage.Blames (registry : Registry) (usage : Usage) (diagnostic : Diagnostic) : Prop where
  severity : diagnostic.severity = .error
  position : diagnostic.position =
    ⟨usage.anchor.location.fileName, usage.anchor.location.offset⟩
  declaredName : Mentions diagnostic.message usage.reference.declaredName
  moduleName : Mentions diagnostic.message usage.reference.moduleName
  typeName : Mentions diagnostic.message usage.reference.typeName
  note : usage.Misplaced registry → ∃ note, diagnostic.notes = [note]
  noNote : ¬ usage.Misplaced registry → diagnostic.notes = []

/-- The names of a macro are in a message that describes it. -/
theorem Reference.mentions_describe (r : Reference) {message : String}
    (h : Mentions message r.describe) :
    Mentions message r.declaredName ∧ Mentions message r.moduleName ∧
      Mentions message r.typeName := by
  obtain ⟨before, after, rfl⟩ := h
  have hdescribe : ∀ {name}, Mentions r.describe name →
      Mentions (before ++ r.describe ++ after) name :=
    fun hname => (hname.behind before).append after
  refine ⟨hdescribe ?_, hdescribe ?_, hdescribe ?_⟩
  · exact ⟨"'", "' (module '" ++ r.moduleName ++ "', type '" ++ r.typeName ++ "')",
      by simp only [describe, String.append_assoc]⟩
  · exact ⟨"'" ++ r.declaredName ++ "' (module '", "', type '" ++ r.typeName ++ "')",
      by simp only [describe, String.append_assoc]⟩
  · exact ⟨_, "')", rfl⟩

/-- An error whose message describes the macro blames the use, if it has the right notes. -/
theorem Usage.blames_of {registry : Registry} {usage : Usage} {diagnostic : Diagnostic}
    (hseverity : diagnostic.severity = .error) (hposition : diagnostic.position = .start usage.anchor)
    (hmessage : Mentions diagnostic.message usage.reference.describe)
    (hnote : usage.Misplaced registry → ∃ note, diagnostic.notes = [note])
    (hnoNote : ¬ usage.Misplaced registry → diagnostic.notes = []) :
    usage.Blames registry diagnostic := by
  obtain ⟨hdeclared, hmodule, htype⟩ := usage.reference.mentions_describe hmessage
  exact ⟨hseverity, hposition, hdeclared, hmodule, htype, hnote, hnoNote⟩

theorem Request.comment_ne_empty (request : Request) : request.comment ≠ "" := by
  intro hempty
  have hlength := congrArg String.length hempty
  simp [comment] at hlength

namespace Dispatcher

/-! What a use expands to -/

/-- What a use expands to, before a source is put for an absent one or the request echoed. -/
def expansion (d : Dispatcher) : Usage → Expansion
  | .freestanding use => d.runFreestanding use
  | .attached use => d.runAttached use

theorem expansion_eq (d : Dispatcher) (usage : Usage) :
    d.expansion usage =
      match d.registry.find? usage.reference.key with
      | none => .failure (unregistered usage.reference usage.anchor)
      | some implementation =>
        match usage.run? implementation with
        | none =>
          .failure (wrongShape usage.reference usage.anchor usage.shape implementation.shape)
        | some outcome => settle usage.reference usage.anchor outcome := by
  cases usage with
  | freestanding use =>
    unfold expansion runFreestanding
    dsimp only [Usage.reference]
    cases d.registry.find? use.reference.key with
    | none => rfl
    | some implementation => cases implementation <;> rfl
  | attached use =>
    unfold expansion runAttached
    dsimp only [Usage.reference]
    cases d.registry.find? use.reference.key with
    | none => rfl
    | some implementation => cases implementation <;> rfl

section Outcomes

variable {d : Dispatcher} {usage : Usage}

/-- A use that fails expands to nothing, with one diagnostic that blames the use. -/
theorem expansion_of_fails (h : usage.Fails d.registry) :
    ∃ diagnostic, d.expansion usage = .failure diagnostic ∧
      usage.Blames d.registry diagnostic := by
  rw [expansion_eq]
  have hdescribed : ∀ more, Mentions ("macro " ++ usage.reference.describe ++ more)
      usage.reference.describe := fun more => ⟨"macro ", more, rfl⟩
  cases h with
  | unregistered hfind =>
    have hnot : ¬ usage.Misplaced d.registry := by
      rintro ⟨implementation, hother, -⟩
      simp [hfind] at hother
    refine ⟨unregistered usage.reference usage.anchor, by rw [hfind], ?_⟩
    apply Usage.blames_of rfl rfl _ (fun h => absurd h hnot) fun _ => rfl
    simp only [unregistered, Diagnostic.error]
    exact (((((hdescribed _).append _).append _).append _).append _).append _
  | misplaced hmisplaced =>
    obtain ⟨implementation, hfind, hshape⟩ := id hmisplaced
    refine ⟨wrongShape usage.reference usage.anchor usage.shape implementation.shape, ?_, ?_⟩
    · rw [hfind]
      simp only [Usage.run?_eq_none.mpr hshape]
    · apply Usage.blames_of rfl rfl _ (fun _ => ⟨_, rfl⟩) fun h => absurd hmisplaced h
      simp only [wrongShape, Diagnostic.error, Diagnostic.addNote]
      exact ((((((hdescribed _).append _).append _).append _).append _).append _).append _
  | @failed implementation failure hfind hrun =>
    refine ⟨failed usage.reference usage.anchor failure, ?_, ?_⟩
    · rw [hfind]
      simp only [hrun]
      rfl
    · apply Usage.blames_of rfl rfl _ (fun h => absurd h (Usage.not_misplaced hfind hrun))
        fun _ => rfl
      exact (hdescribed _).append _
  | @brokeOff implementation reason hfind hrun =>
    refine ⟨brokenOff usage.reference usage.anchor reason, ?_, ?_⟩
    · rw [hfind]
      simp only [hrun]
      rfl
    · apply Usage.blames_of rfl rfl _ (fun h => absurd h (Usage.not_misplaced hfind hrun))
        fun _ => rfl
      exact (hdescribed _).append _

end Outcomes

/-! Replies -/

/-- The reply to a use that fails. In the freestanding shape its source is there: empty, or the
request as a comment if requests are echoed. In the attached shape it is left out. -/
def refusal (d : Dispatcher) (diagnostic : Diagnostic) : Usage → Reply
  | .freestanding use =>
    let source := if d.echo then (Request.expandFreestanding use).comment else ""
    if d.agreement.isUnified then .expansion (some source) [diagnostic]
    else .freestandingExpansion (some source) [diagnostic]
  | .attached _ =>
    if d.agreement.isUnified then .expansion none [diagnostic]
    else .attachedExpansion none [diagnostic]

/-- What is sent of the expansion of a use, in whatever form. -/
def sent (d : Dispatcher) : Usage → Expansion
  | .freestanding use => d.freestandingExpansion use
  | .attached use => d.attachedExpansion use

theorem answer_usage (d : Dispatcher) (usage : Usage) :
    d.answer usage.request =
      ((ReplyForm.choose d.agreement usage.shape).reply (d.sent usage), d) := by
  cases usage <;> rfl

theorem answer_of_failure {d : Dispatcher} {usage : Usage} {diagnostic : Diagnostic}
    (h : d.expansion usage = .failure diagnostic) :
    d.answer usage.request = (d.refusal diagnostic usage, d) := by
  rw [answer_usage]
  cases usage with
  | freestanding use =>
    have hrun : d.runFreestanding use = .failure diagnostic := h
    rw [sent, freestandingExpansion, hrun, Usage.shape, ReplyForm.choose, refusal]
    split <;> rfl
  | attached use =>
    have hrun : d.runAttached use = .failure diagnostic := h
    rw [sent, attachedExpansion, hrun, Usage.shape, ReplyForm.choose, refusal]
    split <;> rfl

/-- Whatever the cause, a use that cannot be expanded has one diagnostic, which blames the use, and
the dispatcher is left as it was. -/
theorem failing_use_reported (d : Dispatcher) (usage : Usage) (hfails : usage.Fails d.registry) :
    ∃ diagnostic, usage.Blames d.registry diagnostic ∧
      d.answer usage.request = (d.refusal diagnostic usage, d) := by
  obtain ⟨diagnostic, hexpansion, hblames⟩ := expansion_of_fails hfails
  exact ⟨diagnostic, hblames, answer_of_failure hexpansion⟩

/-- An attribute whose implementation breaks off without saying why, on a declaration in another
file. -/
theorem broken_off_attribute_reported :
    let attr : Fragment := ⟨.attr, "@T", ⟨"A/a.swift", "/a.swift", 3, 1, 4⟩⟩
    let decl : Fragment := ⟨.declaration, "var x", ⟨"A/b.swift", "/b.swift", 8, 2, 1⟩⟩
    let use : AttachedUse := ⟨⟨"M", "T", "t"⟩, .peer, "d", attr, decl, none, none, none⟩
    let breaking : Registration := ⟨⟨"M", "T"⟩, .attached fun _ => .brokeOff none⟩
    let d := fresh (Registry.empty.register breaking).1 .current false
    ∃ diagnostic, diagnostic.severity = .error ∧ diagnostic.position = ⟨"/a.swift", 3⟩ ∧
      d.answer (.expandAttached use) = (.attachedExpansion none [diagnostic], d) := by
  intro attr decl use breaking d
  have hfails : (Usage.attached use).Fails d.registry := .brokeOff rfl rfl
  obtain ⟨diagnostic, hblames, hanswer⟩ := failing_use_reported d (.attached use) hfails
  exact ⟨diagnostic, hblames.severity, hblames.position, hanswer⟩

/-- If requests are echoed, what stands for the absent source of a failed expansion is not empty. -/
theorem echoed_failure_not_empty :
    let fragment : Fragment := ⟨.expression, "#t", ⟨"A/a.swift", "/a.swift", 0, 1, 1⟩⟩
    let use : FreestandingUse := ⟨⟨"M", "T", "t"⟩, none, "d", fragment⟩
    let d := fresh .empty .current true
    d.registry.find? use.reference.key = none ∧
      ∃ source diagnostic, source ≠ "" ∧ (d.answer (.expandFreestanding use)).1 =
        .freestandingExpansion (some source) [diagnostic] := by
  intro fragment use d
  have hfind : d.registry.find? use.reference.key = none := rfl
  have hfails : (Usage.freestanding use).Fails d.registry := .unregistered hfind
  obtain ⟨diagnostic, hexpansion, -⟩ := expansion_of_fails hfails
  refine ⟨hfind, _, diagnostic, Request.comment_ne_empty (.expandFreestanding use), ?_⟩
  exact congrArg Prod.fst (answer_of_failure hexpansion)

end Dispatcher

end MacroPlugin
