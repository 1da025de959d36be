import MacroPlugin.Proofs.Wire.Entries
import MacroPlugin.Proofs.Wire.Passed

/-!
The shape of every message on the wire: an object whose only entry has the kind of the message as
its key, and an object or an array as its value. Nothing else is read as a message, and since an
object says only one thing, what is read as a request is never read as a reply.
-/

namespace MacroPlugin

/-! Objects say one thing -/

namespace Json

/-- A value ends in one place only. -/
theorem IsValue.unambiguous {text text' more more' : Octets} (h : IsValue text)
    (h' : IsValue text') (hstops : Stops more) (hstops' : Stops more')
    (heq : text ++ more = text' ++ more') : text = text' ∧ more = more' := by
  have hpass := h.passed blank_nil hstops []
  have hpass' := h'.passed blank_nil hstops' []
  rw [heq, hpass', Wire.Skip.passOn_nil, Wire.Skip.passOn_nil, Except.ok.injEq] at hpass
  subst hpass
  exact ⟨List.append_cancel_right heq, rfl⟩

end Json

namespace Wire

open Json
open Json.Skip (Container)

section Unambiguous

variable {text text' more more' : Octets}

theorem skipBlank_close {blanks : Octets} (hblanks : Blank blanks) (more : Octets) :
    skipBlank (blanks ++ [Ascii.closeBrace] ++ more) = Ascii.closeBrace :: more := by
  rw [List.append_assoc]
  exact skipBlank_append hblanks (by decide) more

theorem skipBlank_comma {blanks : Octets} (hblanks : Blank blanks) (behind more : Octets) :
    skipBlank (blanks ++ Ascii.comma :: behind ++ more) = Ascii.comma :: (behind ++ more) := by
  rw [List.append_assoc]
  exact skipBlank_append hblanks (by decide) (behind ++ more)

theorem SpelledEntry.first {entry : String × Octets} (h : SpelledEntry entry text) :
    ∃ tail, text = Ascii.quote :: tail := by
  cases h with
  | mk => exact ⟨_, rfl⟩

theorem SpelledEntry.skip {entry : String × Octets} {blanks : Octets} (h : SpelledEntry entry text)
    (hblanks : Blank blanks) (behind more : Octets) :
    skipBlank (blanks ++ (text ++ behind) ++ more) = text ++ (behind ++ more) := by
  obtain ⟨tail, rfl⟩ := h.first
  rw [List.append_assoc, List.append_assoc]
  exact skipBlank_append hblanks (by decide) _

theorem SpelledEntry.unambiguous {entry entry' : String × Octets} (h : SpelledEntry entry text)
    (h' : SpelledEntry entry' text') (hstops : Stops more) (hstops' : Stops more')
    (heq : text ++ more = text' ++ more') : entry = entry' ∧ more = more' := by
  cases h with
  | @mk key spelling value before behind hkey hbefore hbehind hvalue =>
    cases h' with
    | @mk key' spelling' value' before' behind' hkey' hbefore' hbehind' hvalue' =>
      simp only [List.cons_append, List.append_assoc, List.cons.injEq, true_and] at heq
      have hread := hkey.read (before ++ Ascii.colon :: (behind ++ (value ++ more)))
      rw [heq, hkey'.read] at hread
      obtain ⟨rfl, hcolon⟩ := ok_pair_inj hread
      have hskip := congrArg skipBlank hcolon
      rw [skipBlank_append hbefore (by decide), skipBlank_append hbefore' (by decide)] at hskip
      have hcontent := congrArg skipBlank (List.cons.inj hskip).2
      rw [skipBlank_value hbehind hvalue, skipBlank_value hbehind' hvalue'] at hcontent
      obtain ⟨rfl, rfl⟩ := hvalue'.unambiguous hvalue hstops' hstops hcontent
      exact ⟨rfl, rfl⟩

theorem SpelledEntries.unambiguous {first : Bool} {entries entries' : List (String × Octets)}
    (h : SpelledEntries first entries text) (h' : SpelledEntries first entries' text')
    (heq : text ++ more = text' ++ more') : entries = entries' ∧ more = more' := by
  -- The octet behind the blanks tells the three forms apart.
  induction h generalizing entries' text' with
  | nil hblanks =>
    have hskip := congrArg skipBlank heq
    rw [skipBlank_close hblanks] at hskip
    cases h' with
    | nil hblanks' =>
      rw [skipBlank_close hblanks'] at hskip
      exact ⟨rfl, (List.cons.inj hskip).2⟩
    | head hblanks' hentry' =>
      obtain ⟨tail, rfl⟩ := hentry'.first
      rw [hentry'.skip hblanks'] at hskip
      exact absurd (List.cons.inj hskip).1 (by decide)
    | next hblanks' =>
      rw [skipBlank_comma hblanks'] at hskip
      exact absurd (List.cons.inj hskip).1 (by decide)
  | head hblanks hentry hmore ih =>
    have hskip := congrArg skipBlank heq
    rw [hentry.skip hblanks] at hskip
    cases h' with
    | nil hblanks' =>
      obtain ⟨tail, rfl⟩ := hentry.first
      rw [skipBlank_close hblanks'] at hskip
      exact absurd (List.cons.inj hskip).1 (by decide)
    | head hblanks' hentry' hmore' =>
      rw [hentry'.skip hblanks'] at hskip
      obtain ⟨rfl, hbehind⟩ := hentry.unambiguous hentry' (hmore.stops _) (hmore'.stops _) hskip
      obtain ⟨rfl, rfl⟩ := ih hmore' hbehind
      exact ⟨rfl, rfl⟩
  | next hblanks hinner hentry hmore ih =>
    have hskip := congrArg skipBlank heq
    rw [skipBlank_comma hblanks] at hskip
    cases h' with
    | nil hblanks' =>
      rw [skipBlank_close hblanks'] at hskip
      exact absurd (List.cons.inj hskip).1 (by decide)
    | next hblanks' hinner' hentry' hmore' =>
      rw [skipBlank_comma hblanks'] at hskip
      have hkey := congrArg skipBlank (List.cons.inj hskip).2
      rw [hentry.skip hinner, hentry'.skip hinner'] at hkey
      obtain ⟨rfl, hbehind⟩ := hentry.unambiguous hentry' (hmore.stops _) (hmore'.stops _) hkey
      obtain ⟨rfl, rfl⟩ := ih hmore' hbehind
      exact ⟨rfl, rfl⟩

theorem SpelledObject.unambiguous {entries entries' : List (String × Octets)}
    (h : SpelledObject entries text) (h' : SpelledObject entries' text')
    (heq : text ++ more = text' ++ more') : entries = entries' ∧ more = more' := by
  obtain ⟨hentries⟩ := h
  obtain ⟨hentries'⟩ := h'
  exact hentries.unambiguous hentries' (List.cons.inj heq).2

end Unambiguous

/-! Envelopes -/

/-- The text of an object or an array. -/
def IsContainer (text : Octets) : Prop :=
  IsValue text ∧ ∃ container rest, text = Container.opening container :: rest

/-- An object with one entry, which has the name as its key and an object or an array as its value.
There may be blanks around it. -/
inductive IsEnvelope (name : String) : Octets → Prop
  | mk {blanks object content behind : Octets} (hblanks : Blank blanks)
      (hobject : SpelledObject [(name, content)] object) (hcontent : IsContainer content)
      (hbehind : Blank behind) : IsEnvelope name (blanks ++ (object ++ behind))

/-- Where an envelope is expected, an object has to have its only entry. -/
theorem IsEnvelope.entries {name : String} {entries : List (String × Octets)}
    {blanks object behind : Octets} (h : IsEnvelope name (blanks ++ (object ++ behind)))
    (hblanks : Blank blanks) (hobject : SpelledObject entries object) :
    ∃ content, entries = [(name, content)] := by
  generalize htext : blanks ++ (object ++ behind) = text at h
  obtain ⟨hblanks', hobject', -, -⟩ := h
  have hskip := congrArg skipBlank htext
  rw [skipBlank_value hblanks hobject.isValue, skipBlank_value hblanks' hobject'.isValue] at hskip
  exact ⟨_, (hobject.unambiguous hobject' hskip).1⟩

theorem IsEnvelope.name_eq {name name' : String} {text : Octets} (h : IsEnvelope name text)
    (h' : IsEnvelope name' text) : name = name' := by
  obtain ⟨hblanks, hobject, -, -⟩ := h
  obtain ⟨content, hentries⟩ := h'.entries hblanks hobject
  exact (Prod.mk.inj (List.cons.inj hentries).1).1

/-- An envelope begins with a brace. -/
theorem IsEnvelope.first {name : String} {blanks rest : Octets} {octet : UInt8}
    (h : IsEnvelope name (blanks ++ octet :: rest)) (hblanks : Blank blanks)
    (hoctet : isBlank octet = false) : octet = Ascii.openBrace := by
  generalize htext : blanks ++ octet :: rest = text at h
  obtain ⟨hblanks', hobject, -, -⟩ := h
  have hskip := congrArg skipBlank htext
  rw [skipBlank_append hblanks hoctet, skipBlank_value hblanks' hobject.isValue] at hskip
  obtain ⟨-⟩ := hobject
  exact (List.cons.inj hskip).1

/-! Unions -/

/-- A record is read from an object or an array. -/
theorem readRecord_first {α σ : Type} {title : String} {fuel : Nat} {elements : Reader α}
    {entry : String → σ → Reader σ} {start : σ} {collect : σ → Except String α}
    {input rest : Octets} {value : α}
    (h : readRecord title fuel elements entry start collect input = .ok (value, rest)) :
    ∃ container behind, skipBlank input = Container.opening container :: behind := by
  rw [readRecord_eq] at h
  obtain ⟨octet, behind, hskip, h⟩ := leading_eq_ok.mp h
  split at h
  · next hlist => exact ⟨.list, behind, by rw [hskip, hlist]; rfl⟩
  · split at h
    · next hobject => exact ⟨.object, behind, by rw [hskip, hobject]; rfl⟩
    · simp at h

/-- What follows the name of a case is read as a value of that case. -/
theorem Cases.readContent_name {fuel : Nat} : (cases : Cases) → (index : Nat) →
    {input rest : Octets} → {value : cases.Val} →
    cases.readContent fuel index input = .ok (value, rest) →
    cases.names[index]? = some (cases.entry value).1 ∧
      ∃ container behind, skipBlank input = Container.opening container :: behind
  | .nil, _, _, _, value, _ => nomatch value
  | .cons name title fields rest, 0, _, _, _, h => by
    obtain ⟨⟨value, behind⟩, hrecord, hvalue⟩ := bind_eq_ok.mp h
    obtain ⟨rfl, rfl⟩ := ok_pair_inj hvalue
    exact ⟨rfl, readRecord_first hrecord⟩
  | .cons name title fields rest, index + 1, _, _, _, h => by
    obtain ⟨⟨value, behind⟩, hcontent, hvalue⟩ := bind_eq_ok.mp h
    obtain ⟨rfl, rfl⟩ := ok_pair_inj hvalue
    exact rest.readContent_name index hcontent

theorem Cases.readContent_split {cases : Cases} {fuel index : Nat} {input rest : Octets}
    {value : cases.Val} (h : cases.readContent fuel index input = .ok (value, rest)) :
    ∃ blanks content, Blank blanks ∧ IsContainer content ∧ input = blanks ++ (content ++ rest) := by
  obtain ⟨blanks, content, hblanks, hcontent, rfl⟩ :=
    Skippable.split (cases.readContent_skippable fuel index) h
  obtain ⟨-, container, behind, hskip⟩ := cases.readContent_name index h
  rw [skipBlank_value hblanks hcontent] at hskip
  obtain ⟨octet, inner, rfl, -⟩ := hcontent.first
  obtain ⟨rfl, -⟩ := List.cons.inj hskip
  exact ⟨blanks, _, hblanks, ⟨hcontent, container, inner, rfl⟩, rfl⟩

/-- The content of a name is the value of the only entry of an object. -/
theorem readNamed_split {α : Type} {names : List String} {alone : Fin names.length → Except Fault α}
    {content : Fin names.length → Reader α} (halone : ∀ index value, alone index ≠ .ok value)
    {input rest : Octets} {value : α}
    (h : readNamed names alone content input = .ok (value, rest)) :
    ∃ index inner behind, content index inner = .ok (value, behind) ∧
      ∀ {blanks text}, Blank blanks → IsValue text → inner = blanks ++ (text ++ behind) →
        ∃ blanks' object, Blank blanks' ∧ SpelledObject [(names.get index, text)] object ∧
          input = blanks' ++ (object ++ rest) := by
  rw [readNamed_eq] at h
  obtain ⟨octet, behind, hskip, hnamed⟩ := leading_eq_ok.mp h
  split at hnamed
  · obtain ⟨index, behind', -, hthen⟩ := andThen_eq_ok.mp hnamed
    obtain ⟨value', hmeant, -⟩ := bind_eq_ok.mp hthen
    exact absurd hmeant (halone index value')
  · split at hnamed
    · next hbrace =>
      obtain ⟨octet', behind', hskip', hkeyed⟩ := leading_eq_ok.mp hnamed
      split at hkeyed
      · next hquote =>
        obtain ⟨index, tail, hname, hthen⟩ := andThen_eq_ok.mp hkeyed
        obtain ⟨value', end', hvalue, hend⟩ := andThen_eq_ok.mp hthen
        obtain ⟨inner, hcolon, hcontent⟩ := bind_eq_ok.mp hvalue
        obtain ⟨rfl, hclose⟩ := readOnlyEnd_close hend
        refine ⟨index, inner, end', hcontent, fun {blanks text} hblanks htext hinner => ?_⟩
        obtain ⟨spelling, hspells, htail⟩ := readText_eq_ok.mp (readText_of_readName hname)
        obtain ⟨outside, houtside, hinput⟩ := skipBlank_split hskip
        obtain ⟨inside, hinside, hbehind⟩ := skipBlank_split hskip'
        obtain ⟨before, hbefore, hcolon⟩ := readColon_split hcolon
        obtain ⟨ending, hending, hrest⟩ := skipBlank_split hclose
        have hentry := SpelledEntry.mk hspells hbefore hblanks htext
        refine ⟨outside, _, houtside, .mk (.head hinside hentry (.nil hending)), ?_⟩
        rw [hinput, hbrace, hbehind, hquote, htail, hcolon, hinner, hrest]
        simp [Container.close]
      · split at hkeyed <;> simp at hkeyed
    · simp at hnamed

/-- A union is read from an envelope with the name of the case. -/
theorem Schema.readAll_envelope {cases : Cases} {input : Octets} {value : cases.Val}
    (h : (Schema.union cases).readAll input = .ok value) :
    IsEnvelope (cases.entry value).1 input := by
  obtain ⟨rest, hread, hrest⟩ := (Schema.readAll_eq_ok (Nat.lt_succ_self _)).mp h
  have hnamed : readNamed cases.names (fun _ => .error fieldlessFault)
      (fun index => cases.readContent (input.length + 1) index.val) input = .ok (value, rest) :=
    hread
  obtain ⟨index, inner, behind, hcontent, haround⟩ := readNamed_split (by simp) hnamed
  obtain ⟨blanks, content, hblanks, hcontainer, hinner⟩ := Cases.readContent_split hcontent
  obtain ⟨blanks', object, hblanks', hobject, rfl⟩ := haround hblanks hcontainer.1 hinner
  have hname : cases.names.get index = (cases.entry value).1 :=
    Option.some.inj ((List.getElem?_eq_getElem index.isLt).symm.trans
      (cases.readContent_name index.val hcontent).1)
  rw [← hname]
  exact .mk hblanks' hobject hcontainer hrest

end Wire

open Json Wire

namespace Sender

/-- The kind of a message that a side sends. -/
def kind : (sender : Sender) → sender.Message → String
  | .host, request => request.kind
  | .plugin, reply => reply.kind

theorem envelope {sender : Sender} {input : Octets} {message : sender.Message}
    (h : Wire.decode sender.Message input = .ok message) :
    IsEnvelope (sender.kind message) input := by
  rw [Wire.decode_eq_ok] at h
  cases sender with
  | host =>
    have henvelope := Schema.readAll_envelope h
    cases message <;> exact henvelope
  | plugin =>
    have henvelope := Schema.readAll_envelope h
    cases message <;> exact henvelope

/-- What is no envelope of any kind is refused. -/
theorem refuses {sender : Sender} {input : Octets}
    (h : ∀ message : sender.Message, ¬ IsEnvelope (sender.kind message) input) :
    ∃ e, Wire.decode sender.Message input = .error e := by
  cases hread : Wire.decode sender.Message input with
  | ok message => exact absurd (envelope hread) (h message)
  | error e => exact ⟨e, rfl⟩

theorem refuses_object {sender : Sender} {entries : List (String × Octets)}
    {blanks object : Octets} (hblanks : Blank blanks) (hobject : SpelledObject entries object)
    (hkeys : ∀ message : sender.Message, entries.map Prod.fst ≠ [sender.kind message])
    (behind : Octets) :
    ∃ e, Wire.decode sender.Message (blanks ++ (object ++ behind)) = .error e := by
  refine refuses fun message henvelope => ?_
  obtain ⟨content, rfl⟩ := henvelope.entries hblanks hobject
  exact hkeys message rfl

/-- No kind of request is a kind of reply. -/
theorem kind_ne (request : Request) (reply : Reply) : request.kind ≠ reply.kind := by
  cases request <;> cases reply <;> simp [Request.kind, Reply.kind]

/-- Only envelopes are read as messages, each as a message of the kind that it names, and every
message is written as one. So an object with no entry or several is refused, whatever follows it,
and so are an object with a name that is no kind of message and a text that stands alone; and what
is read as a request is not read as a reply. -/
theorem messages_in_envelopes :
    (∀ (sender : Sender) {input : Octets} {message : sender.Message},
        Wire.decode sender.Message input = .ok message →
          IsEnvelope (sender.kind message) input) ∧
      (∀ (sender : Sender) (message : sender.Message),
        IsEnvelope (sender.kind message) (.ofText (Wire.encode message))) ∧
      (∀ (sender : Sender) {entries : List (String × Octets)} {blanks object : Octets},
        Blank blanks → SpelledObject entries object → entries.length ≠ 1 →
          ∀ behind, ∃ e, Wire.decode sender.Message (blanks ++ (object ++ behind)) = .error e) ∧
      (∀ (sender : Sender) {name : String} {content blanks object : Octets},
        Blank blanks → SpelledObject [(name, content)] object →
          (∀ message : sender.Message, sender.kind message ≠ name) →
          ∀ behind, ∃ e, Wire.decode sender.Message (blanks ++ (object ++ behind)) = .error e) ∧
      (∀ (sender : Sender) {blanks : Octets}, Blank blanks →
        ∀ behind, ∃ e, Wire.decode sender.Message (blanks ++ Ascii.quote :: behind) = .error e) ∧
      ∀ (input : Octets) (request : Request) (reply : Reply),
        ¬ (Wire.decode Request input = .ok request ∧ Wire.decode Reply input = .ok reply) := by
  refine ⟨fun sender {input message} => envelope, ?_, ?_, ?_, ?_, ?_⟩
  · intro sender message
    have hread := Wire.decode_encode sender.schema_distinct message blank_nil
    rw [List.append_nil] at hread
    exact envelope hread
  · intro sender entries blanks object hblanks hobject hlength behind
    refine refuses_object hblanks hobject (fun message hkeys => hlength ?_) behind
    have hone := congrArg List.length hkeys
    rwa [List.length_map] at hone
  · intro sender name content blanks object hblanks hobject hname behind
    refine refuses_object hblanks hobject (fun message hkeys => hname message ?_) behind
    exact (List.cons.inj hkeys).1.symm
  · intro sender blanks hblanks behind
    refine refuses fun message henvelope => ?_
    have hbrace := henvelope.first hblanks (by decide)
    exact absurd hbrace (by decide)
  · rintro input request reply ⟨hrequest, hreply⟩
    have henvelope : IsEnvelope request.kind input := @envelope .host input request hrequest
    have henvelope' : IsEnvelope reply.kind input := @envelope .plugin input reply hreply
    exact kind_ne request reply (henvelope.name_eq henvelope')

/-- A request to load a library, whose name has an escape in it and whose content is an array. -/
theorem library_in_envelope :
    let text : Octets := .ofText " \x7b\"loadPluginLibr\\u0061ry\": [\"a\",\"b\"] \x7d"
    Wire.decode Request text = .ok (.loadLibrary "a" "b") ∧
      IsEnvelope "loadPluginLibrary" text := by
  intro text
  have hread : Wire.decode Request text = .ok (.loadLibrary "a" "b") := rfl
  exact ⟨hread, messages_in_envelopes.1 .host hread⟩

end Sender

end MacroPlugin
