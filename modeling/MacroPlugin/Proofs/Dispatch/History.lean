import MacroPlugin.Dispatch.Dispatcher

/-!
A dispatcher over a whole sequence of requests. No request changes the registry, the capability or
the echo, and the agreement after a history is that of its most recent request for the capability
(`answerAll_state`). So a reply depends on what came before it through the last declared host
version and nothing else, which is what decides the form of every expansion.
-/

namespace MacroPlugin

/-- What a request for the capability declares about the host; `none` for any other request. -/
def Request.greeting? : Request → Option (Option HostCapability)
  | .getCapability host => some host
  | _ => none

/-- The most recent request for the capability in a history, by what it declared. -/
def lastGreeting (history : List Request) : Option (Option HostCapability) :=
  (history.filterMap Request.greeting?).getLast?

/-- The host version that a history leaves in effect: zero if the host has not asked for the
capability yet, or has declared nothing when it last did. -/
def hostVersion (history : List Request) : UInt32 :=
  match lastGreeting history with
  | some (some host) => host.protocolVersion
  | _ => 0

/-- Whether a reply is of the kind that a request calls for when `version` is the lower of the two
declared versions. -/
def Reply.Fits (capability : PluginCapability) (version : UInt32) (reply : Reply) : Request → Prop
  | .getCapability _ => reply = .capability capability
  | .expandFreestanding _ =>
    if 5 ≤ version then ∃ source diagnostics, reply = .expansion source diagnostics
    else ∃ source diagnostics, reply = .freestandingExpansion source diagnostics
  | .expandAttached _ =>
    if 5 ≤ version then ∃ source diagnostics, reply = .expansion source diagnostics
    else ∃ sources diagnostics, reply = .attachedExpansion sources diagnostics
  | .loadLibrary _ _ => ∃ loaded diagnostics, reply = .libraryLoaded loaded diagnostics

theorem lastGreeting_cons (request : Request) (rest : List Request) :
    lastGreeting (request :: rest) = (lastGreeting rest).or request.greeting? := by
  unfold lastGreeting
  cases hgreeting : request.greeting? with
  | none => simp [hgreeting]
  | some host =>
    rw [List.filterMap_cons_some hgreeting, List.getLast?_cons]
    cases (rest.filterMap Request.greeting?).getLast? <;> rfl

namespace Dispatcher

/-- A dispatcher that has answered nothing yet. -/
def fresh (registry : Registry) (capability : PluginCapability) (echo : Bool) : Dispatcher :=
  { registry, capability, echo }

/-- Answers requests one after the other. -/
def answerAll (d : Dispatcher) : List Request → List Reply × Dispatcher
  | [] => ([], d)
  | request :: rest =>
    let (reply, d) := d.answer request
    let (replies, d) := d.answerAll rest
    (reply :: replies, d)

theorem answerAll_cons (d : Dispatcher) (request : Request) (rest : List Request) :
    d.answerAll (request :: rest) =
      ((d.answer request).1 :: ((d.answer request).2.answerAll rest).1,
        ((d.answer request).2.answerAll rest).2) := rfl

theorem answerAll_append (d : Dispatcher) (before after : List Request) :
    d.answerAll (before ++ after) =
      ((d.answerAll before).1 ++ ((d.answerAll before).2.answerAll after).1,
        ((d.answerAll before).2.answerAll after).2) := by
  induction before generalizing d with
  | nil => rfl
  | cons request rest ih => rw [List.cons_append, answerAll_cons, ih, answerAll_cons]; rfl

/-- Every request has exactly one reply. -/
theorem answerAll_length (d : Dispatcher) (requests : List Request) :
    (d.answerAll requests).1.length = requests.length := by
  induction requests generalizing d with
  | nil => rfl
  | cons request rest ih => simp only [answerAll_cons, List.length_cons, ih]

/-- The agreement that a greeting leads to; without one the earlier agreement stands. -/
def agreedAfter (d : Dispatcher) (greeting : Option (Option HostCapability)) : Option Agreement :=
  (greeting.map fun host => Agreement.between host d.capability).or d.agreed

/-- A request changes nothing but the agreement. -/
theorem answer_state (d : Dispatcher) (request : Request) :
    (d.answer request).2 = { d with agreed := d.agreedAfter request.greeting? } := by
  cases request <;> rfl

/-- After any history, only the most recent greeting has left a trace. -/
theorem answerAll_state (d : Dispatcher) (history : List Request) :
    (d.answerAll history).2 = { d with agreed := d.agreedAfter (lastGreeting history) } := by
  induction history generalizing d with
  | nil => rfl
  | cons request rest ih =>
    rw [answerAll_cons, ih, answer_state, lastGreeting_cons]
    simp only [agreedAfter]
    cases lastGreeting rest <;> rfl

theorem agreement_after (registry : Registry) (capability : PluginCapability) (echo : Bool)
    (history : List Request) :
    ((fresh registry capability echo).answerAll history).2.agreement =
      ⟨hostVersion history, capability.protocolVersion⟩ := by
  rw [answerAll_state]
  unfold agreement agreedAfter hostVersion
  rcases lastGreeting history with _ | _ | host
  · rfl
  · rfl
  · rfl

theorem isUnified_iff (a : Agreement) :
    a.isUnified = true ↔ 5 ≤ min a.hostVersion a.pluginVersion := by
  unfold Agreement.isUnified Agreement.unifiedSince Agreement.version
  exact decide_eq_true_iff

/-- The form of the reply follows the agreement in effect, whatever the implementations do. -/
theorem answer_fits (d : Dispatcher) (request : Request) :
    (d.answer request).1.Fits d.capability
      (min d.agreement.hostVersion d.agreement.pluginVersion) request := by
  have hform := isUnified_iff d.agreement
  cases request with
  | getCapability host => rfl
  | expandFreestanding use =>
    simp only [Reply.Fits, answer, answerFreestanding, ReplyForm.choose]
    split
    · next hversion => simp [hform.mpr hversion, ReplyForm.reply]
    · next hversion => simp [mt hform.mp hversion, ReplyForm.reply]
  | expandAttached use =>
    simp only [Reply.Fits, answer, answerAttached, ReplyForm.choose]
    split
    · next hversion => simp [hform.mpr hversion, ReplyForm.reply]
    · next hversion => simp [mt hform.mp hversion, ReplyForm.reply]
  | loadLibrary path moduleName => exact ⟨_, _, rfl⟩

/-- The reply to one request of a sequence is the answer in the state that those before it left. -/
theorem answerAll_getElem? (d : Dispatcher) (history rest : List Request) (request : Request) :
    (d.answerAll (history ++ request :: rest)).1[history.length]? =
      some ((d.answerAll history).2.answer request).1 := by
  rw [answerAll_append, answerAll_cons]
  simp only
  rw [List.getElem?_append_right (Nat.le_of_eq (answerAll_length d history)), answerAll_length,
    Nat.sub_self]
  rfl

/-- Wherever a request stands in a sequence, its reply is of the kind that the lower of the plugin's
version and the last declared host version asks for. Every other history with the same last
greeting leads to the same reply, whatever else it contains. -/
theorem reply_follows_last_greeting (registry : Registry) (capability : PluginCapability)
    (echo : Bool) (history rest : List Request) (request : Request) :
    ∃ reply,
      ((fresh registry capability echo).answerAll
        (history ++ request :: rest)).1[history.length]? = some reply ∧
      reply.Fits capability (min (hostVersion history) capability.protocolVersion) request ∧
      ∀ history' rest', lastGreeting history' = lastGreeting history →
        ((fresh registry capability echo).answerAll
          (history' ++ request :: rest')).1[history'.length]? = some reply := by
  refine ⟨_, answerAll_getElem? _ history rest request, ?_, ?_⟩
  · have hfits := answer_fits ((fresh registry capability echo).answerAll history).2 request
    rw [agreement_after] at hfits
    rw [answerAll_state] at hfits ⊢
    exact hfits
  · intro history' rest' hsame
    rw [answerAll_getElem?, answerAll_state, answerAll_state, hsame]

/-- An attribute that no plugin serves, asked for after two greetings: only the second one counts,
and the reply is of the older kind. -/
theorem reply_follows_second_greeting :
    let fragment : Fragment := ⟨.attr, "@T", ⟨"A/a.swift", "/a.swift", 0, 1, 1⟩⟩
    let use : AttachedUse := ⟨⟨"M", "T", "T"⟩, .peer, "d", fragment, fragment, none, none, none⟩
    let history := [.getCapability (some ⟨7⟩), .loadLibrary "x" "M", .getCapability none]
    lastGreeting history = lastGreeting [.getCapability none] ∧
    ((fresh .empty .current false).answerAll (history ++ [.expandAttached use])).1[3]? =
      ((fresh .empty .current false).answerAll
        [.getCapability none, .expandAttached use]).1[1]? := by
  intro fragment use history
  have hsame : lastGreeting history = lastGreeting [.getCapability none] := rfl
  obtain ⟨reply, hreply, -, hother⟩ := reply_follows_last_greeting .empty .current false
    [.getCapability none] [] (.expandAttached use)
  exact ⟨hsame, (hother history [] hsame).trans hreply.symm⟩

end Dispatcher

end MacroPlugin
