import Mathlib.Data.List.TakeWhile
import MacroPlugin.Expansion.Builtin
import MacroPlugin.Proofs.Dispatch.Failures
import MacroPlugin.Proofs.Text.Encoding

/-!
The argument of a macro call. A source comes apart at its first opening and its last closing
parenthesis in one way at most (`Argument.Splits`), and if the second stands behind the first, the
argument is what is between them. A parenthesis is one octet and no part of any other character, so
the octets of the source come apart at the same places.

A call without such an argument is malformed. The macros that read their argument fail there with
the whole source and the reason, and the reply says so (`Dispatcher.argument_decides_answer`).
-/

namespace MacroPlugin

namespace Argument

/-- A text, cut at the first `opening` and the last `closing` in it. -/
structure Splits {α : Type} (opening closing : α) (text before argument after : List α) :
    Prop where
  text_eq : text = before ++ opening :: (argument ++ closing :: after)
  first : opening ∉ before
  last : closing ∉ after

section Search

variable {c : Char} {text before behind after : List Char}

theorem behindFirst?_of_not_mem (h : c ∉ text) : behindFirst? c text = none := by
  have hall : text.dropWhile (· ≠ c) = [] := by
    rw [List.dropWhile_eq_nil_iff]
    intro other hmem
    simpa using ne_of_mem_of_not_mem hmem h
  rw [behindFirst?, hall]

theorem behindFirst?_append (h : c ∉ before) :
    behindFirst? c (before ++ c :: behind) = some behind := by
  have hpassed : ∀ other ∈ before, decide (other ≠ c) = true := by
    intro other hmem
    simpa using ne_of_mem_of_not_mem hmem h
  rw [behindFirst?, List.dropWhile_append_of_pos hpassed, List.dropWhile_cons_of_neg (by simp)]

/-- The last occurrence is the first one of the text backwards. -/
theorem beforeLast?_eq (c : Char) (text : List Char) :
    beforeLast? c text = (behindFirst? c text.reverse).map List.reverse := by
  unfold beforeLast? behindFirst?
  cases text.reverse.dropWhile (· ≠ c) <;> rfl

theorem beforeLast?_of_not_mem (h : c ∉ text) : beforeLast? c text = none := by
  rw [beforeLast?_eq, behindFirst?_of_not_mem (by simpa using h)]
  rfl

theorem beforeLast?_append (h : c ∉ after) :
    beforeLast? c (before ++ c :: after) = some before := by
  have hreverse : (before ++ c :: after).reverse = after.reverse ++ c :: before.reverse := by simp
  rw [beforeLast?_eq, hreverse, behindFirst?_append (by simpa using h), Option.map_some,
    List.reverse_reverse]

/-- A character of a text has a first occurrence in it. -/
theorem exists_first (h : c ∈ text) : ∃ before behind, text = before ++ c :: behind ∧ c ∉ before := by
  obtain ⟨before, behind, rfl, hfirst⟩ := List.eq_append_cons_of_mem h
  exact ⟨before, behind, rfl, hfirst⟩

/-- It has a last one as well. -/
theorem exists_last (h : c ∈ text) : ∃ before after, text = before ++ c :: after ∧ c ∉ after := by
  obtain ⟨after, before, htext, hlast⟩ := exists_first (List.mem_reverse.mpr h)
  refine ⟨before.reverse, after.reverse, ?_, by simpa using hlast⟩
  rw [← List.reverse_reverse text, htext]
  simp

end Search

/-- An octet of ASCII is an octet of its own character only. -/
theorem mem_octets_iff {c : Char} (hascii : c.toNat < 0x80) {text : List Char} :
    c.toNat.toUInt8 ∈ Octets.ofText (String.ofList text) ↔ c ∈ text := by
  rw [Octets.ofText_ofList, List.mem_flatMap]
  constructor
  · rintro ⟨other, hmem, hoctet⟩
    by_cases hother : other.toNat < 0x80
    · rw [Octets.encodeChar_of_ascii hother, List.mem_singleton] at hoctet
      have hnat := congrArg UInt8.toNat hoctet
      have hsame : c.toNat = other.toNat := by
        rw [Nat.toUInt8_eq, Nat.toUInt8_eq, UInt8.toNat_ofNat', UInt8.toNat_ofNat'] at hnat
        omega
      rwa [Char.toNat_inj.mp hsame]
    · have hlarge := Octets.encodeChar_ge (Nat.le_of_not_lt hother) _ hoctet
      rw [UInt8.le_iff_toNat_le, Nat.toUInt8_eq, UInt8.toNat_ofNat'] at hlarge
      have hbound : (0x80 : UInt8).toNat = 128 := rfl
      omega
  · intro hmem
    refine ⟨c, hmem, ?_⟩
    rw [Octets.encodeChar_of_ascii hascii]
    exact List.mem_singleton_self _

section Cuts

variable {α : Type} {a : α} {before before' behind behind' : List α}

/-- There is one way to cut a text at the first place of an element. -/
theorem first_unique (h : before ++ a :: behind = before' ++ a :: behind') (hbefore : a ∉ before)
    (hbefore' : a ∉ before') : before = before' ∧ behind = behind' := by
  rcases List.append_eq_append_iff.mp h with ⟨more, hmore, htail⟩ | ⟨more, hmore, htail⟩
  · cases more with
    | nil => exact ⟨by simpa using hmore.symm, (List.cons.inj htail).2⟩
    | cons other more => simp [hmore, (List.cons.inj htail).1] at hbefore'
  · cases more with
    | nil => exact ⟨by simpa using hmore, (List.cons.inj htail).2.symm⟩
    | cons other more => simp [hmore, (List.cons.inj htail).1] at hbefore

/-- There is one way to cut it at the last place. -/
theorem last_unique (h : before ++ a :: behind = before' ++ a :: behind') (hbehind : a ∉ behind)
    (hbehind' : a ∉ behind') : before = before' ∧ behind = behind' := by
  have hreverse : behind.reverse ++ a :: before.reverse =
      behind'.reverse ++ a :: before'.reverse := by
    simpa using congrArg List.reverse h
  obtain ⟨hsame, hsame'⟩ := first_unique hreverse (by simpa using hbehind) (by simpa using hbehind')
  exact ⟨List.reverse_inj.mp hsame', List.reverse_inj.mp hsame⟩

/-- There is no other way to split a text. -/
theorem Splits.unique {opening closing : α} {text argument after argument' after' : List α}
    (h : Splits opening closing text before argument after)
    (h' : Splits opening closing text before' argument' after') :
    before' = before ∧ argument' = argument ∧ after' = after := by
  obtain ⟨hbefore, hbehind⟩ := first_unique (h'.text_eq.symm.trans h.text_eq) h'.first h.first
  exact ⟨hbefore, last_unique hbehind h'.last h.last⟩

end Cuts

/-- The octets of a split text are split as well, at octets that no larger character has. -/
theorem Splits.octets {opening closing : Char} (hopening : opening.toNat < 0x80)
    (hclosing : closing.toNat < 0x80) {text : String} {before argument after : List Char}
    (h : Splits opening closing text.toList before argument after) :
    Splits opening.toNat.toUInt8 closing.toNat.toUInt8 (Octets.ofText text)
      (Octets.ofText (String.ofList before)) (Octets.ofText (String.ofList argument))
      (Octets.ofText (String.ofList after)) where
  text_eq := by
    rw [Octets.ofText_eq_flatMap, h.text_eq, List.flatMap_append, List.flatMap_cons,
      List.flatMap_append, List.flatMap_cons, Octets.encodeChar_of_ascii hopening,
      Octets.encodeChar_of_ascii hclosing, Octets.ofText_ofList, Octets.ofText_ofList,
      Octets.ofText_ofList]
    rfl
  first := mt (mem_octets_iff hopening).mp h.first
  last := mt (mem_octets_iff hclosing).mp h.last

end Argument

namespace Fragment

variable (fragment : Fragment)

theorem argument_of_splits {before argument after : List Char}
    (h : Argument.Splits '(' ')' fragment.source.toList before argument after) :
    fragment.argument = .ok argument := by
  simp only [Fragment.argument, h.text_eq, Argument.behindFirst?_append h.first,
    Argument.beforeLast?_append h.last]

theorem argument_of_no_opening (h : '(' ∉ fragment.source.toList) :
    fragment.argument = .error (.malformed fragment.source "expected an argument list") := by
  simp only [Fragment.argument, Argument.behindFirst?_of_not_mem h]

theorem argument_of_no_closing {before behind : List Char}
    (hsource : fragment.source.toList = before ++ '(' :: behind) (hfirst : '(' ∉ before)
    (hclosing : ')' ∉ behind) :
    fragment.argument = .error (.malformed fragment.source "unterminated argument list") := by
  simp only [Fragment.argument, hsource, Argument.behindFirst?_append hfirst,
    Argument.beforeLast?_of_not_mem hclosing]

/-- A parenthesis closes behind the first one that opens. -/
def HasArgument : Prop :=
  ∃ before behind, fragment.source.toList = before ++ '(' :: behind ∧ '(' ∉ before ∧ ')' ∈ behind

/-- Why there is no argument. -/
def complaint : String :=
  if '(' ∈ fragment.source.toList then "unterminated argument list"
  else "expected an argument list"

/-- A fragment with an argument is split around it. -/
theorem splits_of_hasArgument (h : fragment.HasArgument) : ∃ before argument after,
    Argument.Splits '(' ')' fragment.source.toList before argument after := by
  obtain ⟨before, behind, hsource, hfirst, hclosing⟩ := h
  obtain ⟨argument, after, rfl, hlast⟩ := Argument.exists_last hclosing
  exact ⟨before, argument, after, hsource, hfirst, hlast⟩

theorem hasArgument_of_splits {before argument after : List Char}
    (h : Argument.Splits '(' ')' fragment.source.toList before argument after) :
    fragment.HasArgument :=
  ⟨before, _, h.text_eq, h.first, by simp⟩

theorem argument_eq_ok_iff {argument : List Char} :
    fragment.argument = .ok argument ↔ ∃ before after,
      Argument.Splits '(' ')' fragment.source.toList before argument after := by
  constructor
  · intro hok
    by_cases hopening : '(' ∈ fragment.source.toList
    · obtain ⟨before, behind, hsource, hfirst⟩ := Argument.exists_first hopening
      by_cases hclosing : ')' ∈ behind
      · obtain ⟨before, other, after, hsplits⟩ :=
          fragment.splits_of_hasArgument ⟨before, behind, hsource, hfirst, hclosing⟩
        rw [fragment.argument_of_splits hsplits, Except.ok.injEq] at hok
        exact ⟨before, after, hok ▸ hsplits⟩
      · simp [fragment.argument_of_no_closing hsource hfirst hclosing] at hok
    · simp [fragment.argument_of_no_opening hopening] at hok
  · rintro ⟨before, after, hsplits⟩
    exact fragment.argument_of_splits hsplits

/-- Without an argument the whole source is malformed. -/
theorem argument_of_not_hasArgument (h : ¬ fragment.HasArgument) :
    fragment.argument = .error (.malformed fragment.source fragment.complaint) := by
  unfold complaint
  by_cases hopening : '(' ∈ fragment.source.toList
  · obtain ⟨before, behind, hsource, hfirst⟩ := Argument.exists_first hopening
    have hclosing : ')' ∉ behind := fun hmem => h ⟨before, behind, hsource, hfirst, hmem⟩
    rw [if_pos hopening, fragment.argument_of_no_closing hsource hfirst hclosing]
  · rw [if_neg hopening, fragment.argument_of_no_opening hopening]

end Fragment

namespace Builtin

/-- The keys under which a call is answered with its argument and a literal of it. -/
def stringifyKeys : List Key :=
  [⟨exampleModule, "ExpressionMacro"⟩, ⟨stringifyModule, "StringifyMacro"⟩]

/-- The key under which the argument of a call is reported. -/
def warnKey : Key :=
  ⟨exampleModule, "DeclarationMacro"⟩

theorem find?_stringify {key : Key} (h : key ∈ stringifyKeys) :
    registry.find? key = some (.freestanding fun use => .ofExcept (stringify use)) := by
  simp only [stringifyKeys, List.mem_cons, List.not_mem_nil, or_false] at h
  rcases h with rfl | rfl <;> rfl

theorem find?_warn :
    registry.find? warnKey = some (.freestanding fun use => .ofExcept (warn use)) :=
  rfl

/-- An argument, and behind it the literal that says it, in parentheses. -/
def quoted (argument : List Char) : String :=
  String.ofList ('(' :: argument ++ ", ".toList ++ StringLiteral.render argument ++ [')'])

theorem stringify_of_argument {use : FreestandingUse} {argument : List Char}
    (h : use.fragment.argument = .ok argument) :
    stringify use = .ok (.ofSource (quoted argument)) := by
  rw [stringify, h]
  rfl

/-- Both macros that read their argument fail where there is none. -/
theorem fails_of_argument {use : FreestandingUse} {failure : Failure}
    (h : use.fragment.argument = .error failure) :
    stringify use = .error failure ∧ warn use = .error failure := by
  rw [stringify, warn, h]
  exact ⟨rfl, rfl⟩

end Builtin

namespace Dispatcher

section Answers

variable {d : Dispatcher} {use : FreestandingUse}
  {expand : FreestandingUse → Except Failure Expansion}
  (hfind : d.registry.find? use.reference.key =
    some (.freestanding fun use => .ofExcept (expand use)))

include hfind

theorem answer_of_ok {expansion : Expansion} (h : expand use = .ok expansion) :
    d.answer (.expandFreestanding use) = ((ReplyForm.choose d.agreement .freestanding).reply
      ⟨d.freestandingSource (.expandFreestanding use) expansion, expansion.diagnostics⟩, d) := by
  have hrun : d.runFreestanding use = expansion := by
    rw [runFreestanding, hfind]
    simp only [h]
    rfl
  rw [answer, answerFreestanding, hrun]

theorem answer_of_error {failure : Failure} (h : expand use = .error failure) :
    d.answer (.expandFreestanding use) = ((ReplyForm.choose d.agreement .freestanding).reply
      ⟨some (d.placeholder (.expandFreestanding use)),
        [failed use.reference use.fragment failure]⟩, d) := by
  have hrun : d.runFreestanding use =
      .failure (failed use.reference use.fragment failure) := by
    rw [runFreestanding, hfind]
    simp only [h]
    rfl
  rw [answer, answerFreestanding, hrun]
  rfl

end Answers

/-- How the built-in macros answer a call. A call has an argument if and only if a parenthesis closes
behind the first one that opens; the argument is then what is between the first opening and the last
closing parenthesis, in characters as in octets, and it is answered with a literal of itself. Any
other call is malformed: it is answered with an error that says why, and its source is empty, or the
request as a comment if requests are echoed. -/
theorem argument_decides_answer (capability : PluginCapability) (echo : Bool)
    (agreed : Option Agreement) (use : FreestandingUse) :
    let d : Dispatcher := ⟨Builtin.registry, capability, echo, agreed⟩
    let request := Request.expandFreestanding use
    let form := ReplyForm.choose d.agreement .freestanding
    let source := use.fragment.source
    ((∃ argument, use.fragment.argument = .ok argument) ↔ use.fragment.HasArgument) ∧
    (∀ argument, use.fragment.argument = .ok argument →
      (∃ before after, Argument.Splits '(' ')' source.toList before argument after ∧
        (∀ before' argument' after',
          Argument.Splits '(' ')' source.toList before' argument' after' →
            before' = before ∧ argument' = argument ∧ after' = after) ∧
        Argument.Splits 0x28 0x29 (Octets.ofText source) (Octets.ofText (String.ofList before))
          (Octets.ofText (String.ofList argument)) (Octets.ofText (String.ofList after))) ∧
      (use.reference.key ∈ Builtin.stringifyKeys →
        let text := Builtin.quoted argument
        d.answer request =
          (form.reply ⟨some (if echo then text ++ "\n" ++ request.comment else text), []⟩, d))) ∧
    (¬ use.fragment.HasArgument →
      let failure := Failure.malformed source <|
        if '(' ∈ source.toList then "unterminated argument list" else "expected an argument list"
      let diagnostic := failed use.reference use.fragment failure
      Builtin.stringify use = .error failure ∧ Builtin.warn use = .error failure ∧
      diagnostic.severity = .error ∧
      (use.reference.key ∈ Builtin.stringifyKeys ∨ use.reference.key = Builtin.warnKey →
        d.answer request =
          (form.reply ⟨some (if echo then request.comment else ""), [diagnostic]⟩, d))) := by
  intro d request form source
  refine ⟨⟨?_, ?_⟩, ?_, ?_⟩
  · rintro ⟨argument, hargument⟩
    obtain ⟨before, after, hsplits⟩ := use.fragment.argument_eq_ok_iff.mp hargument
    exact use.fragment.hasArgument_of_splits hsplits
  · intro h
    obtain ⟨before, argument, after, hsplits⟩ := use.fragment.splits_of_hasArgument h
    exact ⟨argument, use.fragment.argument_of_splits hsplits⟩
  · intro argument hargument
    obtain ⟨before, after, hsplits⟩ := use.fragment.argument_eq_ok_iff.mp hargument
    refine ⟨⟨before, after, hsplits, fun _ _ _ => hsplits.unique, ?_⟩, ?_⟩
    · exact hsplits.octets (by decide) (by decide)
    · intro hkey
      exact answer_of_ok (Builtin.find?_stringify hkey) (Builtin.stringify_of_argument hargument)
  · intro h failure diagnostic
    obtain ⟨hstringify, hwarn⟩ :=
      Builtin.fails_of_argument (use.fragment.argument_of_not_hasArgument h)
    refine ⟨hstringify, hwarn, rfl, ?_⟩
    rintro (hkey | hkey)
    · exact answer_of_error (Builtin.find?_stringify hkey) hstringify
    · exact answer_of_error (hkey ▸ Builtin.find?_warn) hwarn

/-- Parentheses in the argument, larger characters at its ends, and white space behind the call. -/
theorem nested_argument_quoted :
    let fragment : Fragment := ⟨.expression, "#s(é(a)→) ", ⟨"A/a.swift", "/a.swift", 0, 1, 1⟩⟩
    let use : FreestandingUse := ⟨⟨"StringifyMacros", "StringifyMacro", "s"⟩, none, "d", fragment⟩
    let d : Dispatcher := ⟨Builtin.registry, .current, false, none⟩
    d.answer (.expandFreestanding use) =
      (.freestandingExpansion (some "(é(a)→, \"é(a)→\")") [], d) := by
  intro fragment use d
  have hargument : use.fragment.argument = .ok "é(a)→".toList := by decide
  have hkey : use.reference.key ∈ Builtin.stringifyKeys := by decide
  exact ((argument_decides_answer .current false none use).2.1 _ hargument).2 hkey

/-- If requests are echoed, the source of a malformed call is not empty. -/
theorem echoed_malformed_not_empty :
    let fragment : Fragment := ⟨.expression, "#t", ⟨"A/a.swift", "/a.swift", 0, 1, 1⟩⟩
    let use : FreestandingUse := ⟨⟨"StringifyMacros", "StringifyMacro", "t"⟩, none, "d", fragment⟩
    let d := fresh Builtin.registry .current true
    use.fragment.argument = .error (.malformed "#t" "expected an argument list") ∧
      ∃ source diagnostic, source ≠ "" ∧ (d.answer (.expandFreestanding use)).1 =
        .freestandingExpansion (some source) [diagnostic] := by
  intro fragment use d
  have hargument : use.fragment.argument = .error (.malformed "#t" "expected an argument list") :=
    use.fragment.argument_of_no_opening (by decide)
  have hkey : use.reference.key ∈ Builtin.stringifyKeys := by decide
  have hanswer : d.answer (.expandFreestanding use) = _ :=
    answer_of_error (Builtin.find?_stringify hkey) (Builtin.fails_of_argument hargument).1
  exact ⟨hargument, _, _, Request.comment_ne_empty (.expandFreestanding use),
    congrArg Prod.fst hanswer⟩

end Dispatcher

end MacroPlugin
