import Mathlib.Algebra.GroupWithZero.Nat
import Mathlib.Data.List.Basic
import MacroPlugin.Proofs.Expansion.Argument

/-!
The warning of a call whose argument is a string literal. White space around the literal is dropped
(`trimBlank`), then every quote at either end, and not only the two of the literal. A body in which
quotes are escaped does not begin with one, so nothing is lost in front. It may end with an escaped
quote, and there the quote is lost, and its backslash is not: `Builtin.warn_of_literal` says what is
reported, and that it is the body in all other cases and only in those.
-/

namespace MacroPlugin

section Trim

variable {p : Char → Bool} {left text right : List Char}

theorem dropWhile_of_head (hleft : ∀ c ∈ left, p c = true)
    (hfirst : ∀ c ∈ text.head?, p c = false) : (left ++ text).dropWhile p = text := by
  rw [List.dropWhile_append_of_pos hleft]
  cases text with
  | nil => rfl
  | cons c rest => exact List.dropWhile_cons_of_neg (by simp [hfirst c rfl])

/-- Trimming leaves a text between others if neither of its ends can be dropped. -/
theorem trimMatches_between (hleft : ∀ c ∈ left, p c = true) (hright : ∀ c ∈ right, p c = true)
    (hne : text ≠ []) (hfirst : ∀ c ∈ text.head?, p c = false)
    (hlast : ∀ c ∈ text.getLast?, p c = false) :
    trimMatches p (left ++ (text ++ right)) = text := by
  have hhead : (text ++ right).head? = text.head? := List.head?_append_of_ne_nil text hne
  rw [trimMatches, dropWhile_of_head hleft (hhead ▸ hfirst), List.reverse_append,
    dropWhile_of_head (by simpa using hright) (by simpa using hlast), List.reverse_reverse]

end Trim

namespace Literal

/-- The number of backslashes that a text ends in. -/
def endRun (text : List Char) : Nat :=
  (text.reverse.takeWhile (· = '\\')).length

theorem getLast?_of_endRun {text : List Char} (h : endRun text ≠ 0) :
    text.getLast? = some '\\' := by
  rw [endRun, Ne, List.length_eq_zero_iff] at h
  rw [List.getLast?_eq_head?_reverse]
  cases hreverse : text.reverse with
  | nil => simp [hreverse] at h
  | cons c rest =>
    by_cases hbackslash : c = '\\'
    · rw [hbackslash, List.head?_cons]
    · simp [hreverse, hbackslash] at h

/-- What may stand between the quotes of a literal: all quotes are escaped, and so is no quote that
stands behind. -/
structure IsBody (text : List Char) : Prop where
  escaped : ∀ i < text.length, text[i]? = some '"' → endRun (text.take i) % 2 = 1
  ended : endRun text % 2 = 0

namespace IsBody

variable {body : List Char} (h : IsBody body)

include h

theorem head_ne_quote : body.head? ≠ some '"' := by
  intro hquote
  cases body with
  | nil => simp at hquote
  | cons c rest =>
    have hodd : endRun [] % 2 = 1 := h.escaped 0 (by simp) (by simpa using hquote)
    simp [endRun] at hodd

/-- In front of a quote at the end there is a backslash. -/
theorem getLast?_of_quote {front : List Char} (hbody : body = front ++ ['"']) :
    front.getLast? = some '\\' := by
  have hodd := h.escaped front.length (by simp [hbody]) (by simp [hbody])
  rw [hbody, List.take_left' rfl] at hodd
  exact getLast?_of_endRun (by omega)

end IsBody

/-- A body without the quote that it may end in. -/
def withoutLastQuote (body : List Char) : List Char :=
  if body.getLast? = some '"' then body.dropLast else body

theorem withoutLastQuote_eq_self_iff {body : List Char} :
    withoutLastQuote body = body ↔ body.getLast? ≠ some '"' := by
  unfold withoutLastQuote
  split
  · next hquote =>
    constructor
    · intro hsame
      have hlength := congrArg List.length hsame
      rw [List.length_dropLast] at hlength
      have hempty : body = [] := List.eq_nil_of_length_eq_zero (by omega)
      simp [hempty] at hquote
    · exact fun hnot => absurd hquote hnot
  · next hquote => simp [hquote]

/-- The quotes that are dropped from a literal: its own and the one its body may end in. -/
theorem trimMatches_quote {body : List Char} (hbody : IsBody body) (hne : body ≠ []) :
    trimMatches (· = '"') ('"' :: (body ++ ['"'])) = withoutLastQuote body ∧
      withoutLastQuote body ≠ [] := by
  have hleft : ∀ c ∈ ['"'], decide (c = '"') = true := by simp
  unfold withoutLastQuote
  split
  · next hquote =>
    obtain ⟨front, rfl⟩ := List.getLast?_eq_some_iff.mp hquote
    have hbackslash := hbody.getLast?_of_quote rfl
    have hfront : front ≠ [] := by
      rintro rfl
      simp at hbackslash
    have hfirst := hbody.head_ne_quote
    rw [List.head?_append_of_ne_nil front hfront] at hfirst
    rw [List.dropLast_concat]
    refine ⟨?_, hfront⟩
    rw [List.append_assoc]
    refine trimMatches_between hleft (by simp) hfront ?_ ?_
    · exact fun c hc => decide_eq_false fun hsame => hfirst (hsame ▸ hc)
    · rintro c hc
      obtain rfl := Option.some.inj (hbackslash.symm.trans hc)
      rfl
  · next hquote =>
    refine ⟨trimMatches_between hleft (by simp) hne ?_ ?_, hne⟩
    · exact fun c hc => decide_eq_false fun hsame => hbody.head_ne_quote (hsame ▸ hc)
    · exact fun c hc => decide_eq_false fun hsame => hquote (hsame ▸ hc)

/-- White space around a literal is dropped, and none in it. -/
theorem trimBlank_literal {w₁ body w₂ : List Char} (hw₁ : ∀ c ∈ w₁, Blank.isBlank c = true)
    (hw₂ : ∀ c ∈ w₂, Blank.isBlank c = true) :
    trimBlank (w₁ ++ '"' :: (body ++ '"' :: w₂)) = '"' :: (body ++ ['"']) := by
  have hquote : Blank.isBlank '"' = false := by decide
  have happend : w₁ ++ '"' :: (body ++ '"' :: w₂) = w₁ ++ ('"' :: (body ++ ['"']) ++ w₂) := by simp
  rw [trimBlank, happend]
  refine trimMatches_between hw₁ hw₂ (by simp) ?_ ?_
  · rintro c hc
    obtain rfl := Option.some.inj hc
    exact hquote
  · rintro c hc
    rw [← List.cons_append, List.getLast?_concat] at hc
    obtain rfl := Option.some.inj hc
    exact hquote

end Literal

namespace Builtin

open Literal

/-- The end of what a fragment covers, if the file is not too long for offsets. -/
theorem stop_toNat {fragment : Fragment}
    (hfits : fragment.location.offset.toNat + fragment.source.utf8ByteSize < 2 ^ 64) :
    (Span.of fragment).stop.toNat =
      fragment.location.offset.toNat + fragment.source.utf8ByteSize := by
  rw [Span.of, UInt64.toNat_add, Nat.toUInt64_eq, UInt64.toNat_ofNat']
  omega

/-- A call with a literal expands to nothing and has one warning, at the start of the call, about
all its octets. The message is the body of the literal, without the quote that it may end in. -/
theorem warn_of_literal (use : FreestandingUse) (before w₁ body w₂ after : List Char)
    (hsource : use.fragment.source.toList =
      before ++ '(' :: (w₁ ++ '"' :: (body ++ '"' :: (w₂ ++ ')' :: after))))
    (hbefore : '(' ∉ before) (hafter : ')' ∉ after)
    (hw₁ : ∀ c ∈ w₁, Blank.isBlank c = true) (hw₂ : ∀ c ∈ w₂, Blank.isBlank c = true)
    (hne : body ≠ []) (hbody : IsBody body)
    (hfits : use.fragment.location.offset.toNat + use.fragment.source.utf8ByteSize < 2 ^ 64) :
    ∃ stop : UInt64,
      warn use = .ok
        { source := some ""
          diagnostics := [
            { message := String.ofList (withoutLastQuote body)
              severity := .warning
              position := ⟨use.fragment.location.fileName, use.fragment.location.offset⟩
              highlights :=
                [⟨use.fragment.location.fileName, use.fragment.location.offset, stop⟩] }] } ∧
      stop.toNat = use.fragment.location.offset.toNat + use.fragment.source.utf8ByteSize ∧
      (withoutLastQuote body = body ↔ body.getLast? ≠ some '"') := by
  refine ⟨_, ?_, stop_toNat hfits, withoutLastQuote_eq_self_iff⟩
  have hargument : use.fragment.argument = .ok (w₁ ++ '"' :: (body ++ '"' :: w₂)) := by
    refine use.fragment.argument_of_splits ⟨?_, hbefore, hafter⟩
    rw [hsource]
    simp
  obtain ⟨htrim, hmessage⟩ := trimMatches_quote hbody hne
  have hnot : (withoutLastQuote body).isEmpty = false := by simpa using hmessage
  rw [warn, hargument]
  simp only [bind, Except.bind, trimBlank_literal hw₁ hw₂, htrim, hnot]
  rfl

/-- Escaped quotes inside the body are kept, and so are spaces at its ends. -/
theorem warn_of_inner_quotes :
    let fragment : Fragment :=
      ⟨.expression, "#w( \" say \\\"hi\\\" \")", ⟨"A/a.swift", "/a.swift", 7, 1, 8⟩⟩
    let use : FreestandingUse := ⟨⟨"M", "T", "w"⟩, none, "d", fragment⟩
    ∃ stop : UInt64, stop.toNat = 26 ∧ warn use = .ok
      { source := some ""
        diagnostics := [
          { message := " say \\\"hi\\\" "
            severity := .warning
            position := ⟨"/a.swift", 7⟩
            highlights := [⟨"/a.swift", 7, stop⟩] }] } := by
  intro fragment use
  obtain ⟨stop, hwarn, hstop, -⟩ := warn_of_literal use "#w".toList " ".toList
    " say \\\"hi\\\" ".toList [] [] (by decide) (by decide) (by decide)
    (List.forall_mem_singleton.mpr rfl) (List.forall_mem_nil _) (by decide) ⟨by decide, by decide⟩
    (by decide)
  exact ⟨stop, hstop, hwarn⟩

/-- The quote at the end of a body is not part of the message. -/
theorem escaped_quote_lost_at_end :
    let fragment : Fragment :=
      ⟨.expression, "#w(\"a\\\"\")", ⟨"A/a.swift", "/a.swift", 0, 1, 1⟩⟩
    let use : FreestandingUse := ⟨⟨"M", "T", "w"⟩, none, "d", fragment⟩
    let body := "a\\\"".toList
    fragment.source.toList = "#w(".toList ++ '"' :: (body ++ "\")".toList) ∧ IsBody body ∧
      ∃ diagnostic, warn use = .ok { source := some "", diagnostics := [diagnostic] } ∧
        diagnostic.message = "a\\" ∧ diagnostic.message ≠ String.ofList body := by
  intro fragment use body
  have hargument : use.fragment.argument = .ok ('"' :: (body ++ ['"'])) := by decide
  have htrim : trimMatches (· = '"') (trimBlank ('"' :: (body ++ ['"']))) = "a\\".toList := by decide
  let warning := (Diagnostic.warning fragment "a\\").addHighlight (.of fragment)
  refine ⟨by decide, ⟨by decide, by decide⟩, warning, ?_, rfl, by decide⟩
  rw [warn, hargument]
  simp only [bind, Except.bind, htrim]
  rfl

end Builtin

end MacroPlugin
