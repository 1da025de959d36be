import Mathlib.Data.List.Basic
import MacroPlugin.Proofs.Json.Grammar
import MacroPlugin.Proofs.Wire.Placement
import MacroPlugin.Proofs.Wire.Stopping

/-!
What stands in one place. Skipping passes over every well-formed value, and over nothing else
behind it; so a reader at the place of such a value succeeds just in case the value can be read on
its own, and stops behind it.
-/

namespace MacroPlugin

namespace Wire

open Json
open Json.Skip (Container)
open Skip (pass passOn passParts)

/-! Scalars are passed over -/

theorem text_passed {body : Octets} (h : IsTextBody body) (rest : Octets) :
    Skip.text (body ++ Ascii.quote :: rest) = .ok rest := by
  unfold Skip.text
  induction h with
  | nil => simp [Skip.textFrom]
  | @plain octet body hplain _ ih =>
    obtain ⟨hquote, hslash, hspace⟩ := hplain
    have hnot : ¬ octet < Ascii.space := UInt8.not_lt.mpr hspace
    rw [List.cons_append, Skip.textFrom]
    simp only [Skip.State.step, hquote, hslash, hnot, decide_false, Bool.and_false,
      Bool.false_eq_true, if_false]
    exact ih
  | @short letter body hletter _ ih =>
    have hquote : Ascii.backslash ≠ Ascii.quote := by decide
    have hmark : isHexMark letter = false := by
      simp only [isHexMark, decide_eq_false_iff_not]
      rintro rfl
      exact absurd hletter (by decide)
    simp [Skip.textFrom, Skip.State.step, hquote, hmark, hletter]
    exact ih
  | @hex digits body hlength hdigits _ ih =>
    have hquote : Ascii.backslash ≠ Ascii.quote := by decide
    obtain ⟨a, b, c, d, rfl⟩ := List.length_eq_four.mp hlength
    have hdigit : ∀ digit ∈ [a, b, c, d], ∃ value, Ascii.hexDigit? digit = some value :=
      fun digit hmem => Option.isSome_iff_exists.mp (hdigits digit hmem)
    obtain ⟨a', ha⟩ := hdigit a (by simp)
    obtain ⟨b', hb⟩ := hdigit b (by simp)
    obtain ⟨c', hc⟩ := hdigit c (by simp)
    obtain ⟨d', hd⟩ := hdigit d (by simp)
    simp [Skip.textFrom, Skip.State.step, hquote, isHexMark, hexValue?, ha, hb, hc, hd]
    exact ih

section Numbers

variable {more : Octets}

/-- Skipped digits end where no digit follows. -/
theorem digits_passed {digits : Octets}
    (hdigits : ∀ octet ∈ digits, (Ascii.digit? octet).isSome = true)
    (hmore : Number.startsWithDigit more = false) : Skip.digits (digits ++ more) = more := by
  unfold Skip.digits
  rw [List.dropWhile_append_of_pos hdigits]
  exact Skip.digits_of_not_startsWithDigit hmore

theorem startsWithDigit_of_stops (hstops : Stops more) : Number.startsWithDigit more = false := by
  cases more with
  | nil => rfl
  | cons octet more =>
    have hdigit := (hstops octet rfl).1
    simp [Number.startsWithDigit, hdigit]

theorem exponent_passed {exponent : Octets} (h : IsExponent exponent) (hstops : Stops more) :
    Skip.exponentIfAny (exponent ++ more) = .ok more ∧
      Number.startsWithDigit (exponent ++ more) = false := by
  have hmore := startsWithDigit_of_stops hstops
  rcases h with rfl | ⟨mark, sign, digits, hmark, hsign, ⟨hsome, hdigits⟩, rfl⟩
  · refine ⟨?_, hmore⟩
    cases more with
    | nil => rfl
    | cons octet more =>
      have hmark := (hstops octet rfl).2.2
      simp [Skip.exponentIfAny, hmark]
  · have hdigit : Ascii.digit? mark = none := by
      simp only [Number.isExponentMark, Bool.or_eq_true, decide_eq_true_eq] at hmark
      rcases hmark with rfl | rfl <;> decide
    obtain ⟨octet, digits, rfl⟩ := List.exists_cons_of_ne_nil hsome
    have hfirst := hdigits octet List.mem_cons_self
    have hbehind := digits_passed (fun other hmem => hdigits other (List.mem_cons_of_mem _ hmem))
      hmore
    have hnot : ∀ other, Ascii.digit? other = none → octet ≠ other := by
      rintro other hother rfl
      rw [hother] at hfirst
      exact absurd hfirst (by simp)
    have hplus := hnot Ascii.plus (by decide)
    have hminus := hnot Ascii.minus (by decide)
    have hexponent : Json.Skip.exponent (sign ++ octet :: digits ++ more) = .ok more := by
      rcases hsign with rfl | rfl | rfl
      · simp [Json.Skip.exponent, hplus, hminus, hfirst, hbehind]
      · simp [Json.Skip.exponent, hfirst, hbehind]
      · simp [Json.Skip.exponent, hfirst, hbehind]
    constructor
    · rw [List.cons_append, Skip.exponentIfAny, if_pos hmark]
      exact hexponent
    · simp [Number.startsWithDigit, hdigit]

theorem fraction_passed {fraction exponent : Octets} (h : IsFraction fraction)
    (hexponent : IsExponent exponent) (hstops : Stops more) :
    Skip.fractionIfAny (fraction ++ (exponent ++ more)) = .ok more ∧
      Number.startsWithDigit (fraction ++ (exponent ++ more)) = false := by
  obtain ⟨hpassed, hends⟩ := exponent_passed hexponent hstops
  rcases h with rfl | ⟨digits, ⟨hsome, hdigits⟩, rfl⟩
  · refine ⟨?_, hends⟩
    rw [List.nil_append, ← hpassed]
    rcases hexponent with rfl | ⟨mark, sign, digits, hmark, -, -, rfl⟩
    · cases more with
      | nil => rfl
      | cons octet more =>
        have hpoint := (hstops octet rfl).2.1
        simp [Skip.fractionIfAny, hpoint]
    · have hpoint : mark ≠ Ascii.point := by
        rintro rfl
        exact absurd hmark (by decide)
      simp [Skip.fractionIfAny, hpoint]
  · have hstarts : Number.startsWithDigit (digits ++ (exponent ++ more)) = true := by
      cases digits with
      | nil => exact absurd rfl hsome
      | cons octet digits => exact hdigits octet List.mem_cons_self
    constructor
    · rw [List.cons_append, Skip.fractionIfAny, if_pos rfl, if_pos hstarts,
        digits_passed hdigits hends]
      exact hpassed
    · simp [Number.startsWithDigit, Ascii.digit?, Ascii.point, Ascii.zero]

theorem magnitude_passed {whole fraction exponent : Octets} (h : IsWholePart whole)
    (hfraction : IsFraction fraction) (hexponent : IsExponent exponent) (hstops : Stops more) :
    Skip.magnitude (whole ++ (fraction ++ (exponent ++ more))) = .ok more := by
  obtain ⟨hpassed, hends⟩ := fraction_passed hfraction hexponent hstops
  rcases h with rfl | ⟨⟨hsome, hdigits⟩, hzero⟩
  · have hdigit : Ascii.digit? Ascii.zero = some 0 := by decide
    simp [Skip.magnitude, hdigit, hends, hpassed]
  · cases whole with
    | nil => exact absurd rfl hsome
    | cons octet whole =>
      have hbehind := digits_passed (fun other hmem => hdigits other (List.mem_cons_of_mem _ hmem))
        hends
      have hne : octet ≠ Ascii.zero := fun heq => hzero (by rw [heq]; rfl)
      obtain ⟨digit, hdigit⟩ := Option.isSome_iff_exists.mp (hdigits octet List.mem_cons_self)
      rw [List.cons_append, Skip.magnitude, hdigit]
      cases digit with
      | zero => exact absurd (digit?_eq_zero hdigit) hne
      | succ digit =>
        have hrest : Skip.fractionIfAny (Skip.digits (whole ++ (fraction ++ (exponent ++ more)))) =
            .ok more := by
          rw [hbehind]
          exact hpassed
        exact hrest

/-- A number is passed over where nothing continues it. -/
theorem number_passed {text : Octets} (h : IsNumber text) (hstops : Stops more) :
    ∃ octet rest, text = octet :: rest ∧ Number.isFirst octet = true ∧
      Skip.scalar octet (rest ++ more) = .ok more := by
  obtain ⟨hsign, hwhole, hfraction, hexponent⟩ := h
  have hmagnitude := magnitude_passed hwhole hfraction hexponent hstops
  rcases hsign with rfl | rfl
  · rename_i whole fraction exponent
    have hfirst : ∃ octet rest, whole = octet :: rest ∧ (Ascii.digit? octet).isSome = true := by
      rcases hwhole with hzero | ⟨⟨hsome, hdigits⟩, -⟩
      · exact ⟨Ascii.zero, [], hzero, by decide⟩
      · obtain ⟨octet, rest, hcons⟩ := List.exists_cons_of_ne_nil hsome
        exact ⟨octet, rest, hcons, hdigits octet (by rw [hcons]; exact List.mem_cons_self)⟩
    obtain ⟨octet, rest, rfl, hdigit⟩ := hfirst
    have hisFirst : Number.isFirst octet = true := by simp [Number.isFirst, hdigit]
    have hminus : octet ≠ Ascii.minus := by
      rintro rfl
      exact absurd hdigit (by decide)
    obtain ⟨-, hliteral, hquote⟩ := Skip.isFirst_only hisFirst
    refine ⟨octet, rest ++ (fraction ++ exponent), rfl, hisFirst, ?_⟩
    unfold Skip.scalar
    simp only [hliteral, if_neg hquote, if_neg hminus, if_pos hdigit]
    rw [← hmagnitude]
    simp
  · rename_i whole fraction exponent
    refine ⟨Ascii.minus, whole ++ (fraction ++ exponent), rfl, by decide, ?_⟩
    rw [← hmagnitude, List.append_assoc, List.append_assoc]
    rfl

end Numbers

end Wire

namespace Json

open Skip (Container)
open Wire
open Wire.Skip (pass passOn passParts)

/-! Values are passed over -/

theorem ofFirst?_opening (container : Container) :
    Container.ofFirst? container.opening = some container := by
  cases container <;> rfl

theorem isBlank_opening (container : Container) : isBlank container.opening = false := by
  cases container <;> decide

theorem isBlank_close (container : Container) : isBlank container.close = false := by
  cases container <;> decide

theorem isBlank_of_isFirst {octet : UInt8} (h : Number.isFirst octet = true) :
    isBlank octet = false := by
  cases hblank : isBlank octet with
  | false => rfl
  | true =>
    have hdigit := (digit?_of_isBlank hblank).1
    have hminus : octet ≠ Ascii.minus := by
      rintro rfl
      exact absurd hblank (by decide)
    simp [Number.isFirst, hdigit, hminus] at h

/-- The first octet of a value: no blank, and not the end of a list. Only one value begins like
the literal `null`. -/
theorem IsValue.first {text : Octets} (h : IsValue text) :
    ∃ octet rest, text = octet :: rest ∧ isBlank octet = false ∧ octet ≠ Container.list.close ∧
      (Literal.ofFirst? octet = some .null → text = Literal.null.octets) := by
  cases h with
  | literal literal =>
    cases literal with
    | null => exact ⟨0x6E, _, rfl, by decide, by decide, fun _ => rfl⟩
    | yes => exact ⟨0x74, _, rfl, by decide, by decide, fun h => absurd h (by decide)⟩
    | no => exact ⟨0x66, _, rfl, by decide, by decide, fun h => absurd h (by decide)⟩
  | number hnumber =>
    obtain ⟨octet, rest, htext, hfirst, -⟩ := number_passed hnumber stops_nil
    obtain ⟨-, hliteral, -⟩ := Wire.Skip.isFirst_only hfirst
    refine ⟨octet, rest, htext, isBlank_of_isFirst hfirst, ?_, ?_⟩
    · rintro rfl
      exact absurd hfirst (by decide)
    · rw [hliteral]
      exact fun h => absurd h (by simp)
  | text hbody => exact ⟨Ascii.quote, _, rfl, by decide, by decide, fun h => absurd h (by decide)⟩
  | empty container hblanks =>
    refine ⟨container.opening, _, rfl, isBlank_opening container, ?_, ?_⟩
    · cases container <;> decide
    · cases container <;> exact fun h => absurd h (by decide)
  | parts container hparts =>
    refine ⟨container.opening, _, rfl, isBlank_opening container, ?_, ?_⟩
    · cases container <;> decide
    · cases container <;> exact fun h => absurd h (by decide)

theorem skipBlank_value {blanks text : Octets} (hblanks : Blank blanks) (htext : IsValue text)
    (more : Octets) : skipBlank (blanks ++ (text ++ more)) = text ++ more := by
  obtain ⟨octet, rest, rfl, hoctet, -⟩ := htext.first
  exact skipBlank_append hblanks hoctet _

/-- A part of a container does not begin with the end of the container. -/
theorem IsParts.first {container : Container} {text : Octets} (h : IsParts container text)
    (more : Octets) :
    ∃ octet rest, skipBlank (text ++ more) = octet :: rest ∧ octet ≠ container.close := by
  have hlabel : ∀ {label value behind : Octets}, IsLabel container label → IsValue value →
      ∃ octet rest, skipBlank (label ++ (value ++ behind)) = octet :: rest ∧
        octet ≠ container.close := by
    intro label value behind hlabel hvalue
    cases hlabel with
    | list hblanks =>
      obtain ⟨octet, rest, hcons, -, hclose, -⟩ := hvalue.first
      rw [skipBlank_value hblanks hvalue, hcons]
      exact ⟨octet, _, rfl, hclose⟩
    | object hblanks =>
      rw [List.append_assoc, List.cons_append, skipBlank_append hblanks (by decide)]
      exact ⟨Ascii.quote, _, rfl, by decide⟩
  cases h with
  | last hpart hvalue hblanks =>
    rw [List.append_assoc, List.append_assoc]
    exact hlabel hpart hvalue
  | next hpart hvalue hblanks hmore =>
    rw [List.append_assoc, List.append_assoc]
    exact hlabel hpart hvalue

/-- What precedes a value inside a container is passed over. -/
theorem IsLabel.passed {container : Container} {label value : Octets}
    (h : IsLabel container label) (hvalue : IsValue value) (more : Octets)
    (outer : List Container) :
    container.label (label ++ (value ++ more)) >>= pass (container :: outer) =
      pass (container :: outer) (value ++ more) := by
  have hskip : ∀ {blanks}, Blank blanks →
      pass (container :: outer) (blanks ++ (value ++ more)) =
        pass (container :: outer) (value ++ more) := by
    intro blanks hblanks
    have hvalue' := skipBlank_value blank_nil hvalue more
    rw [List.nil_append] at hvalue'
    exact Wire.Skip.pass_skip (by rw [skipBlank_value hblanks hvalue, hvalue'])
  cases h with
  | list hblanks => exact hskip hblanks
  | @object blanks key before behind hblanks hkey hbefore hbehind =>
    have hquote : isBlank Ascii.quote = false := by decide
    have hcolon : isBlank Ascii.colon = false := by decide
    have hlabel : Container.object.label ((blanks ++ Ascii.quote :: (key ++ Ascii.quote ::
        (before ++ Ascii.colon :: behind))) ++ (value ++ more)) =
          .ok (behind ++ (value ++ more)) := by
      simp only [List.append_assoc, List.cons_append]
      simp only [Container.label, skipBlank_append hblanks hquote, if_pos, text_passed hkey, bind,
        Except.bind, skipBlank_append hbefore hcolon]
    rw [hlabel]
    exact hskip hbehind

mutual

/-- Skipping passes over any well-formed value where nothing continues it. -/
theorem IsValue.passed {text : Octets} : IsValue text → ∀ {blanks more : Octets}, Blank blanks →
    Stops more → ∀ outer, pass outer (blanks ++ (text ++ more)) = passOn outer more
  | .literal literal, blanks, more, hblanks, _, outer => by
    have hskip := skipBlank_value hblanks (.literal literal) more
    cases literal with
    | null => exact pass_literal hskip rfl (readExactly_append _ more) outer
    | yes => exact pass_literal hskip rfl (readExactly_append _ more) outer
    | no => exact pass_literal hskip rfl (readExactly_append _ more) outer
  | .number hnumber, blanks, more, hblanks, hstops, outer => by
    have hskip := skipBlank_value hblanks (.number hnumber) more
    obtain ⟨octet, rest, rfl, hfirst, hscalar⟩ := number_passed hnumber hstops
    exact Wire.Skip.pass_scalar hskip (Wire.Skip.isFirst_only hfirst).1 hscalar
  | .text hbody, blanks, more, hblanks, _, outer => by
    have hskip := skipBlank_value hblanks (.text hbody) more
    rw [List.cons_append, List.append_assoc] at hskip ⊢
    exact Wire.Skip.pass_scalar hskip (by decide) (text_passed hbody more)
  | .empty container hinner, blanks, more, hblanks, _, outer => by
    have hskip := skipBlank_value hblanks (.empty container hinner) more
    rw [List.cons_append, List.append_assoc] at hskip ⊢
    rw [Wire.Skip.pass_container hskip (ofFirst?_opening container)]
    exact Wire.Skip.passParts_close (skipBlank_append hinner (isBlank_close container) more)
  | .parts container hparts, blanks, more, hblanks, _, outer => by
    have hskip := skipBlank_value hblanks (.parts container hparts) more
    obtain ⟨octet, rest, hfirst, hclose⟩ := hparts.first more
    rw [List.cons_append] at hskip ⊢
    rw [Wire.Skip.pass_container hskip (ofFirst?_opening container),
      Wire.Skip.passParts_label hfirst hclose]
    exact hparts.passed outer

theorem IsParts.passed {container : Container} {text more : Octets} :
    IsParts container text → ∀ outer,
      container.label (text ++ more) >>= pass (container :: outer) = passOn outer more
  | @IsParts.last _ _ _ blanks hlabel hvalue hblanks, outer => by
    have hstops : Stops (blanks ++ container.close :: more) :=
      stops_blank hblanks (stops_cons (by cases container <;> decide))
    have hpassed := hvalue.passed blank_nil hstops (container :: outer)
    rw [List.append_assoc, List.append_assoc, hlabel.passed hvalue, List.append_assoc,
      List.singleton_append]
    rw [List.nil_append] at hpassed
    rw [hpassed]
    exact Wire.Skip.passOn_close (skipBlank_append hblanks (isBlank_close container) more)
  | @IsParts.next _ _ _ blanks parts hlabel hvalue hblanks hmore, outer => by
    have hstops : Stops (blanks ++ Ascii.comma :: (parts ++ more)) :=
      stops_blank hblanks (stops_cons (by decide))
    have hpassed := hvalue.passed blank_nil hstops (container :: outer)
    rw [List.append_assoc, List.append_assoc, hlabel.passed hvalue, List.append_assoc,
      List.cons_append]
    rw [List.nil_append] at hpassed
    rw [hpassed, Wire.Skip.passOn_comma (skipBlank_append hblanks (by decide) _)]
    exact hmore.passed outer

end

end Json

namespace Wire

open Json

/-! Readers at the place of a value -/

section Readers

variable {α : Type} {reader : Reader α} {text blanks more : Octets}

/-- A reader of a well-formed value stops behind the value. -/
theorem Skippable.ends (h : Skippable reader) (htext : IsValue text) (hblanks : Blank blanks)
    (hstops : Stops more) {value : α} {rest : Octets}
    (hread : reader (blanks ++ (text ++ more)) = .ok (value, rest)) : rest = more := by
  have hreader := h hread []
  have hgrammar := htext.passed hblanks hstops []
  rw [hgrammar, Skip.passOn_nil, Skip.passOn_nil] at hreader
  exact (Except.ok.inj hreader).symm

/-- Blanks in front make no difference to a reader. -/
def Lenient (reader : Reader α) : Prop :=
  ∀ {input input'}, skipBlank input = skipBlank input' → reader input = reader input'

theorem Whole.placed (hwhole : Whole reader) (hskippable : Skippable reader)
    (hlenient : Lenient reader) (htext : IsValue text) (hblanks : Blank blanks)
    (hstops : Stops more) {value : α} {rest : Octets} :
    reader (blanks ++ (text ++ more)) = .ok (value, rest) ↔
      rest = more ∧ reader text = .ok (value, []) := by
  have hblank : skipBlank (blanks ++ (text ++ more)) = skipBlank (text ++ more) := by
    have hself := skipBlank_value blank_nil htext more
    rw [List.nil_append] at hself
    rw [skipBlank_value hblanks htext, hself]
  have hframe : reader (text ++ more) = .ok (value, [] ++ more) ↔ reader text = .ok (value, []) :=
    hwhole.frame (.inr hstops)
  constructor
  · intro hread
    have hrest := hskippable.ends htext hblanks hstops hread
    rw [hlenient hblank, hrest] at hread
    exact ⟨hrest, hframe.mp hread⟩
  · rintro ⟨rfl, hread⟩
    rw [hlenient hblank]
    exact hframe.mpr hread

theorem Lenient.of_leading {fault : Fault} {body : UInt8 → Reader α}
    (h : reader = leading fault body) : Lenient reader := by
  rw [h]
  exact leading_skip

theorem Schema.read_lenient (fuel : Nat) (schema : Schema) : Lenient (schema.read fuel) := by
  cases schema with
  | text => exact Lenient.of_leading readTextValue_eq
  | word size => exact Lenient.of_leading (readWord_eq size)
  | boolean => exact Lenient.of_leading readBoolean_eq
  | list item => exact Lenient.of_leading (readList_eq (item.read fuel) fuel)
  | choice names => exact Lenient.of_leading (readNamed_eq _ _)
  | record title fields => exact Lenient.of_leading (readRecord_eq title fuel _ _ _ _)
  | union cases => exact Lenient.of_leading (readNamed_eq _ _)

end Readers

section Places

variable {schema : Schema} {text blanks more rest : Octets} {fuel : Nat}

/-- Reading a text as a whole leaves nothing. -/
theorem Schema.readAll_value (htext : IsValue text) (hfuel : text.length < fuel)
    {value : schema.Val} :
    schema.readAll text = .ok value ↔ schema.read fuel text = .ok (value, []) := by
  rw [readAll_eq_ok hfuel]
  constructor
  · rintro ⟨rest, hread, -⟩
    have hends : rest = [] := by
      have hinput : text = [] ++ (text ++ []) := by simp
      rw [hinput] at hread
      exact Skippable.ends (schema.read_skippable fuel) htext blank_nil stops_nil hread
    rwa [hends] at hread
  · intro hread
    exact ⟨[], hread, blank_nil⟩

/-- A value in a place is read just in case it can be read on its own. -/
theorem Schema.read_placed (htext : IsValue text) (hblanks : Blank blanks) (hstops : Stops more)
    (hfuel : (blanks ++ (text ++ more)).length < fuel) {value : schema.Val} :
    schema.read fuel (blanks ++ (text ++ more)) = .ok (value, rest) ↔
      rest = more ∧ schema.readAll text = .ok value := by
  have hlength : text.length < fuel := by
    simp only [List.length_append] at hfuel
    omega
  rw [readAll_value htext hlength]
  exact (schema.read_whole fuel).placed (schema.read_skippable fuel) (schema.read_lenient fuel)
    htext hblanks hstops

/-- What the text under an optional key says: `null` is the absent value. -/
def Schema.ReadsOptional (schema : Schema) (text : Octets) (value : Option schema.Val) : Prop :=
  if text = Literal.null.octets then value = none
  else ∃ present, value = some present ∧ schema.readAll text = .ok present

theorem Schema.readOptional_placed (htext : IsValue text) (hblanks : Blank blanks)
    (hstops : Stops more) (hfuel : (blanks ++ (text ++ more)).length < fuel)
    {value : Option schema.Val} :
    readOptional (schema.read fuel) (blanks ++ (text ++ more)) = .ok (value, rest) ↔
      rest = more ∧ schema.ReadsOptional text value := by
  have hlength : text.length < fuel := by
    simp only [List.length_append] at hfuel
    omega
  have halone : readOptional (schema.read fuel) text = .ok (value, []) ↔
      schema.ReadsOptional text value := by
    unfold ReadsOptional
    obtain ⟨octet, behind, rfl, hoctet, -, hnull⟩ := htext.first
    split
    · next heq =>
      have hread : readOptional (schema.read fuel) (octet :: behind) = .ok (none, []) := by
        rw [heq]
        rfl
      rw [hread]
      simp [eq_comm]
    · next hne =>
      have hfirst : Literal.ofFirst? octet ≠ some .null := fun hfirst => hne (hnull hfirst)
      rw [readOptional_eq, leading_cons (skipBlank_self hoctet behind), if_neg hfirst,
        andThen_eq_ok]
      simp only [readAll_value htext hlength]
      constructor
      · rintro ⟨present, behind', hread, hvalue⟩
        obtain ⟨rfl, rfl⟩ := ok_pair_inj hvalue
        exact ⟨present, rfl, hread⟩
      · rintro ⟨present, rfl, hread⟩
        exact ⟨present, [], hread, rfl⟩
  rw [← halone]
  exact (readOptional_whole (schema.read_whole fuel)).placed
    (readOptional_skippable (schema.read_skippable fuel)) (Lenient.of_leading (readOptional_eq _))
    htext hblanks hstops

/-- An unknown value is passed over whatever it is. -/
theorem skipValue_placed (htext : IsValue text) (hblanks : Blank blanks) (hstops : Stops more)
    (hfuel : (blanks ++ (text ++ more)).length < fuel) :
    skipValue fuel (blanks ++ (text ++ more)) = .ok rest ↔ rest = more := by
  have hpassed := htext.passed hblanks hstops []
  have hskip : skipValue fuel (blanks ++ (text ++ more)) = .ok more := by
    rw [← Skip.passOn_nil more, ← hpassed]
    exact Skip.values_eq_pass fuel [] _ hfuel
  rw [hskip, Except.ok.injEq]
  exact eq_comm

end Places

end Wire

end MacroPlugin
