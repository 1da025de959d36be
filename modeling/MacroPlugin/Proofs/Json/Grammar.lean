import Mathlib.Data.List.Basic
import MacroPlugin.Json.Skip
import MacroPlugin.Proofs.Json.Written

/-!
The grammar of JSON on octets: every way to spell a text, and every well-formed value of any
depth, with blanks wherever they may stand. A value says nothing about what it means; numbers have
no range here, and a text may be in no encoding and have surrogates without a partner.
-/

namespace MacroPlugin.Json

/-! Texts -/

/-- What may stand between the quotes of a text. -/
inductive IsTextBody : Octets → Prop
  | nil : IsTextBody []
  | plain {octet : UInt8} {body : Octets} (hplain : IsPlain octet) (hbody : IsTextBody body) :
      IsTextBody (octet :: body)
  | short {letter : UInt8} {body : Octets} (hletter : (shortEscape? letter).isSome = true)
      (hbody : IsTextBody body) : IsTextBody (Ascii.backslash :: letter :: body)
  | hex {digits body : Octets} (hlength : digits.length = 4)
      (hdigits : ∀ digit ∈ digits, (Ascii.hexDigit? digit).isSome = true)
      (hbody : IsTextBody body) : IsTextBody (Ascii.backslash :: 0x75 :: (digits ++ body))

/-- Four hexadecimal digits that denote a number. -/
structure HexDigits (digits : Octets) (value : Nat) : Prop where
  length : digits.length = 4
  denotes : hexValue? digits.reverse = some value

/-- The spellings of a text. Each character stands for itself, unless it is a quote, a backslash
or a control character; or it is escaped by a letter, or by its number, or by the numbers of two
surrogates. -/
inductive Spells : List Char → Octets → Prop
  | nil : Spells [] []
  | plain {c : Char} {text : List Char} {octets : Octets} (hquote : c ≠ '"') (hslash : c ≠ '\\')
      (hcontrol : 0x20 ≤ c.toNat) (h : Spells text octets) :
      Spells (c :: text) (String.utf8EncodeChar c ++ octets)
  | short {letter meant : UInt8} {text : List Char} {octets : Octets}
      (hletter : shortEscape? letter = some meant) (h : Spells text octets) :
      Spells (Char.ofNat meant.toNat :: text) (Ascii.backslash :: letter :: octets)
  | hex {digits : Octets} {value : Nat} {text : List Char} {octets : Octets}
      (hdigits : HexDigits digits value) (hlead : isLeadSurrogate value = false)
      (htrail : isTrailSurrogate value = false) (h : Spells text octets) :
      Spells (Char.ofNat value :: text) (Ascii.backslash :: 0x75 :: (digits ++ octets))
  | pair {digits digits' : Octets} {lead trail : Nat} {text : List Char} {octets : Octets}
      (hdigits : HexDigits digits lead) (hlead : isLeadSurrogate lead = true)
      (hdigits' : HexDigits digits' trail) (htrail : isTrailSurrogate trail = true)
      (h : Spells text octets) :
      Spells (Char.ofNat (joinSurrogates lead trail) :: text)
        (Ascii.backslash :: 0x75 :: (digits ++
          Ascii.backslash :: 0x75 :: (digits' ++ octets)))

theorem HexDigits.cases {digits : Octets} {value : Nat} (h : HexDigits digits value) :
    ∃ a b c d, digits = [a, b, c, d] ∧ hexValue? [d, c, b, a] = some value := by
  obtain ⟨hlength, hdenotes⟩ := h
  obtain ⟨a, b, c, d, rfl⟩ := List.length_eq_four.mp hlength
  exact ⟨a, b, c, d, rfl, hdenotes⟩

theorem HexDigits.isSome {digits : Octets} {value : Nat} (h : HexDigits digits value) :
    ∀ digit ∈ digits, (Ascii.hexDigit? digit).isSome = true := by
  have hall : ∀ {octets value}, hexValue? octets = some value →
      ∀ octet ∈ octets, (Ascii.hexDigit? octet).isSome = true := by
    intro octets
    induction octets with
    | nil => simp
    | cons octet octets ih =>
      intro value hvalue other hmem
      cases hdigit : Ascii.hexDigit? octet with
      | none => simp [hexValue?, hdigit] at hvalue
      | some digit =>
        cases hhigher : hexValue? octets with
        | none => simp [hexValue?, hdigit, hhigher] at hvalue
        | some higher =>
          rcases List.mem_cons.mp hmem with rfl | hmem
          · simp [hdigit]
          · exact ih hhigher other hmem
  intro digit hmem
  exact hall h.denotes digit (List.mem_reverse.mpr hmem)

/-- A letter escapes a character of ASCII. -/
theorem encodeChar_shortEscape {letter meant : UInt8} (h : shortEscape? letter = some meant) :
    String.utf8EncodeChar (Char.ofNat meant.toNat) = [meant] := by
  unfold shortEscape? at h
  repeat' split at h
  all_goals
    first
    | rw [← Option.some.inj h]; decide
    | simp at h

theorem gatherText_short {letter meant : UInt8} (h : shortEscape? letter = some meant)
    (taken tail : Octets) :
    gatherText .plain taken (Ascii.backslash :: letter :: tail) =
      gatherText .plain (meant :: taken) tail := by
  have hmark : isHexMark letter = false := by
    simp only [isHexMark, decide_eq_false_iff_not]
    rintro rfl
    have hnone : shortEscape? 0x75 = none := by decide
    simp [hnone] at h
  have hquote : Ascii.backslash ≠ Ascii.quote := by decide
  simp [gatherText, TextState.ends, TextState.step, hquote, hmark, h]

/-- Four digits behind their mark are taken in as one number. -/
theorem gatherText_hex {digits : Octets} {value : Nat} (h : HexDigits digits value)
    (lead : Option Nat) (taken tail : Octets) :
    gatherText (.hex lead []) taken (digits ++ tail) =
      match TextState.complete lead value with
      | .ok (state, added) => gatherText state (added.reverse ++ taken) tail
      | .error cause => .error (.here cause tail) := by
  obtain ⟨a, b, c, d, rfl, hvalue⟩ := h.cases
  cases hcomplete : TextState.complete lead value <;>
    simp [gatherText, TextState.ends, TextState.step, hvalue, hcomplete]

theorem gatherText_escaped {digits : Octets} {value : Nat} (h : HexDigits digits value)
    (hlead : isLeadSurrogate value = false) (htrail : isTrailSurrogate value = false)
    (taken tail : Octets) :
    gatherText .plain taken (Ascii.backslash :: 0x75 :: (digits ++ tail)) =
      gatherText .plain ((String.utf8EncodeChar (Char.ofNat value)).reverse ++ taken) tail := by
  have hmark : gatherText .plain taken (Ascii.backslash :: 0x75 :: (digits ++ tail)) =
      gatherText (.hex none []) taken (digits ++ tail) := by
    simp [gatherText, TextState.ends, TextState.step, isHexMark, Ascii.quote, Ascii.backslash]
  rw [hmark, gatherText_hex h]
  simp [TextState.complete, hlead, htrail]

theorem gatherText_pair {digits digits' : Octets} {lead trail : Nat} (h : HexDigits digits lead)
    (hlead : isLeadSurrogate lead = true) (h' : HexDigits digits' trail)
    (htrail : isTrailSurrogate trail = true) (taken tail : Octets) :
    gatherText .plain taken (Ascii.backslash :: 0x75 :: (digits ++
        Ascii.backslash :: 0x75 :: (digits' ++ tail))) =
      gatherText .plain ((String.utf8EncodeChar
        (Char.ofNat (joinSurrogates lead trail))).reverse ++ taken) tail := by
  have hnot : isTrailSurrogate lead = false := by
    simp only [isLeadSurrogate, isTrailSurrogate, Bool.and_eq_true, Bool.and_eq_false_iff,
      decide_eq_true_eq, decide_eq_false_iff_not] at hlead ⊢
    omega
  have hmark : ∀ {tail}, gatherText .plain taken (Ascii.backslash :: 0x75 :: tail) =
      gatherText (.hex none []) taken tail := by
    intro tail
    simp [gatherText, TextState.ends, TextState.step, isHexMark, Ascii.quote, Ascii.backslash]
  have hmark' : ∀ {tail}, gatherText (.pair lead) taken (Ascii.backslash :: 0x75 :: tail) =
      gatherText (.hex (some lead) []) taken tail := by
    intro tail
    simp [gatherText, TextState.ends, TextState.step, isHexMark]
  rw [hmark, gatherText_hex h]
  simp only [TextState.complete, hnot, hlead, Bool.false_eq_true, if_false, if_true,
    List.reverse_nil, List.nil_append]
  rw [hmark', gatherText_hex h']
  simp [TextState.complete, htrail]

theorem Spells.gathered {text : List Char} {octets : Octets} (h : Spells text octets)
    (taken rest : Octets) :
    gatherText .plain taken (octets ++ Ascii.quote :: rest) =
      .ok (taken.reverse ++ text.flatMap String.utf8EncodeChar, rest) := by
  induction h generalizing taken with
  | nil => simp [gatherText, TextState.ends]
  | plain hquote hslash hcontrol _ ih =>
    rw [List.append_assoc, gatherText_plain (encodeChar_plain hquote hslash hcontrol), ih]
    simp
  | short hletter _ ih =>
    rw [List.cons_append, List.cons_append, gatherText_short hletter, ih,
      List.flatMap_cons, encodeChar_shortEscape hletter]
    simp
  | hex hdigits hlead htrail _ ih =>
    simp only [List.cons_append, List.append_assoc]
    rw [gatherText_escaped hdigits hlead htrail, ih]
    simp
  | pair hdigits hlead hdigits' htrail _ ih =>
    simp only [List.cons_append, List.append_assoc]
    rw [gatherText_pair hdigits hlead hdigits' htrail, ih]
    simp

/-- However a text is spelled, it is read as that text. -/
theorem Spells.read {text : String} {octets : Octets} (h : Spells text.toList octets)
    (rest : Octets) : readText (octets ++ Ascii.quote :: rest) = .ok (text, rest) := by
  unfold readText
  rw [h.gathered, List.reverse_nil, List.nil_append, ← Octets.ofText_eq_flatMap]
  simp only [bind, Except.bind, Octets.toText?_ofText]

/-- A text without quotes, backslashes and control characters spells itself. -/
theorem spells_self {text : List Char}
    (h : (text.all fun c => c ≠ '"' && c ≠ '\\' && 0x20 ≤ c.toNat) = true) :
    Spells text (text.flatMap String.utf8EncodeChar) := by
  induction text with
  | nil => exact .nil
  | cons c text ih =>
    rw [List.all_cons, Bool.and_eq_true] at h
    obtain ⟨hfirst, hrest⟩ := h
    simp only [Bool.and_eq_true, decide_eq_true_eq] at hfirst
    obtain ⟨⟨hquote, hslash⟩, hcontrol⟩ := hfirst
    exact .plain hquote hslash hcontrol (ih hrest)

theorem IsTextBody.behindPlain {octets body : Octets} (hplain : ∀ octet ∈ octets, IsPlain octet)
    (hbody : IsTextBody body) : IsTextBody (octets ++ body) := by
  induction octets with
  | nil => exact hbody
  | cons octet octets ih =>
    exact .plain (hplain octet List.mem_cons_self)
      (ih fun other hmem => hplain other (List.mem_cons_of_mem octet hmem))

theorem Spells.isTextBody {text : List Char} {octets : Octets} (h : Spells text octets) :
    IsTextBody octets := by
  induction h with
  | nil => exact .nil
  | plain hquote hslash hcontrol _ ih =>
    exact .behindPlain (encodeChar_plain hquote hslash hcontrol) ih
  | short hletter _ ih => exact .short (by rw [hletter]; rfl) ih
  | hex hdigits _ _ _ ih => exact .hex hdigits.length hdigits.isSome ih
  | pair hdigits _ hdigits' _ _ ih =>
    exact .hex hdigits.length hdigits.isSome (.hex hdigits'.length hdigits'.isSome ih)

/-! Numbers -/

/-- At least one digit, and nothing else. -/
def IsDigits (octets : Octets) : Prop :=
  octets ≠ [] ∧ ∀ octet ∈ octets, (Ascii.digit? octet).isSome = true

/-- Digits without a zero in front of them. -/
def IsWholePart (octets : Octets) : Prop :=
  octets = [Ascii.zero] ∨ (IsDigits octets ∧ octets.head? ≠ some Ascii.zero)

def IsFraction (octets : Octets) : Prop :=
  octets = [] ∨ ∃ digits, IsDigits digits ∧ octets = Ascii.point :: digits

def IsExponent (octets : Octets) : Prop :=
  octets = [] ∨ ∃ mark sign digits, Number.isExponentMark mark = true ∧
    (sign = [] ∨ sign = [Ascii.plus] ∨ sign = [Ascii.minus]) ∧ IsDigits digits ∧
    octets = mark :: (sign ++ digits)

inductive IsNumber : Octets → Prop
  | mk {sign whole fraction exponent : Octets} (hsign : sign = [] ∨ sign = [Ascii.minus])
      (hwhole : IsWholePart whole) (hfraction : IsFraction fraction)
      (hexponent : IsExponent exponent) :
      IsNumber (sign ++ (whole ++ (fraction ++ exponent)))

/-! Values -/

/-- The octets of a literal. -/
def Literal.octets : Literal → Octets
  | .null => 0x6E :: Literal.null.remainder
  | .yes => 0x74 :: Literal.yes.remainder
  | .no => 0x66 :: Literal.no.remainder

/-- The octet that opens a container. -/
def Skip.Container.opening : Skip.Container → UInt8
  | .list => Ascii.openBracket
  | .object => Ascii.openBrace

/-- What precedes the value of a part: blanks in a list, and in an object a key as well. -/
inductive IsLabel : Skip.Container → Octets → Prop
  | list {blanks : Octets} (hblanks : Blank blanks) : IsLabel .list blanks
  | object {blanks key before behind : Octets} (hblanks : Blank blanks) (hkey : IsTextBody key)
      (hbefore : Blank before) (hbehind : Blank behind) :
      IsLabel .object (blanks ++ Ascii.quote :: (key ++ Ascii.quote ::
        (before ++ Ascii.colon :: behind)))

mutual

inductive IsValue : Octets → Prop
  | literal (literal : Literal) : IsValue literal.octets
  | number {text : Octets} (h : IsNumber text) : IsValue text
  | text {body : Octets} (h : IsTextBody body) :
      IsValue (Ascii.quote :: (body ++ [Ascii.quote]))
  | empty (container : Skip.Container) {blanks : Octets} (hblanks : Blank blanks) :
      IsValue (container.opening :: (blanks ++ [container.close]))
  | parts (container : Skip.Container) {text : Octets} (h : IsParts container text) :
      IsValue (container.opening :: text)

/-- The parts of a container, at least one of them, and its end. -/
inductive IsParts : Skip.Container → Octets → Prop
  | last {container : Skip.Container} {label value blanks : Octets}
      (hlabel : IsLabel container label) (hvalue : IsValue value) (hblanks : Blank blanks) :
      IsParts container (label ++ (value ++ (blanks ++ [container.close])))
  | next {container : Skip.Container} {label value blanks more : Octets}
      (hlabel : IsLabel container label) (hvalue : IsValue value) (hblanks : Blank blanks)
      (hmore : IsParts container more) :
      IsParts container (label ++ (value ++ (blanks ++ Ascii.comma :: more)))

end

end MacroPlugin.Json
