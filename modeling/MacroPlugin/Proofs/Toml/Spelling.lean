import Mathlib.Data.List.TakeDrop
import MacroPlugin.Toml.Document

/-!
How scalars and lists of texts can be spelled in a configuration file, and that a reader takes such
a spelling for what it spells. Texts stand between quotes, with escapes; between the brackets of a
list there may be line ends and comments.
-/

namespace MacroPlugin.Toml

/-! What stands behind a spelling -/

/-- Nothing, or something that cannot be read on with the characters before it. -/
def Stops (p : Char → Bool) : List Char → Prop
  | [] => True
  | c :: _ => p c = false

theorem stops_append {p : Char → Bool} {front : List Char} (hne : front ≠ [])
    (hfront : ∀ c ∈ front, p c = false) (rest : List Char) : Stops p (front ++ rest) := by
  cases front with
  | nil => exact absurd rfl hne
  | cons c front => exact hfront c List.mem_cons_self

theorem dropWhile_append {p : Char → Bool} {front rest : List Char} (hfront : ∀ c ∈ front, p c = true)
    (hrest : Stops p rest) : (front ++ rest).dropWhile p = rest := by
  rw [List.dropWhile_append_of_pos hfront]
  cases rest with
  | nil => rfl
  | cons c rest => exact List.dropWhile_cons_of_neg (Bool.eq_false_iff.mp hrest)

theorem span_append {p : Char → Bool} {front rest : List Char} (hfront : ∀ c ∈ front, p c = true)
    (hrest : Stops p rest) : (front ++ rest).span p = (front, rest) := by
  rw [List.span_eq_takeWhile_dropWhile, dropWhile_append hfront hrest,
    List.takeWhile_append_of_pos hfront]
  cases rest with
  | nil => simp
  | cons c rest => simp [List.takeWhile_cons_of_neg (Bool.eq_false_iff.mp hrest)]

/-- The characters that may stand right behind a value. -/
def isClosing (c : Char) : Bool :=
  isBlank c || c = '#' || c = '\n' || c = '\r' || c = ',' || c = ']'

/-- What may follow a value: nothing that could belong to it. -/
def Closes (rest : List Char) : Prop :=
  Stops (!isClosing ·) rest

theorem Closes.stops {p : Char → Bool} (hp : ∀ c, isClosing c = true → p c = false)
    {rest : List Char} (h : Closes rest) : Stops p rest := by
  cases rest with
  | nil => trivial
  | cons c rest => exact hp c (by simpa [Closes, Stops] using h)

/-! Texts -/

/-- The escapes of one letter, with the character that each of them means. -/
def escapes : List (Char × Char) :=
  [('b', '\x08'), ('t', '\t'), ('n', '\n'), ('f', '\x0c'), ('r', '\r'), ('"', '"'), ('\\', '\\')]

/-- The hexadecimal digits with their values. -/
def hexDigits : List (Char × Nat) :=
  "0123456789abcdef".toList.zipIdx ++ "ABCDEF".toList.zipIdx 10

def hexValue (digits : List (Char × Nat)) : Nat :=
  digits.foldl (fun value digit => 16 * value + digit.2) 0

/-- The ways to write a text between quotes: characters stand for themselves, unless they control
something, and any character can be given by an escape. -/
inductive Spells : (text spelling : List Char) → Prop
  | nil : Spells [] []
  | plain {c : Char} {text spelling : List Char} (hplain : isPlain c = true) (hquote : c ≠ '"')
      (hslash : c ≠ '\\') (h : Spells text spelling) : Spells (c :: text) (c :: spelling)
  | letter {letter c : Char} {text spelling : List Char} (hletter : (letter, c) ∈ escapes)
      (h : Spells text spelling) : Spells (c :: text) ('\\' :: letter :: spelling)
  | point {c : Char} {a b d e : Char × Nat} {text spelling : List Char}
      (hdigits : ∀ digit ∈ [a, b, d, e], digit ∈ hexDigits)
      (hvalue : hexValue [a, b, d, e] = c.toNat) (h : Spells text spelling) :
      Spells (c :: text) ('\\' :: 'u' :: a.1 :: b.1 :: d.1 :: e.1 :: spelling)
  | longPoint {c : Char} {a b d e f g i j : Char × Nat} {text spelling : List Char}
      (hdigits : ∀ digit ∈ [a, b, d, e, f, g, i, j], digit ∈ hexDigits)
      (hvalue : hexValue [a, b, d, e, f, g, i, j] = c.toNat) (h : Spells text spelling) :
      Spells (c :: text)
        ('\\' :: 'U' :: a.1 :: b.1 :: d.1 :: e.1 :: f.1 :: g.1 :: i.1 :: j.1 :: spelling)

theorem hexDigit?_eq_some : ∀ digit ∈ hexDigits, hexDigit? digit.1 = some digit.2 := by
  decide

theorem codePoint?_eq_some {digits : List (Char × Nat)} {c : Char}
    (hdigits : ∀ digit ∈ digits, digit ∈ hexDigits) (hvalue : hexValue digits = c.toNat) :
    codePoint? (digits.map (·.1)) = some c := by
  have hfold : ∀ value, (digits.map (·.1)).foldlM
      (fun value c => do return 16 * value + (← hexDigit? c)) value =
        some (digits.foldl (fun value digit => 16 * value + digit.2) value) := by
    clear hvalue
    induction digits with
    | nil => exact fun _ => rfl
    | cons digit digits ih =>
      intro value
      have hdigit := hexDigit?_eq_some digit (hdigits digit List.mem_cons_self)
      rw [List.map_cons, List.foldlM_cons, hdigit]
      exact ih (fun digit hmem => hdigits digit (List.mem_cons_of_mem _ hmem)) _
  have hvalid : c.toNat < 0xD800 ∨ 0xDFFF < c.toNat ∧ c.toNat < 0x110000 := c.valid
  have hrange : (c.toNat < 0xD800 || (0xDFFF < c.toNat && c.toNat < 0x110000)) = true := by
    simpa using hvalid
  rw [codePoint?, hfold]
  show (if (hexValue digits < 0xD800 || (0xDFFF < hexValue digits && hexValue digits < 0x110000)) =
    true then some (Char.ofNat (hexValue digits)) else none) = some c
  rw [hvalue, if_pos hrange, Char.ofNat_toNat]

theorem shortEscape?_eq_some {letter c : Char} (h : (letter, c) ∈ escapes) :
    shortEscape? letter = some c := by
  simp only [escapes, List.mem_cons, Prod.mk.injEq, List.not_mem_nil, or_false] at h
  rcases h with ⟨rfl, rfl⟩ | ⟨rfl, rfl⟩ | ⟨rfl, rfl⟩ | ⟨rfl, rfl⟩ | ⟨rfl, rfl⟩ | ⟨rfl, rfl⟩ |
    ⟨rfl, rfl⟩ <;> rfl

theorem Spells.quoted {text spelling : List Char} (h : Spells text spelling)
    (taken rest : List Char) :
    Text.quoted taken (spelling ++ '"' :: rest) = some (taken.reverse ++ text, rest) := by
  induction h generalizing taken with
  | nil => simp [Text.quoted]
  | @plain c text spelling hplain hquote hslash _ ih =>
    have hno : ∀ {p : Prop}, c = '\\' → p := fun h => absurd h hslash
    rw [List.cons_append, Text.quoted.eq_6 _ _ _ hquote (fun _ _ _ _ _ h => hno h)
      (fun _ _ _ _ _ _ _ _ _ h => hno h) (fun _ _ h => hno h), if_pos (by simp [hplain, hslash]),
      ih]
    simp
  | @letter letter c text spelling hletter _ ih =>
    have hmeant := shortEscape?_eq_some hletter
    have hu : letter ≠ 'u' := by
      rintro rfl
      exact absurd hmeant (by simp [shortEscape?])
    have hU : letter ≠ 'U' := by
      rintro rfl
      exact absurd hmeant (by simp [shortEscape?])
    rw [List.cons_append, List.cons_append, Text.quoted.eq_5 _ _ _ (fun _ _ _ _ _ h => absurd h hu)
      (fun _ _ _ _ _ _ _ _ _ h => absurd h hU), hmeant]
    dsimp only
    rw [ih]
    simp
  | @point c a b d e text spelling hdigits hvalue _ ih =>
    have hmeant : codePoint? [a.1, b.1, d.1, e.1] = some c := codePoint?_eq_some hdigits hvalue
    simp only [List.cons_append, Text.quoted.eq_3, hmeant, ih]
    simp
  | @longPoint c a b d e f g i j text spelling hdigits hvalue _ ih =>
    have hmeant : codePoint? [a.1, b.1, d.1, e.1, f.1, g.1, i.1, j.1] = some c :=
      codePoint?_eq_some hdigits hvalue
    simp only [List.cons_append, Text.quoted.eq_4, hmeant, ih]
    simp

/-- The spelling of a text in its quotes. -/
def quotes (spelling rest : List Char) : List Char :=
  '"' :: (spelling ++ '"' :: rest)

theorem Spells.read {text spelling rest : List Char} (h : Spells text spelling)
    (hrest : Closes rest) : Text.read (quotes spelling rest) = some (text, rest) := by
  have hsingle : ∀ behind, spelling ++ '"' :: rest ≠ '"' :: '"' :: behind := by
    intro behind heq
    cases h with
    | nil =>
      rw [List.nil_append, List.cons.injEq] at heq
      rw [heq.2] at hrest
      exact absurd hrest (by simp [Closes, Stops, isClosing, isBlank])
    | plain _ hquote => exact hquote (List.cons.inj heq).1
    | _ => simp at heq
  rw [quotes, Text.read.eq_2 _ hsingle, h.quoted]
  rfl

theorem Spells.readValue {text : String} {spelling rest : List Char}
    (h : Spells text.toList spelling) (hrest : Closes rest) (depth : Nat) :
    ∃ extent, readValue depth (quotes spelling rest) = some (.scalar extent (.text text), rest) := by
  have hread := h.read hrest
  rw [quotes] at hread ⊢
  cases depth <;> simp [Toml.readValue, hread]

/-- Every text can be spelled. -/
theorem exists_spelling (text : List Char) : ∃ spelling, Spells text spelling := by
  have hdigit : ∀ value < 16, ∃ digit ∈ hexDigits, digit.2 = value := by decide
  induction text with
  | nil => exact ⟨[], .nil⟩
  | cons c text ih =>
    obtain ⟨spelling, h⟩ := ih
    by_cases hquote : c = '"'
    · have hletter : ('"', c) ∈ escapes := by
        rw [hquote]
        decide
      exact ⟨_, .letter hletter h⟩
    by_cases hslash : c = '\\'
    · have hletter : ('\\', c) ∈ escapes := by
        rw [hslash]
        decide
      exact ⟨_, .letter hletter h⟩
    cases hplain : isPlain c with
    | true => exact ⟨_, .plain hplain hquote hslash h⟩
    | false =>
      -- A character that controls something is one of the first 128.
      have hsmall : c.toNat < 128 := by
        simp only [isPlain, Bool.or_eq_false_iff, Bool.and_eq_false_iff,
          decide_eq_false_iff_not] at hplain
        omega
      obtain ⟨high, hhigh, hhighValue⟩ := hdigit (c.toNat / 16) (by omega)
      obtain ⟨low, hlow, hlowValue⟩ := hdigit (c.toNat % 16) (by omega)
      have hzero : ('0', 0) ∈ hexDigits := by decide
      refine ⟨_, .point (a := ('0', 0)) (b := ('0', 0)) (d := high) (e := low) ?_ ?_ h⟩
      · simp [hzero, hhigh, hlow]
      · simp [hexValue, hhighValue, hlowValue]
        omega

end MacroPlugin.Toml
