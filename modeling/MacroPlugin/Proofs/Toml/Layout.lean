import Mathlib.Data.List.Forall2
import MacroPlugin.Proofs.Toml.Words

/-!
How lists, headers and assignments can be laid out: with blanks around every part, with comments at
the ends of lines, and over several lines inside of brackets. However that is done, a reader takes
the same line.
-/

namespace MacroPlugin.Toml

/-! Lists of texts -/

/-- What may stand between the items of a list: blanks, line ends and comments. -/
inductive Gap : List Char → Prop
  | nil : Gap []
  | blank {c : Char} {gap : List Char} (hblank : isBlank c = true) (h : Gap gap) : Gap (c :: gap)
  | lineEnd {gap : List Char} (h : Gap gap) : Gap ('\n' :: gap)
  | longLineEnd {gap : List Char} (h : Gap gap) : Gap ('\r' :: '\n' :: gap)
  | comment {words gap : List Char} (hplain : ∀ c ∈ words, isPlain c = true) (h : Gap gap) :
      Gap ('#' :: (words ++ '\n' :: gap))

/-- The items of a list of texts and its closing bracket. A comma may stand behind the last item. -/
inductive Items : List String → List Char → Prop
  | close {gap : List Char} (hgap : Gap gap) : Items [] (gap ++ [']'])
  | last {text : String} {spelling front back : List Char} (hfront : Gap front)
      (htext : Spells text.toList spelling) (hback : Gap back) :
      Items [text] (front ++ quotes spelling (back ++ [']']))
  | next {text : String} {spelling front back : List Char} {texts : List String}
      {rest : List Char} (hfront : Gap front) (htext : Spells text.toList spelling)
      (hback : Gap back) (hrest : Items texts rest) :
      Items (text :: texts) (front ++ quotes spelling (back ++ ',' :: rest))

theorem exists_items (texts : List String) : ∃ spelled, Items texts spelled := by
  induction texts with
  | nil => exact ⟨_, .close .nil⟩
  | cons text texts ih =>
    obtain ⟨rest, hrest⟩ := ih
    obtain ⟨spelling, htext⟩ := exists_spelling text.toList
    exact ⟨_, .next .nil htext .nil hrest⟩

theorem ne_of_isPlain {c other : Char} (h : isPlain c = true) (hother : isPlain other = false) :
    c ≠ other := by
  rintro rfl
  exact Bool.false_ne_true (hother.symm.trans h)

theorem skipTrivia_cons {c : Char} (hfeed : c ≠ '\n') (hreturn : c ≠ '\r') (inComment : Bool)
    (rest : List Char) :
    skipTrivia inComment (c :: rest) =
      if inComment then if isPlain c then skipTrivia true rest else c :: rest
      else if isBlank c then skipTrivia false rest
      else if c = '#' then skipTrivia true rest
      else c :: rest :=
  skipTrivia.eq_4 inComment c rest (fun _ h => absurd h hreturn) hfeed

theorem skipTrivia_comment {words : List Char} (hplain : ∀ c ∈ words, isPlain c = true)
    (rest : List Char) : skipTrivia true (words ++ '\n' :: rest) = skipTrivia false rest := by
  induction words with
  | nil => rw [List.nil_append, skipTrivia.eq_3]
  | cons c words ih =>
    have hc := hplain c List.mem_cons_self
    rw [List.cons_append, skipTrivia_cons (ne_of_isPlain hc (by decide))
      (ne_of_isPlain hc (by decide)), if_pos rfl, if_pos hc]
    exact ih fun c hmem => hplain c (List.mem_cons_of_mem _ hmem)

theorem Gap.skipTrivia {gap : List Char} (h : Gap gap) {c : Char} (hc : c ∈ ['"', ',', ']'])
    (rest : List Char) : skipTrivia false (gap ++ c :: rest) = c :: rest := by
  induction h with
  | nil =>
    simp only [List.mem_cons, List.not_mem_nil, or_false] at hc
    rcases hc with rfl | rfl | rfl <;>
      rw [List.nil_append, skipTrivia_cons (by decide) (by decide)] <;> rfl
  | @blank blank gap hblank _ ih =>
    have hfeed : blank ≠ '\n' := by
      rintro rfl
      exact absurd hblank (by decide)
    have hreturn : blank ≠ '\r' := by
      rintro rfl
      exact absurd hblank (by decide)
    rw [List.cons_append, skipTrivia_cons hfeed hreturn, if_neg Bool.false_ne_true, if_pos hblank]
    exact ih
  | lineEnd _ ih =>
    rw [List.cons_append, skipTrivia.eq_3]
    exact ih
  | longLineEnd _ ih =>
    rw [List.cons_append, List.cons_append, skipTrivia.eq_2]
    exact ih
  | comment hplain _ ih =>
    rw [List.cons_append, skipTrivia_cons (by decide) (by decide), List.append_assoc,
      List.cons_append]
    exact (skipTrivia_comment hplain _).trans ih

theorem Gap.closes {gap : List Char} (h : Gap gap) {c : Char} (hc : c ∈ [',', ']'])
    (rest : List Char) : Closes (gap ++ c :: rest) := by
  cases h with
  | nil =>
    simp only [List.mem_cons, List.not_mem_nil, or_false] at hc
    rcases hc with rfl | rfl <;> rfl
  | blank hblank => simp [Closes, Stops, isClosing, hblank]
  | _ => rfl

theorem Items.length_le {texts : List String} {spelled : List Char} (h : Items texts spelled) :
    texts.length < spelled.length := by
  induction h with
  | close => simp
  | last =>
    simp [quotes]
    omega
  | next _ _ _ _ ih =>
    simp [quotes]
    omega

theorem quotes_append (spelling behind rest : List Char) :
    quotes spelling behind ++ rest = quotes spelling (behind ++ rest) := by
  simp [quotes]

/-- One item of a list, up to the comma or the bracket behind it. -/
theorem readItems_item {text : String} {spelling front back : List Char} (hfront : Gap front)
    (htext : Spells text.toList spelling) (hback : Gap back) {c : Char} (hc : c ∈ [',', ']'])
    (rest : List Char) (depth fuel : Nat) (taken : List Value) :
    ∃ item, (∃ extent, item = .scalar extent (.text text)) ∧
      readItems (readValue depth) (fuel + 1) taken
          (front ++ quotes spelling (back ++ c :: rest)) =
        if c = ',' then readItems (readValue depth) fuel (item :: taken) rest
        else some ((item :: taken).reverse, rest) := by
  obtain ⟨extent, hread⟩ := htext.readValue (hback.closes hc rest) depth
  have hopening : skipTrivia false (front ++ quotes spelling (back ++ c :: rest)) =
      quotes spelling (back ++ c :: rest) := hfront.skipTrivia List.mem_cons_self _
  have hclosing : skipTrivia false (back ++ c :: rest) = c :: rest :=
    hback.skipTrivia (List.mem_cons_of_mem _ hc) rest
  refine ⟨_, ⟨extent, rfl⟩, ?_⟩
  rw [readItems, hopening]
  rw [quotes] at hread ⊢
  split
  · next heq => exact absurd (List.cons.inj heq).1 (by decide)
  · simp only [hread, hclosing, bind, Option.bind_some]
    simp only [List.mem_cons, List.not_mem_nil, or_false] at hc
    rcases hc with rfl | rfl <;> rfl

theorem Items.readItems {texts : List String} {spelled : List Char} (h : Items texts spelled)
    (depth : Nat) (rest : List Char) {fuel : Nat} (hfuel : texts.length ≤ fuel)
    (taken : List Value) :
    ∃ items, readItems (readValue depth) (fuel + 1) taken (spelled ++ rest) =
        some (taken.reverse ++ items, rest) ∧
      List.Forall₂ (fun item text => ∃ extent, item = .scalar extent (.text text)) items texts := by
  induction h generalizing fuel taken with
  | close hgap =>
    refine ⟨[], ?_, .nil⟩
    have hclosing := hgap.skipTrivia (by decide : ']' ∈ ['"', ',', ']']) rest
    rw [Toml.readItems, List.append_assoc, List.singleton_append, hclosing, List.append_nil]
    rfl
  | @last text spelling front back hfront htext hback =>
    obtain ⟨item, hitem, hread⟩ :=
      readItems_item hfront htext hback (by decide : ']' ∈ [',', ']']) rest depth fuel taken
    refine ⟨[item], ?_, .cons hitem .nil⟩
    rw [List.append_assoc, quotes_append, List.append_assoc, List.singleton_append, hread,
      if_neg (by decide), List.reverse_cons]
  | @next text spelling front back texts behind hfront htext hback _ ih =>
    obtain ⟨fuel, rfl⟩ : ∃ less, fuel = less + 1 := ⟨fuel - 1, by simp at hfuel; omega⟩
    obtain ⟨item, hitem, hread⟩ := readItems_item hfront htext hback
      (by decide : ',' ∈ [',', ']']) (behind ++ rest) depth (fuel + 1) taken
    obtain ⟨items, hitems, hall⟩ := ih (Nat.le_of_succ_le_succ hfuel) (item :: taken)
    refine ⟨item :: items, ?_, .cons hitem hall⟩
    rw [List.append_assoc, quotes_append, List.append_assoc, List.cons_append, hread,
      if_pos rfl, hitems]
    simp

theorem Items.readValue {texts : List String} {spelled : List Char} (h : Items texts spelled)
    (depth : Nat) (rest : List Char) :
    ∃ extent items, readValue (depth + 1) ('[' :: (spelled ++ rest)) =
        some (.array extent items, rest) ∧
      List.Forall₂ (fun item text => ∃ extent, item = .scalar extent (.text text)) items texts := by
  have hfuel : texts.length ≤ ('[' :: (spelled ++ rest)).length := by
    have hlength := h.length_le
    simp only [List.length_cons, List.length_append]
    omega
  obtain ⟨items, hitems, hall⟩ := h.readItems depth rest hfuel []
  have hvalue : Toml.readValue (depth + 1) ('[' :: (spelled ++ rest)) =
      some (.array ⟨('[' :: (spelled ++ rest)).length, rest.length⟩ items, rest) := by
    rw [Toml.readValue, hitems]
    rfl
  exact ⟨_, items, hvalue, hall⟩

/-! Lines -/

/-- Blanks around the parts of a line. -/
def AreBlanks (blanks : List Char) : Prop :=
  ∀ c ∈ blanks, isBlank c = true

/-- Nothing, or a comment up to the end of its line. -/
inductive IsComment : List Char → Prop
  | none : IsComment []
  | some {words : List Char} (hplain : ∀ c ∈ words, isPlain c = true) : IsComment ('#' :: words)

/-- What ends a line before the rest of the file. The last line may end with the file. -/
inductive IsStop : (stop rest : List Char) → Prop
  | feed (rest : List Char) : IsStop ['\n'] rest
  | returnFeed (rest : List Char) : IsStop ['\r', '\n'] rest
  | file : IsStop [] []

/-- The end of a line, with blanks and a comment before it. -/
inductive LineEnd (rest : List Char) : List Char → Prop
  | intro {blanks comment stop : List Char} (hblanks : AreBlanks blanks)
      (hcomment : IsComment comment) (hstop : IsStop stop rest) :
      LineEnd rest (blanks ++ comment ++ stop)

theorem areBlanks_nil : AreBlanks [] := by
  simp [AreBlanks]

theorem areBlanks_space : AreBlanks [' '] := by
  simp [AreBlanks, isBlank]

theorem LineEnd.feed (rest : List Char) : LineEnd rest ['\n'] :=
  .intro areBlanks_nil .none (.feed rest)

/-- Behind a comment only the end of its line is not plain. -/
theorem IsStop.stops {stop rest : List Char} (h : IsStop stop rest) {p : Char → Bool}
    (hfeed : p '\n' = false) (hreturn : p '\r' = false) : Stops p (stop ++ rest) := by
  cases h with
  | feed => exact hfeed
  | returnFeed => exact hreturn
  | file => trivial

theorem LineEnd.closes {rest ending : List Char} (h : LineEnd rest ending) :
    Closes (ending ++ rest) := by
  cases h with
  | @intro blanks comment stop hblanks hcomment hstop =>
    cases blanks with
    | cons c blanks =>
      have hc : isBlank c = true := hblanks c List.mem_cons_self
      simp [Closes, Stops, isClosing, hc]
    | nil =>
      cases hcomment with
      | some => rfl
      | none => exact hstop.stops rfl rfl

theorem LineEnd.readLineEnd {rest ending : List Char} (h : LineEnd rest ending) :
    readLineEnd (ending ++ rest) = some rest := by
  cases h with
  | @intro blanks comment stop hblanks hcomment hstop =>
    have hcommentStops : Stops isBlank (comment ++ (stop ++ rest)) := by
      cases hcomment with
      | some => rfl
      | none => exact hstop.stops rfl rfl
    have hskip : skipBlank (blanks ++ comment ++ stop ++ rest) = comment ++ (stop ++ rest) := by
      rw [List.append_assoc, List.append_assoc]
      exact dropWhile_append hblanks hcommentStops
    rw [Toml.readLineEnd, hskip]
    cases hcomment with
    | some hplain =>
      simp only [List.cons_append, dropWhile_append hplain (hstop.stops rfl rfl)]
      cases hstop <;> rfl
    | none => cases hstop <;> rfl

/-- The characters of a key without quotes. -/
def IsBare (name : List Char) : Prop :=
  name ≠ [] ∧ ∀ c ∈ name, isBare c = true

instance : DecidablePred IsBare :=
  fun name => decidable_of_iff (name ≠ [] ∧ name.all isBare = true) (by simp [IsBare])

theorem IsBare.stops {name : List Char} (h : IsBare name) {p : Char → Bool}
    (hp : ∀ c, isBare c = true → p c = false) (rest : List Char) : Stops p (name ++ rest) :=
  stops_append h.1 (fun c hmem => hp c (h.2 c hmem)) rest

/-- A character that is not one of a key without quotes does not begin such a key. -/
theorem IsBare.append_ne {name : List Char} (h : IsBare name) {c : Char} (hc : isBare c = false)
    (behind rest : List Char) : name ++ behind ≠ c :: rest := by
  intro heq
  have hstops := h.stops (p := (· = c)) (fun other hother => decide_eq_false fun h => by
    rw [h, hc] at hother
    exact Bool.false_ne_true hother) behind
  rw [heq] at hstops
  exact absurd hstops (by simp [Stops])

theorem stops_blanks {blanks : List Char} (h : AreBlanks blanks) {c : Char} {p : Char → Bool}
    (hp : ∀ c, isBlank c = true → p c = false) (hc : p c = false) (rest : List Char) :
    Stops p (blanks ++ c :: rest) := by
  cases blanks with
  | nil => exact hc
  | cons blank blanks => exact hp blank (h blank List.mem_cons_self)

theorem readPart_bare {name rest : List Char} (hname : IsBare name) (hrest : Stops isBare rest) :
    ∃ extent, readPart (name ++ rest) = some (⟨String.ofList name, extent⟩, rest) := by
  refine ⟨⟨(name ++ rest).length, rest.length⟩, ?_⟩
  unfold readPart
  split
  · next heq => exact absurd heq (hname.append_ne (by decide) _ _)
  · next heq => exact absurd heq (hname.append_ne (by decide) _ _)
  · have hne : name.isEmpty = false := by simpa using hname.1
    rw [span_append hname.2 hrest]
    simp [hne]

theorem readKey_bare {name front back : List Char} (hname : IsBare name) (hfront : AreBlanks front)
    (hback : AreBlanks back) {c : Char} (hc : c ∈ ['=', ']']) (rest : List Char) :
    ∃ extent, readKey (front ++ (name ++ (back ++ c :: rest))) =
      some ([⟨String.ofList name, extent⟩], c :: rest) := by
  simp only [List.mem_cons, List.not_mem_nil, or_false] at hc
  have hbare : isBare c = false := by rcases hc with rfl | rfl <;> decide
  have hblank : isBlank c = false := by rcases hc with rfl | rfl <;> decide
  have hstart : skipBlank (front ++ (name ++ (back ++ c :: rest))) =
      name ++ (back ++ c :: rest) :=
    dropWhile_append hfront (hname.stops (fun _ => isBlank_eq_false_of_isBare) _)
  have hbehind : skipBlank (back ++ c :: rest) = c :: rest := dropWhile_append hback hblank
  have hstops : Stops isBare (back ++ c :: rest) :=
    stops_blanks hback (fun blank h => by
      rw [Bool.eq_false_iff]
      intro hbare
      rw [isBlank_eq_false_of_isBare hbare] at h
      exact Bool.false_ne_true h) hbare rest
  obtain ⟨extent, hpart⟩ := readPart_bare hname hstops
  refine ⟨extent, ?_⟩
  have hparts : maxParts - 1 = 78 + 1 := rfl
  rw [readKey, hparts, readParts, hstart, hpart]
  simp only [bind, Option.bind_some, hbehind]
  rcases hc with rfl | rfl <;> rfl

/-- A line that assigns a value to a key. -/
theorem readLine_assignment {name value front middle back ending rest : List Char}
    (hname : IsBare name) (hfront : AreBlanks front) (hmiddle : AreBlanks middle)
    (hback : AreBlanks back) (hending : LineEnd rest ending) {read : Value}
    (hstart : Stops isBlank (value ++ (ending ++ rest)))
    (hvalue : readValue maxDepth (value ++ (ending ++ rest)) = some (read, ending ++ rest)) :
    ∃ extent, readLine (front ++ (name ++ (middle ++ '=' :: (back ++ (value ++ (ending ++ rest)))))) =
      some (.assignment [⟨String.ofList name, extent⟩] read, rest) := by
  have hskip := dropWhile_append hfront (hname.stops (fun _ => isBlank_eq_false_of_isBare)
    (middle ++ '=' :: (back ++ (value ++ (ending ++ rest)))))
  have hskipBack : skipBlank (back ++ (value ++ (ending ++ rest))) = value ++ (ending ++ rest) :=
    dropWhile_append hback hstart
  obtain ⟨extent, hkey⟩ := readKey_bare hname (by simp [AreBlanks] : AreBlanks []) hmiddle
    (by decide : '=' ∈ ['=', ']']) (back ++ (value ++ (ending ++ rest)))
  rw [List.nil_append] at hkey
  refine ⟨extent, ?_⟩
  rw [readLine, skipBlank, hskip]
  have hstatement : readStatement (name ++ (middle ++ '=' :: (back ++ (value ++ (ending ++ rest))))) =
      some (.assignment [⟨String.ofList name, extent⟩] read, ending ++ rest) := by
    unfold readStatement
    split
    · next heq => exact absurd (List.append_eq_nil_iff.mp heq).1 hname.1
    · next heq => exact absurd heq (hname.append_ne (by decide) _ _)
    · next heq => exact absurd heq (hname.append_ne (by decide) _ _)
    · next heq => exact absurd heq (hname.append_ne (by decide) _ _)
    · next heq => exact absurd heq (hname.append_ne (by decide) _ _)
    · rw [readAssignment, hkey]
      simp [hskipBack, hvalue]
  rw [hstatement]
  simp [hending.readLineEnd]

/-- A line with the header of a table. -/
theorem readLine_header {name front middle back ending rest : List Char} (hname : IsBare name)
    (hfront : AreBlanks front) (hmiddle : AreBlanks middle) (hback : AreBlanks back)
    (hending : LineEnd rest ending) :
    ∃ extent place, readLine (front ++ '[' :: (middle ++ (name ++ (back ++ ']' :: (ending ++ rest))))) =
      some (.header ⟨[⟨String.ofList name, extent⟩], place, false⟩, rest) := by
  obtain ⟨extent, hkey⟩ := readKey_bare hname hmiddle hback (by decide : ']' ∈ ['=', ']'])
    (ending ++ rest)
  have hsingle : ∀ behind, middle ++ (name ++ (back ++ ']' :: (ending ++ rest))) ≠
      '[' :: behind := by
    intro behind
    cases middle with
    | nil => exact hname.append_ne (by decide) _ _
    | cons blank middle =>
      intro heq
      have hblank := hmiddle blank List.mem_cons_self
      rw [(List.cons.inj heq).1] at hblank
      exact absurd hblank (by decide)
  generalize middle ++ (name ++ (back ++ ']' :: (ending ++ rest))) = body at hkey hsingle ⊢
  have hbracket : Stops isBlank ('[' :: body) := (rfl : isBlank '[' = false)
  refine ⟨extent, ⟨('[' :: body).length, (ending ++ rest).length⟩, ?_⟩
  rw [readLine, skipBlank, dropWhile_append hfront hbracket]
  have hheader : readHeader ('[' :: body) =
      some (⟨[⟨String.ofList name, extent⟩], ⟨('[' :: body).length, (ending ++ rest).length⟩,
        false⟩, ending ++ rest) := by
    rw [readHeader.eq_2 _ hsingle, hkey]
    rfl
  simp [readStatement, hheader, hending.readLineEnd]

/-! Sections -/

theorem sections_header {lines : List Line} {first : List (List Key × Value)}
    {later : List Section} (h : sections lines = ⟨none, first⟩ :: later) (header : Header) :
    sections (.header header :: lines) = ⟨none, []⟩ :: ⟨some header, first⟩ :: later := by
  rw [sections] at h
  rw [sections, List.foldr_cons, h]

theorem sections_assignment {lines : List Line} {first : List (List Key × Value)}
    {later : List Section} (h : sections lines = ⟨none, first⟩ :: later) (path : List Key)
    (value : Value) :
    sections (.assignment path value :: lines) = ⟨none, (path, value) :: first⟩ :: later := by
  rw [sections] at h
  rw [sections, List.foldr_cons, h]

end MacroPlugin.Toml
