import MacroPlugin.Proofs.Transport.Truncation

/-!
One read of a line, for every sequence of octets that may be unread. The octets are split into lines
first, each with its line feed (`Octets.lines`); a read passes over the blank lines in front and then
takes the next line, or one octet more than the limit if the line is too long
(`receive_jsonLines`). Since a line that is too long is left in its middle, what is left is split
into lines anew; all later lines are still the same, which is why blank lines between lines are
never noticed.
-/

namespace MacroPlugin

namespace Octets

/-- The lines of a sequence of octets, each with its line feed. The last one may lack it. -/
def lines : Octets → List Octets
  | [] => []
  | octet :: rest =>
    if octet = Ascii.newline then [octet] :: lines rest
    else match lines rest with
      | [] => [[octet]]
      | line :: later => (octet :: line) :: later

/-- Lines as they can follow each other: each has one line feed, at its end, except that the last
one may have none. No line is empty. -/
inductive AreLines : List Octets → Prop
  | nil : AreLines []
  | last {line : Octets} (hline : Ascii.newline ∉ line) (hsome : line ≠ []) : AreLines [line]
  | next {front : Octets} {later : List Octets} (hfront : Ascii.newline ∉ front)
      (hlater : AreLines later) : AreLines ((front ++ [Ascii.newline]) :: later)

theorem lines_areLines (octets : Octets) : AreLines octets.lines := by
  induction octets with
  | nil => exact .nil
  | cons octet rest ih =>
    unfold lines
    split
    · next hoctet =>
      rw [hoctet]
      exact AreLines.next (List.not_mem_nil (a := Ascii.newline)) ih
    · next hoctet =>
      have hother : ∀ {line : Octets}, Ascii.newline ∉ line → Ascii.newline ∉ octet :: line := by
        intro line hline hmem
        rcases List.mem_cons.mp hmem with heq | hmem
        · exact hoctet heq.symm
        · exact hline hmem
      generalize hlines : lines rest = ls at ih
      cases ih with
      | nil => exact .last (hother (by simp)) (by simp)
      | last hline => exact .last (hother hline) (by simp)
      | next hfront hlater => exact .next (hother hfront) hlater

/-- No octet is lost or moved by splitting. -/
theorem flatten_lines (octets : Octets) : octets.lines.flatten = octets := by
  induction octets with
  | nil => rfl
  | cons octet rest ih =>
    unfold lines
    split
    · rw [List.flatten_cons, ih, List.singleton_append]
    · generalize hlines : lines rest = ls at ih
      cases ls with
      | nil => rw [← ih]; rfl
      | cons line later =>
        rw [List.flatten_cons] at ih
        rw [List.flatten_cons, List.cons_append, ih]

theorem lines_line {front : Octets} (hfront : Ascii.newline ∉ front) (behind : Octets) :
    (front ++ Ascii.newline :: behind).lines = (front ++ [Ascii.newline]) :: behind.lines := by
  induction front with
  | nil => simp [lines]
  | cons octet front ih =>
    obtain ⟨hoctet, hrest⟩ := not_or.mp (mt List.mem_cons.mpr hfront)
    rw [List.cons_append, lines, if_neg (Ne.symm hoctet), ih hrest]
    rfl

theorem lines_unended {line : Octets} (hline : Ascii.newline ∉ line) (hsome : line ≠ []) :
    line.lines = [line] := by
  induction line with
  | nil => exact absurd rfl hsome
  | cons octet line ih =>
    obtain ⟨hoctet, hrest⟩ := not_or.mp (mt List.mem_cons.mpr hline)
    rw [lines, if_neg (Ne.symm hoctet)]
    by_cases hend : line = []
    · rw [hend]
      rfl
    · rw [ih hrest hend]

/-- There is only one way to split octets into lines. -/
theorem lines_flatten {ls : List Octets} (h : AreLines ls) : lines ls.flatten = ls := by
  induction h with
  | nil => rfl
  | last hline hsome => simpa using lines_unended hline hsome
  | next hfront _ ih =>
    rw [List.flatten_cons, List.append_assoc, List.singleton_append, lines_line hfront, ih]

theorem AreLines.length_pos {line : Octets} {later : List Octets} (h : AreLines (line :: later)) :
    0 < line.length := by
  cases h with
  | last _ hsome => exact List.length_pos_iff.mpr hsome
  | next => simp

theorem AreLines.tail {line : Octets} {later : List Octets} (h : AreLines (line :: later)) :
    AreLines later := by
  cases h with
  | last => exact .nil
  | next _ hlater => exact hlater

theorem AreLines.behind {front back : List Octets} (h : AreLines (front ++ back)) :
    AreLines back := by
  induction front with
  | nil => exact h
  | cons line front ih =>
    rw [List.cons_append] at h
    exact ih h.tail

/-- Lines that have others behind them all have their line feed, so that the others may be
exchanged. -/
theorem AreLines.exchange {front back back' : List Octets} (h : AreLines (front ++ back))
    (hsome : back ≠ []) (hback' : AreLines back') : AreLines (front ++ back') := by
  induction front with
  | nil => exact hback'
  | cons line front ih =>
    rw [List.cons_append] at h
    generalize hlater : front ++ back = later at h
    cases h with
    | last => exact absurd (List.append_eq_nil_iff.mp hlater).2 hsome
    | next hfront hlines => exact .next hfront (ih (hlater ▸ hlines))

/-- The line that begins inside another one, if there is any of it left. -/
def remainder (count : Nat) (line : Octets) : List Octets :=
  if line.drop count = [] then [] else [line.drop count]

theorem flatten_remainder (count : Nat) (line : Octets) :
    (remainder count line).flatten = line.drop count := by
  unfold remainder
  split
  · next hnone => rw [hnone, List.flatten_nil]
  · simp

theorem AreLines.remainder (count : Nat) {line : Octets} {later : List Octets}
    (h : AreLines (line :: later)) : AreLines (remainder count line ++ later) := by
  unfold Octets.remainder
  split
  · exact h.tail
  · next hsome =>
    cases h with
    | last hline => exact .last (fun hmem => hline (List.mem_of_mem_drop hmem)) hsome
    | @next front later hfront hlater =>
      have hcount : count ≤ front.length := by
        have hpos := List.length_pos_iff.mpr hsome
        rw [List.length_drop, List.length_append, List.length_singleton] at hpos
        omega
      rw [List.drop_append_of_le_length hcount]
      exact .next (fun hmem => hfront (List.mem_of_mem_drop hmem)) hlater

/-- Whether a reader with this limit passes over a line. -/
def isPassed (limit : Nat) (line : Octets) : Bool :=
  line.length ≤ limit && line.all Ascii.isBlank

end Octets

namespace Stream

/-- Where no octet stops, just the octets up to the limit are taken. -/
theorem cut_unbroken {front : Octets} (hfront : Ascii.newline ∉ front) {limit : Nat}
    (hlimit : limit ≤ front.length) (behind : Octets) :
    cut (· = Ascii.newline) [] limit (front ++ behind) =
      (front.take limit, 0, front.drop limit ++ behind) := by
  induction front generalizing limit with
  | nil =>
    obtain rfl : limit = 0 := Nat.le_zero.mp hlimit
    rw [cut]
    rfl
  | cons octet front ih =>
    cases limit with
    | zero =>
      rw [cut]
      rfl
    | succ limit =>
      obtain ⟨hoctet, hrest⟩ := not_or.mp (mt List.mem_cons.mpr hfront)
      rw [List.cons_append, cut, if_neg (by simpa using Ne.symm hoctet), cut_taken,
        ih hrest (Nat.le_of_succ_le_succ hlimit)]
      rfl

/-- Of some lines, the first is taken up to the limit. -/
theorem cut_lines {line : Octets} {later : List Octets} (h : Octets.AreLines (line :: later))
    (limit : Nat) :
    (cut (· = Ascii.newline) [] limit (line :: later).flatten).1 = line.take limit ∧
      (cut (· = Ascii.newline) [] limit (line :: later).flatten).2.2 =
        line.drop limit ++ later.flatten := by
  rw [List.flatten_cons]
  cases h with
  | last hline =>
    rcases Nat.le_total limit line.length with hlimit | hlimit
    · rw [cut_unbroken hline hlimit]
      exact ⟨rfl, rfl⟩
    · rw [List.flatten_nil, List.append_nil, cut_unended hline hlimit,
        List.take_of_length_le hlimit, List.drop_of_length_le hlimit]
      exact ⟨rfl, rfl⟩
  | @next front later hfront =>
    rw [List.append_assoc, List.singleton_append]
    rcases Nat.lt_or_ge front.length limit with hlimit | hlimit
    · have hwhole : (front ++ [Ascii.newline]).length ≤ limit := by
        rw [List.length_append, List.length_singleton]
        omega
      rw [cut_line hfront hlimit, List.take_of_length_le hwhole, List.drop_of_length_le hwhole]
      exact ⟨rfl, rfl⟩
    · rw [cut_unbroken hfront hlimit, List.take_append_of_le_length hlimit,
        List.drop_append_of_le_length hlimit, List.append_assoc]
      exact ⟨rfl, rfl⟩

section Turns

variable {s : Stream} {limit : Nat}

/-- One turn of the reader at some lines: the first of them is too long, is passed over, or is
taken. -/
theorem takeTextLine_turn (hlimit : limit < UInt64.size - 1) (hintact : s.Intact) {line : Octets}
    {later : List Octets} (hlines : s.octets.lines = line :: later) (fuel : Nat) :
    ∃ rest : Stream, rest.Intact ∧
      rest.octets = line.drop (limit + 1) ++ later.flatten ∧
      s.takeTextLine (fuel + 1) limit =
        if limit < line.length then (.error (.tooLarge (limit + 1) limit), rest)
        else if line.all Ascii.isBlank then rest.takeTextLine fuel limit
        else (.ok (some line), rest) := by
  have hare : Octets.AreLines (line :: later) := hlines ▸ Octets.lines_areLines s.octets
  have hoctets : s.octets = (line :: later).flatten := by
    rw [← hlines, Octets.flatten_lines]
  obtain ⟨rest, hread, hrest, hleft⟩ := gather_gives hintact (· = Ascii.newline) (limit + 1)
  rw [hoctets] at hread hleft
  rw [(cut_lines hare (limit + 1)).1] at hread
  rw [(cut_lines hare (limit + 1)).2] at hleft
  refine ⟨rest, hrest, hleft, ?_⟩
  have hcap : min (limit + 1) (UInt64.size - 1) = limit + 1 := by omega
  conv => lhs; unfold takeTextLine takeLine
  rw [hcap, hread]
  dsimp only
  have hlength : (line.take (limit + 1)).length = min (limit + 1) line.length := List.length_take
  have hpos := hare.length_pos
  have hnonempty : (line.take (limit + 1)).isEmpty = false := by
    rw [List.isEmpty_eq_false_iff, ← List.length_pos_iff]
    omega
  rw [hnonempty, if_neg Bool.false_ne_true]
  by_cases hlong : limit < line.length
  · have htaken : (line.take (limit + 1)).length = limit + 1 := by omega
    rw [htaken, if_pos (Nat.lt_succ_self limit), if_pos hlong]
  · have htaken : line.take (limit + 1) = line := List.take_of_length_le (by omega)
    rw [htaken, if_neg hlong, if_neg hlong]

/-- What the reader takes, by the lines that are unread: those that are passed over are dropped, and
the first of the others is taken or is too long. -/
theorem takeTextLine_lines (hlimit : limit < UInt64.size - 1) (hintact : s.Intact) {fuel : Nat}
    (hfuel : s.size < fuel) :
    Gives (s.takeTextLine fuel limit)
      (match s.octets.lines.dropWhile (Octets.isPassed limit) with
        | [] => .ok none
        | line :: _ =>
          if limit < line.length then .error (.tooLarge (limit + 1) limit) else .ok (some line))
      (match s.octets.lines.dropWhile (Octets.isPassed limit) with
        | [] => []
        | line :: later => line.drop (limit + 1) ++ later.flatten) := by
  induction fuel generalizing s with
  | zero => omega
  | succ fuel ih =>
    cases hlines : s.octets.lines with
    | nil =>
      have hoctets : s.octets = [] := by
        rw [← Octets.flatten_lines s.octets, hlines, List.flatten_nil]
      exact takeTextLine_end hintact hoctets fuel limit
    | cons line later =>
      have hare : Octets.AreLines (line :: later) := hlines ▸ Octets.lines_areLines s.octets
      obtain ⟨rest, hrest, hleft, hturn⟩ := takeTextLine_turn hlimit hintact hlines fuel
      rw [hturn, List.dropWhile_cons]
      by_cases hlong : limit < line.length
      · have hkept : Octets.isPassed limit line = false := by
          simp [Octets.isPassed, Nat.not_le.mpr hlong]
        rw [hkept, if_pos hlong]
        simp only [Bool.false_eq_true, if_false, if_pos hlong]
        exact ⟨rest, rfl, hrest, hleft⟩
      · have hshort : line.length ≤ limit := Nat.le_of_not_lt hlong
        have hpassed : Octets.isPassed limit line = line.all Ascii.isBlank := by
          simp [Octets.isPassed, hshort]
        rw [hpassed, if_neg hlong]
        by_cases hblank : line.all Ascii.isBlank = true
        · rw [if_pos hblank, if_pos hblank]
          have hnext : rest.octets.lines = later := by
            rw [hleft, List.drop_of_length_le (Nat.le_succ_of_le hshort), List.nil_append]
            exact Octets.lines_flatten (hare.tail)
          have hsize : rest.size < fuel := by
            have hpos := hare.length_pos
            have hlength := congrArg List.length (Octets.flatten_lines s.octets)
            rw [size_eq_length] at hfuel ⊢
            rw [hlines, List.flatten_cons, List.length_append] at hlength
            rw [hleft, List.length_append, List.length_drop]
            omega
          have hlater := ih hrest hsize
          rw [hnext] at hlater
          exact hlater
        · rw [if_neg hblank, if_neg hblank]
          simp only [if_neg hlong]
          exact ⟨rest, rfl, hrest, hleft⟩

end Turns

/-- More fuel than there are octets makes no difference, whatever the reads of the stream bring. -/
theorem takeTextLine_fuel {s : Stream} {fuel fuel' limit : Nat} (hfuel : s.size < fuel)
    (hfuel' : s.size < fuel') : s.takeTextLine fuel limit = s.takeTextLine fuel' limit := by
  induction fuel generalizing s fuel' with
  | zero => omega
  | succ fuel ih =>
    cases fuel' with
    | zero => omega
    | succ fuel' =>
      unfold takeTextLine takeLine
      rcases hread : s.gather (· = Ascii.newline) (min (limit + 1) (UInt64.size - 1)) with
        ⟨message | line, rest⟩
      · rfl
      have hsize := gather_size_ok hread
      dsimp only
      by_cases hnone : line.isEmpty = true
      · rw [if_pos hnone, if_pos hnone]
      · have hpos : 0 < line.length :=
          List.length_pos_iff.mpr (by simpa [List.isEmpty_iff] using hnone)
        have hrest : rest.takeTextLine fuel limit = rest.takeTextLine fuel' limit := by
          apply ih
          · omega
          · omega
        rw [hrest]

section Reads

variable {limit : Nat} {s s' : Stream}

/-- What a read makes of lines of which the first is not passed over, and which octets it leaves. -/
def lineOutcome (α : Type) [Wire α] (limit : Nat) :
    List Octets → Except TransportError (Option α) × Octets
  | [] => (.ok none, [])
  | line :: later =>
    if limit < line.length then
      (.error (.tooLarge (limit + 1) limit), line.drop (limit + 1) ++ later.flatten)
    else (decoded α line, later.flatten)

theorem lineOutcome_long (α : Type) [Wire α] {line : Octets} (hlong : limit < line.length)
    (later : List Octets) :
    lineOutcome α limit (line :: later) =
      (.error (.tooLarge (limit + 1) limit), line.drop (limit + 1) ++ later.flatten) := by
  simp only [lineOutcome, if_pos hlong]

theorem lineOutcome_short (α : Type) [Wire α] {line : Octets} (hshort : ¬ limit < line.length)
    (later : List Octets) :
    lineOutcome α limit (line :: later) = (decoded α line, later.flatten) := by
  simp only [lineOutcome, if_neg hshort]

/-- The result of a read depends on nothing but the first line that is not passed over, and what it
leaves begins with the rest of that line. -/
theorem lineOutcome_cons (α : Type) [Wire α] (limit : Nat) (line : Octets) :
    ∃ result, ∀ later, lineOutcome α limit (line :: later) =
      (result, (Octets.remainder (limit + 1) line ++ later).flatten) := by
  by_cases hlong : limit < line.length
  · refine ⟨.error (.tooLarge (limit + 1) limit), fun later => ?_⟩
    rw [lineOutcome_long α hlong, List.flatten_append, Octets.flatten_remainder]
  · refine ⟨decoded α line, fun later => ?_⟩
    rw [lineOutcome_short α hlong, List.flatten_append, Octets.flatten_remainder,
      List.drop_of_length_le (by omega), List.nil_append]

theorem receive_lines (α : Type) [Wire α] (hlimit : limit < UInt64.size - 1)
    (hintact : s.Intact) :
    ∃ result rest, s.receive α .jsonLines limit = (result, rest) ∧ rest.Intact ∧
      (result, rest.octets) =
        lineOutcome α limit (s.octets.lines.dropWhile (Octets.isPassed limit)) := by
  have htake : Gives (s.takeFrame .jsonLines limit) _ _ :=
    takeTextLine_lines hlimit hintact (Nat.lt_succ_self s.size)
  suffices hgives : ∃ result left, Gives (s.receive α .jsonLines limit) result left ∧
      (result, left) = lineOutcome α limit _ by
    obtain ⟨result, left, ⟨rest, hread, hrest, rfl⟩, htable⟩ := hgives
    exact ⟨result, rest, hread, hrest, htable⟩
  cases hlines : s.octets.lines.dropWhile (Octets.isPassed limit) with
  | nil =>
    rw [hlines] at htake
    exact ⟨_, _, htake.receive_none, rfl⟩
  | cons line later =>
    rw [hlines] at htake
    dsimp only at htake
    by_cases hlong : limit < line.length
    · rw [if_pos hlong] at htake
      rw [lineOutcome_long α hlong]
      exact ⟨_, _, htake.receive_error, rfl⟩
    · have hdropped : line.drop (limit + 1) = [] := List.drop_of_length_le (by omega)
      rw [if_neg hlong, hdropped, List.nil_append] at htake
      rw [lineOutcome_short α hlong]
      exact ⟨_, _, htake.receive_some, rfl⟩

/-- Lines that are passed over may stand between other lines or not, by induction on the number of
reads. Where a read ends inside a line, the rest of that line stands in front of all the others. -/
theorem results_passed (α : Type) [Wire α] (hlimit : limit < UInt64.size - 1)
    {before blanks after : List Octets}
    (hblanks : ∀ line ∈ blanks, Octets.isPassed limit line = true)
    (hare : Octets.AreLines (before ++ (blanks ++ after)))
    (hare' : Octets.AreLines (before ++ after))
    (hintact : s.Intact) (hoctets : s.octets = (before ++ (blanks ++ after)).flatten)
    (hintact' : s'.Intact) (hoctets' : s'.octets = (before ++ after).flatten) (count : Nat) :
    s.results α .jsonLines limit count = s'.results α .jsonLines limit count := by
  induction count generalizing s s' before with
  | zero => rfl
  | succ count ih =>
    obtain ⟨result, rest, hread, hrest, htable⟩ := receive_lines α hlimit hintact
    obtain ⟨result', rest', hread', hrest', htable'⟩ := receive_lines α hlimit hintact'
    rw [hoctets, Octets.lines_flatten hare] at htable
    rw [hoctets', Octets.lines_flatten hare'] at htable'
    unfold results
    rw [hread, hread']
    dsimp only
    rw [List.dropWhile_append] at htable htable'
    have hsplit := List.takeWhile_append_dropWhile (p := Octets.isPassed limit) (l := before)
    cases hbefore : before.dropWhile (Octets.isPassed limit) with
    | nil =>
      -- Neither read stops in front of the blank lines, so both begin with the same line.
      rw [hbefore, List.isEmpty_nil, if_pos rfl, List.dropWhile_append_of_pos hblanks] at htable
      rw [hbefore, List.isEmpty_nil, if_pos rfl] at htable'
      obtain ⟨rfl, hleft⟩ := Prod.mk.inj (htable.trans htable'.symm)
      rw [results_alike ⟨hrest, hrest', hleft⟩ α .jsonLines limit count]
    | cons line between =>
      obtain ⟨outcome, houtcome⟩ := lineOutcome_cons α limit line
      rw [hbefore, List.isEmpty_cons, if_neg Bool.false_ne_true, List.cons_append, houtcome,
        ← List.append_assoc] at htable htable'
      obtain ⟨rfl, hleft⟩ := Prod.mk.inj htable
      obtain ⟨rfl, hleft'⟩ := Prod.mk.inj htable'
      rw [hbefore] at hsplit
      rw [← hsplit, List.append_assoc, List.cons_append] at hare hare'
      have hnext := hare.behind.remainder (limit + 1)
      have hnext' := hare'.behind.remainder (limit + 1)
      rw [← List.append_assoc] at hnext hnext'
      rw [ih hnext hnext' hrest hleft hrest' hleft']

/-- One read of a line, by the lines that are unread and for every limit below the largest word. The
blank lines in front that fit the limit are passed over. Then there is no message at the end; a line
above the limit is refused with one octet more than the limit taken of it, even if it is blank; and
any other line is taken whole and decoded. The reader needs no more turns than there are octets, no
body above the limit is ever decoded, and blank lines that fit the limit may be added or taken away
between lines without any effect on the results of reading. -/
theorem receive_jsonLines (α : Type) [Wire α] (hlimit : limit < UInt64.size - 1)
    (hintact : s.Intact) :
    (∃ result rest, s.receive α .jsonLines limit = (result, rest) ∧
      (result, rest.octets) =
        match s.octets.lines.dropWhile (Octets.isPassed limit) with
        | [] => (.ok none, [])
        | line :: later =>
          if limit < line.length then
            (.error (.tooLarge (limit + 1) limit), line.drop (limit + 1) ++ later.flatten)
          else (decoded α line, later.flatten)) ∧
    (∀ fuel, s.size < fuel → s.takeTextLine fuel limit = s.takeFrame .jsonLines limit) ∧
    (∀ body rest, s.takeFrame .jsonLines limit = (.ok (some body), rest) →
      body.length ≤ limit) ∧
    ∀ before blanks after, s.octets.lines = before ++ (blanks ++ after) →
      (∀ line ∈ blanks, Octets.isPassed limit line = true) →
      ∀ s' : Stream, s'.Intact → s'.octets = (before ++ after).flatten →
        ∀ count, s.results α .jsonLines limit count = s'.results α .jsonLines limit count := by
  refine ⟨?_, ?_, ?_, ?_⟩
  · obtain ⟨result, rest, hread, -, htable⟩ := receive_lines α hlimit hintact
    refine ⟨result, rest, hread, ?_⟩
    rw [htable]
    cases s.octets.lines.dropWhile (Octets.isPassed limit) <;> rfl
  · intro fuel hfuel
    exact takeTextLine_fuel hfuel (Nat.lt_succ_self s.size)
  · intro body rest hframe
    obtain ⟨rest', htake, -⟩ := takeTextLine_lines hlimit hintact (Nat.lt_succ_self s.size)
    have hresult := congrArg Prod.fst (hframe.symm.trans htake)
    dsimp only at hresult
    split at hresult
    · simp at hresult
    · split at hresult
      · simp at hresult
      · next hshort =>
        simp only [Except.ok.injEq, Option.some.injEq] at hresult
        rw [hresult]
        exact Nat.le_of_not_lt hshort
  · intro before blanks after hlines hblanks s' hintact' hoctets' count
    have hare := Octets.lines_areLines s.octets
    have hoctets := Octets.flatten_lines s.octets
    rw [hlines] at hare hoctets
    have hare' : Octets.AreLines (before ++ after) := by
      cases blanks with
      | nil => exact hare
      | cons blank blanks =>
        have hwhole : Octets.AreLines ((before ++ blank :: blanks) ++ after) := by
          rwa [List.append_assoc]
        exact hare.exchange (by simp) hwhole.behind
    exact results_passed α hlimit hblanks hare hare' hintact hoctets.symm hintact' hoctets' count

end Reads

/-- A line above the limit, two blank lines of which one is as long as the limit, and a line that is
no message. With and without the blank lines, the same three results follow. -/
theorem receive_long_line_then_blanks :
    let long : Octets := List.replicate 4 Ascii.openBrace ++ [Ascii.newline]
    let blanks : List Octets := [[Ascii.newline], [Ascii.space, Ascii.space, Ascii.newline]]
    let last : Octets := [Ascii.openBrace, Ascii.newline]
    let s : Stream := [.data (long ++ blanks.flatten), .interrupted, .data last]
    let s' : Stream := [.data long, .data last]
    (∃ rest, s.receive Request .jsonLines 3 = (.error (.tooLarge 4 3), rest) ∧
      rest.octets = [Ascii.newline] ++ blanks.flatten ++ last) ∧
      s.results Request .jsonLines 3 3 = s'.results Request .jsonLines 3 3 := by
  intro long blanks last s s'
  have hintact : s.Intact := by
    intro message hmem
    simp [s] at hmem
  have hintact' : s'.Intact := by
    intro message hmem
    simp [s'] at hmem
  have hlines : s.octets.lines = [long] ++ (blanks ++ [last]) := by decide
  obtain ⟨⟨result, rest, hread, htable⟩, -, -, hresults⟩ :=
    receive_jsonLines Request (by decide : 3 < UInt64.size - 1) hintact
  refine ⟨⟨rest, ?_⟩, ?_⟩
  · rw [hlines] at htable
    obtain ⟨rfl, hleft⟩ := Prod.mk.inj htable
    exact ⟨hread, hleft⟩
  · exact hresults [long] blanks [last] hlines (by decide) s' hintact' rfl 3

end Stream

end MacroPlugin
