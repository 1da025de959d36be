import MacroPlugin.Proofs.Settings.Further
import MacroPlugin.Proofs.Toml.Layout

/-!
Files that give settings, as they can be written: the tables of the sections in any order, in each
of them its settings in any order, and everywhere between them lines that concern no setting. Such
a file gives just the settings that are written in it, whatever else it holds, and is refused with
the first complaint about them, if there is one.
-/

namespace MacroPlugin.Settings

open Toml

/-- The ways to write the value of a setting. -/
inductive Assigned.Spelled : Assigned → List Char → Prop
  | on : Spelled (.echoRequests true) "true".toList
  | off : Spelled (.echoRequests false) "false".toList
  | framing {framing : Framing} {spelling : List Char}
      (h : Spells (framingName framing).toList spelling) :
      Spelled (.framing framing) (quotes spelling [])
  | maxFrameBytes {n : Nat} (h : n ≤ 9223372036854775807) :
      Spelled (.maxFrameBytes n) (Nat.toDigits 10 n)
  | features {texts : List String} {spelled : List Char} (h : Items texts spelled) :
      Spelled (.features texts) ('[' :: spelled)
  | level {text : String} {spelling : List Char} (h : Spells text.toList spelling) :
      Spelled (.level text) (quotes spelling [])

/-- A line that concerns no setting: it is blank, it opens a table in which no settings are, or it
assigns something else. Given with it are the names of the table to which the lines behind it
belong. -/
inductive IsFurtherLine (names : List String) : Line → List String → Prop
  | blank : IsFurtherLine names .blank names
  | header {header : Header} (hpath : IsFurther (header.path.map (·.name))) :
      IsFurtherLine names (.header header) (header.path.map (·.name))
  | assignment {path : List Toml.Key} {value : Value}
      (hpath : IsFurther (names ++ path.map (·.name))) :
      IsFurtherLine names (.assignment path value) names

/-- The lines of a file from some place on, below the header with these names, and what they say
about settings. -/
inductive Written : (names : List String) → List Assigned → List Char → Prop
  | nil {names : List String} : Written names [] []
  | header {names : List String} {title : String} {as : List Assigned}
      {front middle back ending rest : List Char} (hsection : settingsOf title ≠ [])
      (hfront : AreBlanks front) (hmiddle : AreBlanks middle) (hback : AreBlanks back)
      (hending : LineEnd rest ending) (hrest : Written [title] as rest) :
      Written names as
        (front ++ '[' :: (middle ++ (title.toList ++ (back ++ ']' :: (ending ++ rest)))))
  | setting {a : Assigned} {as : List Assigned}
      {front middle back spelled ending rest : List Char} (hfront : AreBlanks front)
      (hmiddle : AreBlanks middle) (hback : AreBlanks back) (hspelled : a.Spelled spelled)
      (hending : LineEnd rest ending) (hrest : Written [a.title] as rest) :
      Written [a.title] (a :: as) (front ++ (a.key.toList ++ (middle ++ '=' ::
        (back ++ (spelled ++ (ending ++ rest))))))
  | further {names names' : List String} {line : Line} {as : List Assigned} {text rest : List Char}
      (hne : text ≠ []) (hline : readLine (text ++ rest) = some (line, rest))
      (hfurther : IsFurtherLine names line names') (hrest : Written names' as rest) :
      Written names as (text ++ rest)

/-- The table that the lines of a file make up without what is said about settings. -/
def further? (text : List Char) : Option Entries := do
  let lines ← readLines (text.length + 1) text
  ((Toml.sections lines).map withoutSettings).foldlM (fun root s => s.place root) []

/-- The text of a header line before what follows it. -/
theorem headerText_append (front middle name back ending rest : List Char) :
    front ++ '[' :: (middle ++ (name ++ (back ++ ']' :: (ending ++ rest)))) =
      front ++ '[' :: (middle ++ (name ++ (back ++ ']' :: ending))) ++ rest := by
  simp

/-- The text of a line that assigns a value before what follows it. -/
theorem assignmentText_append (front name middle back value ending rest : List Char) :
    front ++ (name ++ (middle ++ '=' :: (back ++ (value ++ (ending ++ rest))))) =
      front ++ (name ++ (middle ++ '=' :: (back ++ (value ++ ending)))) ++ rest := by
  simp

theorem Written.otherTable {names : List String} {name : String} {as : List Assigned}
    {front middle back ending rest : List Char} (hname : IsBare name.toList)
    (hother : settingsOf name = []) (hfront : AreBlanks front) (hmiddle : AreBlanks middle)
    (hback : AreBlanks back) (hending : LineEnd rest ending) (hrest : Written [name] as rest) :
    Written names as
      (front ++ '[' :: (middle ++ (name.toList ++ (back ++ ']' :: (ending ++ rest))))) := by
  obtain ⟨extent, place, hline⟩ := readLine_header hname hfront hmiddle hback hending
  rw [String.ofList_toList, headerText_append] at hline
  rw [headerText_append]
  exact .further (by simp) hline (.header hother) hrest

theorem Written.otherKey {names : List String} {name : String} {as : List Assigned} {read : Value}
    {front middle back value ending rest : List Char} (hname : IsBare name.toList)
    (hother : IsFurther (names ++ [name])) (hfront : AreBlanks front) (hmiddle : AreBlanks middle)
    (hback : AreBlanks back) (hending : LineEnd rest ending)
    (hstart : Stops isBlank (value ++ (ending ++ rest)))
    (hvalue : Toml.readValue maxDepth (value ++ (ending ++ rest)) = some (read, ending ++ rest))
    (hrest : Written names as rest) :
    Written names as (front ++ (name.toList ++ (middle ++ '=' ::
      (back ++ (value ++ (ending ++ rest)))))) := by
  obtain ⟨extent, hline⟩ := readLine_assignment hname hfront hmiddle hback hending hstart hvalue
  rw [String.ofList_toList, assignmentText_append] at hline
  rw [assignmentText_append]
  exact .further (by simp) hline (.assignment hother) hrest

/-! What is read -/

theorem Assigned.Spelled.readValue {a : Assigned} {spelled rest : List Char}
    (h : a.Spelled spelled) (hrest : Closes rest) :
    ∃ value, readValue maxDepth (spelled ++ rest) = some (value, rest) ∧ a.Reads value ∧
      Stops isBlank (spelled ++ rest) := by
  cases h with
  | on =>
    obtain ⟨extent, hread⟩ := readValue_true hrest maxDepth
    exact ⟨_, hread, .echoRequests extent _, rfl⟩
  | off =>
    obtain ⟨extent, hread⟩ := readValue_false hrest maxDepth
    exact ⟨_, hread, .echoRequests extent _, rfl⟩
  | framing h =>
    obtain ⟨extent, hread⟩ := h.readValue hrest maxDepth
    rw [quotes_append]
    exact ⟨_, hread, .framing extent _, rfl⟩
  | maxFrameBytes h =>
    obtain ⟨extent, hread⟩ := readValue_toDigits h hrest maxDepth
    refine ⟨_, hread, .maxFrameBytes extent _, ?_⟩
    apply stops_append Nat.toDigits_ne_nil
    intro c hmem
    exact isBlank_eq_false_of_isDigit (isDigit_of_mem_toDigits _ c hmem)
  | features h =>
    obtain ⟨extent, items, hread, hitems⟩ := h.readValue 78 rest
    exact ⟨_, hread, .features extent hitems, rfl⟩
  | level h =>
    obtain ⟨extent, hread⟩ := h.readValue hrest maxDepth
    rw [quotes_append]
    exact ⟨_, hread, .level extent _, rfl⟩

/-- Lines below a header with these names that say this about settings. -/
inductive Lines (names : List String) : List Assigned → List Line → Prop
  | intro {lines : List Line} {first : List (List Toml.Key × Value)} {later : List Toml.Section}
      {as : List Assigned} {said : List (List Assigned)}
      (hsections : Toml.sections lines = ⟨none, first⟩ :: later) (hfirst : Assigns names as first)
      (hlater : List.Forall₂ Says said later) : Lines names (as ++ said.flatten) lines

theorem Lines.nil (names : List String) : Lines names [] [] := by
  have hlines : Lines names ([] ++ [].flatten) [] := .intro rfl .nil .nil
  exact hlines

theorem Lines.blank {names : List String} {as : List Assigned} {lines : List Line}
    (h : Lines names as lines) : Lines names as (.blank :: lines) := by
  obtain ⟨hsections, hfirst, hlater⟩ := h
  exact .intro hsections hfirst hlater

theorem Lines.header {names : List String} {header : Header} (hheader : IsHeader header)
    {as : List Assigned} {lines : List Line} (h : Lines (header.path.map (·.name)) as lines) :
    Lines names as (.header header :: lines) := by
  cases h with
  | @intro _ first _ as said hsections hfirst hlater =>
    have hsays : Says as ⟨some header, first⟩ := by
      refine ⟨?_, hfirst⟩
      intro other hother
      rwa [← Option.some.inj hother]
    have hlines : Lines names ([] ++ (as :: said).flatten) (.header header :: lines) :=
      .intro (sections_header hsections header) .nil (.cons hsays hlater)
    exact hlines

theorem Lines.assignment {names : List String} {as : List Assigned} {lines : List Line}
    {path : List Toml.Key} {value : Value} (news : List Assigned)
    (hassigns : ∀ {said rest}, Assigns names said rest →
      Assigns names (news ++ said) ((path, value) :: rest))
    (h : Lines names as lines) : Lines names (news ++ as) (.assignment path value :: lines) := by
  obtain ⟨hsections, hfirst, hlater⟩ := h
  rw [← List.append_assoc]
  exact .intro (sections_assignment hsections path value) (hassigns hfirst) hlater

theorem readLines_append {text rest : List Char} {line : Line} (hne : text ≠ [])
    (hline : readLine (text ++ rest) = some (line, rest)) {fuel : Nat} :
    readLines (fuel + 1) (text ++ rest) = (readLines fuel rest).map (line :: ·) := by
  cases text with
  | nil => exact absurd rfl hne
  | cons c text =>
    rw [List.cons_append] at hline ⊢
    rw [readLines, hline]
    · exact Option.map_eq_bind.symm
    · exact List.cons_ne_nil _ _

/-- A text that is read, line by line, to lines of this kind. -/
def ReadAs (kind : List Line → Prop) (text : List Char) : Prop :=
  ∀ fuel, text.length ≤ fuel → ∃ lines, readLines fuel text = some lines ∧ kind lines

theorem ReadAs.nil {kind : List Line → Prop} (h : kind []) : ReadAs kind [] := by
  intro fuel _
  refine ⟨[], ?_, h⟩
  cases fuel <;> rfl

/-- A line takes one step of the fuel and at least one character. -/
theorem ReadAs.behind {kind kind' : List Line → Prop} {text rest : List Char} {line : Line}
    (h : ReadAs kind' rest) (hne : text ≠ []) (hline : readLine (text ++ rest) = some (line, rest))
    (hlines : ∀ {lines}, kind' lines → kind (line :: lines)) : ReadAs kind (text ++ rest) := by
  intro fuel hfuel
  have hpos := List.length_pos_iff.mpr hne
  rw [List.length_append] at hfuel
  obtain ⟨less, rfl⟩ : ∃ less, fuel = less + 1 := ⟨fuel - 1, by omega⟩
  obtain ⟨lines, hread, hrest⟩ := h less (by omega)
  refine ⟨line :: lines, ?_, hlines hrest⟩
  rw [readLines_append hne hline, hread]
  rfl

theorem isBare_title {title : String} (h : settingsOf title ≠ []) : IsBare title.toList := by
  unfold settingsOf at h
  split at h
  · decide
  · decide
  · decide
  · decide
  · exact absurd rfl h

theorem isBare_key (a : Assigned) : IsBare a.key.toList := by
  cases a with
  | echoRequests => exact (by decide : IsBare "echo_requests".toList)
  | framing => exact (by decide : IsBare "framing".toList)
  | maxFrameBytes => exact (by decide : IsBare "max_frame_bytes".toList)
  | features => exact (by decide : IsBare "features".toList)
  | level => exact (by decide : IsBare "level".toList)

theorem readLine_title {title : String} (hsection : settingsOf title ≠ [])
    {front middle back ending rest : List Char} (hfront : AreBlanks front)
    (hmiddle : AreBlanks middle) (hback : AreBlanks back) (hending : LineEnd rest ending) :
    ∃ extent place, readLine (front ++ '[' :: (middle ++ (title.toList ++ (back ++ ']' :: ending))) ++
      rest) = some (.header ⟨[⟨title, extent⟩], place, false⟩, rest) := by
  have hline := readLine_header (isBare_title hsection) hfront hmiddle hback hending
  rwa [String.ofList_toList, headerText_append] at hline

theorem Assigned.Spelled.readLine {a : Assigned} {spelled : List Char} (h : a.Spelled spelled)
    {front middle back ending rest : List Char} (hfront : AreBlanks front)
    (hmiddle : AreBlanks middle) (hback : AreBlanks back) (hending : LineEnd rest ending) :
    ∃ extent value, Toml.readLine (front ++ (a.key.toList ++ (middle ++ '=' ::
        (back ++ (spelled ++ ending)))) ++ rest) =
      some (.assignment [⟨a.key, extent⟩] value, rest) ∧ a.Reads value := by
  obtain ⟨value, hvalue, hreads, hstart⟩ := h.readValue hending.closes
  obtain ⟨extent, hline⟩ :=
    readLine_assignment (isBare_key a) hfront hmiddle hback hending hstart hvalue
  rw [String.ofList_toList, assignmentText_append] at hline
  exact ⟨extent, value, hline, hreads⟩

theorem Written.readAs {names : List String} {as : List Assigned} {text : List Char}
    (h : Written names as text) : ReadAs (Lines names as) text := by
  induction h with
  | nil => exact .nil (.nil _)
  | @header _ title _ _ _ _ _ _ hsection hfront hmiddle hback hending _ ih =>
    obtain ⟨extent, place, hline⟩ := readLine_title hsection hfront hmiddle hback hending
    rw [headerText_append]
    apply ih.behind (by simp) hline
    intro lines hlines
    have hheader : IsHeader ⟨[⟨title, extent⟩], place, false⟩ := .titled place hsection
    exact hlines.header hheader
  | @setting a _ _ _ _ _ _ _ hfront hmiddle hback hspelled hending _ ih =>
    obtain ⟨extent, value, hline, hreads⟩ := hspelled.readLine hfront hmiddle hback hending
    rw [assignmentText_append]
    apply ih.behind (by simp) hline
    intro lines hlines
    exact hlines.assignment [a] fun hassigns => .setting rfl rfl hreads hassigns
  | further hne hline hfurther _ ih =>
    apply ih.behind hne hline
    intro lines hlines
    cases hfurther with
    | blank => exact hlines.blank
    | header hpath => exact hlines.header (.further hpath)
    | assignment hpath =>
      exact hlines.assignment [] fun hassigns => .further hpath hassigns

/-! The settings of a file -/

/-- A line does not begin with a mark of the byte order. -/
theorem readLines_mark (fuel : Nat) (rest : List Char) :
    readLines fuel ('\ufeff' :: rest) = none := by
  cases fuel with
  | zero => rfl
  | succ fuel => rfl

theorem parse?_of_readLines {text : List Char} {lines : List Line}
    (h : readLines (text.length + 1) text = some lines) :
    parse? text = (Toml.sections lines).foldlM (fun root s => s.place root) [] := by
  have hmark : ∀ rest, text ≠ '\ufeff' :: rest := by
    rintro rest rfl
    simp [readLines_mark] at h
  unfold parse?
  split
  · exact absurd rfl (hmark _)
  · dsimp only
    rw [h]
    rfl

/-- What is written about settings is what is read, if the rest of the file is well formed. -/
theorem read_written {g : Given} {as : List Assigned} {text : List Char}
    (hwritten : Written [] as text) (hgiven : as.Perm g.assignments)
    (hfurther : (further? text).isSome = true) : read text = .ok g.settings := by
  obtain ⟨lines, hlines, hsays⟩ := hwritten.readAs _ (Nat.le_succ text.length)
  obtain ⟨root', hroot'⟩ := Option.isSome_iff_exists.mp hfurther
  rw [further?, hlines] at hroot'
  have hparse := parse?_of_readLines hlines
  cases hsays with
  | @intro _ first later asFirst said hsections hfirst hlater =>
    rw [hsections] at hparse
    rw [Option.bind_eq_bind, Option.bind_some, hsections] at hroot'
    have hall : List.Forall₂ Says (asFirst :: said) (⟨none, first⟩ :: later) :=
      .cons ⟨nofun, hfirst⟩ hlater
    have hdistinct : ((asFirst :: said).flatten.map Assigned.path).Nodup :=
      (hgiven.map _).nodup_iff.mpr g.assignments_nodup
    obtain ⟨root, hroot, hextends⟩ := Extends.nil.placeAll hall hdistinct hroot'
    obtain ⟨as', hperm, happly⟩ := hextends.applyEntries {}
    have hsettings : as'.foldl Assigned.put {} = g.settings :=
      Given.foldl_put_of_perm (hperm.trans hgiven)
    rw [read, hparse, hroot]
    dsimp only
    rw [happly, hsettings]

/-- A file in which settings are written, in any order of tables and keys and with anything else
around them that makes up a well-formed file, is refused with the first complaint about what is
written, if there is one. Otherwise it is accepted, with every setting as it is written or, if it is
not written, at its default. -/
theorem parse_written (g : Given) {as : List Assigned} {text : String}
    (hwritten : Written [] as text.toList) (hgiven : as.Perm g.assignments)
    (hfurther : (further? text.toList).isSome = true) :
    match g.complaint? with
    | none => parse text = .ok g.settings
    | some complaint =>
      ∃ e, parse text = .error e ∧ e.isInvalid = true ∧
        e.message = "Invalid configuration: " ++ complaint := by
  have hread := read_written hwritten hgiven hfurther
  have hcheck := g.check_settings
  cases hcomplaint : g.complaint? with
  | none =>
    rw [hcomplaint] at hcheck
    exact parse_eq_ok.mpr ⟨hread, hcheck⟩
  | some complaint =>
    rw [hcomplaint] at hcheck
    obtain ⟨e, herror, hmessage⟩ := hcheck
    refine ⟨e, ?_, hmessage⟩
    rw [parse, hread]
    show (check g.settings).bind _ = _
    rw [herror]
    rfl

/-- Two settings, with a key and a table around them that concern no setting. -/
theorem parse_written_between_others :
    let text := "[log]\nx = 1\nlevel = \"o\\u0066f\"\n[y]\n[transport]\nmax_frame_bytes = 1024\n"
    Written [] [.level "off", .maxFrameBytes 1024] text.toList ∧
      (further? text.toList).isSome = true ∧
      parse text = .ok { maxFrameBytes := 1024, level := "off" } := by
  intro text
  have hnone := areBlanks_nil
  have hspace := areBlanks_space
  have hfeed := LineEnd.feed
  have hlimit : (Assigned.maxFrameBytes 1024).Spelled (Nat.toDigits 10 1024) :=
    .maxFrameBytes (by decide)
  have hlevel : (Assigned.level "off").Spelled "\"o\\u0066f\"".toList := by
    have hpoint : Spells "ff".toList "\\u0066f".toList :=
      .point (a := ('0', 0)) (b := ('0', 0)) (d := ('6', 6)) (e := ('6', 6)) (by decide) rfl
        (.plain rfl (by decide) (by decide) .nil)
    have hoff : Spells "off".toList "o\\u0066f".toList :=
      .plain rfl (by decide) (by decide) hpoint
    exact .level hoff
  have hone : ∀ rest, ∃ value, Toml.readValue maxDepth (Nat.toDigits 10 1 ++ (['\n'] ++ rest)) =
      some (value, ['\n'] ++ rest) := by
    intro rest
    obtain ⟨extent, hread⟩ := readValue_toDigits (n := 1) (by decide) (hfeed rest).closes maxDepth
    exact ⟨_, hread⟩
  have hwritten : Written [] [.level "off", .maxFrameBytes 1024] text.toList := by
    have hmaximum := Written.setting hnone hspace hspace hlimit (hfeed []) .nil
    have hlog := Written.setting hnone hspace hspace hlevel (hfeed _)
      (.otherTable (by decide : IsBare "y".toList) rfl hnone hnone hnone (hfeed _)
        (.header (by decide : settingsOf "transport" ≠ []) hnone hnone hnone (hfeed _) hmaximum))
    obtain ⟨value, hvalue⟩ := hone _
    have hpath : IsFurther (["log"] ++ ["x"]) := (rfl : isSetting "log" "x" = false)
    have hkey := Written.otherKey (by decide : IsBare "x".toList) hpath hnone hspace hspace
      (hfeed _) (by exact (rfl : isBlank '1' = false)) hvalue hlog
    convert Written.header (by decide : settingsOf "log" ≠ []) hnone hnone hnone (hfeed _) hkey
      using 1
    decide +kernel
  have hfurther : (further? text.toList).isSome = true := by decide +kernel
  have hgiven : [Assigned.level "off", .maxFrameBytes 1024].Perm
      (Given.assignments { maxFrameBytes := some 1024, level := some "off" }) :=
    List.Perm.swap _ _ []
  exact ⟨hwritten, hfurther, parse_written _ hwritten hgiven hfurther⟩

end MacroPlugin.Settings
