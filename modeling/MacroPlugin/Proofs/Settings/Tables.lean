import MacroPlugin.Proofs.Settings.Written

/-!
Files in which settings are written and nothing else, each of their tables once. In whatever order
the tables stand, and the settings in each of them, such a file is well formed, so that it gives
just what is written in it.
-/

namespace MacroPlugin.Settings

open Toml

/-- A table of settings: its title, and its settings with the spelling of the value of each. -/
structure Table where
  title : String
  rows : List (Assigned × List Char)

namespace Table

def line (row : Assigned × List Char) : List Char :=
  row.1.key.toList ++ ' ' :: '=' :: ' ' :: (row.2 ++ ['\n'])

def text (t : Table) : List Char :=
  '[' :: (t.title.toList ++ [']', '\n']) ++ t.rows.flatMap line

/-- The title is that of a section, and the settings are of this section and spelled as they are. -/
structure Spelled (t : Table) : Prop where
  isSection : settingsOf t.title ≠ []
  rows : ∀ row ∈ t.rows, row.1.title = t.title ∧ row.1.Spelled row.2

end Table

/-! What is written in tables -/

theorem Written.title {title : String} {as : List Assigned} {rest : List Char}
    (hsection : settingsOf title ≠ []) (h : Written [title] as rest) (names : List String) :
    Written names as ('[' :: (title.toList ++ [']', '\n']) ++ rest) := by
  have hwritten : Written names as _ :=
    .header hsection areBlanks_nil areBlanks_nil areBlanks_nil (.feed rest) h
  simpa using hwritten

theorem Written.rows {title : String} {rows : List (Assigned × List Char)}
    (hrows : ∀ row ∈ rows, row.1.title = title ∧ row.1.Spelled row.2) {as : List Assigned}
    {rest : List Char} (h : Written [title] as rest) :
    Written [title] (rows.map (·.1) ++ as) (rows.flatMap Table.line ++ rest) := by
  induction rows with
  | nil => exact h
  | cons row rows ih =>
    obtain ⟨rfl, hspelled⟩ := hrows row List.mem_cons_self
    have hrest := ih fun row hmem => hrows row (List.mem_cons_of_mem _ hmem)
    have hwritten :=
      Written.setting areBlanks_nil areBlanks_space areBlanks_space hspelled (.feed _) hrest
    simpa [Table.line] using hwritten

theorem written_tables {tables : List Table} (h : ∀ t ∈ tables, t.Spelled) (names : List String) :
    Written names (tables.flatMap fun t => t.rows.map (·.1)) (tables.flatMap Table.text) := by
  induction tables generalizing names with
  | nil => exact .nil
  | cons t tables ih =>
    have ht := h t List.mem_cons_self
    have hrest := ih (fun t hmem => h t (List.mem_cons_of_mem _ hmem)) [t.title]
    rw [List.flatMap_cons, List.flatMap_cons, Table.text, List.append_assoc]
    exact (Written.rows ht.rows hrest).title ht.isSection names

/-! The lines of tables -/

/-- A section of the file with this title and nothing but settings in it. -/
def Opens (title : String) (s : Toml.Section) : Prop :=
  ∃ key extent, s.header = some ⟨[key], extent, false⟩ ∧ key.name = title ∧
    furtherIn [title] s.assignments = []

/-- Lines of settings below these names, and then of tables with these titles. -/
def OnlySettings (names titles : List String) (lines : List Line) : Prop :=
  ∃ first later, Toml.sections lines = ⟨none, first⟩ :: later ∧ furtherIn names first = [] ∧
    List.Forall₂ Opens titles later

theorem OnlySettings.nil (names : List String) : OnlySettings names [] [] :=
  ⟨[], [], rfl, rfl, .nil⟩

theorem OnlySettings.title {titles : List String} {lines : List Line} {key : Toml.Key}
    (h : OnlySettings [key.name] titles lines) (names : List String) (extent : Extent) :
    OnlySettings names (key.name :: titles) (.header ⟨[key], extent, false⟩ :: lines) := by
  obtain ⟨first, later, hsections, hfirst, hlater⟩ := h
  have hopens : Opens key.name ⟨some ⟨[key], extent, false⟩, first⟩ :=
    ⟨key, extent, rfl, rfl, hfirst⟩
  exact ⟨[], _, sections_header hsections _, rfl, .cons hopens hlater⟩

theorem OnlySettings.setting {a : Assigned} {titles : List String} {lines : List Line}
    (h : OnlySettings [a.title] titles lines) (extent : Extent) (value : Value) :
    OnlySettings [a.title] titles (.assignment [⟨a.key, extent⟩] value :: lines) := by
  obtain ⟨first, later, hsections, hfirst, hlater⟩ := h
  have hskip : furtherIn [a.title] (([⟨a.key, extent⟩], value) :: first) = [] :=
    (furtherIn_setting rfl value first).trans hfirst
  exact ⟨_, later, sections_assignment hsections _ value, hskip, hlater⟩

theorem ReadAs.title {title : String} {titles : List String} {rest : List Char}
    (hsection : settingsOf title ≠ []) (h : ReadAs (OnlySettings [title] titles) rest)
    (names : List String) :
    ReadAs (OnlySettings names (title :: titles)) ('[' :: (title.toList ++ [']', '\n']) ++ rest) := by
  obtain ⟨extent, place, hline⟩ :=
    readLine_title hsection areBlanks_nil areBlanks_nil areBlanks_nil (.feed rest)
  apply h.behind (by simp) (by simpa using hline)
  intro lines hlines
  exact OnlySettings.title hlines names place

theorem ReadAs.rows {title : String} {rows : List (Assigned × List Char)}
    (hrows : ∀ row ∈ rows, row.1.title = title ∧ row.1.Spelled row.2) {titles : List String}
    {rest : List Char} (h : ReadAs (OnlySettings [title] titles) rest) :
    ReadAs (OnlySettings [title] titles) (rows.flatMap Table.line ++ rest) := by
  induction rows with
  | nil => exact h
  | cons row rows ih =>
    obtain ⟨rfl, hspelled⟩ := hrows row List.mem_cons_self
    have hrest := ih fun row hmem => hrows row (List.mem_cons_of_mem _ hmem)
    obtain ⟨extent, value, hline, -⟩ :=
      hspelled.readLine areBlanks_nil areBlanks_space areBlanks_space
        (.feed (rows.flatMap Table.line ++ rest))
    rw [List.flatMap_cons, List.append_assoc]
    apply hrest.behind (by simp [Table.line]) (by simpa [Table.line] using hline)
    intro lines hlines
    exact hlines.setting extent value

theorem readAs_tables {tables : List Table} (h : ∀ t ∈ tables, t.Spelled) (names : List String) :
    ReadAs (OnlySettings names (tables.map (·.title))) (tables.flatMap Table.text) := by
  induction tables generalizing names with
  | nil => exact .nil (.nil names)
  | cons t tables ih =>
    have ht := h t List.mem_cons_self
    have hrest := ih (fun t hmem => h t (List.mem_cons_of_mem _ hmem)) [t.title]
    rw [List.flatMap_cons, Table.text, List.append_assoc]
    exact (ReadAs.rows ht.rows hrest).title ht.isSection names

/-! The file as a whole -/

theorem openTable_new {key : Toml.Key} {root : Entries} (h : key.name ∉ root.map (·.1.name))
    (extent : Extent) (fill : Entries → Option Entries) :
    openTable [key] false extent fill root =
      (fill []).map fun inner => root ++ [(key, .table .headed (some extent) inner)] := by
  have hfind : root.find? (·.1.name = key.name) = none := by
    rw [List.find?_eq_none]
    intro entry hmem hname
    exact h (List.mem_map.mpr ⟨entry, hmem, of_decide_eq_true hname⟩)
  simp only [openTable, hfind, bind, Option.bind_assoc, pure, Option.bind_some]
  exact Option.map_eq_bind.symm

theorem Opens.placeAll {titles : List String} {sections : List Toml.Section}
    (h : List.Forall₂ Opens titles sections) (root : Entries)
    (hdistinct : (root.map (·.1.name) ++ titles).Nodup) :
    ∃ result, (sections.map withoutSettings).foldlM (fun root s => s.place root) root =
      some result := by
  induction h generalizing root with
  | nil => exact ⟨root, rfl⟩
  | @cons title s titles sections hopens _ ih =>
    obtain ⟨key, extent, hheader, rfl, hnone⟩ := hopens
    have hnames : names s = [key.name] := by simp [names, hheader]
    have hnew : key.name ∉ root.map (·.1.name) := by
      intro hmem
      exact (List.nodup_append.mp hdistinct).2.2 _ hmem _ List.mem_cons_self rfl
    have hplace : (withoutSettings s).place root = some (root ++ [(key, .table .headed
        (some ((withoutSettings s).extent ⟨[key], extent, false⟩)) [])]) := by
      rw [place_of_some (s := withoutSettings s) hheader, openTable_new hnew]
      simp only [withoutSettings, hnames, hnone]
      rfl
    rw [List.map_cons, List.foldlM_cons, hplace]
    apply ih
    simpa using hdistinct

/-- Nothing is left that could be malformed, since the tables are told apart by their titles. -/
theorem further?_tables {tables : List Table} (h : ∀ t ∈ tables, t.Spelled)
    (hdistinct : (tables.map (·.title)).Nodup) :
    (further? (tables.flatMap Table.text)).isSome = true := by
  obtain ⟨lines, hlines, first, later, hsections, hfirst, hlater⟩ :=
    readAs_tables h [] _ (Nat.le_succ _)
  obtain ⟨result, hresult⟩ := Opens.placeAll hlater [] hdistinct
  rw [further?, hlines, Option.bind_eq_bind, Option.bind_some, hsections, List.map_cons,
    List.foldlM_cons, place_of_none rfl]
  have hnone : (withoutSettings ⟨none, first⟩).assignments = [] := hfirst
  rw [hnone]
  exact Option.isSome_iff_exists.mpr ⟨result, hresult⟩

/-- What is given can be written in any order of tables, and in any order in each of them. -/
theorem read_tables {g : Given} {tables : List Table} (h : ∀ t ∈ tables, t.Spelled)
    (hdistinct : (tables.map (·.title)).Nodup)
    (hgiven : (tables.flatMap fun t => t.rows.map (·.1)).Perm g.assignments) :
    read (tables.flatMap Table.text) = .ok g.settings :=
  read_written (written_tables h []) hgiven (further?_tables h hdistinct)

/-- All settings can come from a file, up to the largest integer there is in one. -/
theorem exists_text (s : Settings) (hlimit : s.maxFrameBytes ≤ 9223372036854775807) :
    ∃ text, read text = .ok s := by
  obtain ⟨echo, hecho⟩ : ∃ spelled, (Assigned.echoRequests s.echoRequests).Spelled spelled := by
    cases s.echoRequests with
    | true => exact ⟨_, .on⟩
    | false => exact ⟨_, .off⟩
  obtain ⟨framing, hframing⟩ := exists_spelling (framingName s.framing).toList
  obtain ⟨features, hfeatures⟩ := exists_items s.features
  obtain ⟨level, hlevel⟩ := exists_spelling s.level.toList
  let handler : Table := ⟨"handler", [(.echoRequests s.echoRequests, echo)]⟩
  let transport : Table := ⟨"transport", [(.framing s.framing, quotes framing []),
    (.maxFrameBytes s.maxFrameBytes, Nat.toDigits 10 s.maxFrameBytes)]⟩
  let capability : Table := ⟨"capability", [(.features s.features, '[' :: features)]⟩
  let log : Table := ⟨"log", [(.level s.level, quotes level [])]⟩
  have hhandler : handler.Spelled :=
    ⟨(by decide : settingsOf "handler" ≠ []), List.forall_mem_singleton.mpr ⟨rfl, hecho⟩⟩
  have htransport : transport.Spelled := by
    refine ⟨(by decide : settingsOf "transport" ≠ []), List.forall_mem_cons.mpr ⟨?_, ?_⟩⟩
    · exact ⟨rfl, .framing hframing⟩
    · exact List.forall_mem_singleton.mpr ⟨rfl, .maxFrameBytes hlimit⟩
  have hcapability : capability.Spelled :=
    ⟨(by decide : settingsOf "capability" ≠ []),
      List.forall_mem_singleton.mpr ⟨rfl, .features hfeatures⟩⟩
  have hlog : log.Spelled :=
    ⟨(by decide : settingsOf "log" ≠ []), List.forall_mem_singleton.mpr ⟨rfl, .level hlevel⟩⟩
  have hspelled : ∀ t ∈ [handler, transport, capability, log], t.Spelled := by
    simp only [List.forall_mem_cons]
    exact ⟨hhandler, htransport, hcapability, hlog, nofun⟩
  have hdistinct : ["handler", "transport", "capability", "log"].Nodup := by decide
  let g : Given := ⟨s.echoRequests, s.framing, s.maxFrameBytes, s.features, s.level⟩
  exact ⟨_, read_tables hspelled hdistinct (List.Perm.refl g.assignments)⟩

end MacroPlugin.Settings
