import MacroPlugin.Proofs.Settings.Sections

/-!
A file with settings is compared with the same file without them. As long as the file without them
can be read, so can the file with them: a setting takes up a key that nothing else in the file has.
And the settings that the file ends up stating are those that it was given, in some order.

The two tables are compared name by name. A section has the same further keys in both; all other
tables are the same.
-/

namespace MacroPlugin.Settings

open Toml
open scoped List

/-- A key of a section that is none of its settings. -/
def isFurther (title key : String) : Bool :=
  !isSetting title key

/-- The entries of one name with and without settings. Only a section that was opened by its header
states any. -/
inductive Column (title : String) : Entries → Entries → Prop
  | other (h : settingsOf title = []) (entries : Entries) : Column title entries entries
  | missing : Column title [] []
  | table {key : Toml.Key} (origin : Origin) (extent extent' : Option Extent) (inner : Entries)
      (hkey : key.name = title) (hsection : settingsOf title ≠ [])
      (horigin : origin = .headed ∨ only (isSetting title) inner = []) :
      Column title [(key, .table origin extent inner)]
        [(key, .table origin extent' (only (isFurther title) inner))]

/-- A file that states these settings, and the file without them. -/
structure Extends (as : List Assigned) (root root' : Entries) : Prop where
  columns : ∀ title, Column title (only (· = title) root) (only (· = title) root')
  states : ∃ entries, entries.Perm (stated root) ∧ List.Forall₂ States entries as

theorem Extends.nil : Extends [] [] [] where
  columns _ := .missing
  states := ⟨[], .nil, .nil⟩

/-- A change of the entries of a name that states these settings, and the change without them:
where the second goes through, so does the first. -/
structure Changes (title : String) (as : List Assigned) (change change' : Entries → Option Entries) :
    Prop where
  goesThrough : ∀ {column column' result' : Entries}, Column title column column' →
    change' column' = some result' →
    ∃ result news, change column = some result ∧ Column title result result' ∧
      statedIn title result = statedIn title column ++ news ∧ List.Forall₂ States news as

theorem stated_perm (title : String) (root : Entries) :
    (stated root).Perm (statedIn title (only (· = title) root) ++ stated (only (· ≠ title) root)) := by
  have hcolumn : stated (only (· = title) root) = statedIn title (only (· = title) root) := by
    apply List.flatMap_congr
    intro entry hmem
    have htitle : entry.1.name = title := by simpa [only] using (List.mem_filter.mp hmem).2
    rw [htitle]
  have hparts : (only (· = title) root ++ only (· ≠ title) root).Perm root := by
    simp only [only, decide_not]
    exact List.filter_append_perm _ root
  rw [← hcolumn, stated, stated, stated, ← List.flatMap_append]
  exact (hparts.flatMap_right _).symm

/-- What a change does is done to one column. -/
theorem Extends.step {title : String} {change change' : Entries → Option Entries}
    (hlocal : Local title change) (hlocal' : Local title change') {before as : List Assigned}
    (hchanges : Changes title as change change') {root root' result' : Entries}
    (h : Extends before root root') (hresult' : change' root' = some result') :
    ∃ result, change root = some result ∧ Extends (before ++ as) result result' := by
  have hpass' : change' (only (· = title) root') = some (only (· = title) result') := by
    rw [hlocal'.passes (decide_eq_true rfl), hresult']
    rfl
  obtain ⟨column, news, hcolumn, hrelated, hstated, hnews⟩ := hchanges.goesThrough (h.columns title) hpass'
  rw [hlocal.passes (decide_eq_true rfl), Option.map_eq_some_iff] at hcolumn
  obtain ⟨result, hresult, rfl⟩ := hcolumn
  refine ⟨result, hresult, ?_, ?_⟩
  · intro name
    by_cases hname : title = name
    · exact hname ▸ hrelated
    · have hother : decide (title = name) = false := decide_eq_false hname
      rw [hlocal.spares hother hresult, hlocal'.spares hother hresult']
      exact h.columns name
  · obtain ⟨entries, hperm, hentries⟩ := h.states
    have hothers : only (· ≠ title) result = only (· ≠ title) root :=
      hlocal.spares (decide_eq_false (not_not_intro rfl)) hresult
    refine ⟨entries ++ news, ?_, List.rel_append hentries hnews⟩
    calc entries ++ news
      _ ~ stated root ++ news := hperm.append_right news
      _ ~ statedIn title (only (· = title) root) ++ stated (only (· ≠ title) root) ++ news :=
        (stated_perm title root).append_right news
      _ ~ statedIn title (only (· = title) root) ++ news ++ stated (only (· ≠ title) root) := by
        rw [List.append_assoc, List.append_assoc]
        exact List.perm_append_comm.append_left _
      _ ~ stated result := by
        rw [← hstated, ← hothers]
        exact (stated_perm title result).symm

/-! Changes that state nothing -/

theorem statedIn_of_not_section {title : String} (h : settingsOf title = []) (entries : Entries) :
    statedIn title entries = [] := by
  apply List.flatMap_eq_nil_iff.mpr
  intro entry _
  rw [List.map_eq_nil_iff, only, List.filter_eq_nil_iff]
  intro inner _
  simp [isSetting_of_not_section h]

theorem Changes.of_not_section {title : String} (h : settingsOf title = [])
    (change : Entries → Option Entries) : Changes title [] change change := by
  constructor
  intro column column' result' hcolumn hresult'
  have hsame : column = column' := by
    cases hcolumn with
    | other => rfl
    | missing => rfl
    | table _ _ _ _ _ hsection => exact absurd h hsection
  refine ⟨result', [], hsame ▸ hresult', .other h result', ?_, .nil⟩
  rw [statedIn_of_not_section h, statedIn_of_not_section h]
  rfl

/-- Where no settings are, all keys are further ones. -/
theorem only_isFurther {title : String} {entries : Entries}
    (h : only (isSetting title) entries = []) : only (isFurther title) entries = entries := by
  rw [only, List.filter_eq_self]
  intro entry hmem
  have hnot := List.filter_eq_nil_iff.mp h entry hmem
  simpa [isFurther] using hnot

/-- A change inside the table of a name, below a key that is none of its settings. The table is
made if it is missing; whether one that is there may be changed depends on how it came about. -/
theorem Changes.below {key : Toml.Key} {next : String} (hnext : isSetting key.name next = false)
    {deeper : Entries → Option Entries} (hdeeper : Local next deeper)
    {change : Value → Option Value} (isOpen : Origin → Bool) (made : Origin)
    (hchange : ∀ origin extent inner, change (.table origin extent inner) =
      if isOpen origin then (deeper inner).map (.table origin extent) else none) :
    let changed : Entries → Option Entries := fun entries =>
      if hasKey entries key.name then replaceEntry key.name change entries
      else do return entries ++ [(key, .table made none (← deeper []))]
    Changes key.name [] changed changed := by
  intro changed
  by_cases hsection : settingsOf key.name = []
  · exact .of_not_section hsection changed
  have hfurther : isFurther key.name next = true := by simp [isFurther, hnext]
  constructor
  intro column column' result' hcolumn hresult'
  cases hcolumn with
  | other h => exact absurd h hsection
  | missing =>
    simp only [changed, hasKey, List.any_nil, Bool.false_eq_true, if_false, List.nil_append, bind,
      Option.bind_eq_some_iff, pure, Option.some.injEq] at hresult'
    obtain ⟨inner, hinner, rfl⟩ := hresult'
    have hnone : only (isSetting key.name) inner = [] := hdeeper.spares hnext hinner
    have hcolumn := Column.table made none none inner rfl hsection (.inr hnone)
    rw [only_isFurther hnone] at hcolumn
    refine ⟨_, [], ?_, hcolumn, ?_, .nil⟩
    · simp [changed, hasKey, hinner]
    · simp [statedIn, contents, hnone]
  | @table key' origin extent extent' inner hkey _ horigin =>
    have hchanged : ∀ extent inner, changed [(key', .table origin extent inner)] =
        if isOpen origin then
          (deeper inner).map fun inner => [(key', .table origin extent inner)]
        else none := by
      intro extent inner
      simp only [changed, hasKey, List.any_cons, hkey, decide_true, Bool.true_or, if_true]
      rw [replaceEntry_cons_of_eq hkey, hchange]
      split
      · rw [Option.map_map]
        rfl
      · rfl
    rw [hchanged] at hresult'
    split at hresult'
    · next hopen =>
      rw [hdeeper.passes hfurther, Option.map_map, Option.map_eq_some_iff] at hresult'
      obtain ⟨inner', hinner, rfl⟩ := hresult'
      have hsame : only (isSetting key.name) inner' = only (isSetting key.name) inner :=
        hdeeper.spares hnext hinner
      refine ⟨_, [], ?_, .table origin extent extent' inner' hkey hsection ?_, ?_, .nil⟩
      · rw [hchanged, if_pos hopen, hinner]
        rfl
      · rwa [hsame]
      · simp [statedIn, contents, hsame]
    · simp at hresult'

/-- The names of a key or header, counted from the table of the file, that concern no setting. -/
def IsFurther : List String → Prop
  | [] => False
  | [title] => settingsOf title = []
  | title :: key :: _ => isSetting title key = false

theorem assign_changes {key : Toml.Key} {path : List Toml.Key}
    (h : IsFurther ((key :: path).map (·.name))) (value : Value) :
    Changes key.name [] (assign (key :: path) value) (assign (key :: path) value) := by
  cases path with
  | nil => exact .of_not_section h _
  | cons next path =>
    apply Changes.below h (assign_local next path value)
      (fun origin => origin = .dotted || (origin = .implied && !path.isEmpty)) .dotted
    intro origin extent inner
    cases origin with
    | inline => rfl
    | headed => rfl
    | dotted => exact Option.map_eq_bind.symm
    | implied =>
      cases path with
      | nil => rfl
      | cons => exact Option.map_eq_bind.symm

theorem openTable_changes {key : Toml.Key} {path : List Toml.Key}
    (h : IsFurther ((key :: path).map (·.name))) (repeated : Bool) (extent : Extent)
    (fill : Entries → Option Entries) :
    Changes key.name [] (openTable (key :: path) repeated extent fill)
      (openTable (key :: path) repeated extent fill) := by
  cases path with
  | nil => exact .of_not_section h _
  | cons next path =>
    apply Changes.below h (openTable_local next path repeated extent fill) (· ≠ .inline) .implied
    intro origin _ inner
    cases origin with
    | inline => rfl
    | _ => exact Option.map_eq_bind.symm

/-! The table of a section -/

/-- What fills the table of a section, with settings and without them. -/
structure Fills (title : String) (as : List Assigned) (fill fill' : Entries → Option Entries) :
    Prop where
  goesThrough : ∀ {inner filled' : Entries}, only (isSetting title) inner = [] →
    fill' (only (isFurther title) inner) = some filled' →
    ∃ filled, fill inner = some filled ∧ only (isFurther title) filled = filled' ∧
      List.Forall₂ States ((only (isSetting title) filled).map (title, ·)) as

theorem openTable_states {key : Toml.Key} (hsection : settingsOf key.name ≠ [])
    {as : List Assigned} {fill fill' : Entries → Option Entries}
    (hfill : Fills key.name as fill fill') (extent extent' : Extent) :
    Changes key.name as (openTable [key] false extent fill)
      (openTable [key] false extent' fill') := by
  constructor
  intro column column' result' hcolumn hresult'
  cases hcolumn with
  | other h => exact absurd h hsection
  | missing =>
    simp only [openTable, List.find?_nil, List.nil_append, bind, Option.bind_eq_some_iff, pure,
      Option.some.injEq] at hresult'
    obtain ⟨_, ⟨filled', hfilled', rfl⟩, rfl⟩ := hresult'
    obtain ⟨filled, hfilled, rfl, hstates⟩ := hfill.goesThrough (rfl : only _ [] = []) hfilled'
    refine ⟨_, _, ?_, .table .headed (some extent) _ filled rfl hsection (.inl rfl), ?_, hstates⟩
    · simp [openTable, hfilled]
    · simp [statedIn, contents]
  | @table key' origin before before' inner hkey _ horigin =>
    have hfind : ∀ value, ([(key', value)] : Entries).find? (·.1.name = key.name) =
        some (key', value) := by
      intro value
      simp [hkey]
    have hdrop : ∀ value, ([(key', value)] : Entries).filter (·.1.name ≠ key.name) = [] := by
      intro value
      simp [hkey]
    cases origin with
    | implied =>
      have hnone : only (isSetting key.name) inner = [] := by simpa using horigin
      simp only [openTable, hfind, hdrop, List.nil_append, bind, Option.bind_eq_some_iff, pure,
        Option.some.injEq] at hresult'
      obtain ⟨_, ⟨filled', hfilled', rfl⟩, rfl⟩ := hresult'
      obtain ⟨filled, hfilled, rfl, hstates⟩ := hfill.goesThrough hnone hfilled'
      refine ⟨_, _, ?_, .table .headed (some extent) _ filled rfl hsection (.inl rfl), ?_, hstates⟩
      · simp [openTable, hkey, hfilled]
      · simp [statedIn, contents, hnone]
    | _ => simp [openTable, hkey] at hresult'

/-- The names of a key, counted from the table of the file, are those of a setting. -/
def isSettingPath : List String → Bool
  | [title, key] => isSetting title key
  | _ => false

theorem isSettingPath_of_isFurther {names : List String} (h : IsFurther names) :
    isSettingPath names = false := by
  unfold isSettingPath
  split
  · exact h
  · rfl

theorem Assigned.isSetting (a : Assigned) : isSetting a.title a.key = true := by
  cases a <;> rfl

theorem Assigned.settingsOf_ne_nil (a : Assigned) : settingsOf a.title ≠ [] := by
  cases a <;> exact List.cons_ne_nil _ _

/-- Assignments below a header with these names: those of settings of a section, and any others. -/
inductive Assigns (names : List String) : List Assigned → List (List Toml.Key × Value) → Prop
  | nil : Assigns names [] []
  | setting {a : Assigned} {key : Toml.Key} {value : Value} {as : List Assigned}
      {rest : List (List Toml.Key × Value)} (hnames : names = [a.title]) (hkey : key.name = a.key)
      (hreads : a.Reads value) (hrest : Assigns names as rest) :
      Assigns names (a :: as) (([key], value) :: rest)
  | further {path : List Toml.Key} {value : Value} {as : List Assigned}
      {rest : List (List Toml.Key × Value)} (hpath : IsFurther (names ++ path.map (·.name)))
      (hrest : Assigns names as rest) : Assigns names as ((path, value) :: rest)

/-- The assignments that are not those of settings. -/
def furtherIn (names : List String) (assignments : List (List Toml.Key × Value)) :
    List (List Toml.Key × Value) :=
  assignments.filter fun assignment => !isSettingPath (names ++ assignment.1.map (·.name))

theorem furtherIn_cons {names : List String} {path : List Toml.Key}
    (hpath : IsFurther (names ++ path.map (·.name))) (value : Value)
    (rest : List (List Toml.Key × Value)) :
    furtherIn names ((path, value) :: rest) = (path, value) :: furtherIn names rest := by
  apply List.filter_cons_of_pos
  rw [isSettingPath_of_isFurther hpath]
  rfl

theorem furtherIn_setting {a : Assigned} {key : Toml.Key} (hkey : key.name = a.key) (value : Value)
    (rest : List (List Toml.Key × Value)) :
    furtherIn [a.title] (([key], value) :: rest) = furtherIn [a.title] rest := by
  apply List.filter_cons_of_neg
  simp [isSettingPath, hkey, a.isSetting]

theorem hasKey_eq_false {entries : Entries} {name : String}
    (h : name ∉ entries.map (·.1.name)) : hasKey entries name = false := by
  rw [hasKey, List.any_eq_false]
  intro entry hmem hname
  exact h (List.mem_map.mpr ⟨entry, hmem, of_decide_eq_true hname⟩)

/-- Makes assignments in the entries of a table. -/
def assignAll (assignments : List (List Toml.Key × Value)) (entries : Entries) : Option Entries :=
  assignments.foldlM (fun entries (path, value) => assign path value entries) entries

theorem assignAll_cons (path : List Toml.Key) (value : Value)
    (rest : List (List Toml.Key × Value)) (entries : Entries) :
    assignAll ((path, value) :: rest) entries =
      (assign path value entries).bind (assignAll rest) :=
  List.foldlM_cons ..

theorem Assigns.assignAll {title : String} (hsection : settingsOf title ≠ []) {as : List Assigned}
    {assignments : List (List Toml.Key × Value)} (h : Assigns [title] as assignments)
    {entries filled' : Entries}
    (hdistinct : ((only (isSetting title) entries).map (·.1.name) ++ as.map Assigned.key).Nodup)
    (hfill : assignAll (furtherIn [title] assignments) (only (isFurther title) entries) =
      some filled') :
    ∃ filled news, assignAll assignments entries = some filled ∧
      only (isFurther title) filled = filled' ∧
      only (isSetting title) filled = only (isSetting title) entries ++ news ∧
      List.Forall₂ States (news.map (title, ·)) as := by
  induction h generalizing entries with
  | nil => exact ⟨entries, [], rfl, Option.some.inj hfill, (List.append_nil _).symm, .nil⟩
  | @setting a key value as rest hnames hkey hreads hrest ih =>
    obtain rfl : title = a.title := by simpa using hnames
    have hsetting : isSetting a.title key.name = true := hkey ▸ a.isSetting
    have hstated : only (isSetting a.title) (entries ++ [(key, value)]) =
        only (isSetting a.title) entries ++ [(key, value)] := by
      rw [only_append, only_cons_of_pos hsetting]
      rfl
    have hkept : only (isFurther a.title) (entries ++ [(key, value)]) =
        only (isFurther a.title) entries := by
      rw [only_append, only_cons_of_neg (by simp [isFurther, hsetting])]
      exact List.append_nil _
    have hnew : key.name ∉ (only (isSetting a.title) entries).map (·.1.name) := by
      intro hmem
      exact List.disjoint_of_nodup_append hdistinct hmem (hkey ▸ List.mem_cons_self)
    have hfree : hasKey entries key.name = false := by
      rw [← hasKey_only hsetting]
      exact hasKey_eq_false hnew
    have hassign : assign [key] value entries = some (entries ++ [(key, value)]) := by
      simp [assign, hfree]
    rw [furtherIn_setting hkey, ← hkept] at hfill
    have hdistinct' : ((only (isSetting a.title) (entries ++ [(key, value)])).map (·.1.name) ++
        as.map Assigned.key).Nodup := by
      rw [hstated, List.map_append, List.append_assoc]
      show (_ ++ key.name :: as.map Assigned.key).Nodup
      rw [hkey]
      exact hdistinct
    obtain ⟨filled, news, hfilled, hfurther, hsettings, hstates⟩ := ih hdistinct' hfill
    refine ⟨filled, (key, value) :: news, ?_, hfurther, ?_, .cons ⟨rfl, hkey, hreads⟩ hstates⟩
    · rw [assignAll_cons, hassign]
      exact hfilled
    · rw [hsettings, hstated, List.append_assoc]
      rfl
  | @further path value as rest hpath hrest ih =>
    cases path with
    | nil => exact absurd hpath hsection
    | cons next path =>
      have hnext : isSetting title next.name = false := hpath
      have hfurther : isFurther title next.name = true := by simp [isFurther, hnext]
      have hlocal := assign_local next path value
      rw [furtherIn_cons hpath, assignAll_cons, hlocal.passes hfurther] at hfill
      simp only [Option.bind_eq_some_iff, Option.map_eq_some_iff] at hfill
      obtain ⟨_, ⟨changed, hassign, rfl⟩, hfill⟩ := hfill
      have hsame : only (isSetting title) changed = only (isSetting title) entries :=
        hlocal.spares hnext hassign
      obtain ⟨filled, news, hfilled, hrest⟩ := ih (by rwa [hsame]) hfill
      rw [hsame] at hrest
      refine ⟨filled, news, ?_, hrest⟩
      rw [assignAll_cons, hassign]
      exact hfilled

/-! The sections of a file -/

/-- The names of a section, from its header. -/
def names (s : Toml.Section) : List String :=
  match s.header with
  | some header => header.path.map (·.name)
  | none => []

def withoutSettings (s : Toml.Section) : Toml.Section :=
  { s with assignments := furtherIn (names s) s.assignments }

/-- The headers of sections, and those of tables in which no settings are. -/
inductive IsHeader : Header → Prop
  | titled {key : Toml.Key} (extent : Extent) (hsection : settingsOf key.name ≠ []) :
      IsHeader ⟨[key], extent, false⟩
  | further {header : Header} (hpath : IsFurther (header.path.map (·.name))) : IsHeader header

/-- A section of the file that says this about settings. -/
structure Says (as : List Assigned) (s : Toml.Section) : Prop where
  header : ∀ {header}, s.header = some header → IsHeader header
  assigns : Assigns (names s) as s.assignments

theorem Assigns.of_not_section {names : List String} {as : List Assigned}
    {assignments : List (List Toml.Key × Value)} (h : Assigns names as assignments)
    (hother : ∀ title, settingsOf title ≠ [] → names ≠ [title]) :
    as = [] ∧ furtherIn names assignments = assignments := by
  induction h with
  | nil => exact ⟨rfl, rfl⟩
  | @setting a _ _ _ _ hsection => exact absurd hsection (hother a.title a.settingsOf_ne_nil)
  | further hpath _ ih =>
    obtain ⟨rfl, hrest⟩ := ih
    rw [furtherIn_cons hpath, hrest]
    exact ⟨rfl, rfl⟩

theorem Says.says_nothing {as : List Assigned} {s : Toml.Section} (h : Says as s)
    (hother : ∀ title, settingsOf title ≠ [] → names s ≠ [title]) :
    as = [] ∧ withoutSettings s = s := by
  obtain ⟨hnone, hsame⟩ := h.assigns.of_not_section hother
  refine ⟨hnone, ?_⟩
  rw [withoutSettings, hsame]

theorem Assigns.map_path {title : String} {as : List Assigned}
    {assignments : List (List Toml.Key × Value)} (h : Assigns [title] as assignments) :
    as.map Assigned.path = (as.map Assigned.key).map fun key => [title, key] := by
  induction h with
  | nil => rfl
  | @setting a _ _ _ _ hnames _ _ _ ih =>
    obtain rfl : title = a.title := by simpa using hnames
    rw [List.map_cons, List.map_cons, List.map_cons, ih]
    rfl
  | further _ _ ih => exact ih

theorem Assigns.fills {title : String} (hsection : settingsOf title ≠ []) {as : List Assigned}
    {assignments : List (List Toml.Key × Value)} (h : Assigns [title] as assignments)
    (hdistinct : (as.map Assigned.path).Nodup) :
    Fills title as (Settings.assignAll assignments)
      (Settings.assignAll (furtherIn [title] assignments)) := by
  rw [h.map_path] at hdistinct
  constructor
  intro inner filled' hnone hfilled'
  obtain ⟨filled, news, hfilled, hfurther, hsettings, hstates⟩ :=
    h.assignAll hsection (by simpa [hnone] using hdistinct.of_map) hfilled'
  rw [hnone, List.nil_append] at hsettings
  exact ⟨filled, hfilled, hfurther, hsettings ▸ hstates⟩

theorem Extends.assignAll {as before : List Assigned} {assignments : List (List Toml.Key × Value)}
    (hassigns : Assigns [] as assignments) {root root' result' : Entries}
    (h : Extends before root root') (hresult' : assignAll assignments root' = some result') :
    ∃ result, Settings.assignAll assignments root = some result ∧ Extends before result result' := by
  induction hassigns generalizing root root' with
  | nil => exact ⟨root, rfl, Option.some.inj hresult' ▸ h⟩
  | setting hnames => simp at hnames
  | @further path value as rest hpath hrest ih =>
    cases path with
    | nil => exact hpath.elim
    | cons key path =>
      have hlocal := assign_local key path value
      rw [assignAll_cons] at hresult'
      obtain ⟨between', hbetween', hresult'⟩ := Option.bind_eq_some_iff.mp hresult'
      obtain ⟨between, hbetween, hnext⟩ :=
        h.step hlocal hlocal (assign_changes hpath value) hbetween'
      rw [List.append_nil] at hnext
      obtain ⟨result, hresult, hextends⟩ := ih hnext hresult'
      refine ⟨result, ?_, hextends⟩
      rw [assignAll_cons, hbetween]
      exact hresult

theorem place_of_none {s : Toml.Section} (h : s.header = none) (root : Entries) :
    s.place root = assignAll s.assignments root := by
  rw [Section.place, h]
  rfl

theorem place_of_some {s : Toml.Section} {header : Header} (h : s.header = some header)
    (root : Entries) :
    s.place root = openTable header.path header.repeated (s.extent header)
      (assignAll s.assignments) root := by
  rw [Section.place, h]
  rfl

theorem Extends.place {as before : List Assigned} {s : Toml.Section} (hs : Says as s)
    (hdistinct : (as.map Assigned.path).Nodup) {root root' result' : Entries}
    (h : Extends before root root') (hresult' : (withoutSettings s).place root' = some result') :
    ∃ result, s.place root = some result ∧ Extends (before ++ as) result result' := by
  cases hheader : s.header with
  | none =>
    have hnames : names s = [] := by rw [names, hheader]
    obtain ⟨rfl, hsame⟩ := hs.says_nothing (by simp [hnames])
    rw [hsame, place_of_none hheader] at hresult'
    rw [List.append_nil, place_of_none hheader]
    exact h.assignAll (hnames ▸ hs.assigns) hresult'
  | some header =>
    have hnames : names s = header.path.map (·.name) := by rw [names, hheader]
    cases hs.header hheader with
    | @titled key extent hsection =>
      have hassigns : Assigns [key.name] as s.assignments := by
        have hassigns := hs.assigns
        rwa [hnames] at hassigns
      have hchanges := openTable_states hsection (hassigns.fills hsection hdistinct)
      rw [place_of_some (s := withoutSettings s) hheader, withoutSettings, hnames] at hresult'
      rw [place_of_some hheader]
      exact h.step (openTable_local key [] false _ _) (openTable_local key [] false _ _)
        (hchanges _ _) hresult'
    | further hpath =>
      have hother : ∀ title, settingsOf title ≠ [] → names s ≠ [title] := by
        rintro title hsection heq
        rw [hnames] at heq
        rw [heq] at hpath
        exact hsection hpath
      obtain ⟨rfl, hsame⟩ := hs.says_nothing hother
      rw [hsame] at hresult'
      rw [place_of_some hheader] at hresult' ⊢
      generalize s.extent header = extent at hresult' ⊢
      obtain ⟨path, _, repeated⟩ := header
      cases path with
      | nil => exact hpath.elim
      | cons key path =>
        have hlocal := openTable_local key path repeated extent (Settings.assignAll s.assignments)
        exact h.step hlocal hlocal (openTable_changes hpath repeated extent _) hresult'

/-- A file without settings that can be read can be read with them. -/
theorem Extends.placeAll {said : List (List Assigned)} {sections : List Toml.Section}
    (hsections : List.Forall₂ Says said sections)
    (hdistinct : (said.flatten.map Assigned.path).Nodup) {before : List Assigned}
    {root root' result' : Entries} (h : Extends before root root')
    (hresult' : (sections.map withoutSettings).foldlM (fun root s => s.place root) root' =
      some result') :
    ∃ result, sections.foldlM (fun root s => s.place root) root = some result ∧
      Extends (before ++ said.flatten) result result' := by
  induction hsections generalizing before root root' with
  | nil =>
    refine ⟨root, rfl, ?_⟩
    rw [List.flatten_nil, List.append_nil, ← Option.some.inj hresult']
    exact h
  | cons hs _ ih =>
    rw [List.flatten_cons, List.map_append] at hdistinct
    rw [List.map_cons, List.foldlM_cons] at hresult'
    obtain ⟨between', hbetween', hresult'⟩ := Option.bind_eq_some_iff.mp hresult'
    obtain ⟨between, hbetween, hnext⟩ := h.place hs (List.Nodup.of_append_left hdistinct) hbetween'
    obtain ⟨result, hresult, hextends⟩ := ih (List.Nodup.of_append_right hdistinct) hnext hresult'
    refine ⟨result, ?_, ?_⟩
    · rw [List.foldlM_cons, hbetween]
      exact hresult
    · rw [List.flatten_cons, ← List.append_assoc]
      exact hextends

/-- The settings of a file are what it states about them, in some order. -/
theorem Extends.applyEntries {as : List Assigned} {root root' : Entries}
    (h : Extends as root root') (s : Settings) :
    ∃ as' : List Assigned, as'.Perm as ∧
      Settings.applyEntries sections root s = .ok (as'.foldl Assigned.put s) := by
  obtain ⟨entries, hperm, hentries⟩ := h.states
  obtain ⟨as', hstates, hperm'⟩ := List.perm_comp_forall₂ hperm.symm hentries
  refine ⟨as', hperm', applyEntries_root ?_ (States.foldlM hstates s)⟩
  intro entry hmem hsection
  have hin : entry ∈ only (· = entry.1.name) root :=
    List.mem_filter.mpr ⟨hmem, decide_eq_true rfl⟩
  have hcolumn := h.columns entry.1.name
  generalize only (· = entry.1.name) root = column at hcolumn hin
  generalize only (· = entry.1.name) root' = column' at hcolumn
  cases hcolumn with
  | other h => exact absurd h hsection
  | missing => simp at hin
  | table origin extent extent' inner =>
    rw [List.mem_singleton.mp hin]
    exact ⟨_, _, _, rfl⟩

end MacroPlugin.Settings
