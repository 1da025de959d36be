import MacroPlugin.Proofs.Settings.Given
import MacroPlugin.Proofs.Toml.Frame

/-!
What a configuration file says about settings stands in the tables of four sections. Everything
else that is in these tables, and every other table, makes no difference to the settings: they are
those that the stated settings make of the defaults, in any order.
-/

namespace MacroPlugin.Settings

open Toml

/-- The settings of a section. Nothing else is a section. -/
def settingsOf : String → List Setting
  | "handler" => handlerSettings
  | "transport" => transportSettings
  | "capability" => capabilitySettings
  | "log" => logSettings
  | _ => []

def isSetting (title key : String) : Bool :=
  (settingsOf title).any (·.key = key)

theorem isSetting_of_not_section {title : String} (h : settingsOf title = []) (key : String) :
    isSetting title key = false := by
  rw [isSetting, h]
  rfl

theorem find?_sections {title : String} (h : settingsOf title ≠ []) :
    ∃ name, sections.find? (·.key = title) =
      some ⟨title, applySection name (settingsOf title)⟩ := by
  unfold settingsOf at h
  split at h
  · exact ⟨_, rfl⟩
  · exact ⟨_, rfl⟩
  · exact ⟨_, rfl⟩
  · exact ⟨_, rfl⟩
  · exact absurd rfl h

theorem find?_sections_eq_none {title : String} (h : settingsOf title = []) :
    sections.find? (·.key = title) = none := by
  rw [List.find?_eq_none]
  intro setting hmem hkey
  have htitle : setting.key = title := of_decide_eq_true hkey
  subst htitle
  simp only [sections, List.mem_cons, List.not_mem_nil, or_false] at hmem
  rcases hmem with rfl | rfl | rfl | rfl <;> simp [settingsOf, handlerSettings, transportSettings,
    capabilitySettings, logSettings] at h

/-! The settings that entries state -/

/-- The entries of a table. -/
def contents : Value → Entries
  | .table _ _ inner => inner
  | _ => []

/-- What the section of a title says about its settings, in these entries of the file. -/
def statedIn (title : String) (entries : Entries) : List (String × Toml.Key × Value) :=
  entries.flatMap fun entry => (only (isSetting title) (contents entry.2)).map (title, ·)

/-- What a file says about settings. -/
def stated (root : Entries) : List (String × Toml.Key × Value) :=
  root.flatMap fun entry =>
    (only (isSetting entry.1.name) (contents entry.2)).map (entry.1.name, ·)

/-- An entry of a section that gives a setting. -/
structure States (entry : String × Toml.Key × Value) (a : Assigned) : Prop where
  title_eq : entry.1 = a.title
  key_eq : entry.2.1.name = a.key
  reads : a.Reads entry.2.2

/-- Applies one entry of a section. -/
def applyEntry (s : Settings) (entry : String × Toml.Key × Value) : Except Problem Settings :=
  applyEntries (settingsOf entry.1) [entry.2] s

theorem toTexts_eq_ok {items : List Value} {texts : List String}
    (h : List.Forall₂ (fun item text => ∃ extent, item = .scalar extent (.text text)) items texts) :
    items.mapM toText = .ok texts := by
  induction h with
  | nil => rfl
  | cons hitem _ ih =>
    obtain ⟨extent, rfl⟩ := hitem
    rw [List.mapM_cons, ih]
    rfl

theorem States.applyEntry {entry : String × Toml.Key × Value} {a : Assigned} (h : States entry a)
    (s : Settings) : applyEntry s entry = .ok (a.put s) := by
  obtain ⟨title, ⟨name, extent⟩, value⟩ := entry
  obtain ⟨rfl, rfl, hreads⟩ := h
  cases hreads with
  | echoRequests => rfl
  | framing extent value => cases value <;> rfl
  | maxFrameBytes => rfl
  | features extent hitems =>
    have htexts := toTexts_eq_ok hitems
    simp [Settings.applyEntry, applyEntries, settingsOf, Assigned.title, Assigned.key,
      capabilitySettings, toTexts, htexts, atKey, Assigned.put, bind, Except.bind, pure, Except.pure]
  | level => rfl

theorem States.foldlM {entries : List (String × Toml.Key × Value)} {as : List Assigned}
    (h : List.Forall₂ States entries as) (s : Settings) :
    entries.foldlM Settings.applyEntry s = .ok (as.foldl Assigned.put s) := by
  induction h generalizing s with
  | nil => rfl
  | cons hentry _ ih =>
    rw [List.foldlM_cons, hentry.applyEntry]
    exact ih _

theorem applyEntries_cons (known : List Setting) (entry : Toml.Key × Value) (rest : Entries)
    (s : Settings) :
    applyEntries known (entry :: rest) s =
      (applyEntries known [entry] s).bind (applyEntries known rest) := by
  have happend : entry :: rest = [entry] ++ rest := rfl
  rw [happend, applyEntries, List.foldlM_append]
  rfl

theorem applyEntries_only (title : String) (entries : Entries) (s : Settings) :
    applyEntries (settingsOf title) entries s =
      ((only (isSetting title) entries).map (title, ·)).foldlM applyEntry s := by
  induction entries generalizing s with
  | nil => rfl
  | cons entry rest ih =>
    obtain ⟨key, value⟩ := entry
    rw [applyEntries_cons]
    cases hsetting : isSetting title key.name with
    | true =>
      rw [only_cons_of_pos hsetting, List.map_cons, List.foldlM_cons]
      congr 1
      funext s
      exact ih s
    | false =>
      have hnone : (settingsOf title).find? (·.key = key.name) = none := by
        simpa [isSetting] using hsetting
      have hskip : applyEntries (settingsOf title) [(key, value)] s = .ok s := by
        simp only [applyEntries, List.foldlM_cons, List.foldlM_nil, hnone]
        rfl
      rw [only_cons_of_neg hsetting, hskip]
      exact ih s

/-- The settings of a file all of whose sections are tables. -/
theorem applyEntries_root {root : Entries}
    (htables : ∀ entry ∈ root, settingsOf entry.1.name ≠ [] →
      ∃ origin extent inner, entry.2 = .table origin extent inner) {s s' : Settings}
    (h : (stated root).foldlM applyEntry s = .ok s') : applyEntries sections root s = .ok s' := by
  induction root generalizing s with
  | nil => exact h
  | cons entry rest ih =>
    obtain ⟨key, value⟩ := entry
    have hrest : ∀ entry ∈ rest, settingsOf entry.1.name ≠ [] →
        ∃ origin extent inner, entry.2 = .table origin extent inner :=
      fun entry hmem => htables entry (List.mem_cons_of_mem _ hmem)
    rw [stated, List.flatMap_cons, List.foldlM_append] at h
    rw [applyEntries_cons]
    by_cases hsection : settingsOf key.name = []
    · have hnone : only (isSetting key.name) (contents value) = [] :=
        List.filter_eq_nil_iff.mpr fun entry _ => by simp [isSetting_of_not_section hsection]
      have hskip : applyEntries sections [(key, value)] s = .ok s := by
        simp only [applyEntries, List.foldlM_cons, List.foldlM_nil,
          find?_sections_eq_none hsection]
        rfl
      rw [hskip]
      rw [hnone] at h
      exact ih hrest h
    · obtain ⟨name, hfind⟩ := find?_sections hsection
      obtain ⟨origin, extent, inner, rfl⟩ := htables (key, value) List.mem_cons_self hsection
      rw [contents, ← applyEntries_only] at h
      have happly : applyEntries sections [(key, .table origin extent inner)] s =
          atKey key (applyEntries (settingsOf key.name) inner s) := by
        simp only [applyEntries, List.foldlM_cons, List.foldlM_nil, hfind]
        exact bind_pure _
      rw [happly]
      cases hinner : applyEntries (settingsOf key.name) inner s with
      | error problem => simp [hinner, bind, Except.bind] at h
      | ok next =>
        rw [hinner] at h
        exact ih hrest h

end MacroPlugin.Settings
