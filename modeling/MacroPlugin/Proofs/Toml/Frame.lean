import MacroPlugin.Toml.Document

/-!
A dotted key and a header change only the entries under their first name. What they make of these
entries does not depend on the others, and the others stay as they are and where they are.
-/

namespace MacroPlugin.Toml

/-- The entries with names of a kind. -/
def only (kind : String → Bool) (entries : Entries) : Entries :=
  entries.filter (kind ·.1.name)

/-- A change of entries that concerns a single name: what becomes of the entries of a kind is
settled by these entries alone if the name is of this kind, and else they are kept. -/
structure Local (name : String) (change : Entries → Option Entries) : Prop where
  passes : ∀ {kind : String → Bool}, kind name = true → ∀ entries,
    change (only kind entries) = (change entries).map (only kind)
  spares : ∀ {kind : String → Bool}, kind name = false → ∀ {entries entries'},
    change entries = some entries' → only kind entries' = only kind entries

section Kinds

variable {kind : String → Bool} {name : String}

theorem only_append (front back : Entries) :
    only kind (front ++ back) = only kind front ++ only kind back :=
  List.filter_append ..

theorem only_cons_of_pos {key : Key} (h : kind key.name = true) (value : Value)
    (entries : Entries) : only kind ((key, value) :: entries) = (key, value) :: only kind entries :=
  List.filter_cons_of_pos h

theorem only_cons_of_neg {key : Key} (h : kind key.name = false) (value : Value)
    (entries : Entries) : only kind ((key, value) :: entries) = only kind entries :=
  List.filter_cons_of_neg (by simp [h])

theorem find?_only (h : kind name = true) (entries : Entries) :
    (only kind entries).find? (·.1.name = name) = entries.find? (·.1.name = name) := by
  rw [only, List.find?_filter]
  congr 1
  funext entry
  by_cases heq : entry.1.name = name
  · simp [heq, h]
  · simp [heq]

theorem hasKey_only (h : kind name = true) (entries : Entries) :
    hasKey (only kind entries) name = hasKey entries name := by
  rw [hasKey, only, List.any_filter]
  congr 1
  funext entry
  by_cases heq : entry.1.name = name
  · simp [heq, h]
  · simp [heq]

end Kinds

/-! Changes that are put together from others -/

theorem Local.refused (name : String) : Local name fun _ => none where
  passes _ _ := rfl
  spares _ := by
    intro entries entries' h
    simp at h

theorem Local.andThen {name : String} {change next : Entries → Option Entries}
    (hchange : Local name change) (hnext : Local name next) :
    Local name fun entries => (change entries).bind next where
  passes h entries := by
    rw [hchange.passes h, Option.map_bind, Option.bind_map]
    congr 1
    funext entries
    exact hnext.passes h entries
  spares h := by
    intro entries entries' hboth
    obtain ⟨between, hbetween, hentries'⟩ := Option.bind_eq_some_iff.mp hboth
    rw [hnext.spares h hentries', hchange.spares h hbetween]

/-- An entry that is put at the end, if its value can be made. -/
theorem Local.append {α : Type} (key : Key) (made : Option α) (value : α → Value) :
    Local key.name (fun entries => do return entries ++ [(key, value (← made))]) where
  passes h entries := by
    cases made with
    | none => rfl
    | some a =>
      show some _ = some _
      rw [only_append, only_cons_of_pos h]
      rfl
  spares h := by
    intro entries entries' happend
    cases made with
    | none => simp at happend
    | some a =>
      obtain rfl := Option.some.inj happend
      rw [only_append, only_cons_of_neg h]
      exact List.append_nil _

theorem Local.drop (name : String) :
    Local name fun entries => some (entries.filter (·.1.name ≠ name)) where
  passes _ entries := by
    rw [Option.map_some, only, only, List.filter_filter, List.filter_filter]
    congr 2
    funext entry
    exact Bool.and_comm ..
  spares h := by
    intro entries entries' hdrop
    obtain rfl := Option.some.inj hdrop
    rw [only, only, List.filter_filter]
    congr 1
    funext entry
    by_cases heq : entry.1.name = name
    · simp [heq, h]
    · simp [heq]

theorem Local.byKey {name : String} {taken free : Entries → Option Entries}
    (htaken : Local name taken) (hfree : Local name free) :
    Local name fun entries => if hasKey entries name then taken entries else free entries where
  passes h entries := by
    rw [hasKey_only h]
    split
    · exact htaken.passes h entries
    · exact hfree.passes h entries
  spares h := by
    intro entries entries' hchange
    split at hchange
    · exact htaken.spares h hchange
    · exact hfree.spares h hchange

/-! Changes of a single value -/

section Replace

variable {name : String} {change : Value → Option Value} {key : Key}

theorem replaceEntry_cons_of_eq (h : key.name = name) (value : Value) (rest : Entries) :
    replaceEntry name change ((key, value) :: rest) =
      (change value).map fun value => (key, value) :: rest := by
  rw [replaceEntry, if_pos h]
  cases change value <;> rfl

theorem replaceEntry_cons_of_ne (h : key.name ≠ name) (value : Value) (rest : Entries) :
    replaceEntry name change ((key, value) :: rest) =
      (replaceEntry name change rest).map ((key, value) :: ·) := by
  rw [replaceEntry, if_neg h]
  cases replaceEntry name change rest <;> rfl

end Replace

theorem Local.replaceEntry (name : String) (change : Value → Option Value) :
    Local name (replaceEntry name change) where
  passes := by
    intro kind h entries
    induction entries with
    | nil => rfl
    | cons entry rest ih =>
      obtain ⟨key, value⟩ := entry
      by_cases hname : key.name = name
      · have hkind : kind key.name = true := hname ▸ h
        rw [only_cons_of_pos hkind, replaceEntry_cons_of_eq hname, replaceEntry_cons_of_eq hname,
          Option.map_map]
        congr 1
        funext value
        exact (only_cons_of_pos hkind value rest).symm
      · rw [replaceEntry_cons_of_ne hname, Option.map_map]
        cases hkind : kind key.name with
        | true =>
          rw [only_cons_of_pos hkind, replaceEntry_cons_of_ne hname, ih, Option.map_map]
          congr 1
          funext rest
          exact (only_cons_of_pos hkind value rest).symm
        | false =>
          rw [only_cons_of_neg hkind, ih]
          congr 1
          funext rest
          exact (only_cons_of_neg hkind value rest).symm
  spares := by
    intro kind h entries entries' hreplace
    induction entries generalizing entries' with
    | nil => simp [Toml.replaceEntry] at hreplace
    | cons entry rest ih =>
      obtain ⟨key, value⟩ := entry
      by_cases hname : key.name = name
      · have hkind : kind key.name = false := hname ▸ h
        rw [replaceEntry_cons_of_eq hname, Option.map_eq_some_iff] at hreplace
        obtain ⟨value', -, rfl⟩ := hreplace
        rw [only_cons_of_neg hkind, only_cons_of_neg hkind]
      · rw [replaceEntry_cons_of_ne hname, Option.map_eq_some_iff] at hreplace
        obtain ⟨rest', hrest, rfl⟩ := hreplace
        cases hkind : kind key.name with
        | true => rw [only_cons_of_pos hkind, only_cons_of_pos hkind, ih hrest]
        | false => rw [only_cons_of_neg hkind, only_cons_of_neg hkind, ih hrest]

/-! Dotted keys and headers -/

theorem assign_local (key : Key) (path : List Key) (value : Value) :
    Local key.name (assign (key :: path) value) := by
  cases path with
  | nil => exact (Local.refused key.name).byKey (.append key (some value) id)
  | cons next path => exact (Local.replaceEntry key.name _).byKey (.append key _ _)

theorem openTable_local (key : Key) (path : List Key) (repeated : Bool) (extent : Extent)
    (fill : Entries → Option Entries) :
    Local key.name (openTable (key :: path) repeated extent fill) := by
  cases path with
  | cons next path => exact (Local.replaceEntry key.name _).byKey (.append key _ _)
  | nil =>
    constructor
    · intro kind h entries
      unfold openTable
      dsimp only
      rw [find?_only h]
      split
      · exact (Local.append key _ id).passes h entries
      · exact (Local.append key _ fun value => .tables [value]).passes h entries
      · exact ((Local.drop key.name).andThen (.append key _ id)).passes h entries
      · exact (Local.replaceEntry key.name _).passes h entries
      · rfl
    · intro kind h entries entries' hopen
      unfold openTable at hopen
      dsimp only at hopen
      split at hopen
      · exact (Local.append key _ id).spares h hopen
      · exact (Local.append key _ fun value => .tables [value]).spares h hopen
      · exact ((Local.drop key.name).andThen (.append key _ id)).spares h hopen
      · exact (Local.replaceEntry key.name _).spares h hopen
      · simp at hopen

end MacroPlugin.Toml
