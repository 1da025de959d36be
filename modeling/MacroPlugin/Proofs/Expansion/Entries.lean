import Mathlib.Algebra.BigOperators.Group.List.Lemmas
import Mathlib.Algebra.GroupWithZero.Nat
import Mathlib.Data.List.Dedup
import MacroPlugin.Proofs.Expansion.Registration
import MacroPlugin.Proofs.Text.Order

/-!
The entries of a registry, behind any sequence of registrations. They are in strictly increasing
order, also by the octets of the names, so no key is there twice and the entries say just what can
be found. They are determined by what can be found (`entries_eq_of_find?`); so the order in which
distinct keys were registered leaves no trace in them. The types are counted module by module, which
comes to the number of the entries.
-/

namespace MacroPlugin

/-- Whether a key comes before another by the octets of the module, and then of the type. -/
def Key.IsBeforeInOctets (a b : Key) : Prop :=
  Octets.ofText a.moduleName < Octets.ofText b.moduleName ∨
    a.moduleName = b.moduleName ∧ Octets.ofText a.typeName < Octets.ofText b.typeName

namespace Registry

/-- The order of entries: by the module, and then by the type. -/
def Precedes (a b : Registration) : Prop :=
  a.key.moduleName < b.key.moduleName ∨
    a.key.moduleName = b.key.moduleName ∧ a.key.typeName < b.key.typeName

theorem Precedes.inOctets {a b : Registration} (h : Precedes a b) :
    a.key.IsBeforeInOctets b.key := by
  rcases h with hmodule | ⟨hmodule, htype⟩
  · exact .inl (Octets.ofText_lt hmodule)
  · exact .inr ⟨hmodule, Octets.ofText_lt htype⟩

theorem Precedes.key_ne {a b : Registration} (h : Precedes a b) : a.key ≠ b.key := by
  intro hkey
  rw [Precedes, hkey] at h
  rcases h with hmodule | ⟨-, htype⟩
  · exact String.lt_irrefl _ hmodule
  · exact String.lt_irrefl _ htype

theorem Precedes.asymm {a b : Registration} (hab : Precedes a b) : ¬ Precedes b a := by
  rintro (hba | ⟨hmodule, hba⟩)
  · rcases hab with hab | ⟨hmodule, -⟩
    · exact String.lt_irrefl _ (String.lt_trans hab hba)
    · exact String.lt_irrefl _ (hmodule ▸ hba)
  · rcases hab with hab | ⟨-, hab⟩
    · exact String.lt_irrefl _ (hmodule ▸ hab)
    · exact String.lt_irrefl _ (String.lt_trans hab hba)

/-- What is listed is what is in the table of its module. -/
theorem mem_entries {r : Registry} {moduleName typeName : String}
    {implementation : Implementation} :
    ⟨⟨moduleName, typeName⟩, implementation⟩ ∈ r.entries ↔
      ∃ types, (moduleName, types) ∈ r.table ∧ (typeName, implementation) ∈ types := by
  simp [entries, List.mem_flatMap, Prod.exists]

/-- The order of the modules is that of the entries in different modules, and the order of the types
in a module that of the entries in it. -/
theorem Ordered.pairwise {r : Registry} (hr : r.Ordered) : r.entries.Pairwise Precedes := by
  rw [entries, List.pairwise_flatMap]
  constructor
  · rintro ⟨moduleName, types⟩ hmem
    rw [List.pairwise_map]
    exact (hr.types ((Table.value?_eq_some_iff hr.modules).mpr hmem)).imp fun h => .inr ⟨rfl, h⟩
  · refine hr.modules.imp fun {a b} hlt entry hentry later hlater => ?_
    obtain ⟨type, -, rfl⟩ := List.mem_map.mp hentry
    obtain ⟨type', -, rfl⟩ := List.mem_map.mp hlater
    exact .inl hlt

theorem Ordered.nodup {r : Registry} (hr : r.Ordered) : (r.entries.map (·.key)).Nodup := by
  rw [List.Nodup, List.pairwise_map]
  exact hr.pairwise.imp Precedes.key_ne

/-- What can be found under a key is what is listed for it. -/
theorem find?_iff_listed {r : Registry} (hr : r.Ordered) (key : Key)
    (implementation : Implementation) :
    r.find? key = some implementation ↔ ⟨key, implementation⟩ ∈ r.entries := by
  rw [find?, Option.bind_eq_some_iff, mem_entries]
  refine exists_congr fun types => ?_
  rw [← Table.value?_eq_some_iff hr.modules]
  exact and_congr_right fun hmodule => Table.value?_eq_some_iff (hr.types hmodule)

theorem contains_iff_listed {r : Registry} (hr : r.Ordered) (key : Key) :
    r.contains key = true ↔ ∃ entry ∈ r.entries, entry.key = key := by
  rw [contains, Option.isSome_iff_exists]
  constructor
  · rintro ⟨implementation, hfind⟩
    exact ⟨_, (find?_iff_listed hr _ _).mp hfind, rfl⟩
  · rintro ⟨entry, hmem, rfl⟩
    exact ⟨_, (find?_iff_listed hr _ _).mpr hmem⟩

/-- The entries are determined by what can be found. -/
theorem entries_eq_of_find? {r r' : Registry} (hr : r.Ordered) (hr' : r'.Ordered)
    (h : ∀ key, r.find? key = r'.find? key) : r.entries = r'.entries := by
  have hmem : ∀ entry, entry ∈ r.entries ↔ entry ∈ r'.entries := by
    rintro ⟨key, implementation⟩
    rw [← find?_iff_listed hr, ← find?_iff_listed hr', h key]
  have hperm : r.entries.Perm r'.entries :=
    (List.perm_ext_iff_of_nodup hr.nodup.of_map hr'.nodup.of_map).mpr hmem
  apply List.Perm.eq_of_pairwise _ hr.pairwise hr'.pairwise hperm
  intro a b _ _ hab hba
  exact absurd hba hab.asymm

/-- The types are counted module by module, and the entries are all of them. -/
theorem size_eq_length (r : Registry) : r.size = r.entries.length := by
  unfold size entries
  induction r.table with
  | nil => rfl
  | cons module rest ih =>
    rw [List.foldr_cons, ih, List.flatMap_cons, List.length_append, List.length_map]

theorem isEmpty_iff (r : Registry) : r.isEmpty = true ↔ r.entries = [] := by
  rw [isEmpty, decide_eq_true_iff, size_eq_length, List.length_eq_zero_iff]

/-- Where no key is there twice, a search finds just the registrations that are there. -/
theorem find?_eq_some_iff {calls : List Registration} (h : (calls.map (·.key)).Nodup)
    {key : Key} {call : Registration} :
    calls.find? (·.key = key) = some call ↔ call ∈ calls ∧ call.key = key := by
  constructor
  · intro hfind
    exact ⟨List.mem_of_find?_eq_some hfind, by simpa using List.find?_some hfind⟩
  · rintro ⟨hmem, rfl⟩
    induction calls with
    | nil => simp at hmem
    | cons first rest ih =>
      obtain ⟨hfirst, hrest⟩ := List.nodup_cons.mp h
      rcases List.mem_cons.mp hmem with rfl | hmem
      · simp
      · have hne : ¬ first.key = call.key := by
          intro heq
          apply hfirst
          exact List.mem_map.mpr ⟨call, hmem, heq.symm⟩
        rw [List.find?_cons_of_neg (by simpa using hne)]
        exact ih hrest hmem

/-- The first of the registrations with a key is the same in every order, if there is only one. -/
theorem find?_perm {calls calls' : List Registration} (hperm : calls.Perm calls')
    (hdistinct : (calls.map (·.key)).Nodup) (key : Key) :
    calls.find? (·.key = key) = calls'.find? (·.key = key) := by
  have hdistinct' : (calls'.map (·.key)).Nodup := (hperm.map _).nodup_iff.mp hdistinct
  apply Option.ext
  intro entry
  rw [find?_eq_some_iff hdistinct, find?_eq_some_iff hdistinct', hperm.mem_iff]

/-- In any order, registrations with different keys lead to the same. -/
theorem attemptAll_perm {calls calls' : List Registration} (hperm : calls.Perm calls')
    (hdistinct : (calls.map (·.key)).Nodup) :
    (empty.attemptAll calls').2.entries = (empty.attemptAll calls).2.entries ∧
      ∀ key, (empty.attemptAll calls').2.find? key = (empty.attemptAll calls).2.find? key := by
  obtain ⟨hordered, hfinds⟩ := attemptAll_finds empty_ordered calls
  obtain ⟨hordered', hfinds'⟩ := attemptAll_finds empty_ordered calls'
  have hsame : ∀ key,
      (empty.attemptAll calls').2.find? key = (empty.attemptAll calls).2.find? key := by
    intro key
    rw [hfinds, hfinds', find?_perm hperm hdistinct]
  exact ⟨entries_eq_of_find? hordered' hordered hsame, hsame⟩

/-- The keys that are listed are those that were asked for. -/
theorem mem_entries_iff (calls : List Registration) (key : Key) :
    (∃ entry ∈ (empty.attemptAll calls).2.entries, entry.key = key) ↔
      ∃ call ∈ calls, call.key = key := by
  rw [← contains_iff_listed (attemptAll_finds empty_ordered calls).1, attemptAll_contains]

/-- The modules that registrations name, each once. -/
def modules (calls : List Registration) : List String :=
  (calls.map (·.key.moduleName)).dedup

/-- The types that registrations name in a module, each once. -/
def typesIn (moduleName : String) (calls : List Registration) : List String :=
  ((calls.filter (·.key.moduleName = moduleName)).map (·.key.typeName)).dedup

theorem mem_modules {moduleName : String} {calls : List Registration} :
    moduleName ∈ modules calls ↔
      ∃ typeName, ∃ call ∈ calls, call.key = ⟨moduleName, typeName⟩ := by
  simp [modules, Key.eq_mk_iff]

theorem mem_typesIn {moduleName typeName : String} {calls : List Registration} :
    typeName ∈ typesIn moduleName calls ↔ ∃ call ∈ calls, call.key = ⟨moduleName, typeName⟩ := by
  simp [typesIn, Key.eq_mk_iff, and_assoc]

/-- The keys of one module differ in their types. -/
theorem typesOf_nodup {entries : List Registration} (h : (entries.map (·.key)).Nodup)
    (moduleName : String) :
    ((entries.filter (·.key.moduleName = moduleName)).map (·.key.typeName)).Nodup := by
  have hfilter : (entries.filter (·.key.moduleName = moduleName)).Pairwise
      fun a b => a.key ≠ b.key :=
    List.Pairwise.filter _ (List.pairwise_map.mp h)
  rw [List.Nodup, List.pairwise_map]
  apply hfilter.imp_of_mem
  intro a b ha hb hne htype
  apply hne
  have hmodule : a.key.moduleName = moduleName := by simpa using (List.mem_filter.mp ha).2
  have hmodule' : b.key.moduleName = moduleName := by simpa using (List.mem_filter.mp hb).2
  exact Key.eq_mk_iff.mpr ⟨hmodule.trans hmodule'.symm, htype⟩

/-- Listed under a module are the types that were asked for in it. -/
theorem count_moduleName (calls : List Registration) (moduleName : String) :
    ((empty.attemptAll calls).2.entries.map (·.key.moduleName)).count moduleName =
      (typesIn moduleName calls).length := by
  have hnodup := (attemptAll_finds empty_ordered calls).1.nodup
  have hperm : (((empty.attemptAll calls).2.entries.filter (·.key.moduleName = moduleName)).map
      (·.key.typeName)).Perm (typesIn moduleName calls) := by
    apply (List.perm_ext_iff_of_nodup (typesOf_nodup hnodup moduleName)
      (List.nodup_dedup _)).mpr
    intro typeName
    rw [← List.mem_dedup]
    exact mem_typesIn.trans ((mem_entries_iff calls _).trans mem_typesIn.symm)
  rw [← hperm.length_eq, List.length_map, ← List.countP_eq_length_filter, List.count,
    List.countP_map]
  rfl

/-- The entries, counted module by module. -/
theorem size_eq_sum (calls : List Registration) :
    (empty.attemptAll calls).2.size =
      ((modules calls).map fun moduleName => (typesIn moduleName calls).length).sum := by
  have hsame : (modules (empty.attemptAll calls).2.entries).Perm (modules calls) := by
    apply (List.perm_ext_iff_of_nodup (List.nodup_dedup _) (List.nodup_dedup _)).mpr
    intro moduleName
    apply mem_modules.trans (Iff.trans _ mem_modules.symm)
    exact exists_congr fun typeName => mem_entries_iff calls ⟨moduleName, typeName⟩
  rw [← (hsame.map _).sum_eq, modules]
  simp only [← count_moduleName]
  rw [List.sum_map_count_dedup_eq_length, List.length_map, size_eq_length]

/-- The entries of a registry, behind any sequence of registrations: in strictly increasing order,
no key twice, and for each key the shape of what can be found under it. There are as many of them
as there are different types in the modules that were named. Where all keys are different, any other
order of the registrations leads to the same entries and finds the same. -/
theorem entries_in_order (calls : List Registration) :
    let r := (empty.attemptAll calls).2
    (r.entries.map (·.key)).Pairwise Key.IsBeforeInOctets ∧
    (r.entries.map (·.key)).Nodup ∧
    (∀ key shape, (∃ entry ∈ r.entries, entry.key = key ∧ entry.implementation.shape = shape) ↔
      (r.find? key).map (·.shape) = some shape) ∧
    r.entries.length = r.size ∧
    r.size = ((modules calls).map fun moduleName => (typesIn moduleName calls).length).sum ∧
    (r.isEmpty = true ↔ r.entries = []) ∧ (r.isEmpty = true ↔ calls = []) ∧
    ∀ calls', calls.Perm calls' → (calls.map (·.key)).Nodup →
      (empty.attemptAll calls').2.entries = r.entries ∧
      ∀ key, (empty.attemptAll calls').2.find? key = r.find? key := by
  intro r
  have hordered : r.Ordered := (attemptAll_finds empty_ordered calls).1
  refine ⟨?_, hordered.nodup, ?_, r.size_eq_length.symm, size_eq_sum calls, isEmpty_iff r, ?_,
    fun calls' hperm hdistinct => attemptAll_perm hperm hdistinct⟩
  · rw [List.pairwise_map]
    exact hordered.pairwise.imp Precedes.inOctets
  · intro key shape
    rw [Option.map_eq_some_iff]
    constructor
    · rintro ⟨entry, hmem, rfl, rfl⟩
      exact ⟨_, (find?_iff_listed hordered _ _).mpr hmem, rfl⟩
    · rintro ⟨implementation, hfind, rfl⟩
      exact ⟨_, (find?_iff_listed hordered _ _).mp hfind, rfl, rfl⟩
  · rw [isEmpty_iff]
    constructor
    · intro hnil
      apply List.eq_nil_iff_forall_not_mem.mpr
      intro call hcall
      obtain ⟨entry, hentry, -⟩ := (mem_entries_iff calls call.key).mpr ⟨call, hcall, rfl⟩
      exact List.not_mem_nil (hnil ▸ hentry)
    · rintro rfl
      rfl

/-- Three keys of two modules, the last of them first. -/
theorem entries_in_order_of_reversed :
    let last : Registration := ⟨⟨"é", "A"⟩, .freestanding fun _ => .brokeOff none⟩
    let second : Registration := ⟨⟨"z", "B"⟩, .attached fun _ => .brokeOff none⟩
    let first : Registration := ⟨⟨"z", "A"⟩, .freestanding fun _ => .brokeOff none⟩
    let calls := [last, second, first]
    calls.Perm [first, last, second] ∧ (calls.map (·.key)).Nodup ∧
      (empty.attemptAll calls).2.entries = [first, second, last] ∧
      (empty.attemptAll [first, last, second]).2.entries = [first, second, last] ∧
      (empty.attemptAll calls).2.size = 3 ∧
      Key.IsBeforeInOctets second.key last.key := by
  intro last second first calls
  have hperm : calls.Perm [first, last, second] :=
    List.perm_append_singleton first [last, second]
  have hdistinct : (calls.map (·.key)).Nodup := by
    simp [calls, last, second, first]
  have hmodule : "z" < "é" := by decide
  have htype : "A" < "B" := by decide
  have hentries : (empty.attemptAll calls).2.entries = [first, second, last] := by
    simp [calls, last, second, first, attemptAll, registerAll, register, empty, entries, Table.put,
      Table.value?, hmodule, htype]
  obtain ⟨hsorted, -, -, hlength, -, -, -, horder⟩ := entries_in_order calls
  refine ⟨hperm, hdistinct, hentries, ?_, ?_, ?_⟩
  · rw [(horder _ hperm hdistinct).1, hentries]
  · rw [← hlength, hentries]
    rfl
  · rw [hentries] at hsorted
    exact List.pairwise_cons.mp (List.pairwise_cons.mp hsorted).2 |>.1 _ List.mem_cons_self

end Registry

end MacroPlugin
