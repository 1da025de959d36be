import MacroPlugin.Expansion.Registry

/-!
Registering over and over. The names in the tables of a registry stay in strictly increasing order
(`Registry.Ordered`), which is why a registration finds a name that is taken although it looks no
further than its own place. A registration that is refused puts its module into the table all the
same; but a key that is taken has its module there already, so it is put where it was. So over any
sequence of attempts each key belongs to the first registration that asked for it, and an attempt
that is refused has left no trace.
-/

namespace MacroPlugin

namespace Table

/-- The names are in strictly increasing order. -/
def Ordered {α : Type} (t : Table α) : Prop :=
  t.Pairwise fun a b => a.1 < b.1

variable {α : Type} {t : Table α} {name : String} {value : α}

/-- What is found under a name behind a put: the new value under its own name, and under all others
what was there before. -/
theorem value?_put (t : Table α) (name : String) (value : α) (other : String) :
    (t.put name value).value? other = if name = other then some value else t.value? other := by
  induction t with
  | nil => simp [put, value?, eq_comm]
  | cons entry rest ih =>
    obtain ⟨first, value'⟩ := entry
    unfold put
    split
    · next hsame =>
      subst hsame
      simp only [value?, eq_comm]
      split <;> rfl
    · next hne =>
      split
      · simp only [value?, eq_comm]
      · simp only [value?, ih]
        by_cases hfirst : other = first
        · rw [if_pos hfirst, if_neg (hfirst ▸ hne), if_pos hfirst]
        · rw [if_neg hfirst, if_neg hfirst]

theorem mem_put {entry : String × α} (h : entry ∈ t.put name value) :
    entry = (name, value) ∨ entry ∈ t := by
  induction t with
  | nil => exact .inl (List.mem_singleton.mp h)
  | cons first rest ih =>
    unfold put at h
    split at h
    · exact (List.mem_cons.mp h).imp_right (List.mem_cons_of_mem first)
    · split at h
      · exact List.mem_cons.mp h
      · rcases List.mem_cons.mp h with rfl | hrest
        · exact .inr List.mem_cons_self
        · exact (ih hrest).imp_right (List.mem_cons_of_mem first)

theorem put_ordered (h : t.Ordered) (name : String) (value : α) : (t.put name value).Ordered := by
  induction t with
  | nil => exact List.pairwise_singleton _ _
  | cons first rest ih =>
    obtain ⟨hfirst, hrest⟩ := List.pairwise_cons.mp h
    unfold put
    split
    · next hsame => exact List.pairwise_cons.mpr ⟨hsame ▸ hfirst, hrest⟩
    · next hne =>
      split
      · next hbefore =>
        refine List.pairwise_cons.mpr ⟨fun entry hmem => ?_, h⟩
        rcases List.mem_cons.mp hmem with rfl | hmem
        · exact hbefore
        · exact String.lt_trans hbefore (hfirst entry hmem)
      · next hlater =>
        refine List.pairwise_cons.mpr ⟨fun entry hmem => ?_, ih hrest⟩
        rcases mem_put hmem with rfl | hmem
        · rcases Std.lt_trichotomy name first.1 with hlt | heq | hlt
          · exact absurd hlt hlater
          · exact absurd heq hne
          · exact hlt
        · exact hfirst entry hmem

/-- Where names are in order, a search finds just the values that are listed. -/
theorem value?_eq_some_iff (h : t.Ordered) : t.value? name = some value ↔ (name, value) ∈ t := by
  induction t with
  | nil => simp [value?]
  | cons entry rest ih =>
    obtain ⟨first, value'⟩ := entry
    obtain ⟨hfirst, hrest⟩ := List.pairwise_cons.mp h
    unfold value?
    split
    · next hsame =>
      have hnew : (name, value) ∉ rest := fun hmem =>
        String.lt_irrefl name (hsame ▸ hfirst (name, value) hmem)
      simp [hsame ▸ hnew, hsame, eq_comm]
    · next hne => simp [ih hrest, hne]

/-- A value that is put where it was changes nothing. -/
theorem put_same (h : t.Ordered) (hvalue : t.value? name = some value) :
    t.put name value = t := by
  induction t with
  | nil => simp [value?] at hvalue
  | cons entry rest ih =>
    obtain ⟨first, value'⟩ := entry
    obtain ⟨hfirst, hrest⟩ := List.pairwise_cons.mp h
    unfold value? at hvalue
    unfold put
    split at hvalue
    · next hsame => rw [if_pos hsame, Option.some.inj hvalue, hsame]
    · next hne =>
      have hlater : ¬ name < first := fun hlt => String.lt_irrefl name
        (String.lt_trans hlt (hfirst _ ((value?_eq_some_iff hrest).mp hvalue)))
      rw [if_neg hne, if_neg hlater, ih hrest hvalue]

end Table

theorem Key.eq_mk_iff {key : Key} {moduleName typeName : String} :
    key = ⟨moduleName, typeName⟩ ↔ key.moduleName = moduleName ∧ key.typeName = typeName := by
  cases key
  rw [Key.mk.injEq]

namespace Registry

/-- The modules are in strictly increasing order, and in each of them the types. -/
structure Ordered (r : Registry) : Prop where
  modules : r.table.Ordered
  types : ∀ {moduleName types}, r.table.value? moduleName = some types → types.Ordered

theorem empty_ordered : empty.Ordered where
  modules := List.Pairwise.nil
  types h := by simp [empty, Table.value?] at h

section Steps

variable {r : Registry} {new : Registration}

/-- The types of a module; none if there is no such module. -/
theorem Ordered.types_getD (hr : r.Ordered) (moduleName : String) :
    ((r.table.value? moduleName).getD []).Ordered := by
  cases htypes : r.table.value? moduleName with
  | none => exact List.Pairwise.nil
  | some types => exact hr.types htypes

theorem find?_eq (r : Registry) (key : Key) :
    r.find? key = ((r.table.value? key.moduleName).getD []).value? key.typeName := by
  unfold find?
  cases r.table.value? key.moduleName <;> rfl

theorem put_ordered (hr : r.Ordered) (moduleName : String) {types : Table Implementation}
    (htypes : types.Ordered) : Ordered ⟨r.table.put moduleName types⟩ where
  modules := Table.put_ordered hr.modules moduleName types
  types h := by
    rw [Table.value?_put] at h
    split at h
    · exact Option.some.inj h ▸ htypes
    · exact hr.types h

/-- A registration is refused where its key is taken, and then nothing is changed: the module that
it puts into the table is there with the same types. -/
theorem registerAll_taken (hr : r.Ordered) (htaken : r.contains new.key = true) :
    r.registerAll [new] = (r, some ⟨new.key⟩) := by
  cases hmodule : r.table.value? new.key.moduleName with
  | none => simp [contains, find?, hmodule] at htaken
  | some types =>
    have htype : (types.value? new.key.typeName).isSome = true := by
      rwa [contains, find?_eq, hmodule] at htaken
    simp only [registerAll, register, hmodule, Option.getD_some, htype, if_true,
      Table.put_same hr.modules hmodule]

/-- A registration under a key that is free puts its implementation under this key. -/
theorem registerAll_free (hr : r.Ordered) (hfree : r.contains new.key = false) :
    ∃ r', r.registerAll [new] = (r', none) ∧ r'.Ordered ∧
      ∀ key, r'.find? key = if new.key = key then some new.implementation else r.find? key := by
  have htypes := hr.types_getD new.key.moduleName
  generalize hmodule : (r.table.value? new.key.moduleName).getD [] = types at htypes
  have htype : (types.value? new.key.typeName).isSome = false := by
    rwa [contains, find?_eq, hmodule] at hfree
  have hentered := put_ordered hr new.key.moduleName htypes
  have hregistered := put_ordered hentered new.key.moduleName
    (Table.put_ordered htypes new.key.typeName new.implementation)
  refine ⟨_, ?_, hregistered, fun key => ?_⟩
  · simp only [registerAll, register, hmodule, htype, Bool.false_eq_true, if_false]
  · obtain ⟨moduleName, typeName⟩ := key
    simp only [find?_eq, Table.value?_put]
    by_cases hsame : new.key.moduleName = moduleName
    · subst hsame
      rw [if_pos rfl, Option.getD_some, Table.value?_put, hmodule]
      simp only [Key.eq_mk_iff, true_and]
    · rw [if_neg hsame, if_neg hsame, if_neg fun hkey => hsame (Key.eq_mk_iff.mp hkey).1]

end Steps

/-- Registers one after the other, going on behind those that are refused. -/
def attemptAll (r : Registry) : List Registration → List (Option DuplicateKey) × Registry
  | [] => ([], r)
  | new :: rest =>
    let (r, refusal) := r.registerAll [new]
    let (refusals, r) := r.attemptAll rest
    (refusal :: refusals, r)

theorem attemptAll_append (r : Registry) (before after : List Registration) :
    r.attemptAll (before ++ after) =
      ((r.attemptAll before).1 ++ ((r.attemptAll before).2.attemptAll after).1,
        ((r.attemptAll before).2.attemptAll after).2) := by
  induction before generalizing r with
  | nil => rfl
  | cons new rest ih => simp only [List.cons_append, attemptAll, ih]

theorem attemptAll_length (r : Registry) (calls : List Registration) :
    (r.attemptAll calls).1.length = calls.length := by
  induction calls generalizing r with
  | nil => rfl
  | cons new rest ih => simp only [attemptAll, List.length_cons, ih]

/-- What attempts leave: each key that was free belongs to the first of them that asked for it. -/
theorem attemptAll_finds {r : Registry} (hr : r.Ordered) (calls : List Registration) :
    (r.attemptAll calls).2.Ordered ∧
      ∀ key, (r.attemptAll calls).2.find? key =
        (r.find? key).or ((calls.find? (·.key = key)).map (·.implementation)) := by
  induction calls generalizing r with
  | nil => exact ⟨hr, fun key => by simp [attemptAll]⟩
  | cons new rest ih =>
    cases hcontains : r.contains new.key with
    | true =>
      rw [attemptAll, registerAll_taken hr hcontains]
      refine ⟨(ih hr).1, fun key => ?_⟩
      rw [(ih hr).2, List.find?_cons]
      split
      · next hkey =>
        obtain ⟨implementation, hfound⟩ := Option.isSome_iff_exists.mp hcontains
        rw [← of_decide_eq_true hkey, hfound, Option.some_or, Option.some_or]
      · rfl
    | false =>
      obtain ⟨r', hregister, hordered, hfind⟩ := registerAll_free hr hcontains
      rw [attemptAll, hregister]
      refine ⟨(ih hordered).1, fun key => ?_⟩
      rw [(ih hordered).2, hfind, List.find?_cons]
      split
      · next hkey =>
        have hnone : r.find? key = none := by
          rw [← hkey]
          exact Option.isNone_iff_eq_none.mp (Option.isSome_eq_false_iff.mp hcontains)
        simp [hnone, hkey]
      · next hkey => simp [hkey]

/-- Behind attempts on an empty registry, the keys that are taken are those that were asked for. -/
theorem attemptAll_contains (calls : List Registration) (key : Key) :
    (empty.attemptAll calls).2.contains key = true ↔ ∃ call ∈ calls, call.key = key := by
  rw [contains, (attemptAll_finds empty_ordered calls).2 key]
  simp [find?, empty, Table.value?]

/-- Any sequence of registrations on an empty registry. One of them is refused, with its own key as
the reason, just where an earlier one asked for the same key, and the registry at the end is then
the one to which it was never put. In the end each key belongs to the first that asked for it. -/
theorem first_registration_stands (calls : List Registration) :
    let attempts := empty.attemptAll calls
    attempts.1.length = calls.length ∧
    (∀ before new after, calls = before ++ new :: after →
      attempts.1[before.length]? =
        some (if ∃ earlier ∈ before, earlier.key = new.key then some ⟨new.key⟩ else none) ∧
      ((∃ earlier ∈ before, earlier.key = new.key) →
        attempts.2 = (empty.attemptAll (before ++ after)).2)) ∧
    ∀ key, attempts.2.find? key =
      (calls.find? (·.key = key)).map (·.implementation) := by
  intro attempts
  refine ⟨attemptAll_length empty calls, fun before new after hcalls => ?_, fun key => ?_⟩
  · have hordered := (attemptAll_finds empty_ordered before).1
    have hcontains := attemptAll_contains before new.key
    have hplace := Nat.le_of_eq (attemptAll_length empty before)
    dsimp only [attempts]
    rw [hcalls, attemptAll_append, attemptAll_append, List.getElem?_append_right hplace,
      attemptAll_length, Nat.sub_self, attemptAll]
    by_cases htaken : ∃ earlier ∈ before, earlier.key = new.key
    · rw [registerAll_taken hordered (hcontains.mpr htaken), if_pos htaken]
      exact ⟨rfl, fun _ => rfl⟩
    · obtain ⟨r', hregister, -⟩ :=
        registerAll_free hordered (Bool.eq_false_iff.mpr (mt hcontains.mp htaken))
      rw [hregister, if_neg htaken]
      exact ⟨rfl, fun h => absurd h htaken⟩
  · rw [(attemptAll_finds empty_ordered calls).2 key]
    rfl

/-- Two keys whose names make up the same text, and then the first of them once more for another
shape. -/
theorem first_registration_stands_behind_two :
    let first : Registration := ⟨⟨"a", "bc"⟩, .freestanding fun _ => .brokeOff none⟩
    let second : Registration := ⟨⟨"ab", "c"⟩, .attached fun _ => .brokeOff none⟩
    let again : Registration := ⟨⟨"a", "bc"⟩, .attached fun _ => .brokeOff none⟩
    let attempts := empty.attemptAll [first, second, again]
    attempts.1[1]? = some none ∧ attempts.1[2]? = some (some ⟨⟨"a", "bc"⟩⟩) ∧
      attempts.2 = (empty.attemptAll [first, second]).2 ∧
      (attempts.2.find? ⟨"a", "bc"⟩).map (·.shape) = some .freestanding ∧
      (attempts.2.find? ⟨"ab", "c"⟩).map (·.shape) = some .attached := by
  intro first second again attempts
  obtain ⟨-, hcalls, hfind⟩ := first_registration_stands [first, second, again]
  have hfree : ¬ ∃ earlier ∈ [first], earlier.key = second.key := by
    simp [first, second]
  have htaken : ∃ earlier ∈ [first, second], earlier.key = again.key :=
    ⟨first, List.mem_cons_self, rfl⟩
  obtain ⟨hsecond, -⟩ := hcalls [first] second [again] rfl
  obtain ⟨hagain, hundone⟩ := hcalls [first, second] again [] rfl
  rw [if_neg hfree] at hsecond
  rw [if_pos htaken] at hagain
  refine ⟨hsecond, hagain, hundone htaken, ?_, ?_⟩
  · rw [hfind]
    rfl
  · rw [hfind]
    rfl

end Registry

end MacroPlugin
