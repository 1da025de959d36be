import MacroPlugin.Proofs.Settings.Accepted
import MacroPlugin.Proofs.Toml.Integers

/-!
The limit for frames that settings give is a word of 64 bits, and no setting but its own changes
it.
-/

namespace MacroPlugin.Settings

open Toml

/-- The limit is one that a configuration file can hold. -/
def LimitFits (s : Settings) : Prop :=
  s.maxFrameBytes ≤ 9223372036854775807

/-- A setting that leaves the limit fitting. -/
def Setting.Keeps (setting : Setting) : Prop :=
  ∀ {value : Value} {s s' : Settings}, value.InRange → s.LimitFits →
    setting.apply value s = .ok s' → s'.LimitFits

/-- What a fold in `Except` keeps, if every step keeps it. -/
theorem foldlM_ok_keeps {ε α β : Type} {P : β → Prop} {Q : α → Prop} {step : β → α → Except ε β}
    (hstep : ∀ {b b' a}, P b → Q a → step b a = .ok b' → P b') {items : List α} {b b' : β}
    (hb : P b) (hitems : ∀ item ∈ items, Q item) (h : items.foldlM step b = .ok b') : P b' := by
  induction items generalizing b with
  | nil =>
    rw [List.foldlM_nil] at h
    rwa [← Except.ok.inj h]
  | cons item items ih =>
    rw [List.foldlM_cons] at h
    cases hnext : step b item with
    | error e => simp [hnext, bind, Except.bind] at h
    | ok next =>
      rw [hnext] at h
      have hkept := hstep hb (hitems item List.mem_cons_self) hnext
      exact ih hkept (fun item hmem => hitems item (List.mem_cons_of_mem _ hmem)) h

theorem atKey_eq_ok {α : Type} {key : Toml.Key} {result : Except Problem α} {a : α}
    (h : atKey key result = .ok a) : result = .ok a := by
  unfold atKey at h
  split at h
  · simp at h
  · exact h

section Sections

variable {known : List Setting} (hknown : ∀ setting ∈ known, setting.Keeps)

include hknown in
theorem applyEntries_keeps {entries : Entries} {s s' : Settings} (hentries : AllInRange entries)
    (hs : s.LimitFits) (h : applyEntries known entries s = .ok s') : s'.LimitFits := by
  refine foldlM_ok_keeps ?_ hs hentries h
  rintro s s' ⟨key, value⟩ hs hvalue happly
  dsimp only at happly
  split at happly
  · next setting hfind =>
    exact hknown setting (List.mem_of_find?_eq_some hfind) hvalue hs (atKey_eq_ok happly)
  · rwa [← Except.ok.inj happly]

include hknown in
theorem applyItems_keeps {items : List Value} {s s' : Settings}
    (hitems : ∀ item ∈ items, item.InRange) (hs : s.LimitFits)
    (h : applyItems known items s = .ok s') : s'.LimitFits := by
  have hpairs : ∀ pair ∈ known.zip items, pair.1.Keeps ∧ pair.2.InRange := by
    rintro ⟨setting, value⟩ hmem
    obtain ⟨hsetting, hvalue⟩ := List.of_mem_zip hmem
    exact ⟨hknown setting hsetting, hitems value hvalue⟩
  exact foldlM_ok_keeps (fun hs hpair happly => hpair.1 hpair.2 hs happly) hs hpairs h

include hknown in
theorem applySection_keeps (key title : String) :
    Setting.Keeps ⟨key, applySection title known⟩ := by
  intro value s s' hvalue hs h
  unfold applySection at h
  dsimp only at h
  split at h
  · cases hvalue with
    | table _ _ hentries => exact applyEntries_keeps hknown hentries hs h
  · cases hvalue with
    | array _ hitems => exact applyItems_keeps hknown hitems hs h
  · cases hvalue with
    | tables hitems => exact applyItems_keeps hknown hitems hs h
  · rwa [← Except.ok.inj h]
  · simp [wrongType] at h

end Sections

/-- A setting that has nothing to do with the limit. -/
theorem keeps_other {α : Type} (key : String) (read : Value → Except Problem α)
    (put : α → Settings → Settings) (hput : ∀ a s, (put a s).maxFrameBytes = s.maxFrameBytes) :
    Setting.Keeps ⟨key, fun value s => do return put (← read value) s⟩ := by
  intro value s s' _ hs h
  dsimp only at h
  cases hread : read value with
  | error problem => simp [hread, bind, Except.bind] at h
  | ok a =>
    rw [hread] at h
    rw [← Except.ok.inj h]
    exact Nat.le_trans (Nat.le_of_eq (hput a s)) hs

theorem toSize_fits {value : Value} (hvalue : value.InRange) {n : Nat}
    (h : toSize value = .ok n) : n ≤ 9223372036854775807 := by
  unfold toSize at h
  split at h
  · next m =>
    cases hvalue with
    | scalar _ hrange =>
      have hbound : (m : Int) ≤ 9223372036854775807 := (hrange m rfl).2
      rw [← Except.ok.inj h]
      omega
  · simp at h
  · simp [wrongType] at h

theorem transportSettings_keep : ∀ setting ∈ transportSettings, setting.Keeps := by
  intro setting hmem
  simp only [transportSettings, List.mem_cons, List.not_mem_nil, or_false] at hmem
  rcases hmem with rfl | rfl
  · exact keeps_other "framing" toFraming (fun framing s => { s with framing }) fun _ _ => rfl
  · intro value s s' hvalue _ h
    dsimp only at h
    cases hread : toSize value with
    | error problem => simp [hread, bind, Except.bind] at h
    | ok n =>
      rw [hread] at h
      rw [← Except.ok.inj h]
      exact toSize_fits hvalue hread

theorem sections_keep : ∀ setting ∈ sections, setting.Keeps := by
  intro setting hmem
  simp only [sections, List.mem_cons, List.not_mem_nil, or_false] at hmem
  rcases hmem with rfl | rfl | rfl | rfl
  · refine applySection_keeps ?_ _ _
    intro setting hmem
    rw [List.mem_singleton.mp hmem]
    exact keeps_other "echo_requests" toBoolean (fun echoRequests s => { s with echoRequests })
      fun _ _ => rfl
  · exact applySection_keeps transportSettings_keep _ _
  · refine applySection_keeps ?_ _ _
    intro setting hmem
    rw [List.mem_singleton.mp hmem]
    exact keeps_other "features" toTexts (fun features s => { s with features }) fun _ _ => rfl
  · refine applySection_keeps ?_ _ _
    intro setting hmem
    rw [List.mem_singleton.mp hmem]
    exact keeps_other "level" toText (fun level s => { s with level }) fun _ _ => rfl

theorem limitFits_default : ({} : Settings).LimitFits := by
  unfold LimitFits
  decide

theorem read_limit {text : List Char} {s : Settings} (h : read text = .ok s) : s.LimitFits := by
  unfold read at h
  split at h
  · simp at h
  · next entries hparse =>
    split at h
    · next settings happly =>
      rw [← Except.ok.inj h]
      exact applyEntries_keeps sections_keep (parse?_inRange hparse) limitFits_default happly
    · simp at h
    · simp at h

/-- Settings that were accepted have a limit that is not zero and fits a word of 64 bits. -/
theorem parse_limit {text : String} {s : Settings} (h : parse text = .ok s) :
    0 < s.maxFrameBytes ∧ s.LimitFits := by
  obtain ⟨hread, hcheck⟩ := parse_eq_ok.mp h
  obtain ⟨-, hlimit, -⟩ := check_eq_ok.mp hcheck
  exact ⟨Nat.pos_of_ne_zero hlimit, read_limit hread⟩

end MacroPlugin.Settings
