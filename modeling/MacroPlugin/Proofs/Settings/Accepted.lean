import Mathlib.Data.List.Induction
import MacroPlugin.Settings

/-!
Settings that were accepted, and the capability to declare under them. Settings are accepted when
they were read and no check fails. The declared features are the configured ones, each at its first
occurrence, so that what is declared to the host is just what the checks have seen.
-/

namespace MacroPlugin

namespace Settings

theorem parse_eq_ok {text : String} {s : Settings} :
    parse text = .ok s ↔ read text.toList = .ok s ∧ check s = .ok () := by
  unfold parse
  cases hread : read text.toList with
  | error e => simp [bind, Except.bind]
  | ok settings =>
    cases hcheck : check settings with
    | error e =>
      simp only [bind, Except.bind, hcheck, reduceCtorEq, Except.ok.injEq, false_iff, not_and]
      rintro rfl
      simp [hcheck]
    | ok =>
      simp only [bind, Except.bind, hcheck, pure, Except.pure, Except.ok.injEq]
      exact ⟨fun h => ⟨h, h ▸ hcheck⟩, And.left⟩

/-- Settings that no check finds fault with. -/
theorem check_eq_ok {s : Settings} :
    check s = .ok () ↔
      s.echoRequests = false ∧ s.maxFrameBytes ≠ 0 ∧
        PluginCapability.loadLibraryFeature ∉ s.features ∧ LogLevel.ofText? s.level ≠ none := by
  unfold check
  split
  · next hecho => simp [hecho]
  · next hecho =>
    split
    · next hlimit => simp [hlimit]
    · next hlimit =>
      split
      · next hload => simp [hload]
      · next hload => simp [hecho, hlimit, hload]

/-! The capability to declare -/

theorem eraseDups_concat (features : List String) (feature : String) :
    (features ++ [feature]).eraseDups =
      if feature ∈ features then features.eraseDups else features.eraseDups ++ [feature] := by
  rw [List.eraseDups_append]
  split
  · next hmem => simp [List.removeAll, hmem]
  · next hnew => simp [List.removeAll, hnew, List.eraseDups_cons]

/-- Features that are added one after the other stand at their first occurrence. -/
theorem foldl_addFeature (features : List String) :
    features.foldl PluginCapability.addFeature .current =
      { protocolVersion := PluginCapability.currentVersion
        features := if features = [] then none else some features.eraseDups } := by
  induction features using List.reverseRecOn with
  | nil => rfl
  | append_singleton features feature ih =>
    have hdeclared : (if features = [] then none else some features.eraseDups).getD [] =
        features.eraseDups := by
      split
      · next hnone => simp [hnone]
      · rfl
    rw [List.foldl_append, ih, List.foldl_cons, List.foldl_nil, eraseDups_concat]
    simp only [PluginCapability.addFeature, hdeclared, List.mem_eraseDups, List.append_eq_nil_iff,
      List.cons_ne_nil, and_false, if_false]
    split <;> rfl

end Settings

/-- A capability with just these features: in the order of their first occurrence, none of them
twice, and no list at all if there are none. -/
structure PluginCapability.Declares (c : PluginCapability) (features : List String) : Prop where
  version : c.protocolVersion = currentVersion
  features_eq : c.features = if features = [] then none else some features.eraseDups
  hasFeature_iff : ∀ feature, c.hasFeature feature = true ↔ feature ∈ features

theorem Settings.capability_declares (s : Settings) : s.capability.Declares s.features := by
  have hcapability : s.capability = _ := foldl_addFeature s.features
  refine ⟨by rw [hcapability], by rw [hcapability], fun feature => ?_⟩
  rw [hcapability, PluginCapability.hasFeature, decide_eq_true_iff]
  dsimp only
  split
  · next hnone => simp [hnone]
  · exact List.mem_eraseDups

/-- A plugin whose settings were accepted does not offer to load libraries. -/
theorem Settings.capability_of_parse {text : String} {s : Settings} (h : parse text = .ok s) :
    s.capability.hasFeature PluginCapability.loadLibraryFeature = false := by
  obtain ⟨-, -, hload, -⟩ := check_eq_ok.mp (parse_eq_ok.mp h).2
  rw [Bool.eq_false_iff]
  exact mt (s.capability_declares.hasFeature_iff _).mp hload

end MacroPlugin
