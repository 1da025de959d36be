import Mathlib.Data.List.Forall2
import Mathlib.Data.List.Nodup
import Mathlib.Data.List.Perm.Basic
import MacroPlugin.Proofs.Settings.Limit

/-!
What a file can say about settings: any of the five settings, each with a value of its kind. What
is said of different settings can be said in any order, and a setting about which nothing is said
keeps its default.
-/

namespace MacroPlugin.Settings

open Toml

/-- What a file says about one setting. -/
inductive Assigned where
  | echoRequests (value : Bool)
  | framing (value : Framing)
  | maxFrameBytes (value : Nat)
  | features (value : List String)
  | level (value : String)

def framingName : Framing → String
  | .lengthPrefixed => "length-prefixed"
  | .jsonLines => "json-lines"

namespace Assigned

/-- The table in which a setting stands. -/
def title : Assigned → String
  | .echoRequests _ => "handler"
  | .framing _ | .maxFrameBytes _ => "transport"
  | .features _ => "capability"
  | .level _ => "log"

/-- The key of a setting in its table. -/
def key : Assigned → String
  | .echoRequests _ => "echo_requests"
  | .framing _ => "framing"
  | .maxFrameBytes _ => "max_frame_bytes"
  | .features _ => "features"
  | .level _ => "level"

def path (a : Assigned) : List String :=
  [a.title, a.key]

/-- Settings with one of them as it is given. -/
def put (s : Settings) : Assigned → Settings
  | .echoRequests value => { s with echoRequests := value }
  | .framing value => { s with framing := value }
  | .maxFrameBytes value => { s with maxFrameBytes := value }
  | .features value => { s with features := value }
  | .level value => { s with level := value }

/-- The values that give a setting, wherever they stand. -/
inductive Reads : Assigned → Value → Prop
  | echoRequests (extent : Extent) (value : Bool) :
      Reads (.echoRequests value) (.scalar extent (.boolean value))
  | framing (extent : Extent) (value : Framing) :
      Reads (.framing value) (.scalar extent (.text (framingName value)))
  | maxFrameBytes (extent : Extent) (value : Nat) :
      Reads (.maxFrameBytes value) (.scalar extent (.integer value))
  | features (extent : Extent) {items : List Value} {texts : List String}
      (h : List.Forall₂ (fun item text => ∃ extent, item = .scalar extent (.text text)) items texts) :
      Reads (.features texts) (.array extent items)
  | level (extent : Extent) (value : String) :
      Reads (.level value) (.scalar extent (.text value))

theorem put_comm {a b : Assigned} (h : a.path ≠ b.path) (s : Settings) :
    put (put s a) b = put (put s b) a := by
  cases a <;> cases b <;> first | rfl | exact absurd rfl h

end Assigned

/-- What a file gives of settings. -/
structure Given where
  echoRequests : Option Bool := none
  framing : Option Framing := none
  maxFrameBytes : Option Nat := none
  features : Option (List String) := none
  level : Option String := none

namespace Given

/-- What is given, setting by setting. -/
def assignments (g : Given) : List Assigned :=
  (g.echoRequests.map Assigned.echoRequests).toList ++
    (g.framing.map Assigned.framing).toList ++
    (g.maxFrameBytes.map Assigned.maxFrameBytes).toList ++
    (g.features.map Assigned.features).toList ++
    (g.level.map Assigned.level).toList

/-- What is given, and the default of every other setting. -/
def settings (g : Given) : Settings where
  echoRequests := g.echoRequests.getD false
  framing := g.framing.getD .lengthPrefixed
  maxFrameBytes := g.maxFrameBytes.getD (64 * 1024 * 1024)
  features := g.features.getD []
  level := g.level.getD "warn"

theorem foldl_put (g : Given) : g.assignments.foldl Assigned.put {} = g.settings := by
  obtain ⟨echo, framing, limit, features, level⟩ := g
  cases echo <;> cases framing <;> cases limit <;> cases features <;> cases level <;>
    simp [assignments, settings, Assigned.put]

theorem map_path_sublist {α : Type} (given : Option α) (assigned : α → Assigned)
    (path : List String) (h : ∀ value, (assigned value).path = path) :
    ((given.map assigned).toList.map Assigned.path).Sublist [path] := by
  cases given with
  | none => exact List.nil_sublist _
  | some value =>
    show [(assigned value).path].Sublist [path]
    rw [h value]

/-- No setting is given twice. -/
theorem assignments_nodup (g : Given) : (g.assignments.map Assigned.path).Nodup := by
  have hecho := map_path_sublist g.echoRequests .echoRequests ["handler", "echo_requests"]
    fun _ => rfl
  have hframing := map_path_sublist g.framing .framing ["transport", "framing"] fun _ => rfl
  have hlimit := map_path_sublist g.maxFrameBytes .maxFrameBytes ["transport", "max_frame_bytes"]
    fun _ => rfl
  have hfeatures := map_path_sublist g.features .features ["capability", "features"] fun _ => rfl
  have hlevel := map_path_sublist g.level .level ["log", "level"] fun _ => rfl
  have hall := (((hecho.append hframing).append hlimit).append hfeatures).append hlevel
  simp only [assignments, List.map_append]
  exact hall.nodup (by decide)

/-- The order in which settings are given does not matter. -/
theorem foldl_put_of_perm {as : List Assigned} {g : Given} (h : as.Perm g.assignments) :
    as.foldl Assigned.put {} = g.settings := by
  rw [← foldl_put]
  apply h.foldl_eq'
  intro a ha b hb s
  have hnodup : (as.map Assigned.path).Nodup := (h.map _).nodup_iff.mpr g.assignments_nodup
  by_cases hpath : a.path = b.path
  · rw [List.inj_on_of_nodup_map hnodup ha hb hpath]
  · exact Assigned.put_comm hpath s

/-- What is wrong with given settings, if anything is: the first of four complaints. -/
def complaint? (g : Given) : Option String :=
  if g.echoRequests = some true then
    some "handler.echo_requests requires a build with the request-echo feature"
  else if g.maxFrameBytes = some 0 then
    some "transport.max_frame_bytes must be greater than zero"
  else if "load-plugin-library" ∈ g.features.getD [] then
    some ("feature '" ++ "load-plugin-library" ++
      "' cannot be advertised: this plugin does not load libraries")
  else
    match g.level with
    | none => none
    | some level =>
      if (LogLevel.ofText? level).isNone then some ("unknown log level '" ++ level ++ "'") else none

theorem echoRequests_eq_true {g : Given} :
    g.settings.echoRequests = true ↔ g.echoRequests = some true := by
  cases h : g.echoRequests <;> simp [settings, h]

theorem maxFrameBytes_eq_zero {g : Given} :
    g.settings.maxFrameBytes = 0 ↔ g.maxFrameBytes = some 0 := by
  cases h : g.maxFrameBytes <;> simp [settings, h]

/-- The checks make the complaints, in their order. -/
theorem check_settings (g : Given) :
    match g.complaint? with
    | none => check g.settings = .ok ()
    | some complaint =>
      ∃ e, check g.settings = .error e ∧ e.isInvalid = true ∧
        e.message = "Invalid configuration: " ++ complaint := by
  unfold complaint? check
  by_cases hecho : g.echoRequests = some true
  · rw [if_pos hecho, if_pos (echoRequests_eq_true.mpr hecho)]
    exact ⟨_, rfl, rfl, rfl⟩
  rw [if_neg hecho, if_neg (mt echoRequests_eq_true.mp hecho)]
  by_cases hlimit : g.maxFrameBytes = some 0
  · rw [if_pos hlimit, if_pos (maxFrameBytes_eq_zero.mpr hlimit)]
    exact ⟨_, rfl, rfl, rfl⟩
  rw [if_neg hlimit, if_neg (mt maxFrameBytes_eq_zero.mp hlimit)]
  by_cases hload : "load-plugin-library" ∈ g.features.getD []
  · have hloads : PluginCapability.loadLibraryFeature ∈ g.settings.features := hload
    rw [if_pos hload, if_pos hloads]
    exact ⟨_, rfl, rfl, rfl⟩
  have hloads : PluginCapability.loadLibraryFeature ∉ g.settings.features := hload
  rw [if_neg hload, if_neg hloads]
  cases hlevel : g.level with
  | none =>
    have hdefault : g.settings.level = "warn" := by rw [settings, hlevel]; rfl
    rw [hdefault]
    rfl
  | some level =>
    have hgiven : g.settings.level = level := by rw [settings, hlevel]; rfl
    rw [hgiven]
    dsimp only
    by_cases hunknown : (LogLevel.ofText? level).isNone
    · rw [if_pos hunknown, if_pos hunknown]
      exact ⟨_, rfl, rfl, rfl⟩
    · rw [if_neg hunknown, if_neg hunknown]

end Given

end MacroPlugin.Settings
