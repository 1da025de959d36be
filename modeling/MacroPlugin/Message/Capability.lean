import MacroPlugin.Wire.Codec

/-!
What the two sides can do, and what follows from it. Each side declares a protocol version; the
plugin also declares features. The plugin always declares its own version, whatever the host
declared; the lower of the two versions decides only in which form expansions are sent.
-/

namespace MacroPlugin

/-- What the host declares. -/
structure HostCapability where
  protocolVersion : UInt32
  deriving DecidableEq, Repr

instance : Wire HostCapability where
  schema := .record "struct HostCapability" <|
    .required "protocolVersion" (.word .half) .nil
  values :=
    { forth := fun a => (a.protocolVersion, ())
      back := fun (protocolVersion, _) => ⟨protocolVersion⟩
      back_forth := fun _ => rfl
      forth_back := fun _ => rfl }

/-- What the plugin declares. Features are names in the order they are sent. -/
structure PluginCapability where
  protocolVersion : UInt32
  features : Option (List String) := none
  deriving DecidableEq, Repr

namespace PluginCapability

/-- The version that this library speaks. -/
def currentVersion : UInt32 := 7

/-- The feature of a plugin that loads libraries on request. -/
def loadLibraryFeature : String := "load-plugin-library"

/-- The current version without any feature. -/
def current : PluginCapability :=
  { protocolVersion := currentVersion }

/-- Adds a feature behind the others unless it is there already. -/
def addFeature (c : PluginCapability) (feature : String) : PluginCapability :=
  let features := c.features.getD []
  { c with features := if feature ∈ features then features else features ++ [feature] }

def hasFeature (c : PluginCapability) (feature : String) : Bool :=
  feature ∈ c.features.getD []

end PluginCapability

instance : Wire PluginCapability where
  schema := .record "struct PluginCapability" <|
    .required "protocolVersion" (.word .half) <|
    .optional "features" (.list .text) .nil
  values :=
    { forth := fun a => (a.protocolVersion, a.features, ())
      back := fun (protocolVersion, features, _) => ⟨protocolVersion, features⟩
      back_forth := fun _ => rfl
      forth_back := fun _ => rfl }

/-- The versions that the two sides declared to each other. -/
structure Agreement where
  hostVersion : UInt32
  pluginVersion : UInt32
  deriving DecidableEq, Repr

namespace Agreement

/-- The agreement with a host that declared nothing: its version counts as zero. -/
def silent (pluginVersion : UInt32) : Agreement :=
  ⟨0, pluginVersion⟩

/-- What a plugin agrees on with a host. -/
def between (host : Option HostCapability) (plugin : PluginCapability) : Agreement :=
  match host with
  | none => silent plugin.protocolVersion
  | some host => ⟨host.protocolVersion, plugin.protocolVersion⟩

/-- The version that both sides understand. -/
def version (a : Agreement) : UInt32 :=
  min a.hostVersion a.pluginVersion

/-- The first version with one kind of reply for all expansions. -/
def unifiedSince : UInt32 := 5

/-- Whether both sides know the one kind of reply for all expansions. -/
def isUnified (a : Agreement) : Bool :=
  unifiedSince ≤ a.version

end Agreement

end MacroPlugin
