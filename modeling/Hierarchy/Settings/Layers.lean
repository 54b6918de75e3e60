import Hierarchy.FileTree.Resolve
import Hierarchy.NativePath
import Hierarchy.Settings.Environment
import Hierarchy.Toml.Reader

/-!
# Settings from all their places

From the lowest layer to the highest: the default settings, the global settings file if there is
one, the settings file that the user names, and the environment.  Each layer overrides the settings
that it names and no others.
-/

namespace Hierarchy

namespace Environment

/-- The directory for the settings files of all programs.  A home directory is only looked for among
the variables, not in the list of users. -/
def settingsDirectory? (env : Environment) : Option String :=
  match env.value? "XDG_CONFIG_HOME" with
  | some path => if path.startsWith "/" then some path else ofHome
  | none => ofHome
where
  ofHome : Option String :=
    ((env.value? "HOME").filter (!·.isEmpty)).map (NativePath.push · ".config")

/-- The path of the global settings file. -/
def globalFile? (env : Environment) : Option String :=
  env.settingsDirectory?.map fun directory =>
    NativePath.join [directory, "hiertree", "hiertree.toml"]

end Environment

/-- The layer of a settings file. -/
def Overlay.ofFile (files : FileTree) (path : String) : Except RunError Overlay :=
  match files.read path with
  | .error e => .error (.operation ("read config: " ++ path) e.text)
  | .ok document =>
    match Overlay.ofToml? document with
    | some overlay => .ok overlay
    | none => .error (.settings ("parse " ++ path ++ ": TOML parse error"))

namespace Settings

/-- The layer of the global settings file, which need not be there. -/
def globalLayer (files : FileTree) (env : Environment) : Except RunError Overlay :=
  match env.globalFile? with
  | some path => if files.exists? path then Overlay.ofFile files path else .ok .empty
  | none => .ok .empty

/-- The layer of the settings file that the user names, which must be there. -/
def namedLayer (files : FileTree) (env : Environment) : Option String → Except RunError Overlay
  | none => .ok .empty
  | some path =>
    let path := NativePath.expand env.value? path
    if files.exists? path then Overlay.ofFile files path
    else .error (.settings ("config file not found: " ++ path))

/-- The settings in effect, unless options override them. -/
def load (files : FileTree) (env : Environment) (named : Option String) :
    Except RunError Settings := do
  let global ← globalLayer files env
  let named ← namedLayer files env named
  let overrides ← env.overlay
  return ((Settings.default.merge global).merge named).merge overrides

end Settings

end Hierarchy
