import EngineUpkeep.Failure
import EngineUpkeep.FileTree.Operations
import EngineUpkeep.Settings

/-!
# Projects

A project is a root directory with its settings. The root is given, or it is the nearest directory
from the current one upwards that holds the root marker. Settings that cannot be read are as good as
none.
-/

namespace EngineUpkeep

/-- A project: its root directory and its settings. -/
structure Project where
  /-- The root directory. -/
  root : Path
  /-- The settings. -/
  settings : Settings
deriving DecidableEq, Repr

/-- The place of the settings of a project with the given root. -/
def settingsFile (root : Path) : Path :=
  (root.join ⟨".devtools"⟩).join ⟨"config.toml"⟩

namespace Settings

/-- The settings of the project with the given root. -/
def load (tree : FileTree) (current : Location) (root : Path) : Settings :=
  match tree.readText current (settingsFile root) with
  | .ok text => (read? text).getD {}
  | .error _ => {}

end Settings

namespace Project

/-- The project with a known root. -/
def ofRoot (tree : FileTree) (current : Location) (root : Path) : Project :=
  ⟨root, Settings.load tree current root⟩

/-- The nearest directory from `start` upwards that holds the root marker. The way up is the one in
which the path is written. -/
def nearestRoot (tree : FileTree) (current : Location) (start : Path) : Except Failure Path :=
  match start.ancestors.find? fun above => tree.isFile current (above.join ⟨rootFileName⟩) with
  | some root => .ok root
  | none => .error (.rootNotFound start.text rootFileName)

/-- The project that a command works on. A given root is made canonical, so that it compares equal
with the paths of a compile database. -/
def resolve (tree : FileTree) (current : Location) (root? : Option Path) :
    Except Failure Project :=
  match root? with
  | some root =>
    match tree.canonical current root with
    | .ok root => .ok (ofRoot tree current root)
    | .error fault =>
      .error (.configuration
        ("invalid project root " ++ root.text ++ ": " ++ Failure.faultMessage fault))
  | none => do
    let root ← nearestRoot tree current (FileTree.pathOf current)
    .ok (ofRoot tree current root)

end Project

end EngineUpkeep
