import EngineUpkeep.Failure
import EngineUpkeep.Project

/-!
# Source trees

The game has two variants with a source tree each, and a core tree that both share. A tree is made
of groups. The first part of a path inside a tree is its group, and the rest is the entry by which
the group's build list names the file.
-/

namespace EngineUpkeep

/-- A source tree. -/
inductive SourceTree where
  /-- The tree of the first variant. -/
  | generals
  /-- The tree of the second variant. -/
  | zeroHour
  /-- The tree that both variants share. -/
  | core
deriving DecidableEq, Repr

namespace SourceTree

/-- The name of a tree. -/
def name : SourceTree → Text
  | generals => "generals"
  | zeroHour => "zero-hour"
  | core => "core"

/-- The tree that a name or another spelling of it stands for. -/
def ofName? (name : Text) : Option SourceTree :=
  match String.ofList name with
  | "generals" => some generals
  | "zero-hour" => some zeroHour
  | "generalsmd" => some zeroHour
  | "zh" => some zeroHour
  | "core" => some core
  | _ => none

/-- The other variant. The core tree is no variant. -/
def counterpart : SourceTree → Except Failure SourceTree
  | generals => .ok zeroHour
  | zeroHour => .ok generals
  | core => .error (.noCounterpart (name core))

/-- A tree is read by its name. -/
theorem ofName?_name (tree : SourceTree) : ofName? tree.name = some tree := by
  cases tree <;> rfl

end SourceTree

/-- Where the source trees of a project are. -/
structure Checkout where
  /-- The root of the first variant. -/
  generals : Path
  /-- The root of the second variant. -/
  zeroHour : Path
  /-- The root of the core tree. -/
  core : Path
  /-- The name of the build list of a group. -/
  listName : Text
deriving DecidableEq, Repr

namespace Checkout

/-- Where the settings of a project place the trees. -/
def ofProject (project : Project) : Checkout :=
  let settings := project.settings.unify
  { generals := project.root.join ⟨settings.generalsDirectory⟩
    zeroHour := project.root.join ⟨settings.zeroHourDirectory⟩
    core := project.root.join ⟨settings.coreDirectory⟩
    listName := settings.listName }

/-- The root of a tree. -/
def rootOf (checkout : Checkout) : SourceTree → Path
  | .generals => checkout.generals
  | .zeroHour => checkout.zeroHour
  | .core => checkout.core

/-- The build list of a group. -/
def listPath (checkout : Checkout) (tree : SourceTree) (group : Text) : Path :=
  ((checkout.rootOf tree).join ⟨group⟩).join ⟨checkout.listName⟩

/-- A file of a tree. -/
def pathIn (checkout : Checkout) (tree : SourceTree) (file : Text) : Path :=
  (checkout.rootOf tree).join ⟨file⟩

end Checkout

/-- A path inside a tree, split at its first slash. -/
structure ListedPath where
  /-- The group. -/
  group : Text
  /-- The entry in the build list of the group. -/
  entry : Text
deriving DecidableEq, Repr

/-- Splits a path inside a tree. It has to have a slash with a group in front. -/
def ListedPath.ofText (path : Text) : Except Failure ListedPath :=
  match Text.splitOnce path '/' with
  | some (group, entry) => if group = [] then .error (.pathShape path) else .ok ⟨group, entry⟩
  | none => .error (.pathShape path)

end EngineUpkeep
