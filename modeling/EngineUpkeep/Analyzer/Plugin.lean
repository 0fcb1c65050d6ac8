import EngineUpkeep.FileTree.Operations
import EngineUpkeep.Project

/-!
# The plugin of the analyzer

A project may come with a plugin for the analyzer. It is loaded by two arguments in front of the
others, unless these load a plugin already.
-/

namespace EngineUpkeep

namespace Plugin

/-- The first candidate of the settings that is there. -/
def find? (tree : FileTree) (current : Location) (project : Project) : Option Path :=
  (project.settings.plugin.candidates.map fun candidate => project.root.join ⟨candidate⟩).find?
    fun path => tree.pathExists current path

/-- The argument that loads a plugin. -/
def loadFlag : Text := "-load"

/-- The arguments, with spaces between them, load a plugin already. -/
def isLoaded (arguments : List Text) : Bool :=
  Text.contains (Text.join [' '] arguments) loadFlag

/-- The arguments with those in front that load a plugin. -/
def addTo (plugin : Path) (arguments : List Text) : List Text :=
  if isLoaded arguments then arguments else loadFlag :: plugin.text :: arguments

/-- What a reader is told about a plugin that is used. -/
def notes (plugin : Path) (version? : Option Text) (verbose : Bool) : List Text :=
  match version?, verbose with
  | some version, true =>
    ["Found clang-tidy plugin: " ++ plugin.text, "Using clang-tidy LLVM version: " ++ version,
      "Note: Ensure the plugin was built with the same LLVM version (check CMake build output).\n"]
  | some version, false =>
    ["Note: Verify plugin was built with LLVM " ++ version ++ " (check CMake build output)"]
  | none, true => ["Found clang-tidy plugin: " ++ plugin.text ++ "\n"]
  | none, false => []

end Plugin

end EngineUpkeep
