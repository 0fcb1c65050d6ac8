import EngineUpkeep.FileTree.Basic

/-!
# Failures

Why a command of this library does not succeed, and the message that says so. A failure is a cause
with what its message needs; the wording is in `message` alone.
-/

namespace EngineUpkeep

/-- Why a command does not succeed. -/
inductive Failure where
  /-- A file could not be read or changed. -/
  | io (fault : Fault)
  /-- No usable analyzer was found. -/
  | noAnalyzer
  /-- No directory from `start` upwards has a file `marker`. -/
  | rootNotFound (start marker : Text)
  /-- The directory that was asked for has no compile database. -/
  | databaseNotFound (directory : Text)
  /-- The build directory of the settings has no compile database. -/
  | databaseMissing (buildDirectory : Text)
  /-- The compile database is there, but it cannot be used. -/
  | databaseUnreadable (path detail : Text)
  /-- A path inside a source tree has no group or no slash. -/
  | pathShape (path : Text)
  /-- A file was to be moved to a tree other than the core tree. -/
  | destinationNotCore (tree : Text)
  /-- The tree is not one of two variants. -/
  | noCounterpart (tree : Text)
  /-- The workers could not be started. -/
  | workerPool (detail : Text)
  /-- A project root or a plan cannot be used. -/
  | configuration (detail : Text)
deriving DecidableEq, Repr, Inhabited

namespace Failure

/-- The message for a fault of the file tree. -/
def faultMessage : Fault → Text
  | .missing => "no such file or directory"
  | .notText => "the file is not UTF-8"
  | .refused => "the operation is not possible"

/-- The message of a failure. -/
def message : Failure → Text
  | io fault => "io error: " ++ faultMessage fault
  | noAnalyzer =>
    "clang-tidy not found in PATH. Please install clang-tidy:\n" ++
      "  macOS: brew install llvm\n" ++
      "  Windows: Install LLVM from https://llvm.org/builds/"
  | rootNotFound start marker =>
    "could not find project root (no " ++ marker ++ " found above " ++ start ++ ")"
  | databaseNotFound directory => "compile_commands.json not found in " ++ directory
  | databaseMissing buildDirectory =>
    "compile_commands.json not found!\n\nCreate the analysis build first:\n  cmake -B " ++
      buildDirectory ++ " -DCMAKE_DISABLE_PRECOMPILE_HEADERS=ON " ++
      "-DCMAKE_EXPORT_COMPILE_COMMANDS=ON -G Ninja\n\n" ++
      "Or specify a different build with --build-dir"
  | databaseUnreadable path detail =>
    "failed to load compile_commands.json (" ++ path ++ "): " ++ detail
  | pathShape path => "invalid path '" ++ path ++ "': expected <group>/<entry>"
  | destinationNotCore tree => "unify destination must be the core tree, got " ++ tree
  | noCounterpart tree => "the " ++ tree ++ " tree has no opposite variant"
  | workerPool detail => "worker pool error: " ++ detail
  | configuration detail => "config error: " ++ detail

/-- The last line that a command prints before it gives up. -/
def report (failure : Failure) : Text :=
  "Error: " ++ failure.message

end Failure

end EngineUpkeep
