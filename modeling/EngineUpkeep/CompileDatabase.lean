import EngineUpkeep.Failure
import EngineUpkeep.FileTree.Operations
import EngineUpkeep.Json.Reader
import EngineUpkeep.Project

/-!
# Compile databases

A compile database is a JSON array of entries, one for each compiled source: the directory of the
compilation, the file, and how it is compiled. An entry says what its source is (`sourceFile`).
-/

namespace EngineUpkeep

/-- The name of a compile database. -/
def databaseName : Text := "compile_commands.json"

/-- An entry of a compile database. -/
structure CompileCommand where
  /-- The directory of the compilation. -/
  directory : Text
  /-- The source, seen from the directory. -/
  file : Text
  /-- The compilation as one command. -/
  command? : Option Text := none
  /-- The compilation as a list of arguments. -/
  arguments? : Option (List Text) := none
  /-- What the compilation makes. -/
  output? : Option Text := none
deriving DecidableEq, Repr

namespace CompileCommand

/-- The path of the source. An absolute file stands as it is written; a relative one is seen from
the directory and folded. -/
def sourceFile (entry : CompileCommand) : Path :=
  if (Path.mk entry.file).isAbsolute then ⟨entry.file⟩
  else ((Path.mk entry.directory).join ⟨entry.file⟩).fold

/-- The names of the fields, in order. -/
def names : List Text := ["directory", "file", "command", "arguments", "output"]

/-- The value of a field that may be left out. -/
def optional {α : Type} (read : Json → Option (Option α)) : Option Json → Option (Option α)
  | none => some none
  | some value => read value

/-- The entry that a value stands for. -/
def ofJson? (json : Json) : Option CompileCommand := do
  match ← json.record? names with
  | [some directory, some file, command, arguments, output] =>
    let directory ← directory.text?
    let file ← file.text?
    let command? ← optional Json.optionalText? command
    let arguments? ← optional Json.optionalTexts? arguments
    let output? ← optional Json.optionalText? output
    some { directory, file, command?, arguments?, output? }
  | _ => none

end CompileCommand

namespace CompileDatabase

/-- The entries that a document lists. -/
def read? (text : Text) : Option (List CompileCommand) := do
  match ← Json.read? text with
  | .array items => items.mapM CompileCommand.ofJson?
  | _ => none

/-- The entries of the compile database at a path. -/
def load (tree : FileTree) (current : Location) (path : Path) :
    Except Failure (List CompileCommand) :=
  match tree.readText current path with
  | .error fault => .error (.databaseUnreadable path.text (Failure.faultMessage fault))
  | .ok text =>
    match read? text with
    | some entries => .ok entries
    | none => .error (.databaseUnreadable path.text "no list of compile commands")

/-- The compile database of a project: in the directory that is asked for, or else in the build
directory of the settings. -/
def find (tree : FileTree) (current : Location) (project : Project) :
    Option Path → Except Failure Path
  | some asked =>
    -- A directory that is asked for is not looked for anywhere else.
    let directory := project.root.join asked
    if tree.isFile current (directory.join ⟨databaseName⟩) then
      .ok (directory.join ⟨databaseName⟩)
    else .error (.databaseNotFound directory.text)
  | none =>
    let buildDirectory := project.settings.analysis.buildDirectory
    let candidate := (project.root.join ⟨buildDirectory⟩).join ⟨databaseName⟩
    if tree.isFile current candidate then .ok candidate
    else .error (.databaseMissing buildDirectory)

end CompileDatabase

end EngineUpkeep
