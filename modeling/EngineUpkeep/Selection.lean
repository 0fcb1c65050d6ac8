import EngineUpkeep.CompileDatabase
import EngineUpkeep.Text.Ordered

/-!
# Selecting sources

Which files are analyzed: those of the compile database that lie in the project, are compilation
units and pass the patterns (`ofDatabase`), or the files that the command line names
(`Targets.ofWords`). A pattern is a text that is looked for in the key of a file.

A selection from the database is a set: strictly increasing, and independent of the order of the
entries.
-/

namespace EngineUpkeep

/-- The extensions of compilation units. -/
def unitExtensions : List Text := ["cpp", "cxx", "cc", "c"]

/-- The extensions of files that can be named on the command line. -/
def namedExtensions : List Text := ["cpp", "cxx", "cc", "c", "h", "hpp"]

/-- The endings of files that diagnostics are about. -/
def sourceSuffixes : List Text := [".cpp", ".cxx", ".cc", ".c", ".h", ".hpp", ".hxx"]

/-- The extension of a path is one of the given ones. -/
def Path.extensionIsIn (path : Path) (extensions : List Text) : Bool :=
  path.extension?.any fun ext => extensions.contains ext

namespace Selection

/-- The path names a compilation unit. -/
def isUnit (path : Path) : Bool :=
  path.extensionIsIn unitExtensions

/-- The text in front of a diagnostic names a source or a header. -/
def namesSource (token : Text) : Bool :=
  sourceSuffixes.any fun ending => ending.isSuffixOf token

/-- A key passes the patterns: it has one of `includes` in it, if there are any, and none of
`excludes`. -/
def passes (includes excludes : List Text) (key : Text) : Bool :=
  (includes.isEmpty || includes.any key.contains) && !excludes.any key.contains

/-- The source of an entry, if it is to be analyzed. -/
def source? (root : Path) (includes excludes : List Text) (entry : CompileCommand) :
    Option Text := do
  let path := entry.sourceFile
  let key ← Path.key? root path
  if passes includes excludes key && isUnit path then some path.text else none

/-- The sources of a compile database that are to be analyzed. -/
def ofDatabase (entries : List CompileCommand) (root : Path) (includes excludes : List Text) :
    List Text :=
  Text.sortDistinct (entries.filterMap (source? root includes excludes))

/-- A source is selected if and only if some entry has it. -/
theorem mem_ofDatabase {entries : List CompileCommand} {root : Path}
    {includes excludes : List Text} {file : Text} :
    file ∈ ofDatabase entries root includes excludes ↔
      ∃ entry ∈ entries, source? root includes excludes entry = some file := by
  rw [ofDatabase, Text.mem_sortDistinct, List.mem_filterMap]

/-- The selected sources are strictly increasing. -/
theorem pairwise_ofDatabase (entries : List CompileCommand) (root : Path)
    (includes excludes : List Text) :
    (ofDatabase entries root includes excludes).Pairwise (· < ·) :=
  Text.pairwise_sortDistinct _

end Selection

/-- The words of a command line after its options. -/
structure Targets where
  /-- The files to analyze. -/
  files : List Text := []
  /-- The words that are handed to the analyzer. -/
  forAnalyzer : List Text := []
deriving DecidableEq, Repr

namespace Targets

/-- The canonical path of the source that a word names, seen from the project root. -/
def file? (tree : FileTree) (current : Location) (root : Path) (word : Text) : Option Text :=
  let path := root.join ⟨word⟩
  if tree.isFile current path && path.extensionIsIn namedExtensions then
    match tree.canonical current path with
    | .ok resolved => some resolved.text
    -- A file that is there has a canonical path, so this case does not arise.
    | .error _ => some path.text
  else none

/-- Splits words into files to analyze and words for the analyzer, each in order. -/
def ofWords (tree : FileTree) (current : Location) (root : Path) (words : List Text) :
    Targets :=
  { files := words.filterMap (file? tree current root)
    forAnalyzer := words.filter fun word => (file? tree current root word).isNone }

end Targets

end EngineUpkeep
