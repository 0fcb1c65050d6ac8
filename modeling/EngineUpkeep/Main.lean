import EngineUpkeep.Program

/-!
# The program

`main` reads the file tree of the project around the current directory, runs the program that
the first word names, `analyze` or `unify`, and writes back what the program has changed. All
decisions are made by `Program.analyze` and `Program.unify`.

The programs that can be started are the shell scripts of the tree.
-/

namespace EngineUpkeep

namespace Console

/-- The location that an absolute path names. -/
def locationOf (path : String) : Location :=
  (Path.mk path.toList).segments

/-- The path of a location. -/
def pathOf (location : Location) : String :=
  String.ofList (FileTree.pathOf location).text

/-- The tree with a directory entry and all that stands below it. A file that names a shell in its
first line counts as runnable. -/
partial def addEntry (tree : FileTree) (entry : IO.FS.DirEntry) : IO FileTree := do
  let location := locationOf entry.path.toString
  match (← entry.path.symlinkMetadata).type with
  | .symlink =>
    let target := (← (IO.FS.realPath entry.path).toBaseIO).toOption.map toString
    return tree.withEntry location (.link ⟨(target.getD "").toList⟩)
  | .dir =>
    let children ← entry.path.readDir
    children.foldlM addEntry (tree.withEntry location .directory)
  | .file =>
    let bytes := (← IO.FS.readBinFile entry.path).toList
    let runnable := Shell.namesShell (Shell.charsOf bytes)
    return tree.withEntry location (.file (.ofBytes bytes) runnable)
  | .other => return tree

/-- Writes what stands in one tree and not in another, and removes the files that are gone. -/
def writeBack (old new : FileTree) : IO Unit := do
  for (location, entry) in new.entries.reverse do
    if old.entryAt? location ≠ some entry then
      match entry with
      | .directory => IO.FS.createDirAll (pathOf location)
      | .file content _ =>
        IO.FS.createDirAll (pathOf location.dropLast)
        IO.FS.writeBinFile (pathOf location) (ByteArray.mk content.bytes.toArray)
      | .link _ => pure ()
  for (location, entry) in old.entries do
    if entry ≠ .directory && (new.entryAt? location).isNone then
      IO.FS.removeFile (pathOf location)

/-- The exit code of a program, which has eight bits. -/
def exitCode (code : Int) : UInt32 :=
  (code.emod 256).toNat.toUInt32

/-- The file tree below the nearest directory from the current one upwards that holds the root
marker, or below the current one if there is none. -/
def readTree : IO FileTree := do
  let directory ← IO.currentDir
  let mut top := directory
  for _ in locationOf directory.toString do
    unless (← top.readDir).any (·.fileName.toList = rootFileName) do
      top := top.parent.getD top
  let children ← top.readDir
  if children.any (·.fileName.toList = rootFileName) then
    children.foldlM addEntry (FileTree.empty.withDirectory (locationOf top.toString))
  else
    (← directory.readDir).foldlM addEntry
      (FileTree.empty.withDirectory (locationOf directory.toString))

/-- Runs a program on the file tree around the current directory. -/
def run (program : Host → List Text → Completion) (words : List String) : IO UInt32 := do
  let current := locationOf (← IO.currentDir).toString
  let tree ← readTree
  let searchPath := ((← IO.getEnv "PATH").getD "").toList.takeWhile (· ≠ ':')
  let override? := (← IO.getEnv "CLANG_TIDY").map String.toList
  let host := Host.ofTree tree current ⟨searchPath⟩ override?
  let completion := program host (words.map String.toList)
  writeBack tree completion.tree
  IO.print (String.ofList completion.output)
  IO.eprint (String.ofList completion.errors)
  return exitCode completion.exitCode

end Console

end EngineUpkeep

/-- Runs the program that the first word names. -/
def main (words : List String) : IO UInt32 :=
  match words with
  | "analyze" :: rest =>
    EngineUpkeep.Console.run
      (fun host => EngineUpkeep.Program.analyze host 1 (.ofStart false)) rest
  | "unify" :: rest =>
    EngineUpkeep.Console.run
      (fun host => EngineUpkeep.Program.unify host.tree host.current) rest
  | _ => do
    IO.eprintln "usage: analyze WORDS | unify WORDS"
    return 2
