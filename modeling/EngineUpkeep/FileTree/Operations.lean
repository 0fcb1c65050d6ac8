import EngineUpkeep.FileTree.Walk

/-!
# Operations on file trees

Questions (`isFile`, `pathExists`, `canonical`, `readText`) and changes (`write`, `delete`,
`makeDirectory`, `rename`, `copy`) by path. A single change either happens or leaves the tree as it
was. `makeDirectories` and `moveEntry` are made of several changes, so they answer with the tree
that is left as well.

A sealed directory keeps its entries, so `delete`, `makeDirectory`, `rename` and the making of a
file are refused there. To write over a file takes no change of its directory. So a file can
sometimes be copied where it cannot be renamed, and then it may be that its old place cannot be
cleared.
-/

namespace EngineUpkeep

namespace FileTree

/-- The entry that a path leads to. -/
def entryOf (tree : FileTree) (current : Location) (path : Path) : Except Fault Entry := do
  let location ← tree.find current path
  match tree.entryAt? location with
  | some entry => .ok entry
  | none => .error .missing

/-- The path leads to a regular file. -/
def isFile (tree : FileTree) (current : Location) (path : Path) : Bool :=
  match tree.entryOf current path with
  | .ok (.file _ _) => true
  | _ => false

/-- The path leads to a directory. -/
def isDirectory (tree : FileTree) (current : Location) (path : Path) : Bool :=
  match tree.entryOf current path with
  | .ok .directory => true
  | _ => false

/-- The path leads to an entry of any kind. -/
def pathExists (tree : FileTree) (current : Location) (path : Path) : Bool :=
  match tree.entryOf current path with
  | .ok _ => true
  | .error _ => false

/-- A location as an absolute path. -/
def pathOf (location : Location) : Path :=
  ⟨'/' :: Text.join ['/'] location⟩

/-- The absolute path, without links and dots, of the entry that a path leads to. The path may have
any length. -/
def canonical (tree : FileTree) (current : Location) (path : Path) : Except Fault Path := do
  let location ← locationOf (tree.walkAny current path)
  .ok (pathOf location)

/-- The content of a file, with whether it is runnable. -/
def readFile (tree : FileTree) (current : Location) (path : Path) :
    Except Fault (Content × Bool) := do
  match ← tree.entryOf current path with
  | .file content runnable => .ok (content, runnable)
  | _ => .error .refused

/-- The text of a file. -/
def readText (tree : FileTree) (current : Location) (path : Path) : Except Fault Text := do
  match ← tree.readFile current path with
  | (.text chars, _) => .ok chars
  | (.binary _, _) => .error .notText

/-- Writes a file. A file that is there keeps its place and, unless `runnable?` says otherwise,
stays runnable or not; a vacant place gets a new file, if its directory is not sealed. -/
def write (tree : FileTree) (current : Location) (path : Path) (content : Content)
    (runnable? : Option Bool) : Except Fault FileTree :=
  if path.hasSlashEnd then .error .refused
  else do
    match ← tree.walk current path with
    | .vacant directory name =>
      if tree.isSealed directory then .error .refused
      else .ok (tree.put (directory ++ [name]) (.file content (runnable?.getD false)))
    | .found location =>
      match tree.entryAt? location with
      | some (.file _ runnable) =>
        .ok (tree.put location (.file content (runnable?.getD runnable)))
      | _ => .error .refused

/-- Deletes the file or the link that a path names. -/
def delete (tree : FileTree) (current : Location) (path : Path) : Except Fault FileTree := do
  let (directory, name) ← tree.slot current path
  match tree.entryAt? (directory ++ [name]) with
  | none => .error .missing
  | some .directory => .error .refused
  | some _ =>
    if path.hasSlashEnd || tree.isSealed directory then .error .refused
    else .ok (tree.erase (directory ++ [name]))

/-- Makes a directory at a vacant place in a directory that is there and not sealed. The new one is
not sealed either. -/
def makeDirectory (tree : FileTree) (current : Location) (path : Path) :
    Except Fault FileTree := do
  let (directory, name) ← tree.slot current path
  match tree.entryAt? (directory ++ [name]) with
  | none =>
    if tree.isSealed directory then .error .refused
    else .ok ((tree.put (directory ++ [name]) .directory).withoutSeal (directory ++ [name]))
  | some _ => .error .refused

/-- Makes a directory along a chain of paths, each in the one after it, as far up as directories are
missing. -/
def makeDirectoriesAlong (tree : FileTree) (current : Location) :
    List Path → FileTree × Except Fault Unit
  | [] => (tree, .ok ())
  | path :: above =>
    -- The empty path is the current directory, which is there.
    if path.text = [] then (tree, .ok ())
    else match tree.makeDirectory current path with
      | .ok changed => (changed, .ok ())
      | .error .missing =>
        if above = [] then (tree, .error .refused)
        else match makeDirectoriesAlong tree current above with
          | (changed, .error fault) => (changed, .error fault)
          | (changed, .ok ()) =>
            match changed.makeDirectory current path with
            | .ok last => (last, .ok ())
            | .error fault =>
              -- With `..` in a path, making the directories above may have made this one as well.
              (changed, if changed.isDirectory current path then .ok () else .error fault)
      | .error fault => (tree, if tree.isDirectory current path then .ok () else .error fault)

/-- Makes a directory and the directories above it that are missing. -/
def makeDirectories (tree : FileTree) (current : Location) (path : Path) :
    FileTree × Except Fault Unit :=
  tree.makeDirectoriesAlong current path.ancestors

/-- A seal keeps the entry at `old` from going from one directory to another. The entry leaves the
one and comes to the other, and a directory is itself changed when the one above it is. -/
def isHeld (tree : FileTree) (old sourceDirectory targetDirectory : Location) : Bool :=
  tree.isSealed sourceDirectory || tree.isSealed targetDirectory ||
    (sourceDirectory ≠ targetDirectory && tree.isSealed old)

/-- Renames the entry that `source` names to what `target` names. A file takes the place of a file,
a directory the place of an empty directory. -/
def rename (tree : FileTree) (current : Location) (source target : Path) :
    Except Fault FileTree := do
  let (sourceDirectory, sourceName) ← tree.slot current source
  let (targetDirectory, targetName) ← tree.slot current target
  let old := sourceDirectory ++ [sourceName]
  let new := targetDirectory ++ [targetName]
  match tree.entryAt? old with
  | none => .error .missing
  | some .directory =>
    if old = new then .ok tree
    -- A directory cannot go inside itself.
    else if old.isPrefixOf new || tree.isHeld old sourceDirectory targetDirectory then
      .error .refused
    else match tree.entryAt? new with
      | none => .ok (tree.relocate old new)
      | some .directory =>
        if tree.hasBelow new then .error .refused else .ok (tree.relocate old new)
      | some _ => .error .refused
  | some entry =>
    if source.hasSlashEnd || target.hasSlashEnd then .error .refused
    else if old = new then .ok tree
    else if tree.isHeld old sourceDirectory targetDirectory then .error .refused
    else match tree.entryAt? new with
      | some .directory => .error .refused
      | _ => .ok ((tree.erase old).put new entry)

/-- Copies a regular file, with whether it is runnable. The target is opened first, which empties
it, and then gets what the source still holds: nothing, if the two are one file. -/
def copy (tree : FileTree) (current : Location) (source target : Path) :
    Except Fault FileTree := do
  let (_, runnable) ← tree.readFile current source
  let opened ← tree.write current target (.text []) (some runnable)
  let (content, _) ← opened.readFile current source
  tree.write current target content (some runnable)

/-- Moves a file by renaming it. Where that is refused it is copied and then deleted. If it cannot
be deleted, the copy is left. -/
def moveEntry (tree : FileTree) (current : Location) (source target : Path) :
    FileTree × Except Fault Unit :=
  match tree.rename current source target with
  | .ok moved => (moved, .ok ())
  | .error _ =>
    match tree.copy current source target with
    | .error fault => (tree, .error fault)
    | .ok copied =>
      match copied.delete current source with
      | .ok moved => (moved, .ok ())
      | .error fault => (copied, .error fault)

end FileTree

end EngineUpkeep
