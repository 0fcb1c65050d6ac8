import EngineUpkeep.FileTree.Operations
import EngineUpkeep.Shell.Script

/-!
# Streams

What the scripts of a machine share: the file tree, the streams that are open, the texts that are
collected from streams, and the signals that wait for a process. A stream may be used by several
shells under several numbers, and whoever reads or writes moves its position for all of them.

Scripts see files as bytes. A text of bytes has the character with its value for each byte.
-/

namespace EngineUpkeep

namespace Shell

/-- Bytes as text, each as the character with its value. -/
def charsOf (bytes : List UInt8) : Text :=
  bytes.map fun byte => Char.ofNat byte.toNat

/-- The bytes of such a text. -/
def bytesOf (text : Text) : List UInt8 :=
  text.map fun c => c.toNat.toUInt8

/-- A text as such a text of bytes. -/
def encoded (text : Text) : Text :=
  charsOf (Utf8.encode text)

/-- The path that a text of bytes names. A text that is not UTF-8 names itself. -/
def pathNamed (text : Text) : Path :=
  ⟨(Utf8.decode? (bytesOf text)).getD text⟩

/-- What a stream leads to. -/
inductive Channel where
  /-- Nothing. -/
  | nothing
  /-- A device that has no room. -/
  | full
  /-- The collection with a number. -/
  | collection (number : Nat)
  /-- A text of which this is left. -/
  | stored (rest : Text)
  /-- A file at a position, or always its end. -/
  | file (location : Location) (position : Nat) (appends : Bool)
  /-- A directory, of which nothing can be read. -/
  | directory
deriving Repr, Inhabited

/-- A stream that is open. -/
structure Stream where
  /-- What it leads to. -/
  channel : Channel
  /-- It can be read. -/
  isReadable : Bool
  /-- It can be written. -/
  isWritable : Bool
deriving Repr, Inhabited

/-- What all scripts of a machine share. -/
structure World where
  /-- The file tree. -/
  tree : FileTree
  /-- The streams that are open. -/
  streams : Array Stream := #[]
  /-- The collected texts, each in pieces, the last one first. -/
  collections : Array (List Text) := #[]
  /-- The processes to which signals were sent, with the numbers of the signals. -/
  signals : List (Nat × Nat) := []
  /-- The processes of the scripts that run. -/
  living : List Nat := []
  /-- The processes that nobody waits for and that go on for ever. -/
  endless : List Nat := []
  /-- The number of the next process. -/
  nextProcess : Nat := 2
deriving Inhabited

/-- Why a file cannot be opened. -/
inductive OpenFault where
  /-- It is not there, or a directory above it is not. -/
  | missing
  /-- It is a directory. -/
  | isDirectory
  /-- It is there and protected. -/
  | isProtected
  /-- Its name is too long. -/
  | tooLong
  /-- Too many symbolic links lead to it. -/
  | tooManyLinks
  /-- It stands for a terminal, which is not there. -/
  | noTerminal
deriving DecidableEq, Repr

/-- The complaint about a file that cannot be opened, perhaps to write it. -/
def OpenFault.message (writes : Bool) (name : Text) (fault : OpenFault) : Text :=
  let action := if writes then "cannot create " else "cannot open "
  let reason := match fault with
    | missing => if writes then "Directory nonexistent" else "No such file"
    | isDirectory => "Is a directory"
    | isProtected => "File exists"
    | tooLong => "File name too long"
    | tooManyLinks => "Too many levels of symbolic links"
    | noTerminal => "No such device or address"
  action.toList ++ name ++ ": ".toList ++ reason.toList

namespace World

/-- Adds a stream. Its number comes with the world. -/
def addStream (world : World) (stream : Stream) : World × Nat :=
  ({ world with streams := world.streams.push stream }, world.streams.size)

/-- Adds a stream from which a text can be read. -/
def addText (world : World) (text : Text) : World × Nat :=
  world.addStream ⟨.stored text, true, false⟩

/-- Adds a collection, and a stream whose text it collects. The numbers of both come with the world.
-/
def addCollection (world : World) : World × Nat × Nat :=
  let number := world.collections.size
  let (world, stream) := world.addStream ⟨.collection number, false, true⟩
  ({ world with collections := world.collections.push [] }, number, stream)

/-- A collected text. -/
def collected (world : World) (number : Nat) : Text :=
  (world.collections.getD number []).reverse.flatten

/-- The content of a file. -/
def content (world : World) (location : Location) : Text :=
  match world.tree.entryAt? location with
  | some (.file content _) => charsOf content.bytes
  | _ => []

/-- The text that is left to be read from a stream, if it can be read. -/
def rest? (world : World) (number : Nat) : Option Text :=
  match world.streams[number]? with
  | some ⟨channel, true, _⟩ =>
    match channel with
    | .nothing => some []
    | .full => some []
    | .collection _ => none
    | .stored rest => some rest
    | .file location position _ => some ((world.content location).drop position)
    | .directory => none
  | _ => none

/-- Passes over some characters of a stream. -/
def advance (world : World) (number count : Nat) : World :=
  { world with
    streams := world.streams.modify number fun stream =>
      match stream.channel with
      | .stored rest => { stream with channel := .stored (rest.drop count) }
      | .file location position appends =>
        { stream with channel := .file location (position + count) appends }
      | _ => stream }

/-- A text in which another one stands from a position on. A gap in front of it is filled. -/
def spliced (old : Text) (position : Nat) (text : Text) : Text :=
  old.take position ++ List.replicate (position - old.length) '\x00' ++ text ++
    old.drop (position + text.length)

/-- Writes a text to a stream, if that can be written. -/
def write? (world : World) (number : Nat) (text : Text) : Option World :=
  match world.streams[number]? with
  | some ⟨channel, isReadable, true⟩ =>
    match channel with
    | .nothing => some world
    | .collection collection =>
      some { world with collections := world.collections.modify collection (text :: ·) }
    | .file location position appends =>
      match world.tree.entryAt? location with
      | some (.file content runnable) =>
        let old := charsOf content.bytes
        let start := if appends then old.length else position
        let new := Content.ofBytes (bytesOf (spliced old start text))
        some { world with
          tree := world.tree.put location (.file new runnable)
          streams := world.streams.modify number fun _ =>
            ⟨.file location (start + text.length) appends, isReadable, true⟩ }
      | _ => none
    | _ => none
  | _ => none

/-- Why a path, of which a walk has a fault, cannot be opened. -/
def reasonOf (world : World) (current : Location) (path : Path) : Fault → OpenFault
  | .missing => .missing
  | _ =>
    if !path.isUsable || path.segments.any (fun name => nameLimit < (Utf8.encode name).length) then
      .tooLong
    -- Something that is no directory stands where a directory should.
    else if path.ancestors.any isFileAt then .missing
    else .tooManyLinks
where
  /-- A regular file is at the path, whatever slashes follow. -/
  isFileAt (path : Path) : Bool :=
    world.tree.isFile current ⟨(path.text.reverse.dropWhile (· = '/')).reverse⟩

/-- Makes an empty file, or empties the one that is there. -/
def emptied (world : World) (location : Location) (runnable : Bool) : World :=
  { world with tree := world.tree.put location (.file (.text []) runnable) }

/-- Opens the file that a path names. Files that are there can be protected from being written anew.
-/
def openFile (world : World) (current : Location) (path : Path) (access : Access)
    (protects : Bool) : Except OpenFault (World × Channel) :=
  let isProtected := protects && access = .write
  if access ≠ .read && path.hasSlashEnd then
    match world.tree.slot current path with
    | .ok _ => .error .isDirectory
    | .error fault => .error (world.reasonOf current path fault)
  else match world.tree.walk current path with
  | .error fault => .error (world.reasonOf current path fault)
  | .ok (.vacant directory name) =>
    if access = .read then .error .missing
    -- A link that leads to a vacant place is there as well.
    else if isProtected && isLink path then .error .isProtected
    else
      let location := directory ++ [name]
      .ok (world.emptied location false, .file location 0 (access = .append))
  | .ok (.found location) =>
    match world.tree.entryAt? location with
    | some (.file _ runnable) =>
      if isProtected then .error .isProtected
      else
        let isEmptied := access = .write || access = .overwrite
        .ok (if isEmptied then world.emptied location runnable else world,
          .file location 0 (access = .append))
    | _ => if access = .read then .ok (world, .directory) else .error .isDirectory
where
  /-- The path names a link. -/
  isLink (path : Path) : Bool :=
    match world.tree.slot current path with
    | .ok (directory, name) => (world.tree.entryAt? (directory ++ [name])).isSome
    | .error _ => false

end World

end Shell

end EngineUpkeep
