import EngineUpkeep.Project
import EngineUpkeep.Shell.Evaluation

/-!
# Hosts

A host is the machine that a command runs on: its file tree, the current directory, the analyzer
that the environment names, and the programs that can be started. What a program does depends on the
file tree, on where it is started, and on its arguments; it may change the file tree, so a start
gives the host that is left (`Host.launch`).

On `Host.ofTree` the programs are the runnable shell scripts of the file tree.
-/

namespace EngineUpkeep

/-- What can be seen of a program that was started. -/
structure Execution where
  /-- How it ended. -/
  ending : Shell.Ending
  /-- The bytes that it printed to its output. -/
  output : List UInt8
  /-- The bytes that it printed to its errors. -/
  errors : List UInt8
deriving DecidableEq, Repr

/-- The machine that a command runs on. -/
structure Host where
  /-- The file tree. -/
  tree : FileTree
  /-- The current directory. -/
  current : Location
  /-- The analyzer that the environment names. -/
  override? : Option Text
  /-- Starts a program on a file tree with arguments, in a directory or in the current one, if it can
  be started, and gives the file tree that it leaves. -/
  start : FileTree → Option Path → Text → List Text → Option Execution × FileTree

namespace Host

/-- Starts a program with arguments, and gives the host that it leaves. -/
def launch (host : Host) (directory? : Option Path) (exe : Text) (arguments : List Text) :
    Option Execution × Host :=
  let (execution?, tree) := host.start host.tree directory? exe arguments
  (execution?, { host with tree })

/-- The most bytes of one text that a program is given when it is started. -/
def textLimit : Nat := 131071

/-- The most bytes of all texts that a program is given when it is started. -/
def textsLimit : Nat := 2097152

/-- Texts can be given to a program when it is started. A NUL stands behind each of them, and the
place of each takes eight more bytes. -/
def canGive (texts : List Text) : Bool :=
  let sizes := texts.map fun text => (Utf8.encode text).length
  texts.all (fun text => '\x00' ∉ text) && sizes.all (· ≤ textLimit) &&
    sizes.foldl (fun total size => total + size + 9) 0 ≤ textsLimit

/-- The path at which a program is looked for: a name without slash in the search directory. -/
def programPath (searchPath : Path) (exe : Text) : Path :=
  if exe.any (· = '/') then ⟨exe⟩ else searchPath.join ⟨exe⟩

/-- The directory in which a program is started. -/
def startDirectory? (tree : FileTree) (current : Location) : Option Path → Option Location
  | none => some current
  | some path =>
    match tree.find current path with
    | .ok location => if tree.isDirectory current path then some location else none
    | .error _ => none

/-- Starts a runnable script of a file tree, and gives the tree that it leaves. -/
def startScript (current : Location) (searchPath : Path) (override? : Option Text)
    (tree : FileTree) (directory? : Option Path) (exe : Text) (arguments : List Text) :
    Option Execution × FileTree :=
  -- A relative program is looked for in the directory in which it is started.
  let path := programPath searchPath exe
  let named : List (Text × Text) := match override? with
    | some value => [("CLANG_TIDY", Shell.encoded value)]
    | none => []
  let given : Shell.Variables := ("PATH", Shell.encoded searchPath.text) :: named
  let found : Option (Location × Text × List Text) := do
    if exe = [] || !canGive (path.text :: searchPath.text :: override?.toList ++ arguments) then
      none
    let directory ← startDirectory? tree current directory?
    let (content, runnable) ← (tree.readFile directory path).toOption
    let (shell, before) ←
      Shell.starter? tree directory (Shell.encoded path.text) (Shell.charsOf content.bytes)
    if runnable then some (directory, shell, before) else none
  match found with
  | none => (none, tree)
  | some (directory, shell, before) =>
    -- A shell that is no script has the name that it was called by.
    let shell := if before = [] then Shell.encoded exe else shell
    let outcome := Shell.run tree directory given shell (before ++ arguments.map Shell.encoded)
    (some ⟨outcome.ending, Shell.bytesOf outcome.output, Shell.bytesOf outcome.errors⟩,
      outcome.tree)

/-- The host on which the runnable scripts of a file tree are the programs. -/
def ofTree (tree : FileTree) (current : Location) (searchPath : Path)
    (override? : Option Text) : Host :=
  { tree, current, override?
    start := startScript current searchPath override? }

end Host

end EngineUpkeep
