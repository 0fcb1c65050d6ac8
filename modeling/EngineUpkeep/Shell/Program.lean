import EngineUpkeep.Shell.Redirection

/-!
# Programs

The programs that can be started are scripts whose first line names a shell, or no program at all. A
name without a slash is looked for along the search path, a name with one is a path itself.
-/

namespace EngineUpkeep

namespace Shell

/-- The shells that can run a script. -/
def shells : List Text := ["/bin/sh", "/bin/dash", "/bin/bash"]

/-- The program that the first line of a script names, and the argument that it gives to it. -/
def interpreter? (script : Text) : Option (Text × Text) :=
  match script with
  | '#' :: '!' :: rest =>
    let isGap (c : Char) : Bool := c = ' ' || c = '\t'
    let line := (rest.takeWhile (· ≠ '\n')).dropWhile isGap
    let program := line.takeWhile fun c => !isGap c
    let argument := (line.drop program.length).dropWhile isGap
    if program = [] then none
    else some (program, (argument.reverse.dropWhile isGap).reverse)
  | _ => none

/-- The first line of a script names a shell. -/
def namesShell (script : Text) : Bool :=
  (interpreter? script).any fun (program, _) => shells.contains program

/-- A path leads to a shell itself. -/
def isShell (tree : FileTree) (current : Location) (path : Text) : Bool :=
  match tree.find current (pathNamed path) with
  | .ok location => shells.any fun shell => (pathNamed shell).segments = location
  | .error _ => false

/-- The name of the shell that runs the program at a path, and the words that it gets in front of the
arguments; nothing if the system can run no such program. -/
def starter? (tree : FileTree) (current : Location) (path script : Text) :
    Option (Text × List Text) :=
  if isShell tree current path then some (path, [])
  else match interpreter? script with
    | none => none
    | some (program, argument) =>
      if !shells.contains program then none
      else some (program, (if argument = [] then [] else [argument]) ++ [path])

/-- Why a program cannot be started. -/
inductive StartFault where
  /-- It is not there. -/
  | missing
  /-- It is there and cannot be run. -/
  | refused
  /-- Its name is too long. -/
  | tooLong
  /-- Too many symbolic links lead to it. -/
  | tooManyLinks
deriving DecidableEq, Repr

namespace StartFault

/-- The complaint about a program that cannot be started. -/
def message (name : Text) (fault : StartFault) : Text :=
  let reason := match fault with
    | missing => "not found"
    | refused => "Permission denied"
    | tooLong => "File name too long"
    | tooManyLinks => "Too many levels of symbolic links"
  name ++ ": ".toList ++ reason.toList

/-- The status of a command that would start the program. -/
def status : StartFault → Nat
  | refused => 126
  | _ => 127

end StartFault

/-- What a name leads to. -/
inductive Program where
  /-- A shell with a name that gets some words in front of the arguments. -/
  | shell (name : Text) (before : List Text)
  /-- Nothing that can be started. -/
  | faulty (fault : StartFault)
deriving Repr

/-- The program at a path. -/
def programAt (state : State) (path : Text) : Program :=
  match state.world.tree.entryOf state.current (pathNamed path) with
  | .ok (.file content true) =>
    let script := charsOf content.bytes
    match starter? state.world.tree state.current path script with
    | some (name, before) => .shell name before
    | none =>
      -- A script that names no program is one of the shell.
      if (interpreter? script).isNone then .shell "/bin/sh" [path] else .faulty .missing
  | .ok _ => .faulty .refused
  | .error fault =>
    match state.world.reasonOf state.current (pathNamed path) fault with
    | .tooLong => .faulty .tooLong
    | .tooManyLinks => .faulty .tooManyLinks
    | _ => .faulty .missing

/-- The paths at which a name is looked for. -/
def candidates (state : State) (name : Text) : List Text :=
  if name.any (· = '/') then [name]
  else match state.valueOf? "PATH".toList with
    | none => []
    | some path =>
      (Text.pieces path ':').map fun place => if place = [] then name else place ++ '/' :: name

/-- A regular file is at a path. -/
def isFileAt (state : State) (path : Text) : Bool :=
  state.world.tree.isFile state.current (pathNamed path)

/-- The path of the first runnable file among the places for a name. -/
def whereIs? (state : State) (name : Text) : Option Text :=
  (candidates state name).find? fun path =>
    match state.world.tree.entryOf state.current (pathNamed path) with
    | .ok (.file _ runnable) => runnable
    | _ => false

namespace Act

/-- Remembers where a program is that is looked for along the search path. -/
def locate (name : Text) : Act Unit := do
  let state ← get
  let isKnown := (state.located.lookup name).any fun place => !place.isStale
  let isFunction := (state.functions.lookup name).isSome
  if !isKnown && !isFunction && !name.any (· = '/') then
    set { state with
      located := match whereIs? state name with
        | some path => withItem name { path } state.located
        | none => state.located.filter fun item => item.1 ≠ name }

end Act

/-- The program that a name leads to, or the last reason why there is none. The system has no programs
that have to be looked for. -/
def findProgram (state : State) (isStandard : Bool) (name : Text) : Program :=
  let isSearched := !isStandard || name.any (· = '/')
  (if isSearched then candidates state name else []).foldl
    (fun found path =>
      match found with
      | .shell _ _ => found
      | .faulty _ =>
        match programAt state path with
        | .faulty .missing => found
        | program => program)
    (.faulty .missing)

/-- The state in which a shell begins, with the variables, the streams and the directory that it is
given. -/
def State.begin (world : World) (name : Text) (given : Variables)
    (descriptors : List (Nat × Nat)) (current : Location) (process parent : Nat) : State :=
  let values := given.filter fun item => isName item.1
  let physical := encoded (FileTree.pathOf current).text
  -- The directory may have been reached by another path.
  let directory := match values.lookup "PWD".toList with
    | some path =>
      if path.head? = some '/' && (world.tree.find [] (pathNamed path)).toOption = some current then
        path
      else physical
    | none => physical
  let own : Variables :=
    [("IFS", " \t\n"), ("OPTIND", "1"), ("PPID", Text.ofNat parent), ("PWD", directory)]
  let prompts : Variables := [("PS1", "# "), ("PS2", "> "), ("PS4", "+ ")]
  let missing := prompts.filter fun item => (values.lookup item.1).isNone
  { name, current, directory, descriptors, process, parent
    world := { world with living := process :: world.living }
    values := own.foldl (fun values item => values.set item.1 item.2) (missing ++ values)
    exported := "PWD".toList :: (values.map (·.1)).filter (· ≠ "PWD".toList)
    parameters := { words := [] } }

end Shell

end EngineUpkeep
