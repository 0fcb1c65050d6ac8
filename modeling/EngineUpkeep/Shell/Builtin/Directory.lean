import EngineUpkeep.Shell.Builtin.Arguments

/-!
# The current directory

A shell remembers by which path it came to its directory. A path that goes up with `..` leads back
along that one, even if it went through a link (`logicalPath`).
-/

namespace EngineUpkeep

namespace Shell

/-- The slashes that an absolute path begins with. Two are not the same as one or more. -/
def rootOf (path : Text) : Text :=
  match path with
  | '/' :: '/' :: '/' :: _ => ['/']
  | '/' :: '/' :: _ => ['/', '/']
  | _ => ['/']

/-- The path that a path means in a directory that was reached by an absolute path. -/
def logicalPath (directory path : Text) : Text :=
  let isAbsolute := path.head? = some '/'
  let names := (Text.pieces (if isAbsolute then path else directory ++ '/' :: path) '/').foldl
    (fun names name =>
      if name = [] || name = ['.'] then names
      else if name = ['.', '.'] then names.dropLast
      else names ++ [name])
    []
  rootOf (if isAbsolute then path else directory) ++ Text.join ['/'] names

/-- The path begins with a name for the directory itself or the one above it. -/
def startsWithDots (path : Text) : Bool :=
  let name := path.takeWhile (· ≠ '/')
  name = ['.'] || name = ['.', '.']

/-- The places in which a directory is looked for, each with whether its path is told. -/
def directoryChoices (searchPath? : Option Text) (path : Text) : List (Text × Bool) :=
  match searchPath? with
  | some searchPath =>
    (Text.pieces searchPath ':').map fun place =>
      if place = [] then (path, false)
      else (if place.getLast? = some '/' then place ++ path else place ++ '/' :: path, true)
  | none => []

namespace Act

/-- The option that comes last asks for the path without links. -/
def asksPhysical (options : List (Char × Text)) : Bool :=
  (options.getLast?.map (·.1)) = some 'P'

/-- Goes to a directory, and says whether it is there. -/
def goTo (isPhysical : Bool) (path : Text) : Act Bool := do
  let state ← get
  let target := if isPhysical then path else logicalPath state.directory path
  match state.world.tree.find state.current (pathNamed target) with
  | .error _ => return false
  | .ok location =>
    if state.world.tree.entryAt? location ≠ some .directory then return false
    else
      let physical := encoded (FileTree.pathOf location).text
      let directory := if isPhysical then physical else target
      let located := state.located.map fun (name, place) => (name, { place with isStale := true })
      set { state with current := location, directory, located }
      for (name, value) in [("OLDPWD".toList, state.directory), ("PWD".toList, directory)] do
        assign name value
        modify fun state => state.withExported name true
      return true

/-- Changes the directory. -/
def changeDirectory (arguments : List Text) : Act Nat := do
  let (options, words) ← takeOptions ['L', 'P'] [] arguments
  let isPhysical := asksPhysical options
  let state ← get
  let valueOf (name : String) : Text := (state.valueOf? name.toList).getD []
  let isBack := words.head? = some ['-']
  let path := match words with
    | [] => valueOf "HOME"
    | word :: _ => if isBack then valueOf "OLDPWD" else word
  let isPlain := path.head? = some '/' || startsWithDots path
  let path := if path = [] then ['.'] else path
  let choices := if isPlain then [] else directoryChoices (state.valueOf? "CDPATH".toList) path
  let found? := choices.find? fun choice =>
    state.world.tree.isDirectory state.current (pathNamed choice.1)
  let (target, tells) := found?.getD (path, false)
  if !(← goTo isPhysical target) then fail ("can't cd to ".toList ++ path)
  if tells || isBack then say ((← get).directory ++ ['\n'])
  return 0

/-- Prints the path of the directory. -/
def printDirectory (arguments : List Text) : Act Nat := do
  let (options, _) ← takeOptions ['L', 'P'] [] arguments
  let state ← get
  let physical := encoded (FileTree.pathOf state.current).text
  say ((if asksPhysical options then physical else state.directory) ++ ['\n'])
  return 0

end Act

example : logicalPath "/a/b" "../c/./d" = "/a/c/d".toList := by decide

example : logicalPath "/" "x//y/" = "/x/y".toList := by decide

end Shell

end EngineUpkeep
