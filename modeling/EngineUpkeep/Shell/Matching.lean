import EngineUpkeep.Shell.State
import EngineUpkeep.Text.Ordered

/-!
# Paths that a pattern matches

A field of a command that is a pattern becomes the paths which it matches, in order. A name that
begins with a dot is matched only by a pattern that begins with one, and a pattern that matches
nothing stays as it is (`expandPattern`).
-/

namespace EngineUpkeep

namespace Shell

/-- The characters of a pattern. -/
def literal (pattern : List PatternChar) : Text :=
  pattern.map (·.1)

/-- Each element of the pattern stands for itself. -/
def isLiteral (pattern : List PatternChar) : Bool :=
  (globsOf pattern).all fun
    | .exactly _ => true
    | _ => false

/-- The parts of a pattern between slashes. -/
def segmentsOf : List PatternChar → List (List PatternChar)
  | [] => [[]]
  | c :: rest =>
    if c.1 = '/' then [] :: segmentsOf rest
    else match segmentsOf rest with
      | first :: others => (c :: first) :: others
      | [] => [[c]]

/-- The names in a directory, with those that every directory has. -/
def namesWithin (state : State) (directory : Text) : List Text :=
  let path := pathNamed (if directory = [] then ['.'] else directory)
  match state.world.tree.find state.current path with
  | .error _ => []
  | .ok location =>
    if state.world.tree.entryAt? location = some .directory then
      ['.'] :: ['.', '.'] :: (state.world.tree.namesIn location).map encoded
    else []

/-- The names in a directory that a pattern without slashes matches. -/
def namesMatching (state : State) (directory : Text) (pattern : List PatternChar) : List Text :=
  (namesWithin state directory).filter fun name =>
    patternMatches pattern name && (name.head? ≠ some '.' || (literal pattern).head? = some '.')

/-- The path names an entry, which may be a link that leads nowhere. -/
def isEntry (state : State) (path : Text) : Bool :=
  match state.world.tree.slot state.current (pathNamed path) with
  | .error _ => state.world.tree.pathExists state.current (pathNamed path)
  | .ok (directory, name) =>
    if path.getLast? = some '/' then state.world.tree.isDirectory state.current (pathNamed path)
    else (state.world.tree.entryAt? (directory ++ [name])).isSome

/-- The paths that the parts of a pattern match below a path. -/
def pathsBelow (state : State) (base : Text) : List (List PatternChar) → List Text
  | [] => []
  | segment :: segments =>
    -- A part without signs is not looked up here, so that it may be empty.
    let names :=
      if isLiteral segment then [literal (withoutBackslashes segment)]
      else namesMatching state base segment
    match segments with
    | [] => names.map (base ++ ·)
    | _ => names.flatMap fun name => pathsBelow state (base ++ name ++ ['/']) segments

/-- The paths that a pattern stands for: those that it matches, or its own characters if it matches
none. -/
def expandPattern (state : State) (pattern : List PatternChar) : List Text :=
  if state.isOn .noglob || isLiteral pattern then [literal pattern]
  else
    let paths := (pathsBelow state [] (segmentsOf pattern)).filter (isEntry state)
    if paths = [] then [literal pattern] else Text.sortDistinct paths

end Shell

end EngineUpkeep
