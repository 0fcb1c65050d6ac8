import EngineUpkeep.Failure
import EngineUpkeep.FileTree.Operations
import EngineUpkeep.Text.Blank

/-!
# Build lists

A build list names the sources of a group, one on a line. A line that begins with a comment marker,
blanks apart, is switched off. Lines are found by a text that they have in them; of a line that is
found, nothing but one marker changes, and its end stays.
-/

namespace EngineUpkeep

/-- A change to the lines of a build list. -/
inductive LineEdit where
  /-- Puts a marker in front of a line. -/
  | comment
  /-- Takes one marker off the front of a line. -/
  | uncomment
deriving DecidableEq, Repr

namespace BuildList

/-- The marker of a comment. -/
def marker : Char := '#'

/-- The line without the marker that comes first in it, blanks apart, if one does. -/
def uncommented? (line : Text) : Option Text :=
  match line.dropWhile Text.isBlank with
  | c :: rest => if c = marker then some (line.takeWhile Text.isBlank ++ rest) else none
  | [] => none

/-- The line after an edit, if the edit changes it. -/
def edited? : LineEdit → Text → Option Text
  | .comment, line => some (marker :: line)
  | .uncomment, line => uncommented? line

/-- The line after an edit of lines that have `needle` in them, if the edit changes it. -/
def toggled? (needle : Text) (edit : LineEdit) (line : Text) : Option Text :=
  if Text.contains line needle then edited? edit line else none

/-- The content after an edit of the lines that have `needle` in them, and how many lines have
changed. -/
def toggle (needle : Text) (edit : LineEdit) (content : Text) : Text × Nat :=
  let lines := Text.linesWithEnds content
  (lines.flatMap fun line => (toggled? needle edit line).getD line,
    lines.countP fun line => (toggled? needle edit line).isSome)

/-- Edits the build list at a path, and says how many lines have changed. -/
def editFile (tree : FileTree) (current : Location) (path : Path) (needle : Text)
    (edit : LineEdit) : FileTree × Except Failure Nat :=
  match tree.readText current path with
  | .error fault => (tree, .error (.io fault))
  | .ok content =>
    let (changed, count) := toggle needle edit content
    -- The list is written even if no line has changed.
    match tree.write current path (.text changed) none with
    | .ok written => (written, .ok count)
    | .error fault => (tree, .error (.io fault))

end BuildList

end EngineUpkeep
