import EngineUpkeep.FileTree.Basic

/-!
# Walking a path

A path is walked from a directory, name by name, through the entries of a file tree. The walk ends
at an entry (`Place.found`) or, when only the last name is missing, at a vacant place in a directory
(`Place.vacant`). Symbolic links are followed on the way and at the end, up to `linkLimit` of them.
Operations on an entry itself, which a link at the end must not lead away from, use `slot`.

A path of `pathLimit` bytes or more is refused, whatever it names. A walk name by name, as for
`FileTree.canonical`, has no such limit, so `walkAny` does without it.

Names that are all directories are walked through one by one (`walkWith_append`).
-/

namespace EngineUpkeep

/-- Where a walk ends. -/
inductive Place where
  /-- At an entry. -/
  | found (location : Location)
  /-- In a directory that has no entry of the last name. -/
  | vacant (directory : Location) (name : Text)
deriving DecidableEq, Repr

/-- The most bytes that a name can have. -/
def nameLimit : Nat := 255

/-- An entry can have this name. -/
def isName (name : Text) : Bool :=
  name ≠ [] && name ≠ ['.'] && name ≠ ['.', '.'] && '/' ∉ name && '\x00' ∉ name &&
    (Utf8.encode name).length ≤ nameLimit

/-- The bytes that a path has to stay below. -/
def pathLimit : Nat := 4096

namespace Path

/-- The path can be handed over to an operation. A NUL is in no path. -/
def isUsable (path : Path) : Bool :=
  '\x00' ∉ path.text && (Utf8.encode path.text).length < pathLimit

/-- The pieces of a path that a walk goes through. A dot is one of them, since it asks for a
directory. -/
def segments (path : Path) : List Text :=
  path.body.filter (· ≠ [])

/-- The path ends in a slash, which asks for a directory too. -/
def hasSlashEnd (path : Path) : Bool :=
  path.text.getLast? = some '/' && path.segments ≠ []

/-- The pieces of a path, with a dot for a slash at the end. -/
def steps (path : Path) : List Text :=
  if path.hasSlashEnd then path.segments ++ [['.']] else path.segments

/-- The directory in which a path starts, seen from `current`. -/
def start (current : Location) (path : Path) : Location :=
  if path.isAbsolute then [] else current

end Path

namespace FileTree

/-- The most symbolic links that one walk follows. -/
def linkLimit : Nat := 40

/-- Walks down pieces from the directory `here`, where `jump` carries on after a link. -/
def walkWith (tree : FileTree) (jump : Location → List Text → Except Fault Place) :
    Location → List Text → Except Fault Place
  | here, [] => .ok (.found here)
  | here, piece :: rest =>
    if piece = ['.'] then walkWith tree jump here rest
    -- The directory above the root is the root itself.
    else if piece = ['.', '.'] then walkWith tree jump here.dropLast rest
    else if !isName piece then .error .refused
    else match tree.entryAt? (here ++ [piece]) with
      | none => if rest = [] then .ok (.vacant here piece) else .error .missing
      | some .directory => walkWith tree jump (here ++ [piece]) rest
      | some (.file _ _) =>
        if rest = [] then .ok (.found (here ++ [piece])) else .error .refused
      | some (.link target) =>
        -- What follows the link is walked from where the target ends.
        if target.text = [] then .error .missing
        else jump (target.start here) (target.steps ++ rest)

/-- Walks down pieces and follows at most `links` links. -/
def walkUpTo (tree : FileTree) : Nat → Location → List Text → Except Fault Place
  | 0 => walkWith tree fun _ _ => .error .refused
  | links + 1 => walkWith tree (walkUpTo tree links)

/-- Walks a path of any length from the directory `current`. The empty path leads nowhere. -/
def walkAny (tree : FileTree) (current : Location) (path : Path) : Except Fault Place :=
  if '\x00' ∈ path.text then .error .refused
  else if path.text = [] then .error .missing
  else walkUpTo tree linkLimit (path.start current) path.steps

/-- Walks a path from the directory `current`. -/
def walk (tree : FileTree) (current : Location) (path : Path) : Except Fault Place :=
  if path.isUsable then tree.walkAny current path else .error .refused

/-- The location of the entry at which a walk ends. -/
def locationOf : Except Fault Place → Except Fault Location
  | .ok (.found location) => .ok location
  | .ok (.vacant _ _) => .error .missing
  | .error fault => .error fault

/-- The location of the entry that a path leads to. -/
def find (tree : FileTree) (current : Location) (path : Path) : Except Fault Location :=
  locationOf (tree.walk current path)

/-- The directory that has, or could have, the entry which a path names, and the entry's name. The
entry itself is not followed if it is a link. -/
def slot (tree : FileTree) (current : Location) (path : Path) :
    Except Fault (Location × Text) :=
  if !path.isUsable then .error .refused
  else match path.segments.reverse with
    -- A path of slashes alone names the root, which stands in no directory.
    | [] => if path.text = [] then .error .missing else .error .refused
    | last :: before =>
      match walkUpTo tree linkLimit (path.start current) before.reverse with
      | .error fault => .error fault
      | .ok (.vacant _ _) => .error .missing
      | .ok (.found directory) =>
        if tree.entryAt? directory ≠ some .directory || !isName last then .error .refused
        else .ok (directory, last)

/-- A walk down names that are all directories goes on from the last of them. -/
theorem walkWith_append {tree : FileTree} {jump : Location → List Text → Except Fault Place}
    {rest : List Text} (names : List Text) (here : Location)
    (hnames : ∀ name ∈ names, isName name = true)
    (hdirs : ∀ depth, depth ≤ names.length →
      tree.entryAt? (here ++ names.take depth) = some .directory) :
    walkWith tree jump here (names ++ rest) =
      walkWith tree jump (here ++ names) rest := by
  induction names generalizing here with
  | nil => simp
  | cons name names ih =>
    have hname := hnames name (by simp)
    have hdot : name ≠ ['.'] := by rintro rfl; simp [isName] at hname
    have hup : name ≠ ['.', '.'] := by rintro rfl; simp [isName] at hname
    have hentry : tree.entryAt? (here ++ [name]) = some .directory := by
      simpa using hdirs 1 (by simp)
    rw [List.cons_append, walkWith, if_neg hdot, if_neg hup]
    simp only [hname, Bool.not_true, Bool.false_eq_true, if_false, hentry]
    rw [ih (here ++ [name]) (fun n hn => hnames n (by simp [hn]))]
    · simp
    · intro depth hdepth
      simpa using hdirs (depth + 1) (by simpa using hdepth)

end FileTree

end EngineUpkeep
