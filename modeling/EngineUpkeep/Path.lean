import EngineUpkeep.Text.Basic

/-!
# Paths

A path is kept as it was written, since messages show it so; what it names is given by its
components. Repeated slashes, a slash at the end and `.` name nothing, except that a `.` which
begins a relative path is a component of its own.

`relativeTo?` compares components but answers with the text that is left, so that what stands
between later components is kept. `fold` is lexical: it takes `..` back one component and never
looks at a file tree.
-/

namespace EngineUpkeep

/-- A path as it was written. -/
structure Path where
  /-- The text of the path. -/
  text : Text
deriving DecidableEq, Repr, Inhabited

/-- One component of a path. -/
inductive Component where
  /-- The root directory. -/
  | root
  /-- The `.` that begins a relative path. -/
  | here
  /-- The parent directory, `..`. -/
  | up
  /-- An entry of a directory. -/
  | name (name : Text)
deriving DecidableEq, Repr

namespace Path

instance instCoeTextPath : Coe Text Path := ⟨Path.mk⟩

/-- The path starts at the root directory. -/
def isAbsolute (path : Path) : Bool :=
  path.text.head? = some '/'

/-- The pieces between slashes, without the slash that makes a path absolute. -/
def body (path : Path) : List Text :=
  match path.text with
  | '/' :: rest => Text.pieces rest '/'
  | text => Text.pieces text '/'

/-- The piece names nothing: it is empty or a dot. -/
def isIdle (piece : Text) : Bool :=
  piece = [] || piece = ['.']

/-- A relative path that begins with the piece `.`. -/
def startsHere (path : Path) : Bool :=
  !path.isAbsolute && path.body.head? = some ['.']

/-- The component that a piece stands for, if it stands for one. -/
def componentOf? (piece : Text) : Option Component :=
  if isIdle piece then none
  else if piece = ['.', '.'] then some .up
  else some (.name piece)

/-- What comes before the pieces: the root, the leading dot or nothing. -/
def anchor (path : Path) : List Component :=
  if path.isAbsolute then [.root] else if path.startsHere then [.here] else []

/-- The components that a path names, outermost first. -/
def components (path : Path) : List Component :=
  path.anchor ++ path.body.filterMap componentOf?

/-- `base` followed by `path`. An absolute path stands alone. -/
def join (base path : Path) : Path :=
  if path.isAbsolute then path
  else if base.text = [] || base.text.getLast? = some '/' then ⟨base.text ++ path.text⟩
  else ⟨base.text ++ '/' :: path.text⟩

/-- The pieces without the idle ones at the end. -/
def dropIdleEnd (pieces : List Text) : List Text :=
  (pieces.reverse.dropWhile isIdle).reverse

/-- The pieces after the first `count` that name something. -/
def afterNamed : Nat → List Text → List Text
  | 0, pieces => pieces
  | _ + 1, [] => []
  | count + 1, piece :: rest =>
    if isIdle piece then afterNamed (count + 1) rest else afterNamed count rest

/-- What a path starts with in writing: the slash of an absolute path, a leading dot, nothing. -/
def lead (path : Path) : Text :=
  if path.isAbsolute then ['/'] else if path.startsHere then ['.'] else []

/-- The pieces that come after the anchor. -/
def tail (path : Path) : List Text :=
  if path.startsHere then path.body.drop 1 else path.body

/-- The anchor followed by pieces, in writing. -/
def ofTail (path : Path) (pieces : List Text) : Path :=
  if path.startsHere then ⟨Text.join ['/'] (['.'] :: pieces)⟩
  else ⟨path.lead ++ Text.join ['/'] pieces⟩

/-- The path without what stands idle at its end. -/
def trimmed (path : Path) : Path :=
  path.ofTail (dropIdleEnd path.tail)

/-- The text that is left of a path when the components of `base` are taken off its front, or
nothing if they do not stand there. -/
def relativeTo? (base path : Path) : Option Text :=
  if !base.components.isPrefixOf path.components then none
  else match base.components.length - path.anchor.length, base.components with
    -- Nothing is taken off, so a leading dot stays in the text.
    | _, [] => some path.trimmed.text
    | count, _ :: _ =>
      some (Text.join ['/'] (dropIdleEnd ((afterNamed count path.tail).dropWhile isIdle)))

/-- The key under which a path is reported: the path relative to `root`, with `\` turned into
`/`. -/
def key? (root path : Path) : Option Text :=
  (relativeTo? root path).map fun rest => Text.replaceChar rest '\\' '/'

/-- The path of the directory that holds what the path names. The root and the empty path have
none. -/
def parent? (path : Path) : Option Path :=
  match (dropIdleEnd path.tail).reverse with
  | _ :: before => some (path.ofTail (dropIdleEnd before.reverse))
  -- The path `.` has the empty path for its parent.
  | [] => if path.startsHere then some ⟨[]⟩ else none

/-- Parents of parents, at most `fuel` of them. -/
def ancestorsUpTo : Nat → Path → List Path
  | 0, path => [path]
  | fuel + 1, path =>
    match path.parent? with
    | none => [path]
    | some parent => path :: ancestorsUpTo fuel parent

/-- The path and the paths of the directories around it, innermost first. -/
def ancestors (path : Path) : List Path :=
  ancestorsUpTo path.components.length path

/-- The last component, if it is a name. -/
def fileName? (path : Path) : Option Text :=
  match path.components.getLast? with
  | some (.name name) => some name
  | _ => none

/-- The part of a file name after its last dot. A name without a dot, or whose only dot comes
first, has no extension. -/
def extensionOf? (name : Text) : Option Text :=
  match Text.splitOnce name.reverse '.' with
  | some (after, before) => if before = [] then none else some after.reverse
  | none => none

/-- The extension of the file that a path names. -/
def extension? (path : Path) : Option Text :=
  path.fileName?.bind extensionOf?

/-- One component more, or one less for `..`, on a stack of names. At the bottom of the stack
`..` does nothing. -/
def foldStep (stack : List Text) : Component → List Text
  | .root => []
  | .here => stack
  | .up => stack.dropLast
  | .name name => stack ++ [name]

/-- The names that are left when `.` and `..` are carried out on the components in order. -/
def foldedNames (path : Path) : List Text :=
  path.components.foldl foldStep []

/-- The path with `.`, `..` and idle slashes carried out on the writing alone. -/
def fold (path : Path) : Path :=
  ⟨(if path.isAbsolute then ['/'] else []) ++ Text.join ['/'] path.foldedNames⟩

example : (Path.mk "/a/./b/../c//d/").fold = ⟨"/a/c/d"⟩ := by decide

example : Path.relativeTo? ⟨"/a"⟩ ⟨"//a/./b//c/."⟩ = some "b//c".toList := by decide

example : (Path.mk "/p//q/x.json").parent? = some ⟨"/p//q"⟩ := by decide

end Path

end EngineUpkeep
