import EngineUpkeep.Toml.Value

/-!
# TOML documents

A document is a list of statements, each on a line of its own: headers, which say what table the
following assignments go to, and assignments. Carrying the statements out in order on a tree of
tables gives the table that the document stands for.
-/

namespace EngineUpkeep

namespace Toml

/-- A statement of a document. -/
inductive Statement where
  /-- A header `[path]`: what follows is about this table. -/
  | header (path : List Text)
  /-- A header `[[path]]`: what follows is about a new table in this array. -/
  | item (path : List Text)
  /-- A value under a path in the table of the last header. -/
  | assign (path : List Text) (value : Toml)

/-- Takes a statement without the end of its line. -/
def readStatement (text : Text) : Option (Statement × Text) :=
  match text with
  | '[' :: '[' :: rest => do
    let (path, rest) ← readPath (skipSpaces rest)
    match rest with
    | ']' :: ']' :: after => some (.item path, after)
    | _ => none
  | '[' :: rest => do
    let (path, rest) ← readPath (skipSpaces rest)
    match rest with
    | ']' :: after => some (.header path, after)
    | _ => none
  | _ => do
    let ((path, value), after) ← readAssignment readValue text
    some (.assign path value, after)

/-- Takes the end of a line: spaces, a comment, and a line break or the end of the text. -/
def readLineEnd (text : Text) : Option Text :=
  match skipComment (skipSpaces text) with
  | [] => some []
  | rest => readBreak? rest

/-- The statements of a text. Each step takes a statement. -/
def readStatements : Nat → Text → Option (List Statement)
  | 0, _ => none
  | fuel + 1, text =>
    match skipAllFiller text with
    | [] => some []
    | start => do
      let (statement, rest) ← readStatement start
      let next ← readLineEnd rest
      let statements ← readStatements fuel next
      some (statement :: statements)

/-- A document as far as it is read: the tree and the path of the last header. -/
structure Draft where
  /-- The tree of all tables. -/
  tree : Node
  /-- The table that assignments go to. -/
  current : List Text

/-- Carries out a statement. -/
def Draft.step (draft : Draft) : Statement → Option Draft
  | .header path => (draft.tree.define path).map fun tree => ⟨tree, path⟩
  | .item path => (draft.tree.append path).map fun tree => ⟨tree, path⟩
  | .assign path value =>
    -- The path of the last header is walked anew, since it may end in the last table of an array.
    (draft.tree.changeAt false (Node.insert path value) draft.current).map fun tree =>
      ⟨tree, draft.current⟩

/-- The table that statements make. -/
def ofStatements? (statements : List Statement) : Option Toml :=
  (statements.foldlM Draft.step ⟨.root, []⟩).map fun draft => draft.tree.toToml

/-- Reads a document. A byte order mark in front does not count. -/
def read? (text : Text) : Option Toml := do
  let body := match text with
    | '\uFEFF' :: rest => rest
    | _ => text
  let statements ← readStatements (body.length + 1) body
  ofStatements? statements

end Toml

end EngineUpkeep
