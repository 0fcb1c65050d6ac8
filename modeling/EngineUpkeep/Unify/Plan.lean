import EngineUpkeep.Toml.Document
import EngineUpkeep.Unify.Basic

/-!
# Plans

A plan lists files to unify or to move, in a TOML document with one table `op` for each. The
destination is the core tree, and a file keeps its path unless another is given. The operations are
carried out in order up to the first that fails.
-/

namespace EngineUpkeep

/-- What is done with a file. -/
inductive OperationKind where
  /-- The file is in both variants and is unified. -/
  | unify
  /-- The file is in one tree and is moved. -/
  | move
deriving DecidableEq, Repr

namespace OperationKind

/-- The name of a kind. -/
def name : OperationKind → Text
  | unify => "unify"
  | move => "move"

/-- The kind of a name. -/
def ofName? (name : Text) : Option OperationKind :=
  match String.ofList name with
  | "unify" => some unify
  | "move" => some move
  | _ => none

end OperationKind

/-- An operation of a plan. -/
structure Operation where
  /-- What is done. -/
  kind : OperationKind
  /-- The tree whose copy is kept. -/
  source : SourceTree
  /-- The path of the file in its tree. -/
  file : Text
  /-- The path of the file in the core tree, if it is another one. -/
  targetFile? : Option Text := none
deriving DecidableEq, Repr

namespace Operation

/-- The path of the file in the core tree. -/
def destination (operation : Operation) : Text :=
  operation.targetFile?.getD operation.file

/-- The names of the fields, in order. -/
def names : List Text := ["kind", "from", "file", "to_file"]

/-- The operation that a table describes. -/
def ofToml? (toml : Toml) : Option Operation := do
  match ← toml.record? names with
  | [some kind, some source, some file, target] =>
    let kind ← OperationKind.ofName? (← kind.choice?)
    let source ← SourceTree.ofName? (← source.choice?)
    let file ← file.text?
    let targetFile? ← settingOr none (fun value => value.text?.map some) target
    some { kind, source, file, targetFile? }
  | _ => none

/-- Carries out an operation. -/
def run (checkout : Checkout) (current : Location) (tree : FileTree) (operation : Operation) :
    FileTree × Except Failure Unit :=
  match operation.kind with
  | .unify =>
    Unify.unifyIntoCore checkout current tree operation.source operation.file .core
      operation.destination
  | .move =>
    Unify.moveIntoCore checkout current tree operation.source operation.file .core
      operation.destination

end Operation

/-- A plan is the list of its operations. -/
abbrev Plan := List Operation

namespace Plan

/-- The plan that a table describes. -/
def ofToml? (toml : Toml) : Option Plan := do
  match ← toml.record? ["op"] with
  | [none] => some []
  | [some (.array items)] => items.mapM Operation.ofToml?
  | _ => none

/-- The plan that a document describes. -/
def read? (text : Text) : Option Plan := do
  ofToml? (← Toml.read? text)

/-- The plan at a path. -/
def load (tree : FileTree) (current : Location) (path : Path) : Except Failure Plan :=
  match tree.readText current path with
  | .error fault => .error (.io fault)
  | .ok text =>
    match read? text with
    | some plan => .ok plan
    | none => .error (.configuration ("invalid plan " ++ path.text ++ ": no list of operations"))

/-- Carries out the operations of a plan in order up to the first that fails, and says how many
there were. -/
def run (checkout : Checkout) (current : Location) (tree : FileTree) :
    Plan → FileTree × Except Failure Nat
  | [] => (tree, .ok 0)
  | operation :: plan =>
    match operation.run checkout current tree with
    | (changed, .error failure) => (changed, .error failure)
    | (changed, .ok ()) =>
      match run checkout current changed plan with
      | (last, .ok count) => (last, .ok (count + 1))
      | (last, .error failure) => (last, .error failure)

end Plan

end EngineUpkeep
