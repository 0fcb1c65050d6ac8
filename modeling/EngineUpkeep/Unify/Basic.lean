import EngineUpkeep.Unify.BuildList
import EngineUpkeep.Unify.SourceTree

/-!
# Moving files to the core tree

A file that both variants have is unified: it is switched off in the build lists of both variants
and on in that of the core tree, the copy of the other variant is deleted, and the copy that is kept
moves to the core tree. A file that one variant has is moved the same way without the steps for the
other variant.

What is asked for is checked first. Then the steps are carried out in order up to the first that
cannot be done, and those before it stay done.
-/

namespace EngineUpkeep

/-- A step of moving a file to the core tree. -/
inductive UnifyStep where
  /-- Edits the build list of a group at the lines that have an entry in them. -/
  | toggle (tree : SourceTree) (group entry : Text) (edit : LineEdit)
  /-- Deletes a file of a tree. -/
  | delete (tree : SourceTree) (file : Text)
  /-- Makes the directories above the place of a file. -/
  | prepare (tree : SourceTree) (file : Text)
  /-- Moves a file to its place in another tree. -/
  | move (source : SourceTree) (sourceFile : Text) (target : SourceTree) (targetFile : Text)
deriving DecidableEq, Repr

namespace Unify

/-- The result of a change of the file tree as that of a step. -/
def stepResult (result : Except Fault Unit) : Except Failure Unit :=
  match result with
  | .ok () => .ok ()
  | .error fault => .error (.io fault)

/-- Carries out a step. -/
def perform (checkout : Checkout) (current : Location) (tree : FileTree) :
    UnifyStep → FileTree × Except Failure Unit
  | .toggle source group entry edit =>
    match BuildList.editFile tree current (checkout.listPath source group) entry edit with
    | (changed, .ok _) => (changed, .ok ())
    | (changed, .error failure) => (changed, .error failure)
  | .delete source file =>
    match tree.delete current (checkout.pathIn source file) with
    | .ok changed => (changed, .ok ())
    | .error fault => (tree, .error (.io fault))
  | .prepare target file =>
    match (checkout.pathIn target file).parent? with
    | none => (tree, .ok ())
    | some parent =>
      let (changed, result) := tree.makeDirectories current parent
      (changed, stepResult result)
  | .move source sourceFile target targetFile =>
    let (changed, result) :=
      tree.moveEntry current (checkout.pathIn source sourceFile) (checkout.pathIn target targetFile)
    (changed, stepResult result)

/-- Carries out steps up to the first that cannot be done. -/
def performAll (checkout : Checkout) (current : Location) (tree : FileTree) :
    List UnifyStep → FileTree × Except Failure Unit
  | [] => (tree, .ok ())
  | step :: steps =>
    match perform checkout current tree step with
    | (changed, .ok ()) => performAll checkout current changed steps
    | (changed, .error failure) => (changed, .error failure)

/-- Only the core tree can be a destination. -/
def ensureCore (target : SourceTree) : Except Failure Unit :=
  if target = .core then .ok () else .error (.destinationNotCore target.name)

/-- The steps that move the kept copy. -/
def placing (source : SourceTree) (sourceFile : Text) (target : SourceTree) (targetFile : Text) :
    List UnifyStep :=
  [.prepare target targetFile, .move source sourceFile target targetFile]

/-- The steps of unifying a file. -/
def unifySteps (source : SourceTree) (sourceFile : Text) (target : SourceTree)
    (targetFile : Text) : Except Failure (List UnifyStep) := do
  ensureCore target
  -- Whatever is refused is refused here, before the first step.
  let counterpart ← source.counterpart
  let old ← ListedPath.ofText sourceFile
  let new ← ListedPath.ofText targetFile
  return [.toggle counterpart old.group old.entry .comment,
    .toggle source old.group old.entry .comment,
    .toggle target new.group new.entry .uncomment,
    .delete counterpart sourceFile] ++ placing source sourceFile target targetFile

/-- The steps of moving a file that one tree has. -/
def moveSteps (source : SourceTree) (sourceFile : Text) (target : SourceTree)
    (targetFile : Text) : Except Failure (List UnifyStep) := do
  ensureCore target
  let old ← ListedPath.ofText sourceFile
  let new ← ListedPath.ofText targetFile
  return [.toggle source old.group old.entry .comment,
    .toggle target new.group new.entry .uncomment] ++ placing source sourceFile target targetFile

/-- Carries out the steps, if what is asked for can be split into steps. -/
def performIf (checkout : Checkout) (current : Location) (tree : FileTree)
    (steps : Except Failure (List UnifyStep)) : FileTree × Except Failure Unit :=
  match steps with
  | .ok steps => performAll checkout current tree steps
  | .error failure => (tree, .error failure)

/-- Unifies a file that both variants have. -/
def unifyIntoCore (checkout : Checkout) (current : Location) (tree : FileTree) (source : SourceTree)
    (sourceFile : Text) (target : SourceTree) (targetFile : Text) :
    FileTree × Except Failure Unit :=
  performIf checkout current tree (unifySteps source sourceFile target targetFile)

/-- Moves a file that one tree has. -/
def moveIntoCore (checkout : Checkout) (current : Location) (tree : FileTree) (source : SourceTree)
    (sourceFile : Text) (target : SourceTree) (targetFile : Text) :
    FileTree × Except Failure Unit :=
  performIf checkout current tree (moveSteps source sourceFile target targetFile)

/-- Steps that come after steps that can be done are carried out on what these leave. -/
theorem performAll_append (checkout : Checkout) (current : Location) (tree : FileTree)
    (first second : List UnifyStep) :
    performAll checkout current tree (first ++ second) =
      match performAll checkout current tree first with
      | (changed, .ok ()) => performAll checkout current changed second
      | (changed, .error failure) => (changed, .error failure) := by
  induction first generalizing tree with
  | nil => rfl
  | cons step first ih =>
    rw [List.cons_append, performAll, performAll]
    rcases perform checkout current tree step with ⟨changed, failure | ⟨⟨⟩⟩⟩
    · rfl
    · exact ih changed

end Unify

end EngineUpkeep
