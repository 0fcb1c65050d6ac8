import EngineUpkeep.Analysis
import EngineUpkeep.CommandLine.Analyze
import EngineUpkeep.CommandLine.Unify

/-!
# The programs

The two programs of the library, from the words of a command line to an exit code: one analyzes a
project, the other moves files to the core tree. A program that fails says why on its errors and
ends with exit code one.
-/

namespace EngineUpkeep

/-- What is left when a program has ended. -/
structure Completion where
  /-- The exit code. -/
  exitCode : Int
  /-- Why the program has failed, if it has. -/
  failure? : Option Failure := none
  /-- What was printed to the output. -/
  output : Text := []
  /-- What was printed to the errors. -/
  errors : Text := []
  /-- The file tree. -/
  tree : FileTree

namespace Completion

/-- The completion of a program that fails. -/
def failed (tree : FileTree) (failure : Failure) : Completion :=
  { exitCode := 1, failure? := some failure, errors := failure.report ++ "\n", tree }

/-- The completion of a program whose command line is refused. -/
def refused (tree : FileTree) (refusal : CommandLine.Refusal) : Completion :=
  { exitCode := refusal.exitCode, output := refusal.output, tree }

/-- The completion of a program that prints a line and succeeds. -/
def succeeded (tree : FileTree) (line : Text) : Completion :=
  { exitCode := 0, output := line ++ "\n", tree }

end Completion

namespace Program

/-- Analyzes a project, with as many workers as `defaultJobs` if their number is not given. -/
def analyze (host : Host) (defaultJobs : Nat) (interruption : Interruption)
    (words : List Text) : Completion :=
  match CommandLine.Analyze.read words with
  | .error refusal => .refused host.tree refusal
  | .ok arguments =>
    match Project.resolve host.tree host.current arguments.projectRoot? with
    | .error failure => .failed host.tree failure
    | .ok project =>
      let session := Analysis.run host project (arguments.request defaultJobs) interruption
      match session.result with
      | .ok exitCode =>
        { exitCode, output := session.output, errors := session.errors, tree := session.tree }
      | .error failure =>
        { Completion.failed session.tree failure with
          output := session.output
          errors := session.errors ++ failure.report ++ "\n" }

/-- The line that tells of an operation. -/
def operationLine (project : Project) (operation : Operation) : Text :=
  let verb : Text := match operation.kind with
    | .unify => "Unified "
    | .move => "Moved "
  verb ++ operation.file ++ " -> " ++ project.settings.unify.coreDirectory ++ "/" ++
    operation.destination

/-- Carries out what a command line asks for in a project. -/
def carryOut (tree : FileTree) (current : Location) (project : Project) :
    CommandLine.Unify.Command → Completion
  | .operation operation =>
    match operation.run (Checkout.ofProject project) current tree with
    | (changed, .ok ()) => .succeeded changed (operationLine project operation)
    | (changed, .error failure) => .failed changed failure
  | .plan path =>
    match Plan.load tree current path with
    | .error failure => .failed tree failure
    | .ok plan =>
      match plan.run (Checkout.ofProject project) current tree with
      | (changed, .ok count) =>
        .succeeded changed ("Applied " ++ Text.ofNat count ++ " operation(s)")
      | (changed, .error failure) => .failed changed failure

/-- Moves files of a project to the core tree. -/
def unify (tree : FileTree) (current : Location) (words : List Text) : Completion :=
  match CommandLine.Unify.read words with
  | .error refusal => .refused tree refusal
  | .ok arguments =>
    match Project.resolve tree current arguments.root? with
    | .error failure => .failed tree failure
    | .ok project => carryOut tree current project arguments.command

end Program

end EngineUpkeep
