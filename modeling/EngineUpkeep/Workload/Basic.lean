import EngineUpkeep.Workload.Batches
import EngineUpkeep.Report.Basic

/-!
# Workloads

What a run over batches consists of: an analyzer that answers each batch, an interrupt flag, and an
outcome. An analyzer may change a state, of any type, that its later answers depend on.

Whether a run is sequential or has several workers, it looks at the flag at certain moments; the
flag is up from some look on, or after some call of the analyzer, and never goes down.
-/

namespace EngineUpkeep

/-- What the analyzer gives for a batch. -/
structure Reply where
  /-- The exit code. -/
  exitCode : Int
  /-- What was printed. -/
  text : Text
deriving DecidableEq, Repr

/-- An analyzer answers a batch, and may change the state that its answer depends on. -/
abbrev Analyzer (State : Type) := Batch → State → Reply × State

/-- The analyzer whose answers depend on the batch alone. -/
def Analyzer.ofAnswers {State : Type} (answer : Batch → Reply) : Analyzer State :=
  fun batch state => (answer batch, state)

/-- When the interrupt flag goes up. -/
structure Interruption where
  /-- The look, counted from zero, before which the flag is raised from outside. -/
  beforeLook? : Option Nat := none
  /-- The call of the analyzer, counted from one, in which the flag is raised. -/
  inCall? : Option Nat := none
deriving DecidableEq, Repr

/-- The flag is up at a look that comes after some looks and calls. A call that is asked to raise
the flag before the first one raises it in the first one. -/
def Interruption.isUp (interruption : Interruption) (looks calls : Nat) : Bool :=
  interruption.beforeLook?.any (· ≤ looks) ||
    interruption.inCall?.any fun call => max call 1 ≤ calls

/-- The flag never goes up. -/
def Interruption.never : Interruption := {}

/-- The flag is up from the start, or not, and no call raises it. -/
def Interruption.ofStart (up : Bool) : Interruption :=
  { beforeLook? := if up then some 0 else none }

/-- How files are shared out over runs of an analyzer. -/
structure Workload where
  /-- The root directory of the project. -/
  root : Path
  /-- How many files a batch should have. -/
  batchSize : Nat := batchSizeLimit
  /-- How many workers there are. -/
  jobs : Nat := 1
  /-- Every line about a source is reported, and progress is told batch by batch. -/
  verbose : Bool := false
  /-- Progress is printed. -/
  progress : Bool := true

/-- What comes of a run. -/
inductive Outcome where
  /-- There was nothing to analyze. -/
  | noFiles
  /-- The flag was up. -/
  | interrupted
  /-- All batches were analyzed. -/
  | completed (exitCode : Int) (report : Report)
deriving DecidableEq

/-- A run with what can be seen of it. -/
structure Run (State : Type) where
  /-- What comes of the run. -/
  outcome : Outcome
  /-- The batches that the analyzer was called on, in the order of the calls. -/
  calls : List Batch
  /-- The progress that was printed. -/
  printed : Text
  /-- The state that the analyzer has left. -/
  final : State

/-- The run with calls and progress that came before it. -/
def Run.after {State : Type} (calls : List Batch) (printed : Text) (run : Run State) :
    Run State :=
  { run with calls := calls ++ run.calls, printed := printed ++ run.printed }

/-- What is known about a batch after the analyzer has run on it. -/
structure Findings where
  /-- The exit code. -/
  exitCode : Int
  /-- The issues that the analyzer printed. -/
  issues : Issues

/-- The exit code and the report of the batches up to now. -/
structure Tally where
  /-- The first exit code that is not zero, or zero. -/
  exitCode : Int := 0
  /-- The issues of all batches. -/
  report : Report := .empty

namespace Tally

/-- Adds the result of the next batch. -/
def add (tally : Tally) (result : Findings) : Tally :=
  { exitCode := if tally.exitCode = 0 then result.exitCode else tally.exitCode
    report := tally.report.merge result.issues }

/-- The tally of results in order. -/
def ofResults (results : List Findings) : Tally :=
  results.foldl add {}

/-- The outcome of a run that has analyzed all batches. -/
def outcome (tally : Tally) : Outcome :=
  .completed tally.exitCode tally.report

end Tally

namespace Workload

/-- The batches that the files make. -/
def batches (workload : Workload) (files : List Text) : List Batch :=
  Batch.batches workload.batchSize files

/-- The number of workers, at least one. -/
def workers (workload : Workload) : Nat :=
  max workload.jobs 1

/-- What a reply says about a batch. -/
def findings (workload : Workload) (reply : Reply) : Findings :=
  { exitCode := reply.exitCode
    issues := Issues.ofOutput workload.root workload.verbose reply.text }

/-- Progress in short, if it is wanted so. -/
def short (workload : Workload) (text : Text) : Text :=
  if workload.progress && !workload.verbose then text else []

/-- Progress in full, if it is wanted so. -/
def full (workload : Workload) (text : Text) : Text :=
  if workload.progress && workload.verbose then text else []

/-- The end of the short progress. -/
def doneLine (workload : Workload) : Text :=
  workload.short " done.\n"

end Workload

end EngineUpkeep
