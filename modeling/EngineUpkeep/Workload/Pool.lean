import EngineUpkeep.Workload.Sequential

/-!
# Runs with several workers

Each batch goes through two steps of a worker: the worker looks at the flag, and if it is down the
analyzer runs on the batch. A schedule is a list of such steps in the order in which they happen;
steps of different batches may come in any order. A step that does not fit the stage of its batch
does nothing.

A run follows a schedule, looks at the flag a last time, and puts the results together in the order
of the batches.
-/

namespace EngineUpkeep

/-- How far a batch has come. -/
inductive Stage where
  /-- No worker has looked at the flag for it. -/
  | waiting
  /-- A worker has found the flag down and will run the analyzer. -/
  | cleared
  /-- A worker has found the flag up. -/
  | skipped
  /-- The analyzer has run. -/
  | finished (result : Findings)

/-- A step of a worker, with the place of the batch. -/
inductive Step where
  /-- Looks at the flag. -/
  | look (place : Nat)
  /-- Runs the analyzer. -/
  | call (place : Nat)
deriving DecidableEq, Repr

/-- The workers' common state. -/
structure Pool (State : Type) where
  /-- The batches in order, each with its stage. -/
  stages : List (Batch × Stage)
  /-- How often the flag was looked at. -/
  looks : Nat
  /-- The batches that the analyzer was called on, in the order of the calls. -/
  calls : List Batch
  /-- The state that the analyzer has left. -/
  state : State

namespace Pool

variable {State : Type}

/-- The pool before the first step. -/
def start (batches : List Batch) (state : State) : Pool State :=
  ⟨batches.map fun batch => (batch, .waiting), 0, [], state⟩

/-- The pool with a new stage for the batch at a place. -/
def setStage (pool : Pool State) (place : Nat) (batch : Batch) (stage : Stage) : Pool State :=
  { pool with stages := pool.stages.set place (batch, stage) }

/-- Carries out one step. -/
def step (workload : Workload) (analyzer : Analyzer State) (interruption : Interruption)
    (pool : Pool State) : Step → Pool State
  | .look place =>
    match pool.stages[place]? with
    | some (batch, .waiting) =>
      let stage := if interruption.isUp pool.looks pool.calls.length then .skipped else .cleared
      { pool.setStage place batch stage with looks := pool.looks + 1 }
    | _ => pool
  | .call place =>
    match pool.stages[place]? with
    | some (batch, .cleared) =>
      let (reply, state) := analyzer batch pool.state
      { pool.setStage place batch (.finished (workload.findings reply)) with
        calls := pool.calls ++ [batch], state }
    | _ => pool

/-- Carries out the steps of a schedule. -/
def follow (workload : Workload) (analyzer : Analyzer State) (interruption : Interruption)
    (pool : Pool State) (schedule : List Step) : Pool State :=
  schedule.foldl (step workload analyzer interruption) pool

/-- The result of a batch that the analyzer has run on. -/
def resultOf? : Batch × Stage → Option Findings
  | (_, .finished result) => some result
  | _ => none

/-- The results of all batches in order, if the analyzer has run on all of them. -/
def results? (pool : Pool State) : Option (List Findings) :=
  pool.stages.mapM resultOf?

/-- What comes of a pool after the last step. -/
def outcome (interruption : Interruption) (pool : Pool State) : Outcome :=
  if interruption.isUp pool.looks pool.calls.length then .interrupted
  else match pool.results? with
    | some results => (Tally.ofResults results).outcome
    -- A batch was skipped, although the flag is down at the last look; a flag stays up, so this
    -- happens only if the schedule does not settle every batch.
    | none => .interrupted

/-- The schedule of one worker that takes the batches in order. -/
def inOrder (count : Nat) : List Step :=
  (List.range count).flatMap fun place => [.look place, .call place]

end Pool

namespace Workload

variable {State : Type}

/-- The line that says how many files and workers there are. -/
def parallelHeading (workload : Workload) (files batches : Nat) : Text :=
  workload.full ("Running clang-tidy on " ++ Text.ofNat files ++ " file(s) in " ++
      Text.ofNat batches ++ " batch(es) with " ++ Text.ofNat workload.workers ++
      " workers...\n\n") ++
    workload.short ("Analyzing " ++ Text.ofNat files ++ " file(s) with " ++
      Text.ofNat workload.workers ++ " workers...")

/-- A run with several workers whose steps happen as a schedule says. -/
def runPooled (workload : Workload) (analyzer : Analyzer State) (interruption : Interruption)
    (schedule : List Step) (files : List Text) (state : State) : Run State :=
  let batches := workload.batches files
  let pool := (Pool.start batches state).follow workload analyzer interruption schedule
  let outcome := pool.outcome interruption
  let ending := match outcome with
    | .completed _ _ => workload.doneLine
    | _ => []
  ⟨outcome, pool.calls, workload.parallelHeading files.length batches.length ++ ending,
    pool.state⟩

/-- A run over files, with several workers if there are several. -/
def runUnder (workload : Workload) (analyzer : Analyzer State) (interruption : Interruption)
    (schedule : List Step) (files : List Text) (state : State) : Run State :=
  if files = [] then ⟨.noFiles, [], [], state⟩
  else if 1 < workload.workers then
    workload.runPooled analyzer interruption schedule files state
  else workload.runInTurn analyzer interruption files state

/-- A run over files in which the workers take the batches in order. -/
def run (workload : Workload) (analyzer : Analyzer State) (interruption : Interruption)
    (files : List Text) (state : State) : Run State :=
  workload.runUnder analyzer interruption (Pool.inOrder (workload.batches files).length) files
    state

end Workload

end EngineUpkeep
