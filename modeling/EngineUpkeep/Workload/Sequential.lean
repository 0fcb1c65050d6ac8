import EngineUpkeep.Workload.Basic

/-!
# Sequential runs

One batch after the other. The flag is looked at before and after each batch, so that batch number
`k`, counted from zero, comes between look `2 k` and look `2 k + 1`. A batch whose second look finds
the flag up is not counted.
-/

namespace EngineUpkeep

namespace Workload

/-- The line that says how many files there are. -/
def sequentialHeading (workload : Workload) (files batches : Nat) : Text :=
  workload.full ("Running clang-tidy on " ++ Text.ofNat files ++ " file(s) in " ++
      Text.ofNat batches ++ " batch(es)...\n\n") ++
    workload.short ("Analyzing " ++ Text.ofNat files ++ " file(s)...")

/-- The line that says which batch is next. -/
def batchLine (workload : Workload) (number count size : Nat) : Text :=
  workload.full ("Batch " ++ Text.ofNat number ++ "/" ++ Text.ofNat count ++ ": " ++
    Text.ofNat size ++ " file(s)...\n")

/-- Runs over the batches that are left, where `passed` batches of `count` are behind. -/
def sequentialFrom {State : Type} (workload : Workload) (analyzer : Analyzer State)
    (interruption : Interruption) (count : Nat) : Nat → Tally → State → List Batch → Run State
  | _, tally, state, [] => ⟨tally.outcome, [], workload.doneLine, state⟩
  | passed, tally, state, batch :: rest =>
    if interruption.isUp (2 * passed) passed then ⟨.interrupted, [], [], state⟩
    else
      let line := workload.batchLine (passed + 1) count batch.length
      let (reply, state) := analyzer batch state
      if interruption.isUp (2 * passed + 1) (passed + 1) then
        ⟨.interrupted, [batch], line, state⟩
      else
        -- The last batch is followed by the end of the line in place of a dot.
        let dot := if rest = [] then [] else workload.short "."
        Run.after [batch] (line ++ dot)
          (sequentialFrom workload analyzer interruption count (passed + 1)
            (tally.add (workload.findings reply)) state rest)

/-- A sequential run. -/
def runInTurn {State : Type} (workload : Workload) (analyzer : Analyzer State)
    (interruption : Interruption) (files : List Text) (state : State) : Run State :=
  let batches := workload.batches files
  Run.after [] (workload.sequentialHeading files.length batches.length)
    (workload.sequentialFrom analyzer interruption batches.length 0 {} state batches)

end Workload

end EngineUpkeep
