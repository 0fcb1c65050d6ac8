import EngineUpkeep.Proofs.Workload.Agreement
import EngineUpkeep.Proofs.Workload.Coverage

/-!
# What a run does not depend on

A run is the same for every way to represent the state of its analyzer (`runUnder_mapState`). If the
replies depend on the batch alone and the flag is up from the start or not at all, the outcome of a
run and the batches that it calls do not depend on the schedule or on whether progress is printed
(`outcome_runUnder`, `calls_runUnder`).
-/

namespace EngineUpkeep

variable {State State' : Type} {workload : Workload} {analyzer : Analyzer State}
  {analyzer' : Analyzer State'} {interruption : Interruption} {view : State → State'}

/-- The run with another view of the state that the analyzer has left. -/
def Run.mapState (view : State → State') (run : Run State) : Run State' :=
  ⟨run.outcome, run.calls, run.printed, view run.final⟩

/-- The pool with another view of the state that the analyzer has left. -/
def Pool.mapState (view : State → State') (pool : Pool State) : Pool State' :=
  ⟨pool.stages, pool.looks, pool.calls, view pool.state⟩

/-- Two analyzers do the same on two views of a state. -/
def Analyzer.SameUnder (analyzer : Analyzer State) (analyzer' : Analyzer State')
    (view : State → State') : Prop :=
  ∀ batch state, analyzer' batch (view state) =
    ((analyzer batch state).1, view (analyzer batch state).2)

section View

variable (hsame : analyzer.SameUnder analyzer' view)
include hsame

theorem Pool.step_mapState (pool : Pool State) (step : Step) :
    (pool.mapState view).step workload analyzer' interruption step =
      (pool.step workload analyzer interruption step).mapState view := by
  have hstages : (pool.mapState view).stages = pool.stages := rfl
  cases step with
  | look place =>
    rw [Pool.step, Pool.step, hstages]
    rcases pool.stages[place]? with _ | ⟨batch, stage⟩
    · rfl
    · cases stage <;> rfl
  | call place =>
    rw [Pool.step, Pool.step, hstages]
    rcases pool.stages[place]? with _ | ⟨batch, stage⟩
    · rfl
    · cases stage with
      | cleared =>
        have hcall : analyzer' batch (pool.mapState view).state = _ := hsame batch pool.state
        dsimp only
        rw [hcall]
        rfl
      | _ => rfl

theorem Pool.follow_mapState (pool : Pool State) (schedule : List Step) :
    (pool.mapState view).follow workload analyzer' interruption schedule =
      (pool.follow workload analyzer interruption schedule).mapState view := by
  induction schedule generalizing pool with
  | nil => rfl
  | cons step schedule ih =>
    rw [follow, List.foldl_cons, step_mapState hsame]
    exact ih _

theorem Workload.sequentialFrom_mapState (count passed : Nat) (tally : Tally) (state : State)
    (rest : List Batch) :
    workload.sequentialFrom analyzer' interruption count passed tally (view state) rest =
      (workload.sequentialFrom analyzer interruption count passed tally state rest).mapState view := by
  induction rest generalizing passed tally state with
  | nil => rfl
  | cons batch rest ih =>
    rw [sequentialFrom_cons, sequentialFrom_cons, hsame batch state]
    split
    · rfl
    · split
      · rfl
      · rw [ih]
        rfl

/-- A run is the same under every view of the state. -/
theorem Workload.runUnder_mapState (schedule : List Step) (files : List Text) (state : State) :
    workload.runUnder analyzer' interruption schedule files (view state) =
      (workload.runUnder analyzer interruption schedule files state).mapState view := by
  rw [runUnder, runUnder]
  split
  · rfl
  · split
    · have hstart : Pool.start (workload.batches files) (view state) =
          (Pool.start (workload.batches files) state).mapState view := rfl
      rw [runPooled, runPooled, hstart, Pool.follow_mapState hsame]
      rfl
    · rw [runInTurn, runInTurn, sequentialFrom_mapState hsame]
      rfl

end View

/-! ## Schedules that take up every batch -/

namespace Pool

/-- The schedule of workers that all look at the flag before the first of them runs the analyzer. -/
def looksFirst (count : Nat) : List Step :=
  (List.range count).map .look ++ (List.range count).map .call

theorem covers_inOrder (count : Nat) : Covers count (inOrder count) := by
  intro place hplace
  exact List.sublist_flatten_of_mem (List.mem_map_of_mem (List.mem_range.2 hplace))

theorem covers_looksFirst (count : Nat) : Covers count (looksFirst count) := by
  intro place hplace
  have hmem := List.mem_range.2 hplace
  exact (List.singleton_sublist.2 (List.mem_map_of_mem hmem)).append
    (List.singleton_sublist.2 (List.mem_map_of_mem hmem))

end Pool

namespace Workload

/-! ## Progress -/

theorem short_of_silent (hsilent : workload.progress = false) (text : Text) :
    workload.short text = [] := by
  rw [short, hsilent]
  rfl

theorem full_of_silent (hsilent : workload.progress = false) (text : Text) :
    workload.full text = [] := by
  rw [full, hsilent]
  rfl

theorem printed_sequentialFrom (hsilent : workload.progress = false) (count passed : Nat)
    (tally : Tally) (state : State) (rest : List Batch) :
    (workload.sequentialFrom analyzer interruption count passed tally state rest).printed = [] := by
  induction rest generalizing passed tally state with
  | nil => exact short_of_silent hsilent _
  | cons batch rest ih =>
    rw [sequentialFrom_cons]
    split
    · rfl
    · split
      · exact full_of_silent hsilent _
      · rw [Run.after, ih, batchLine, full_of_silent hsilent, short_of_silent hsilent, ite_self]
        rfl

/-- A run that is not asked for progress prints nothing. -/
theorem printed_runUnder (hsilent : workload.progress = false) (schedule : List Step)
    (files : List Text) (state : State) :
    (workload.runUnder analyzer interruption schedule files state).printed = [] := by
  rw [runUnder]
  split
  · rfl
  · split
    · rw [runPooled, parallelHeading, full_of_silent hsilent, short_of_silent hsilent, doneLine,
        short_of_silent hsilent]
      dsimp only
      split <;> rfl
    · rw [runInTurn, Run.after, printed_sequentialFrom hsilent, sequentialHeading,
        full_of_silent hsilent, short_of_silent hsilent]
      rfl

/-! ## Runs whose flag is set at the start -/

/-- The outcome of a run under a schedule that takes up every batch. -/
theorem outcome_runUnder {answer : Batch → Reply} (hanswer : analyzer.Answers answer)
    (workload : Workload) (up : Bool) (call? : Option Nat) {schedule : List Step}
    {files : List Text} (hfiles : files ≠ [])
    (hcovers : Pool.Covers (workload.batches files).length schedule) (state : State) :
    (workload.runUnder analyzer (.fromStart up call?) schedule files state).outcome =
      workload.outcomeOf answer (.fromStart up call?) files := by
  rw [runUnder, if_neg hfiles]
  split
  · exact outcome_runPooled hanswer workload up call? files hcovers state
  · exact outcome_runInTurn hanswer workload up call? hfiles state

/-- The batches that a run calls under a schedule that takes up every batch: all or none. -/
theorem calls_runUnder {answer : Batch → Reply} (hanswer : analyzer.Answers answer)
    (workload : Workload) (up : Bool) {schedule : List Step} {files : List Text}
    (hfiles : files ≠ []) (hcovers : Pool.Covers (workload.batches files).length schedule)
    (state : State) :
    (workload.runUnder analyzer (.ofStart up) schedule files state).calls.Perm
        (if up then [] else workload.batches files) ∧
      (workload.jobs ≤ 1 →
        (workload.runUnder analyzer (.ofStart up) schedule files state).calls =
          if up then [] else workload.batches files) := by
  have hstart : Interruption.ofStart up = .fromStart up none := rfl
  rw [hstart]
  cases up with
  | true =>
    have hup : ∀ looks calls, (Interruption.fromStart true none).isUp looks calls = true := by
      intro looks calls
      rw [Interruption.isUp_fromStart]
      rfl
    have hcalls : (workload.runUnder analyzer (.fromStart true none) schedule files state).calls =
        [] := workload.calls_of_isUp hup schedule files state
    exact ⟨.of_eq hcalls, fun _ => hcalls⟩
  | false =>
    have houtcome := outcome_runUnder hanswer workload false none hfiles hcovers state
    rw [outcomeOf, Interruption.isUp_fromStart] at houtcome
    exact workload.calls_of_completed houtcome

end Workload

end EngineUpkeep
