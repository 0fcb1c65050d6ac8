import EngineUpkeep.Analysis
import EngineUpkeep.Proofs.Workload.Pool
import EngineUpkeep.Proofs.Workload.Sequential

/-!
# What a run starts

The calls that a run tells are those that it has made: they lead, one after the other, from the
state before the run to the state after it (`Workload.final_runUnder`). For the analyzer of a host
this says that the program was started once with the arguments for each of these batches, in this
order, and that the run has started nothing else (`Invocation.final_runUnder`). A program may do
anything to the file tree, so it may also keep there, on some host, a list of its starts.

Before its run a session starts programs only to find the analyzer and to learn its version
(`Analysis.StartsEach`).
-/

namespace EngineUpkeep

/-! ## Calls and the state that they leave -/

section Calls

variable {State : Type} {analyzer : Analyzer State}

/-- The state that calls on batches leave, one after the other. -/
def Analyzer.after (analyzer : Analyzer State) : List Batch → State → State
  | [], state => state
  | batch :: rest, state => after analyzer rest (analyzer batch state).2

theorem Analyzer.after_append (analyzer : Analyzer State) (earlier later : List Batch)
    (state : State) :
    analyzer.after (earlier ++ later) state =
      analyzer.after later (analyzer.after earlier state) := by
  induction earlier generalizing state with
  | nil => rfl
  | cons batch earlier ih => exact ih (analyzer batch state).2

/-- If the calls of a pool have left its state, so have they after a step of a worker: the step
makes no call, or it tells the one that it makes. -/
theorem Pool.state_step {pool : Pool State} {start : State}
    (h : pool.state = analyzer.after pool.calls start) (workload : Workload)
    (interruption : Interruption) (step : Step) :
    (pool.step workload analyzer interruption step).state =
      analyzer.after (pool.step workload analyzer interruption step).calls start := by
  obtain heq | ⟨_, _, _, -, heq⟩ | ⟨_, batch, _, -, heq⟩ :=
    step_cases workload analyzer interruption pool step
  · rwa [heq]
  · rwa [heq]
  · rw [heq, Analyzer.after_append, ← h]
    rfl

theorem Pool.state_follow {pool : Pool State} {start : State}
    (h : pool.state = analyzer.after pool.calls start) (workload : Workload)
    (interruption : Interruption) (schedule : List Step) :
    (pool.follow workload analyzer interruption schedule).state =
      analyzer.after (pool.follow workload analyzer interruption schedule).calls start := by
  induction schedule generalizing pool with
  | nil => exact h
  | cons step schedule ih =>
    rw [follow, List.foldl_cons]
    exact ih (state_step h workload interruption step)

theorem Workload.final_sequentialFrom (workload : Workload) (interruption : Interruption)
    (count passed : Nat) (tally : Tally) (state : State) (rest : List Batch) :
    (workload.sequentialFrom analyzer interruption count passed tally state rest).final =
      analyzer.after
        (workload.sequentialFrom analyzer interruption count passed tally state rest).calls
        state := by
  induction rest generalizing passed tally state with
  | nil => rfl
  | cons batch rest ih =>
    rw [sequentialFrom_cons]
    split
    · rfl
    · split
      · rfl
      · exact ih (passed + 1) _ (analyzer batch state).2

/-- A run leaves the state that its calls lead to. -/
theorem Workload.final_runUnder (workload : Workload) (analyzer : Analyzer State)
    (interruption : Interruption) (schedule : List Step) (files : List Text) (state : State) :
    (workload.runUnder analyzer interruption schedule files state).final =
      analyzer.after (workload.runUnder analyzer interruption schedule files state).calls
        state := by
  unfold runUnder
  split
  · rfl
  split
  · exact Pool.state_follow rfl workload interruption schedule
  · exact workload.final_sequentialFrom interruption _ 0 {} state _

end Calls

/-! ## Starts on a host -/

/-- The host that is left when a program has been started once with each of some lists of arguments,
one after the other. -/
def Host.launchEach (directory? : Option Path) (exe : Text) : List (List Text) → Host → Host
  | [], host => host
  | arguments :: rest, host =>
    launchEach directory? exe rest (host.launch directory? exe arguments).2

namespace Invocation

theorem after_run (invocation : Invocation) (batches : List Batch) (host : Host) :
    Analyzer.after invocation.run batches host =
      host.launchEach (some invocation.root) invocation.exe
        (batches.map invocation.arguments) := by
  induction batches generalizing host with
  | nil => rfl
  | cons batch batches ih =>
    exact ih (host.launch (some invocation.root) invocation.exe (invocation.arguments batch)).2

/-- A run has started the program once with the arguments for each batch of its calls, and nothing
else. -/
theorem final_runUnder (invocation : Invocation) (workload : Workload)
    (interruption : Interruption) (schedule : List Step) (files : List Text) (host : Host) :
    (workload.runUnder invocation.run interruption schedule files host).final =
      host.launchEach (some invocation.root) invocation.exe
        ((workload.runUnder invocation.run interruption schedule files host).calls.map
          invocation.arguments) := by
  rw [workload.final_runUnder, after_run]

end Invocation

namespace Analysis

/-- A session has found the analyzer, has started it in the project root once with each list of
arguments that it tells, in their order, and has started nothing after that. Before that, programs
were only asked for their version. -/
def StartsEach (host : Host) (project : Project) (options : AnalysisOptions) (session : Session) :
    Prop :=
  ∃ exe left, Tool.find host project.settings.analysis = (.ok exe, left) ∧
    let start := (pluginNotices left project options exe (plugin? left project options)).2
    session.tree = (start.launchEach (some project.root) exe session.invocations).tree

/-- The end of a session leaves the file tree as it is. -/
theorem tree_conclude (tree : FileTree) (json : Bool) (outcome : Outcome) :
    (conclude tree json outcome).tree = tree := by
  cases outcome with
  | completed exitCode report => rfl
  | _ => cases json <;> rfl

/-- The session of a run leaves the tree to which the starts lead that it tells. -/
theorem tree_ofRun (json : Bool) (invocation : Invocation) (workload : Workload)
    (interruption : Interruption) (schedule : List Step) (files : List Text) (host : Host) :
    let session := ofRun json invocation
      (workload.runUnder invocation.run interruption schedule files host)
    session.tree =
      (host.launchEach (some invocation.root) invocation.exe session.invocations).tree := by
  intro session
  have htree : session.tree =
      (workload.runUnder invocation.run interruption schedule files host).final.tree :=
    tree_conclude ..
  rw [htree, invocation.final_runUnder]
  rfl

end Analysis

end EngineUpkeep
