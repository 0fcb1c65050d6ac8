import EngineUpkeep.Proofs.Workload.Sequential

/-!
# Pooled and sequential runs agree

Both kinds of run are brought to one form: the run is interrupted exactly if the flag would be up
after calls on all batches, and else it has the tally of all batches in order
(`outcome_runPooled`, `outcome_runInTurn`). So the number of workers and the order of their steps
make no difference to the outcome.

The flag may be up from the start, or go up in any call, or never. A pooled run that stops early has
fewer calls than batches, but only because it has found the flag up.
-/

namespace EngineUpkeep

namespace Workload

variable {State : Type} {analyzer : Analyzer State} {answer : Batch → Reply}

/-- What a run over files comes to: interrupted if the flag is up after a call on every batch, else
the tally of all batches. -/
def outcomeOf (workload : Workload) (answer : Batch → Reply) (interruption : Interruption)
    (files : List Text) : Outcome :=
  if interruption.isUp 0 (workload.batches files).length = true then .interrupted
  else (workload.tallyFrom answer {} (workload.batches files)).outcome

/-- Files make at least one batch. -/
theorem batches_ne_nil (workload : Workload) {files : List Text} (hfiles : files ≠ []) :
    workload.batches files ≠ [] := by
  intro hnil
  have hflatten := Batch.flatten_batches workload.batchSize files
  rw [← batches, hnil, List.flatten_nil] at hflatten
  exact hfiles hflatten.symm

theorem outcome_runInTurn (hanswer : analyzer.Answers answer) (workload : Workload) (up : Bool)
    (call? : Option Nat) {files : List Text} (hfiles : files ≠ []) (state : State) :
    (workload.runInTurn analyzer (.fromStart up call?) files state).outcome =
      workload.outcomeOf answer (.fromStart up call?) files := by
  have hup : ∀ looks calls, (Interruption.fromStart up call?).isUp looks calls =
      (Interruption.fromStart up call?).isUp 0 calls := by
    intro looks calls
    rw [Interruption.isUp_fromStart, Interruption.isUp_fromStart]
  rw [runInTurn, Run.after, outcome_sequentialFrom hanswer workload hup, outcomeOf, Nat.zero_add]
  simp [workload.batches_ne_nil hfiles]

theorem outcome_runPooled (hanswer : analyzer.Answers answer) (workload : Workload) (up : Bool)
    (call? : Option Nat) {schedule : List Step} (files : List Text)
    (hcovers : Pool.Covers (workload.batches files).length schedule) (state : State) :
    (workload.runPooled analyzer (.fromStart up call?) schedule files state).outcome =
      workload.outcomeOf answer (.fromStart up call?) files := by
  have hconsistent : Pool.Consistent (.fromStart up call?) (workload.batches files)
      ((Pool.start (workload.batches files) state).follow workload analyzer
        (.fromStart up call?) schedule) :=
    (Pool.consistent_start _ _ _).follow schedule
  have hle := hconsistent.length_calls_le
  rw [outcomeOf, tallyFrom_empty]
  rcases Pool.outcome_follow hanswer (.fromStart up call?) (workload.batches files) hcovers state
    with ⟨hflag, houtcome⟩ | ⟨hflag, hcalls, houtcome⟩
  · -- The calls that were made raised the flag, so calls on all batches would have raised it.
    rw [Interruption.isUp_fromStart] at hflag
    have hall : (Interruption.fromStart up call?).isUp 0 (workload.batches files).length = true :=
      Interruption.isUp_of_le (Nat.le_refl 0) hle (by rw [Interruption.isUp_fromStart, hflag])
    rw [if_pos hall]
    exact houtcome
  · -- Every batch was called, so the flag stays down after calls on all of them.
    rw [Interruption.isUp_fromStart, hcalls.length_eq, ← Interruption.isUp_fromStart up call? 0]
      at hflag
    rw [if_neg (by rw [hflag]; exact Bool.false_ne_true)]
    exact houtcome

/-- A run over files has the same outcome with any number of workers, under any schedule of their
steps that takes up every batch, as with one worker. -/
theorem outcome_runUnder_eq_of_jobs (hanswer : analyzer.Answers answer) (workload : Workload)
    (up : Bool) (call? : Option Nat) {schedule : List Step} (files : List Text)
    (hcovers : Pool.Covers (workload.batches files).length schedule) (state : State)
    (schedule₁ : List Step) (state₁ : State) :
    (workload.runUnder analyzer (.fromStart up call?) schedule files state).outcome =
      ({ workload with jobs := 1 }.runUnder analyzer (.fromStart up call?) schedule₁ files
        state₁).outcome := by
  by_cases hfiles : files = []
  · rw [runUnder, runUnder, if_pos hfiles, if_pos hfiles]
  · have hone : ¬ 1 < ({ workload with jobs := 1 } : Workload).workers := by simp [workers]
    have hsequential := outcome_runInTurn hanswer { workload with jobs := 1 } up call? hfiles state₁
    rw [runUnder, runUnder, if_neg hfiles, if_neg hfiles, if_neg hone, hsequential]
    by_cases hjobs : 1 < workload.workers
    · rw [if_pos hjobs, outcome_runPooled hanswer workload up call? files hcovers state]
      rfl
    · rw [if_neg hjobs, outcome_runInTurn hanswer workload up call? hfiles state]
      rfl

/-- Three batches, whose steps three workers mix, while the second call raises the flag. -/
theorem outcome_runUnder_three_batches :
    let workload : Workload := { root := ⟨"/p"⟩, batchSize := 1, jobs := 3 }
    let analyzer : Analyzer Unit := .ofAnswers fun batch => ⟨batch.length, []⟩
    let schedule : List Step := [.look 2, .look 0, .call 2, .look 1, .call 1, .call 0]
    analyzer.Answers (fun batch => ⟨batch.length, []⟩) ∧
      Pool.Covers (workload.batches [['a'], ['b'], ['c']]).length schedule ∧
      (workload.runUnder analyzer (.fromStart false (some 2)) schedule [['a'], ['b'], ['c']]
          ()).outcome =
        ({ workload with jobs := 1 }.runUnder analyzer (.fromStart false (some 2)) []
          [['a'], ['b'], ['c']] ()).outcome := by
  intro workload analyzer schedule
  have hanswer : analyzer.Answers fun batch => ⟨batch.length, []⟩ := fun _ _ => rfl
  have hcovers : Pool.Covers (workload.batches [['a'], ['b'], ['c']]).length schedule := by decide
  exact ⟨hanswer, hcovers,
    outcome_runUnder_eq_of_jobs hanswer workload false (some 2) _ hcovers () [] ()⟩

end Workload

end EngineUpkeep
