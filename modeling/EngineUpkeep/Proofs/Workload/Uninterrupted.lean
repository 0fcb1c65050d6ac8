import EngineUpkeep.Proofs.Workload.Invariance

/-!
# Runs that are not interrupted

If the replies of the analyzer depend on the batch alone, all runs over the same files that are not
interrupted come to the same and print the same, whatever the analyzer does to its state, whenever
the flag would go up, and in whatever order the workers take their steps: that of the plain run
(`Workload.run_of_not_interrupted`).
-/

namespace EngineUpkeep

theorem Analyzer.answers_ofAnswers {State : Type} (answer : Batch → Reply) :
    (Analyzer.ofAnswers answer : Analyzer State).Answers answer :=
  fun _ _ => rfl

namespace Workload

variable {State : Type} {analyzer : Analyzer State} {answer : Batch → Reply}
  {interruption : Interruption}

/-- The run whose analyzer has no state and whose flag is never up. -/
def plainRun (workload : Workload) (answer : Batch → Reply) (files : List Text) : Run Unit :=
  workload.run (.ofAnswers answer) .never files ()

/-- A sequential run that is not interrupted is like one whose flag is never up. -/
theorem sequentialFrom_eq_of_not_interrupted (workload : Workload) {count passed : Nat}
    {tally : Tally} {state : State} {rest : List Batch}
    (h : (workload.sequentialFrom analyzer interruption count passed tally state rest).outcome ≠
      .interrupted) :
    workload.sequentialFrom analyzer interruption count passed tally state rest =
      workload.sequentialFrom analyzer .never count passed tally state rest := by
  induction rest generalizing passed tally state with
  | nil => rfl
  | cons batch rest ih =>
    -- Neither of the two looks at this batch has found the flag up, so the run has gone on.
    have hnever : ∀ looks calls, ¬ Interruption.never.isUp looks calls = true :=
      fun _ _ => Bool.false_ne_true
    rw [sequentialFrom_cons] at h
    rw [sequentialFrom_cons, sequentialFrom_cons, if_neg (hnever _ _), if_neg (hnever _ _)]
    split at h
    · exact absurd rfl h
    · next hbefore =>
      split at h
      · exact absurd rfl h
      · next hafter => rw [if_neg hbefore, if_neg hafter, ih h]

/-- The state of an analyzer whose replies depend on the batch alone can be left out. -/
theorem sameUnder_ofAnswers (hanswer : analyzer.Answers answer) :
    analyzer.SameUnder (.ofAnswers answer) fun _ => () :=
  fun batch state => congrArg (·, ()) (hanswer batch state).symm

/-- A sequential run that is not interrupted is the plain run. -/
theorem runInTurn_of_not_interrupted (hanswer : analyzer.Answers answer) (workload : Workload)
    {files : List Text} {state : State}
    (h : (workload.runInTurn analyzer interruption files state).outcome ≠ .interrupted) :
    workload.runInTurn (.ofAnswers answer) .never files () =
      (workload.runInTurn analyzer interruption files state).mapState fun _ => () := by
  have hplain : workload.sequentialFrom (.ofAnswers answer) .never
      (workload.batches files).length 0 {} () (workload.batches files) = _ :=
    sequentialFrom_mapState (sameUnder_ofAnswers hanswer) _ _ _ state _
  rw [runInTurn, hplain, ← workload.sequentialFrom_eq_of_not_interrupted h]
  rfl

/-- The progress of a pooled run depends on nothing but its outcome. -/
theorem printed_runPooled_congr (workload : Workload) {State' : Type} {analyzer' : Analyzer State'}
    {interruption' : Interruption} {schedule schedule' : List Step} {files : List Text}
    {state : State} {state' : State'}
    (h : (workload.runPooled analyzer interruption schedule files state).outcome =
      (workload.runPooled analyzer' interruption' schedule' files state').outcome) :
    (workload.runPooled analyzer interruption schedule files state).printed =
      (workload.runPooled analyzer' interruption' schedule' files state').printed := by
  rw [runPooled, runPooled] at h ⊢
  dsimp only at h ⊢
  rw [h]

/-- A pooled run that is not interrupted has called every batch, and all replies count. -/
theorem runPooled_of_not_interrupted (hanswer : analyzer.Answers answer) (workload : Workload)
    {schedule : List Step} {files : List Text}
    (hcovers : Pool.Covers (workload.batches files).length schedule) {state : State}
    (h : (workload.runPooled analyzer interruption schedule files state).outcome ≠ .interrupted) :
    (workload.runPooled analyzer interruption schedule files state).outcome =
        (workload.tallyFrom answer {} (workload.batches files)).outcome ∧
      (workload.runPooled analyzer interruption schedule files state).calls.Perm
        (workload.batches files) := by
  rw [tallyFrom_empty]
  -- A pool is interrupted, or it has the outcome of the tally, in whatever order the steps came.
  rcases Pool.outcome_follow hanswer interruption (workload.batches files) hcovers state with
    ⟨-, houtcome⟩ | ⟨-, hperm, houtcome⟩
  · exact absurd houtcome h
  · exact ⟨houtcome, hperm⟩

/-- A pooled run whose flag is never up is not interrupted. -/
theorem outcome_runPooled_never (answer : Batch → Reply) (workload : Workload) (files : List Text) :
    (workload.runPooled (.ofAnswers answer) .never (Pool.inOrder (workload.batches files).length)
      files ()).outcome ≠ .interrupted := by
  rcases Pool.outcome_follow (Analyzer.answers_ofAnswers answer) .never (workload.batches files)
    (Pool.covers_inOrder _) () with ⟨hup, -⟩ | ⟨-, -, houtcome⟩
  · cases hup
  · exact fun h => nomatch houtcome.symm.trans h

/-- A run that is not interrupted is like the plain run, but for the order of the calls if there are
several workers. -/
theorem run_of_not_interrupted (hanswer : analyzer.Answers answer) (workload : Workload)
    {schedule : List Step} {files : List Text}
    (hcovers : Pool.Covers (workload.batches files).length schedule) {state : State}
    (h : (workload.runUnder analyzer interruption schedule files state).outcome ≠ .interrupted) :
    (workload.runUnder analyzer interruption schedule files state).outcome =
        (workload.plainRun answer files).outcome ∧
      (workload.runUnder analyzer interruption schedule files state).printed =
        (workload.plainRun answer files).printed ∧
      (workload.runUnder analyzer interruption schedule files state).calls.Perm
        (workload.plainRun answer files).calls ∧
      (workload.jobs ≤ 1 →
        (workload.runUnder analyzer interruption schedule files state).calls =
          (workload.plainRun answer files).calls) := by
  rw [plainRun, run]
  rw [runUnder] at h ⊢
  rw [runUnder]
  by_cases hfiles : files = []
  · rw [if_pos hfiles, if_pos hfiles]
    exact ⟨rfl, rfl, .refl _, fun _ => rfl⟩
  rw [if_neg hfiles] at h ⊢
  rw [if_neg hfiles]
  by_cases hworkers : 1 < workload.workers
  · rw [if_pos hworkers] at h ⊢
    rw [if_pos hworkers]
    -- Both runs are compared with the tally of the answers, since their schedules differ.
    obtain ⟨houtcome, hperm⟩ := workload.runPooled_of_not_interrupted hanswer hcovers h
    obtain ⟨houtcome', hperm'⟩ := workload.runPooled_of_not_interrupted
      (Analyzer.answers_ofAnswers answer) (Pool.covers_inOrder _)
      (workload.outcome_runPooled_never answer files)
    have hsame := houtcome.trans houtcome'.symm
    refine ⟨hsame, workload.printed_runPooled_congr hsame, hperm.trans hperm'.symm, fun hjobs => ?_⟩
    exact absurd hworkers (by rw [workers]; omega)
  · rw [if_neg hworkers] at h ⊢
    rw [if_neg hworkers, workload.runInTurn_of_not_interrupted hanswer h]
    exact ⟨rfl, rfl, .refl _, fun _ => rfl⟩

end Workload

end EngineUpkeep
