import EngineUpkeep.Proofs.Report.Diagnostic
import EngineUpkeep.Proofs.Report.Merge
import EngineUpkeep.Proofs.Workload.Agreement

/-!
# Reports do not depend on batches

When the analyzer prints for a batch what it prints for its files, one after the other, the report
of a run is that of all files together (`linesOf_tallyFrom_batches`). Batches may report on the same
header, so what counts is the order of the lines of each file, and not that batches speak of
different files.
-/

namespace EngineUpkeep

namespace Workload

variable {State State' : Type} {analyzer : Analyzer State} {answer : Batch → Reply}

theorem isConsistent_report_tallyFrom (workload : Workload) (answer : Batch → Reply)
    {tally : Tally} (h : tally.report.IsConsistent) (batches : List Batch) :
    (workload.tallyFrom answer tally batches).report.IsConsistent := by
  induction batches generalizing tally with
  | nil => exact h
  | cons batch batches ih => exact ih (h.merge _)

/-- The lines of a file in a tally are those of the batches, one after the other. -/
theorem linesOf_tallyFrom (workload : Workload) (answer : Batch → Reply) (tally : Tally)
    (batches : List Batch) (key : Text) :
    (workload.tallyFrom answer tally batches).report.issues.linesOf key =
      tally.report.issues.linesOf key ++
        batches.flatMap fun batch => (workload.findings (answer batch)).issues.linesOf key := by
  induction batches generalizing tally with
  | nil => exact (List.append_nil _).symm
  | cons batch batches ih =>
    rw [tallyFrom, List.foldl_cons, ← tallyFrom, ih, Tally.add, Report.linesOf_merge,
      List.flatMap_cons, List.append_assoc]

/-- The exit code of a tally is zero if all exit codes are. -/
theorem exitCode_tallyFrom_eq_zero_iff (workload : Workload) (answer : Batch → Reply)
    (tally : Tally) (batches : List Batch) :
    (workload.tallyFrom answer tally batches).exitCode = 0 ↔
      tally.exitCode = 0 ∧ ∀ batch ∈ batches, (answer batch).exitCode = 0 := by
  induction batches generalizing tally with
  | nil => simp [tallyFrom]
  | cons batch batches ih =>
    rw [tallyFrom, List.foldl_cons, ← tallyFrom, ih, Tally.add, findings]
    by_cases hcode : tally.exitCode = 0 <;> simp [hcode]

/-- An uninterrupted run completes with the tally of its batches. -/
theorem outcome_runUnder_never (hanswer : analyzer.Answers answer) (workload : Workload)
    {files : List Text} (hfiles : files ≠ []) {schedule : List Step}
    (hcovers : Pool.Covers (workload.batches files).length schedule) (state : State) :
    (workload.runUnder analyzer .never schedule files state).outcome =
      (workload.tallyFrom answer {} (workload.batches files)).outcome := by
  have hnever : Interruption.never = .fromStart false none := rfl
  have hdown : workload.outcomeOf answer (.fromStart false none) files =
      (workload.tallyFrom answer {} (workload.batches files)).outcome := by
    rw [outcomeOf, Interruption.isUp_fromStart]
    rfl
  rw [runUnder, if_neg hfiles, hnever, ← hdown]
  -- Whether there is one worker or several, the flag stays down.
  split
  · exact outcome_runPooled hanswer workload false none files hcovers state
  · exact outcome_runInTurn hanswer workload false none hfiles state

/-- The issues of a tally of all batches are those of the files, whatever the batches. -/
theorem linesOf_tallyFrom_batches (workload : Workload) {text : Text → Text}
    (htext : ∀ batch, (answer batch).text = batch.flatMap text) {files : List Text}
    (hlines : ∀ file ∈ files, (text file).EndsLine) (key : Text) :
    (workload.tallyFrom answer {} (workload.batches files)).report.issues.linesOf key =
      files.flatMap fun file =>
        (Issues.ofOutput workload.root workload.verbose (text file)).linesOf key := by
  have hflatten : (workload.batches files).flatten = files :=
    Batch.flatten_batches workload.batchSize files
  have hbatch : ∀ batch ∈ workload.batches files,
      (workload.findings (answer batch)).issues.linesOf key = batch.flatMap fun file =>
        (Issues.ofOutput workload.root workload.verbose (text file)).linesOf key := by
    intro batch hmem
    rw [findings, htext]
    refine Issues.linesOf_ofOutput_flatMap _ _ (fun file hfile => hlines file ?_) key
    rw [← hflatten]
    exact List.mem_flatten.2 ⟨batch, hmem, hfile⟩
  have hempty : ({} : Tally).report.issues.linesOf key = [] := rfl
  rw [linesOf_tallyFrom, hempty, List.nil_append, List.flatMap_congr hbatch]
  conv_rhs => rw [← hflatten, List.flatMap_def, List.map_flatten, List.flatten_flatten]
  rw [List.flatMap_def, List.map_map]
  rfl

/-- If a batch has a non-zero exit code exactly when one of its files fails, the exit code of a
tally of all batches is zero exactly when no file fails. -/
theorem exitCode_tallyFrom_batches (workload : Workload) {fails : Text → Prop}
    (hfails : ∀ batch, (answer batch).exitCode ≠ 0 ↔ ∃ file ∈ batch, fails file)
    (files : List Text) :
    (workload.tallyFrom answer {} (workload.batches files)).exitCode = 0 ↔
      ∀ file ∈ files, ¬ fails file := by
  have hflatten : (workload.batches files).flatten = files :=
    Batch.flatten_batches workload.batchSize files
  have hpass : ∀ batch, (answer batch).exitCode = 0 ↔ ∀ file ∈ batch, ¬ fails file := by
    intro batch
    rw [← not_iff_not, ← ne_eq, hfails]
    push Not
    rfl
  rw [exitCode_tallyFrom_eq_zero_iff]
  constructor
  · rintro ⟨-, hall⟩ file hfile
    rw [← hflatten] at hfile
    obtain ⟨batch, hbatch, hmem⟩ := List.mem_flatten.1 hfile
    exact (hpass batch).1 (hall batch hbatch) file hmem
  · intro hall
    refine ⟨rfl, fun batch hbatch => (hpass batch).2 fun file hmem => hall file ?_⟩
    rw [← hflatten]
    exact List.mem_flatten.2 ⟨batch, hbatch, hmem⟩

/-- Two uninterrupted runs over the same files complete with the same report, whatever their batch
sizes and numbers of workers. Its issues are those of all that the analyzer prints, so each file has
the lines that are printed about it, in order. The runs also agree on whether a file fails. -/
theorem outcome_runUnder_eq_of_batches (hanswer : analyzer.Answers answer) {text : Text → Text}
    (htext : ∀ batch, (answer batch).text = batch.flatMap text) (workload : Workload)
    (size jobs : Nat) {files : List Text} (hfiles : files ≠ [])
    (hlines : ∀ file ∈ files, (text file).EndsLine) {schedule schedule' : List Step}
    (hcovers : Pool.Covers (workload.batches files).length schedule)
    (hcovers' : Pool.Covers
      ({ workload with batchSize := size, jobs }.batches files).length schedule')
    (state state' : State) :
    ∃ code code' report,
      (workload.runUnder analyzer .never schedule files state).outcome =
        .completed code report ∧
      ({ workload with batchSize := size, jobs }.runUnder analyzer .never schedule' files
        state').outcome = .completed code' report ∧
      report.issues =
        Issues.ofOutput workload.root workload.verbose (files.flatMap text) ∧
      (∀ key, report.issues.linesOf key = files.flatMap fun file =>
        (Issues.ofOutput workload.root workload.verbose (text file)).linesOf key) ∧
      ∀ fails : Text → Prop,
        (∀ batch, (answer batch).exitCode ≠ 0 ↔ ∃ file ∈ batch, fails file) →
        (code = 0 ↔ code' = 0) := by
  let other : Workload := { workload with batchSize := size, jobs }
  let tally := workload.tallyFrom answer {} (workload.batches files)
  let tally' := other.tallyFrom answer {} (other.batches files)
  have hconsistent : tally.report.IsConsistent :=
    workload.isConsistent_report_tallyFrom answer Report.isConsistent_empty _
  have hconsistent' : tally'.report.IsConsistent :=
    other.isConsistent_report_tallyFrom answer Report.isConsistent_empty _
  -- Consistent reports that agree on the lines of each file are the same report.
  have hissues := workload.linesOf_tallyFrom_batches htext hlines
  have hreport : tally'.report = tally.report := by
    refine hconsistent'.eq_of_linesOf hconsistent fun key => ?_
    rw [hissues, other.linesOf_tallyFrom_batches htext hlines]
  refine ⟨tally.exitCode, tally'.exitCode, tally.report, ?_, ?_, ?_, hissues, ?_⟩
  · exact outcome_runUnder_never hanswer workload hfiles hcovers state
  · rw [← hreport]
    exact outcome_runUnder_never hanswer other hfiles hcovers' state'
  · refine Issues.eq_of_linesOf hconsistent.noEmpty (Issues.noEmpty_ofDiagnostics _) fun key => ?_
    rw [hissues, Issues.linesOf_ofOutput_flatMap _ _ hlines]
  · intro fails hfails
    rw [workload.exitCode_tallyFrom_batches hfails, other.exitCode_tallyFrom_batches hfails]

/-- Two files whose batches report on one header, cut into two batches or one. -/
theorem outcome_runUnder_shared_header :
    let workload : Workload := { root := ⟨"/p"⟩, batchSize := 1, jobs := 2 }
    let text : Text → Text := fun file => "h.h:1: warning: in " ++ file ++ "\n"
    let answer : Batch → Reply := fun batch =>
      ⟨if ['b'] ∈ batch then 3 else 0, batch.flatMap text⟩
    let analyzer : Analyzer Unit := .ofAnswers answer
    let files : List Text := [['a'], ['b']]
    let schedule : List Step := [.look 1, .call 1, .look 0, .call 0]
    analyzer.Answers answer ∧ (∀ batch, (answer batch).text = batch.flatMap text) ∧
      files ≠ [] ∧ (∀ file ∈ files, (text file).EndsLine) ∧
      Pool.Covers (workload.batches files).length schedule ∧
      Pool.Covers ({ workload with batchSize := 9, jobs := 1 }.batches files).length schedule ∧
      ∃ code code' report,
        (workload.runUnder analyzer .never schedule files ()).outcome = .completed code report ∧
        ({ workload with batchSize := 9, jobs := 1 }.runUnder analyzer .never schedule files
          ()).outcome = .completed code' report := by
  intro workload text answer analyzer files schedule
  have hanswer : analyzer.Answers answer := fun _ _ => rfl
  have htext : ∀ batch, (answer batch).text = batch.flatMap text := fun _ => rfl
  have hfiles : files ≠ [] := List.cons_ne_nil _ _
  have hlines : ∀ file ∈ files, (text file).EndsLine := by decide
  have hcovers : Pool.Covers (workload.batches files).length schedule := by decide
  have hcovers' : Pool.Covers
      ({ workload with batchSize := 9, jobs := 1 }.batches files).length schedule := by decide
  obtain ⟨code, code', report, hfirst, hsecond, -⟩ :=
    outcome_runUnder_eq_of_batches hanswer htext workload 9 1 hfiles hlines hcovers hcovers' () ()
  exact ⟨hanswer, htext, hfiles, hlines, hcovers, hcovers', code, code', report, hfirst, hsecond⟩

end Workload

end EngineUpkeep
