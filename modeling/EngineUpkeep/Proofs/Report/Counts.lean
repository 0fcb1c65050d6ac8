import EngineUpkeep.Proofs.Report.Merge
import Mathlib.Algebra.GroupWithZero.Nat
import Mathlib.Data.List.Induction

/-!
# The counts of a report

The issues of a report are never counted: its files and its total are kept beside them while batches
are merged into it. They are what a count would give, whatever has been merged
(`Report.isConsistent_ofBatches`), so both numbers that are printed are those of the issues that are
printed with them (`Report.counts_ofBatches`).
-/

namespace EngineUpkeep

namespace Report

/-- The report of batches that are merged in order, beginning with nothing. -/
def ofBatches (batches : List Issues) : Report :=
  batches.foldl merge empty

theorem ofBatches_concat (batches : List Issues) (batch : Issues) :
    ofBatches (batches ++ [batch]) = (ofBatches batches).merge batch := by
  rw [ofBatches, List.foldl_concat, ← ofBatches]

/-- A report of merged batches is consistent, as each merge keeps it so. -/
theorem isConsistent_ofBatches (batches : List Issues) : (ofBatches batches).IsConsistent := by
  induction batches using List.reverseRecOn with
  | nil => exact isConsistent_empty
  | append_singleton batches batch ih =>
    rw [ofBatches_concat]
    exact ih.merge batch

/-- The lines of a file are those that the batches have for it, in order. -/
theorem linesOf_ofBatches (batches : List Issues) (file : Text) :
    (ofBatches batches).issues.linesOf file = batches.flatMap (·.linesOf file) := by
  induction batches using List.reverseRecOn with
  | nil => rfl
  | append_singleton batches batch ih =>
    rw [ofBatches_concat, linesOf_merge, ih, List.flatMap_append, List.flatMap_singleton]

/-- After any merges, the files of a report are those of its issues, each of them has lines, the
total is the number of all lines, and the lines of a file are those of the merged batches in order.
So the summary and the report for programs give the numbers of the issues next to them. -/
theorem counts_ofBatches (batches : List Issues) :
    let report := ofBatches batches
    let entries := report.issues.entries
    let lines := (entries.map fun entry => entry.2.length).sum
    report.files = entries.map (·.1) ∧
    (∀ entry ∈ entries, entry.2 ≠ []) ∧
    report.total = lines ∧
    (∀ file, report.issues.linesOf file = batches.flatMap (·.linesOf file)) ∧
    report.render = "\n" ++ ("Summary: " ++ Text.ofNat entries.length ++
      " file(s) with issues, " ++ Text.ofNat lines ++ " total issue(s)") ++ "\n" ++
        renderIssues report.issues ∧
    ∀ exitCode, outcomeJson exitCode report = .ofFields
      [("exit_code", .ofInt exitCode), ("files_with_issues", .ofNat entries.length),
        ("total_issues", .ofNat lines), ("issues", issuesJson report.issues)] := by
  intro report entries lines
  have hconsistent : report.IsConsistent := isConsistent_ofBatches batches
  have hfiles : report.files = entries.map (·.1) := hconsistent.files_eq
  have htotal : report.total = lines := hconsistent.total_eq.trans List.length_flatMap
  have hlength : report.files.length = entries.length := by rw [hfiles, List.length_map]
  refine ⟨hfiles, hconsistent.noEmpty, htotal, linesOf_ofBatches batches, ?_, fun exitCode => ?_⟩
  · unfold render summary
    rw [hlength, htotal]
  · rw [outcomeJson, hlength, htotal]

end Report

end EngineUpkeep
