import EngineUpkeep.Proofs.Report.Issues
import EngineUpkeep.Report.Basic

/-!
# Merging issues into reports

A report keeps its files and its total in step with its issues (`Report.IsConsistent`), so a
consistent report is determined by the lines of each file (`Report.IsConsistent.eq_of_linesOf`).
Merging puts the lines of a batch behind those of the report, file by file
(`Report.linesOf_merge`).
-/

namespace EngineUpkeep

namespace Report

/-- The files and the total of a report are those of its issues, and no file is without lines. -/
structure IsConsistent (report : Report) : Prop where
  /-- The files are those of the issues. -/
  files_eq : report.files = report.issues.files
  /-- The total is that of the issues. -/
  total_eq : report.total = report.issues.total
  /-- Every file has lines. -/
  noEmpty : report.issues.NoEmpty

theorem isConsistent_empty : empty.IsConsistent where
  files_eq := rfl
  total_eq := rfl
  noEmpty := Issues.noEmpty_empty

theorem IsConsistent.addEntry {report : Report} (h : report.IsConsistent)
    (entry : Text × List Text) : (report.addEntry entry).IsConsistent := by
  rw [Report.addEntry]
  split
  · exact h
  · next hlines =>
    refine ⟨?_, ?_, h.noEmpty.add entry.1 hlines⟩
    · rw [Issues.files_add, h.files_eq]
    · rw [Issues.total_add, h.total_eq]

theorem IsConsistent.merge {report : Report} (h : report.IsConsistent) (batch : Issues) :
    (report.merge batch).IsConsistent := by
  have hfold : ∀ (entries : List (Text × List Text)) (report : Report), report.IsConsistent →
      (entries.foldl Report.addEntry report).IsConsistent := by
    intro entries
    induction entries with
    | nil => exact fun _ h => h
    | cons entry entries ih => exact fun report h => ih _ (h.addEntry entry)
  exact hfold batch.entries report h

/-- Consistent reports are the same if each file has the same lines. -/
theorem IsConsistent.eq_of_linesOf {a b : Report} (ha : a.IsConsistent) (hb : b.IsConsistent)
    (h : ∀ file, a.issues.linesOf file = b.issues.linesOf file) : a = b := by
  have hissues : a.issues = b.issues := Issues.eq_of_linesOf ha.noEmpty hb.noEmpty h
  have hfiles : a.files = b.files := by rw [ha.files_eq, hb.files_eq, hissues]
  have htotal : a.total = b.total := by rw [ha.total_eq, hb.total_eq, hissues]
  cases a
  cases b
  cases hissues
  cases hfiles
  cases htotal
  rfl

theorem linesOf_addEntry (report : Report) (entry : Text × List Text) (file : Text) :
    (report.addEntry entry).issues.linesOf file =
      report.issues.linesOf file ++ if file = entry.1 then entry.2 else [] := by
  rw [addEntry]
  split
  · next hlines => simp [hlines]
  · rw [Issues.linesOf_add]
    split <;> simp

/-- Merging puts the lines of the batch behind those of the report. -/
theorem linesOf_merge (report : Report) (batch : Issues) (file : Text) :
    (report.merge batch).issues.linesOf file =
      report.issues.linesOf file ++ batch.linesOf file := by
  have hfold : ∀ (entries : List (Text × List Text)) (report : Report),
      (entries.map (·.1)).Pairwise (· < ·) →
      (entries.foldl addEntry report).issues.linesOf file =
        report.issues.linesOf file ++ (entries.lookup file).getD [] := by
    intro entries
    induction entries with
    | nil => exact fun report _ => (List.append_nil _).symm
    | cons entry entries ih =>
      intro report hord
      rw [List.map_cons, List.pairwise_cons] at hord
      rw [List.foldl_cons, ih _ hord.2, linesOf_addEntry, List.append_assoc]
      by_cases hfile : file = entry.1
      · -- The files ascend, so no later entry is about the same file.
        have hlater : entries.lookup file = none := by
          refine Issues.lookup_eq_none_of_lt fun other hmem => ?_
          rw [hfile]
          exact hord.1 _ (List.mem_map_of_mem hmem)
        rw [if_pos hfile, hlater, hfile, ← Prod.eta entry, List.lookup_cons_self]
        simp
      · have hbeq : (file == entry.1) = false := beq_eq_false_iff_ne.2 hfile
        rw [if_neg hfile, List.lookup_cons, hbeq, List.nil_append]
  exact hfold batch.entries report batch.ordered

end Report

end EngineUpkeep
