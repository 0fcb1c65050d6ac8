import EngineUpkeep.Proofs.Json.Plain
import EngineUpkeep.Report.Basic

/-!
# Reports on one line

A report as JSON is made of texts and whole numbers (`Report.plain_outcomeJson`). So it is one line,
whatever is in it (`Report.notMem_write_outcomeJson`).
-/

namespace EngineUpkeep

namespace Report

/-- The lines of each file are texts. -/
theorem plain_issuesJson (issues : Issues) : (issuesJson issues).Plain := by
  refine .ofFields (List.forall_mem_map.2 fun entry _ => .array (List.forall_mem_map.2 ?_))
  exact fun line _ => .ofText line

theorem plain_outcomeJson (exitCode : Int) (report : Report) :
    (outcomeJson exitCode report).Plain := by
  refine .ofFields fun field hfield => ?_
  simp only [List.mem_cons, List.not_mem_nil, or_false] at hfield
  obtain rfl | rfl | rfl | rfl := hfield
  · exact .ofInt exitCode
  · exact .ofNat report.files.length
  · exact .ofNat report.total
  · exact plain_issuesJson report.issues

/-- A report for programs is one line. -/
theorem notMem_write_outcomeJson (exitCode : Int) (report : Report) :
    '\n' ∉ (outcomeJson exitCode report).write :=
  (plain_outcomeJson exitCode report).noControls_write.notMem

/-- The exit code of a run is in its report for programs. -/
theorem record?_outcomeJson (exitCode : Int) (report : Report) :
    (outcomeJson exitCode report).record? ["exit_code"] = some [some (.ofInt exitCode)] := by
  rfl

end Report

end EngineUpkeep
