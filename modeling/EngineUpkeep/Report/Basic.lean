import EngineUpkeep.Json.Writer
import EngineUpkeep.Report.Diagnostic

/-!
# Reports

A report gathers the issues of several batches. It keeps the set of files and the number of lines
beside the issues; `merge` is the only way to add to it.
-/

namespace EngineUpkeep

/-- What a run has found. -/
structure Report where
  /-- The lines of each file. -/
  issues : Issues
  /-- The files that have lines, strictly increasing. -/
  files : List Text
  /-- The number of lines. -/
  total : Nat
deriving DecidableEq

namespace Report

/-- The report of a run that has found nothing. -/
def empty : Report := ⟨.empty, [], 0⟩

/-- Adds the lines of one file. No lines leave no trace. -/
def addEntry (report : Report) (entry : Text × List Text) : Report :=
  if entry.2 = [] then report
  else
    { issues := report.issues.add entry.1 entry.2
      files := Text.insertDistinct entry.1 report.files
      total := report.total + entry.2.length }

/-- Adds the issues of a batch. -/
def merge (report : Report) (batch : Issues) : Report :=
  batch.entries.foldl addEntry report

/-- The line that sums up a report. -/
def summary (report : Report) : Text :=
  "Summary: " ++ Text.ofNat report.files.length ++ " file(s) with issues, " ++
    Text.ofNat report.total ++ " total issue(s)"

/-- One line below the name of its file. -/
def renderLine (line : Text) : Text :=
  "  " ++ line ++ "\n"

/-- The lines of one file below its name. -/
def renderEntry (entry : Text × List Text) : Text :=
  let lines : Text := entry.2.flatMap renderLine
  "\n" ++ entry.1 ++ ":\n" ++ lines

/-- The issues of all files under a heading, which is left out if there are none. -/
def renderIssues (issues : Issues) : Text :=
  let entries : Text := issues.entries.flatMap renderEntry
  if issues.entries = [] then [] else "\nIssues found:\n" ++ entries

/-- A report as text for readers. -/
def render (report : Report) : Text :=
  "\n" ++ report.summary ++ "\n" ++ renderIssues report.issues

/-- The issues as an object: for each file its lines. -/
def issuesJson (issues : Issues) : Json :=
  .ofFields (issues.entries.map fun entry => (entry.1, .array (entry.2.map .ofText)))

/-- The report of a finished run for programs. -/
def outcomeJson (exitCode : Int) (report : Report) : Json :=
  .ofFields
    [("exit_code", .ofInt exitCode), ("files_with_issues", .ofNat report.files.length),
      ("total_issues", .ofNat report.total), ("issues", issuesJson report.issues)]

/-- A report with its set of files, for programs. -/
def toJson (report : Report) : Json :=
  .ofFields
    [("issues", issuesJson report.issues),
      ("files_with_issues", .array (report.files.map .ofText)),
      ("total_issues", .ofNat report.total)]

end Report

end EngineUpkeep
