import EngineUpkeep.Proofs.Json.RoundTrip
import EngineUpkeep.Proofs.Report.Counts
import EngineUpkeep.Proofs.Report.Line
import EngineUpkeep.Proofs.Text.ByteOrder

/-!
# Reading reports for programs

A program that is given the report of a run as JSON reads four fields (`Report.Digest`). Whatever is
in the names and the lines, the text is one line, and what is read are the exit code, the issues and
the numbers that a count of these issues gives (`Report.decodes_write_outcomeJson`).
-/

namespace EngineUpkeep

/-! ## Reading the parts of a value -/

namespace Json

/-- The natural number that a number is, if it is written in digits only. -/
def nat? : Json → Option Nat
  | .number written => Text.toNat? written
  | _ => none

/-- The integer that a number is, if it is written without a fraction and an exponent. -/
def int? : Json → Option Int
  | .number written => Text.toInt? written
  | _ => none

/-- The members of an object whose values are arrays of texts. -/
def textFields? : Json → Option (List (Text × List Text))
  | .object members => members.mapM fun (name?, value) => do some (← name?, ← value.texts?)
  | _ => none

theorem nat?_ofNat (n : Nat) : (ofNat n).nat? = some n :=
  Text.toNat?_ofNat n

theorem int?_ofInt (n : Int) : (ofInt n).int? = some n :=
  Text.toInt?_ofInt n

/-- Items that are read one by one are read together. -/
theorem mapM_map_eq_some {α β : Type} {write : α → β} {read : β → Option α}
    (h : ∀ item, read (write item) = some item) (items : List α) :
    (items.map write).mapM read = some items := by
  induction items with
  | nil => rfl
  | cons item items ih =>
    rw [List.map_cons, List.mapM_cons, h, ih]
    rfl

theorem texts?_array (texts : List Text) : (array (texts.map ofText)).texts? = some texts := by
  have hitem : ∀ text, (ofText text).text? = some text := fun _ => rfl
  exact mapM_map_eq_some hitem texts

end Json

namespace Report

theorem textFields?_issuesJson (issues : Issues) :
    (issuesJson issues).textFields? = some issues.entries := by
  rw [issuesJson, Json.ofFields, List.map_map]
  refine Json.mapM_map_eq_some (fun entry => ?_) issues.entries
  show (do some (entry.1, ← (Json.array (entry.2.map Json.ofText)).texts?)) = some entry
  rw [Json.texts?_array]
  rfl

/-- What the report of a run for programs says. -/
structure Digest where
  /-- The exit code of the run. -/
  exitCode : Int
  /-- The number of files with issues. -/
  files : Nat
  /-- The number of lines. -/
  total : Nat
  /-- The files with their lines, in the order of the report. -/
  issues : List (Text × List Text)
deriving DecidableEq

/-- Reads the fields of a report, each of them by its name. -/
def Digest.ofJson? (value : Json) : Option Digest := do
  match ← value.record? ["exit_code", "files_with_issues", "total_issues", "issues"] with
  | [some exitCode, some files, some total, some issues] =>
    some ⟨← exitCode.int?, ← files.nat?, ← total.nat?, ← issues.textFields?⟩
  | _ => none

/-- The fields are found by their names. -/
theorem ofJson?_outcomeJson (exitCode : Int) (report : Report) :
    Digest.ofJson? (outcomeJson exitCode report) =
      some ⟨exitCode, report.files.length, report.total, report.issues.entries⟩ := by
  have hrecord : (outcomeJson exitCode report).record?
      ["exit_code", "files_with_issues", "total_issues", "issues"] =
      some [some (.ofInt exitCode), some (.ofNat report.files.length), some (.ofNat report.total),
        some (issuesJson report.issues)] := rfl
  simp only [Digest.ofJson?, hrecord, Option.bind_eq_bind, Option.bind_some, Json.int?_ofInt,
    Json.nat?_ofNat, textFields?_issuesJson]

/-- After any merges, the report for programs has no control characters, and what is read from it is
the exit code, the issues with their files in the order of their bytes, the number of these files
and the number of their lines. -/
theorem decodes_write_outcomeJson (exitCode : Int) (batches : List Issues) :
    let report := ofBatches batches
    let text := (outcomeJson exitCode report).write
    let entries := report.issues.entries
    (∀ c ∈ text, 0x20 ≤ c.toNat) ∧
    (Json.read? text).bind Digest.ofJson? = some
      { exitCode, files := entries.length, total := (entries.map fun entry => entry.2.length).sum,
        issues := entries } ∧
    (∀ file, report.issues.linesOf file = batches.flatMap (·.linesOf file)) ∧
    (entries.map (·.1)).Pairwise fun file next => Utf8.encode file < Utf8.encode next := by
  intro report text entries
  have hplain : (outcomeJson exitCode report).Plain := plain_outcomeJson exitCode report
  have hconsistent : report.IsConsistent := isConsistent_ofBatches batches
  have hfiles : report.files.length = entries.length := by
    rw [hconsistent.files_eq]
    exact List.length_map _
  have htotal : report.total = (entries.map fun entry => entry.2.length).sum :=
    hconsistent.total_eq.trans List.length_flatMap
  refine ⟨hplain.noControls_write, ?_, linesOf_ofBatches batches,
    report.issues.ordered.imp Utf8.encode_lt_encode⟩
  rw [hplain.read?_write, Option.bind_some, ofJson?_outcomeJson, hfiles, htotal]

end Report

end EngineUpkeep
