import EngineUpkeep.Proofs.Path.Key
import EngineUpkeep.Proofs.Report.Counts
import EngineUpkeep.Proofs.Report.Filing
import EngineUpkeep.Proofs.Json.Plain
import EngineUpkeep.Proofs.Text.ByteOrder

/-!
# Reading rendered reports

A report for readers is one flat text: a summary, a heading, and for each file a line with its name
and below it the lines about it, a blank line in front of each part. The parts can be told apart,
since no name and no line has a line feed in it (`Issues.IsUnbroken`), a name has a colon behind it,
and a line stands two blanks in, so that nothing inside a part is blank. What a name or a line looks
like otherwise makes no difference: a name may begin with blanks or have no character, and a line
may look like a name or like the summary.

`Report.readEntries` reads a rendered report. It gives back what was rendered if the report has come
from outputs of the analyzer, so such reports that look the same are the same
(`Report.readEntries_render_ofOutputs`).
-/

namespace EngineUpkeep

/-! ## Issues without broken lines -/

namespace Diagnostic

/-- A filed line and its key have no line feed in them: the line is a trimmed piece between line
feeds, and the key is made of what stands before its first colon. -/
theorem notMem_of_mem_ofText {root : Path} {verbose : Bool} {text : Text} {filed : Text × Text}
    (h : filed ∈ ofText root verbose text) : '\n' ∉ filed.1 ∧ '\n' ∉ filed.2 := by
  obtain ⟨raw, hraw, hfiled⟩ := List.mem_filterMap.1 h
  have hline : '\n' ∉ raw.trim := fun hmem =>
    Text.notMem_of_mem_pieces hraw ((Text.trim_infix raw).mem hmem)
  rw [ofLine?_eq] at hfiled
  split at hfiled
  · cases hfiled
    refine ⟨?_, hline⟩
    have hsubject : '\n' ∉ subject raw.trim := fun hmem =>
      hline ((List.takeWhile_prefix _).mem ((Text.trim_infix _).mem hmem))
    show '\n' ∉ keyOf root (subject raw.trim)
    rw [keyOf]
    cases hkey : Path.key? root ⟨subject raw.trim⟩ with
    | none => exact hsubject
    | some key => exact Path.notMem_of_key? (by decide) hsubject (by decide) hkey
  · cases hfiled

end Diagnostic

namespace Issues

/-- No file that has lines has a line feed in its name, and no line has one. -/
def IsUnbroken (issues : Issues) : Prop :=
  ∀ file, ∀ line ∈ issues.linesOf file, '\n' ∉ file ∧ '\n' ∉ line

theorem isUnbroken_ofOutput (root : Path) (verbose : Bool) (text : Text) :
    (ofOutput root verbose text).IsUnbroken := by
  intro file line hline
  rw [ofOutput, linesOf_ofDiagnostics] at hline
  obtain ⟨filed, hfiled, rfl⟩ := List.mem_map.1 hline
  obtain ⟨hmem, hfile⟩ := List.mem_filter.1 hfiled
  obtain rfl := of_decide_eq_true hfile
  exact Diagnostic.notMem_of_mem_ofText hmem

/-- If no file is without lines, this can be said of the entries. -/
theorem IsUnbroken.of_mem {issues : Issues} (h : issues.IsUnbroken) (hnoEmpty : issues.NoEmpty)
    {entry : Text × List Text} (hentry : entry ∈ issues.entries) :
    '\n' ∉ entry.1 ∧ ∀ line ∈ entry.2, '\n' ∉ line := by
  have hlines : ∀ line ∈ entry.2, '\n' ∉ entry.1 ∧ '\n' ∉ line := by
    rw [← linesOf_of_mem hentry]
    exact h entry.1
  obtain ⟨line, hline⟩ := List.exists_mem_of_ne_nil entry.2 (hnoEmpty entry hentry)
  exact ⟨(hlines line hline).1, fun line hline => (hlines line hline).2⟩

end Issues

namespace Report

/-- Merging breaks no line. -/
theorem isUnbroken_ofBatches {batches : List Issues} (h : ∀ batch ∈ batches, batch.IsUnbroken) :
    (ofBatches batches).issues.IsUnbroken := by
  intro file line hline
  rw [linesOf_ofBatches] at hline
  obtain ⟨batch, hbatch, hline⟩ := List.mem_flatMap.1 hline
  exact h batch hbatch file line hline

/-! ## The parts of a rendered report -/

/-- A line two blanks in. -/
def indented (line : Text) : Text :=
  "  " ++ line

/-- The lines about a file: its name with a colon, and what was reported two blanks in. -/
def partOf (entry : Text × List Text) : List Text :=
  (entry.1 ++ ":") :: entry.2.map indented

/-- The entry that is shown by the lines about a file. -/
def entryOf : List Text → Text × List Text
  | [] => ([], [])
  | heading :: lines => (heading.dropLast, lines.map (·.drop 2))

/-- The runs of lines between the blank lines of a text. -/
def parts (text : Text) : List (List Text) :=
  (text.pieces '\n').splitOn []

/-- The entries that a rendered report shows. Three parts come before them: the empty one in front
of the first blank line, the summary and the heading. What is behind the last line is the last
part. -/
def readEntries (text : Text) : List (Text × List Text) :=
  ((parts text).drop 3).dropLast.map entryOf

theorem entryOf_partOf (entry : Text × List Text) : entryOf (partOf entry) = entry := by
  have hlines : (entry.2.map indented).map (·.drop 2) = entry.2 := by
    rw [List.map_map]
    exact List.map_id _
  rw [partOf, entryOf, hlines]
  exact congrArg (·, entry.2) List.dropLast_concat

/-- The part behind the last line shows no entry. -/
theorem map_entryOf_dropLast (entries : List (Text × List Text)) :
    (entries.map partOf ++ [[]]).dropLast.map entryOf = entries := by
  rw [List.dropLast_concat, List.map_map]
  exact (List.map_congr_left fun entry _ => entryOf_partOf entry).trans (List.map_id _)

/-- No line about a file is blank. -/
theorem nil_notMem_partOf (entry : Text × List Text) : [] ∉ partOf entry := by
  rw [partOf, List.mem_cons, not_or]
  refine ⟨fun h => List.append_ne_nil_of_right_ne_nil entry.1 (by decide) h.symm, fun h => ?_⟩
  obtain ⟨line, -, hline⟩ := List.mem_map.1 h
  cases hline

/-- A line that is closed by a line feed is a piece. -/
theorem pieces_line_append {line : Text} (h : '\n' ∉ line) (rest : Text) :
    Text.pieces (line ++ '\n' :: rest) '\n' = line :: Text.pieces rest '\n' := by
  rw [Text.pieces_append_cons, Text.pieces_of_notMem h]
  rfl

theorem pieces_renderLine_append {lines : List Text} (h : ∀ line ∈ lines, '\n' ∉ line)
    (rest : Text) :
    Text.pieces (lines.flatMap renderLine ++ rest) '\n' =
      lines.map indented ++ Text.pieces rest '\n' := by
  induction lines with
  | nil => rfl
  | cons line lines ih =>
    obtain ⟨hline, hlines⟩ := List.forall_mem_cons.1 h
    have hindented : '\n' ∉ indented line := List.not_mem_append (by decide) hline
    have hfirst : (line :: lines).flatMap renderLine ++ rest =
        indented line ++ '\n' :: (lines.flatMap renderLine ++ rest) := by
      simp [renderLine, indented]
    rw [hfirst, pieces_line_append hindented, ih hlines]
    rfl

/-- A rendered entry is a blank line and the lines about its file. -/
theorem pieces_renderEntry_append {entry : Text × List Text} (hname : '\n' ∉ entry.1)
    (hlines : ∀ line ∈ entry.2, '\n' ∉ line) (rest : Text) :
    Text.pieces (renderEntry entry ++ rest) '\n' =
      [] :: (partOf entry ++ Text.pieces rest '\n') := by
  have hheading : '\n' ∉ entry.1 ++ ":".toList := List.not_mem_append hname (by decide)
  have hentry : renderEntry entry ++ rest =
      [] ++ '\n' :: ((entry.1 ++ ":".toList) ++ '\n' :: (entry.2.flatMap renderLine ++ rest)) := by
    simp [renderEntry]
  rw [hentry, pieces_line_append List.not_mem_nil, pieces_line_append hheading,
    pieces_renderLine_append hlines]
  rfl

/-- Between the blank lines in front of entries are the lines about their files, and behind the last
of them is nothing. -/
theorem parts_renderEntry {entries : List (Text × List Text)}
    (h : ∀ entry ∈ entries, '\n' ∉ entry.1 ∧ ∀ line ∈ entry.2, '\n' ∉ line) {lead : List Text}
    (hlead : [] ∉ lead) :
    (lead ++ Text.pieces (entries.flatMap renderEntry) '\n').splitOn [] =
      lead :: (entries.map partOf ++ [[]]) := by
  induction entries generalizing lead with
  | nil => exact List.splitOn_append_cons_self_of_not_mem hlead []
  | cons entry entries ih =>
    obtain ⟨⟨hname, hlines⟩, hrest⟩ := List.forall_mem_cons.1 h
    rw [List.flatMap_cons, pieces_renderEntry_append hname hlines,
      List.splitOn_append_cons_self_of_not_mem hlead, ih hrest (nil_notMem_partOf entry)]
    rfl

theorem notMem_summary (report : Report) : '\n' ∉ report.summary := by
  have hfiles := (Text.noControls_ofNat report.files.length).notMem
  have htotal := (Text.noControls_ofNat report.total).notMem
  unfold summary
  refine List.not_mem_append (List.not_mem_append (List.not_mem_append
    (List.not_mem_append ?_ hfiles) ?_) htotal) ?_
  -- The words between the numbers are left.
  all_goals decide

/-- The entries are read back from a report in which no line is broken. -/
theorem readEntries_render {report : Report}
    (h : ∀ entry ∈ report.issues.entries, '\n' ∉ entry.1 ∧ ∀ line ∈ entry.2, '\n' ∉ line) :
    readEntries report.render = report.issues.entries := by
  have hstart : Text.pieces report.render '\n' =
      [] ++ [] :: ([report.summary] ++ Text.pieces (renderIssues report.issues) '\n') := by
    have htext : report.render =
        [] ++ '\n' :: (report.summary ++ '\n' :: renderIssues report.issues) := by
      simp [render]
    rw [htext, pieces_line_append List.not_mem_nil, pieces_line_append report.notMem_summary]
    rfl
  have hsummary : [] ∉ [report.summary] := by
    rw [List.mem_singleton]
    exact fun hnil => nomatch hnil
  rw [readEntries, parts, hstart, List.splitOn_append_cons_self_of_not_mem List.not_mem_nil,
    renderIssues]
  by_cases hentries : report.issues.entries = []
  · -- Nothing is behind the summary, so that no part is left.
    rw [if_pos hentries, hentries]
    exact congrArg (fun sections => ((([] :: sections).drop 3).dropLast.map entryOf))
      (List.splitOn_append_cons_self_of_not_mem hsummary [])
  · have hheading : Text.pieces ("\nIssues found:\n".toList ++
        report.issues.entries.flatMap renderEntry) '\n' =
        [] :: (["Issues found:".toList] ++
          Text.pieces (report.issues.entries.flatMap renderEntry) '\n') := by
      have htext : "\nIssues found:\n".toList ++ report.issues.entries.flatMap renderEntry =
          [] ++ '\n' :: ("Issues found:".toList ++
            '\n' :: report.issues.entries.flatMap renderEntry) := rfl
      rw [htext, pieces_line_append List.not_mem_nil, pieces_line_append (by decide)]
      rfl
    rw [if_neg hentries, hheading, List.splitOn_append_cons_self_of_not_mem hsummary,
      parts_renderEntry h (by decide)]
    exact map_entryOf_dropLast report.issues.entries

/-! ## Reports of outputs -/

/-- The report of some outputs of the analyzer. For each of them it is known which root its names
are relative to, and whether everything is asked for. -/
def ofOutputs (outputs : List (Path × Bool × Text)) : Report :=
  ofBatches (outputs.map fun (root, verbose, text) => Issues.ofOutput root verbose text)

/-- Such a report has no broken line. -/
theorem notMem_of_mem_ofOutputs {outputs : List (Path × Bool × Text)} {entry : Text × List Text}
    (h : entry ∈ (ofOutputs outputs).issues.entries) :
    '\n' ∉ entry.1 ∧ ∀ line ∈ entry.2, '\n' ∉ line := by
  have hunbroken : (ofOutputs outputs).issues.IsUnbroken := by
    refine isUnbroken_ofBatches (List.forall_mem_map.2 ?_)
    rintro ⟨root, verbose, text⟩ -
    exact Issues.isUnbroken_ofOutput root verbose text
  exact hunbroken.of_mem (isConsistent_ofBatches _).noEmpty h

/-- The report of some outputs can be read back from what is rendered: its entries, from which its
files and its total are known, so that another such report with the same text is the same report.
The files are strictly increasing, and so are their bytes. -/
theorem readEntries_render_ofOutputs (outputs : List (Path × Bool × Text)) :
    let report := ofOutputs outputs
    let entries := readEntries report.render
    report.issues.entries = entries ∧
    report.files = entries.map (·.1) ∧
    report.total = (entries.map fun entry => entry.2.length).sum ∧
    (∀ outputs', (ofOutputs outputs').render = report.render ↔ ofOutputs outputs' = report) ∧
    (entries.map (·.1)).Pairwise fun file next => Utf8.encode file < Utf8.encode next := by
  have hread (outputs : List (Path × Bool × Text)) :
      (ofOutputs outputs).issues.entries = readEntries (ofOutputs outputs).render :=
    (readEntries_render fun _ => notMem_of_mem_ofOutputs).symm
  intro report entries
  have hentries : report.issues.entries = entries := hread outputs
  have hconsistent : report.IsConsistent := isConsistent_ofBatches _
  refine ⟨hentries, ?_, ?_, fun outputs' => ⟨fun hrender => ?_, congrArg render⟩, ?_⟩
  · rw [← hentries]
    exact hconsistent.files_eq
  · rw [← hentries]
    exact hconsistent.total_eq.trans List.length_flatMap
  · -- Consistent reports with the same entries are the same.
    have hsame : (ofOutputs outputs').issues.entries = report.issues.entries := by
      rw [hread outputs', hrender, hentries]
    refine (isConsistent_ofBatches _).eq_of_linesOf hconsistent fun file => ?_
    exact congrArg (fun entries => (entries.lookup file).getD []) hsame
  · rw [← hentries]
    exact report.issues.ordered.imp Utf8.encode_lt_encode

end Report

end EngineUpkeep
