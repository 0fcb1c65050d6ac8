import EngineUpkeep.Analyzer.Invocation
import EngineUpkeep.Proofs.Report.Counts
import EngineUpkeep.Proofs.Report.Diagnostic
import EngineUpkeep.Proofs.Report.Filing

/-!
# Both streams of the analyzer

What the analyzer prints to its errors is put behind what it prints to its output, with nothing
between the two. So the line that its output leaves open and the first line of its errors become one
line. All other lines count as they stand (`Diagnostic.ofText_append_eq`), and these two do exactly
if one of them is blank or neither they nor their line is filed (`Invocation.issues_run_eq_iff`).
-/

namespace EngineUpkeep

namespace Text

/-! ## Where two texts meet -/

/-- The text up to its first line feed, without it. -/
def firstLine (text : Text) : Text :=
  text.takeWhile (· ≠ '\n')

/-- The text from its first line feed. -/
def afterFirst (text : Text) : Text :=
  text.dropWhile (· ≠ '\n')

/-- The text behind its last line feed. -/
def openLine (text : Text) : Text :=
  (firstLine text.reverse).reverse

/-- The text up to its last line feed. -/
def closed (text : Text) : Text :=
  (afterFirst text.reverse).reverse

theorem firstLine_append_afterFirst (text : Text) : firstLine text ++ afterFirst text = text :=
  List.takeWhile_append_dropWhile

theorem closed_append_openLine (text : Text) : closed text ++ openLine text = text := by
  rw [closed, openLine, ← List.reverse_append, firstLine_append_afterFirst, List.reverse_reverse]

theorem notMem_firstLine (text : Text) : '\n' ∉ firstLine text := by
  intro hmem
  simpa using List.mem_takeWhile_imp hmem

theorem notMem_openLine (text : Text) : '\n' ∉ openLine text := fun hmem =>
  notMem_firstLine text.reverse (List.mem_reverse.1 hmem)

theorem afterFirst_cases (text : Text) :
    afterFirst text = [] ∨ ∃ after, afterFirst text = '\n' :: after := by
  rcases hafter : afterFirst text with _ | ⟨c, after⟩
  · exact .inl rfl
  · have hhead := List.head?_dropWhile_not (· ≠ '\n') text
    rw [← afterFirst, hafter] at hhead
    obtain rfl : c = '\n' := by simpa using hhead
    exact .inr ⟨after, rfl⟩

theorem endsLine_closed (text : Text) : (closed text).EndsLine := by
  obtain hnil | ⟨after, hafter⟩ := afterFirst_cases text.reverse
  · exact .inl (by rw [closed, hnil, List.reverse_nil])
  · refine .inr ?_
    rw [closed, hafter, List.getLast?_reverse, List.head?_cons]

/-- A text that ends with a line leaves none open. -/
theorem openLine_of_endsLine {text : Text} (h : text.EndsLine) : openLine text = [] := by
  obtain rfl | h := h
  · rfl
  · obtain ⟨before, rfl⟩ := List.getLast?_eq_some_iff.1 h
    simp [openLine, firstLine]

end Text

namespace Diagnostic

/-- Of two lines, each counts as it stands when they become one: one of them is blank, or neither
they nor the one line are filed. -/
def MeetsCleanly (verbose : Bool) (first second : Text) : Prop :=
  first.trim = [] ∨ second.trim = [] ∨
    ∀ line ∈ [first, second, first ++ second], ¬ Qualifies verbose line.trim

/-- Whether lines meet cleanly is decidable. -/
instance (verbose : Bool) (first second : Text) :
    Decidable (MeetsCleanly verbose first second) := by
  unfold MeetsCleanly
  infer_instance

variable {root : Path} {verbose : Bool} {line first second : Text}

/-- The first line of a text counts by itself. -/
theorem ofText_line_append (h : '\n' ∉ line) {rest : Text}
    (hrest : rest = [] ∨ ∃ after, rest = '\n' :: after) :
    ofText root verbose (line ++ rest) = ofLine root verbose line ++ ofText root verbose rest := by
  have hblank : ofLine? root verbose [] = none := rfl
  obtain rfl | ⟨after, rfl⟩ := hrest
  · rw [List.append_nil, ofText_of_notMem h]
    simp [ofText, Text.pieces, hblank]
  · rw [ofText, Text.pieces_append_cons, List.filterMap_append, ← ofText, ofText_of_notMem h,
      ofText, Text.pieces, if_pos rfl, List.filterMap_cons, hblank]

/-- Where two texts are put together, nothing but the line in which they meet is read anew. -/
theorem ofText_append_eq (root : Path) (verbose : Bool) (first second : Text) :
    ofText root verbose (first ++ second) =
      ofText root verbose (Text.closed first) ++
        (ofLine root verbose (Text.openLine first ++ Text.firstLine second) ++
          ofText root verbose (Text.afterFirst second)) := by
  have hmeet : '\n' ∉ Text.openLine first ++ Text.firstLine second := by
    rw [List.mem_append, not_or]
    exact ⟨Text.notMem_openLine first, Text.notMem_firstLine second⟩
  have htext : first ++ second = Text.closed first ++
      ((Text.openLine first ++ Text.firstLine second) ++ Text.afterFirst second) := by
    rw [List.append_assoc, Text.firstLine_append_afterFirst, ← List.append_assoc,
      Text.closed_append_openLine]
  rw [htext, ofText_append root verbose (Text.endsLine_closed first),
    ofText_line_append hmeet (Text.afterFirst_cases second)]

/-- The same text read in two parts. -/
theorem ofText_append_ofText (root : Path) (verbose : Bool) (first second : Text) :
    ofText root verbose first ++ ofText root verbose second =
      ofText root verbose (Text.closed first) ++
        ((ofLine root verbose (Text.openLine first) ++
            ofLine root verbose (Text.firstLine second)) ++
          ofText root verbose (Text.afterFirst second)) := by
  have hfirst : ofText root verbose first = ofText root verbose (Text.closed first) ++
      ofLine root verbose (Text.openLine first) := by
    rw [← ofText_of_notMem (Text.notMem_openLine first),
      ← ofText_append root verbose (Text.endsLine_closed first), Text.closed_append_openLine]
  have hsecond : ofText root verbose second = ofLine root verbose (Text.firstLine second) ++
      ofText root verbose (Text.afterFirst second) := by
    rw [← ofText_line_append (Text.notMem_firstLine second) (Text.afterFirst_cases second),
      Text.firstLine_append_afterFirst]
  rw [hfirst, hsecond]
  simp only [List.append_assoc]

end Diagnostic

namespace Issues

open Diagnostic

variable {root : Path} {verbose : Bool} {line key : Text}

/-- What counts of a line under a key: the trimmed line, if it qualifies and has the key. -/
theorem linesOf_ofLine (root : Path) (verbose : Bool) (line key : Text) :
    (ofDiagnostics (ofLine root verbose line)).linesOf key =
      if Qualifies verbose line.trim ∧ keyOf root (subject line.trim) = key then [line.trim]
      else [] := by
  rw [linesOf_ofDiagnostics, ofLine, ofLine?_eq]
  by_cases hline : Qualifies verbose line.trim
  · by_cases hkey : keyOf root (subject line.trim) = key <;> simp [hline, hkey]
  · simp [hline]

theorem mem_linesOf_ofLine {filed : Text} :
    filed ∈ (ofDiagnostics (ofLine root verbose line)).linesOf key ↔
      filed = line.trim ∧ Qualifies verbose line.trim ∧ keyOf root (subject line.trim) = key := by
  rw [linesOf_ofLine]
  split
  · next h => simp [h]
  · next h => simp [h]

/-- Two lines count as they stand exactly if they meet cleanly. -/
theorem linesOf_ofLine_append_iff (root : Path) (verbose : Bool) (first second : Text) :
    (∀ key, (ofDiagnostics (ofLine root verbose (first ++ second))).linesOf key =
      (ofDiagnostics (ofLine root verbose first)).linesOf key ++
        (ofDiagnostics (ofLine root verbose second)).linesOf key) ↔
      MeetsCleanly verbose first second := by
  constructor
  · intro h
    by_cases hfirst : first.trim = []
    · exact .inl hfirst
    by_cases hsecond : second.trim = []
    · exact .inr (.inl hsecond)
    -- Either line, if it counted, would have to be the one line, which has more in it than blanks.
    have hnotFirst : ¬ Qualifies verbose first.trim := by
      intro hline
      have hmem : first.trim ∈ (ofDiagnostics (ofLine root verbose (first ++ second))).linesOf
          (keyOf root (subject first.trim)) := by
        rw [h]
        exact List.mem_append_left _ (mem_linesOf_ofLine.2 ⟨rfl, hline, rfl⟩)
      exact hsecond (Text.trim_eq_nil_of_trim_append_left (mem_linesOf_ofLine.1 hmem).1.symm)
    have hnotSecond : ¬ Qualifies verbose second.trim := by
      intro hline
      have hmem : second.trim ∈ (ofDiagnostics (ofLine root verbose (first ++ second))).linesOf
          (keyOf root (subject second.trim)) := by
        rw [h]
        exact List.mem_append_right _ (mem_linesOf_ofLine.2 ⟨rfl, hline, rfl⟩)
      exact hfirst (Text.trim_eq_nil_of_trim_append_right (mem_linesOf_ofLine.1 hmem).1.symm)
    have hnotBoth : ¬ Qualifies verbose (first ++ second).trim := by
      intro hline
      have hmem : (first ++ second).trim ∈ (ofDiagnostics (ofLine root verbose
          (first ++ second))).linesOf (keyOf root (subject (first ++ second).trim)) :=
        mem_linesOf_ofLine.2 ⟨rfl, hline, rfl⟩
      rw [h, List.mem_append, mem_linesOf_ofLine, mem_linesOf_ofLine] at hmem
      exact hmem.elim (fun hleft => hnotFirst hleft.2.1) fun hright => hnotSecond hright.2.1
    exact .inr (.inr (by simp [hnotFirst, hnotSecond, hnotBoth]))
  · have hblank : ¬ Qualifies verbose [] := fun h => h.1 rfl
    rintro (hfirst | hsecond | hnone) key
    · have htrim := Text.trim_blanks_append (Text.trim_eq_nil_iff.1 hfirst) second
      simp [linesOf_ofLine, htrim, hfirst, hblank]
    · have htrim := Text.trim_append_blanks (Text.trim_eq_nil_iff.1 hsecond) first
      simp [linesOf_ofLine, htrim, hsecond, hblank]
    · simp only [List.forall_mem_cons] at hnone
      simp [linesOf_ofLine, hnone.1, hnone.2.1, hnone.2.2.1]

/-- The issues of two texts put together are those of both exactly if the texts meet cleanly. -/
theorem ofOutput_append_eq_iff (root : Path) (verbose : Bool) (first second : Text) :
    ofOutput root verbose (first ++ second) =
        (Report.ofBatches [ofOutput root verbose first, ofOutput root verbose second]).issues ↔
      MeetsCleanly verbose (Text.openLine first) (Text.firstLine second) := by
  -- Both sides are the same but for what counts of the two lines that meet.
  have htogether : ∀ key, (ofOutput root verbose (first ++ second)).linesOf key =
      (ofDiagnostics (ofText root verbose (Text.closed first))).linesOf key ++
        ((ofDiagnostics (ofLine root verbose
            (Text.openLine first ++ Text.firstLine second))).linesOf key ++
          (ofDiagnostics (ofText root verbose (Text.afterFirst second))).linesOf key) := by
    intro key
    rw [ofOutput, ofText_append_eq, linesOf_ofDiagnostics_append, linesOf_ofDiagnostics_append]
  have happart : ∀ key, (Report.ofBatches [ofOutput root verbose first,
      ofOutput root verbose second]).issues.linesOf key =
      (ofDiagnostics (ofText root verbose (Text.closed first))).linesOf key ++
        (((ofDiagnostics (ofLine root verbose (Text.openLine first))).linesOf key ++
            (ofDiagnostics (ofLine root verbose (Text.firstLine second))).linesOf key) ++
          (ofDiagnostics (ofText root verbose (Text.afterFirst second))).linesOf key) := by
    intro key
    rw [Report.linesOf_ofBatches, List.flatMap_cons, List.flatMap_singleton, ofOutput, ofOutput,
      ← linesOf_ofDiagnostics_append, ofText_append_ofText, linesOf_ofDiagnostics_append,
      linesOf_ofDiagnostics_append, linesOf_ofDiagnostics_append]
  rw [← linesOf_ofLine_append_iff root]
  constructor
  · intro h key
    have hkey := htogether key
    rw [h, happart, eq_comm] at hkey
    exact List.append_cancel_right (List.append_cancel_left hkey)
  · intro h
    refine eq_of_linesOf (noEmpty_ofOutput root verbose _) (Report.isConsistent_ofBatches _).noEmpty
      fun key => ?_
    rw [htogether, happart, h]

end Issues

namespace Invocation

/-- What the analyzer prints when it is started on a batch, to its output and to its errors. One
that cannot be started prints nothing. -/
def printed (invocation : Invocation) (batch : Batch) (host : Host) : Text × Text :=
  match (host.launch (some invocation.root) invocation.exe (invocation.arguments batch)).1 with
  | some execution => (Utf8.decodeLenient execution.output, Utf8.decodeLenient execution.errors)
  | none => ([], [])

theorem text_run (invocation : Invocation) (batch : Batch) (host : Host) :
    (invocation.run batch host).1.text =
      (invocation.printed batch host).1 ++ (invocation.printed batch host).2 := by
  have hreply : (invocation.run batch host).1 =
      replyOf (host.launch (some invocation.root) invocation.exe (invocation.arguments batch)).1 :=
    rfl
  rw [hreply, printed]
  cases (host.launch (some invocation.root) invocation.exe (invocation.arguments batch)).1 <;> rfl

/-- What a batch adds to the issues is what the output and the errors of the analyzer report by
themselves, exactly if the line that the output leaves open and the first line of the errors meet
cleanly. So it is if the output ends with a line. -/
theorem issues_run_eq_iff (workload : Workload) (invocation : Invocation) (batch : Batch)
    (host : Host) :
    let (output, errors) := invocation.printed batch host
    let issues := (workload.findings (invocation.run batch host).1).issues
    let apart := (Report.ofBatches [Issues.ofOutput workload.root workload.verbose output,
      Issues.ofOutput workload.root workload.verbose errors]).issues
    (issues = apart ↔ Diagnostic.MeetsCleanly workload.verbose (Text.openLine output)
      (Text.firstLine errors)) ∧
    (output.EndsLine → issues = apart) := by
  dsimp only
  rw [Workload.findings, text_run]
  have hiff := Issues.ofOutput_append_eq_iff workload.root workload.verbose
    (invocation.printed batch host).1 (invocation.printed batch host).2
  refine ⟨hiff, fun hends => hiff.2 (.inl ?_)⟩
  rw [Text.openLine_of_endsLine hends]
  rfl

/-- A host whose programs all report a warning without a line feed to their output, and a line with
an error to their errors. -/
def openLineHost : Host :=
  { tree := .empty
    current := []
    override? := none
    start := fun tree _ _ _ => (some ⟨.exited 1, Utf8.encode "a.cpp:1: warning: w",
      Utf8.encode "b.cpp:1: error: e\n"⟩, tree) }

/-- Where the output leaves its last line open, the error behind it becomes a part of the warning,
and the second file has no issues at all. -/
theorem issues_run_open_line :
    let invocation : Invocation := { exe := "tidy", compileDirectory := ⟨"/p"⟩, root := ⟨"/p"⟩ }
    let workload : Workload := { root := ⟨"/p"⟩ }
    let (output, errors) := invocation.printed ["a.cpp"] openLineHost
    let issues := (workload.findings (invocation.run ["a.cpp"] openLineHost).1).issues
    let apart := (Report.ofBatches [Issues.ofOutput workload.root workload.verbose output,
      Issues.ofOutput workload.root workload.verbose errors]).issues
    output = "a.cpp:1: warning: w" ∧ errors = "b.cpp:1: error: e\n" ∧
      issues.linesOf "a.cpp" = ["a.cpp:1: warning: wb.cpp:1: error: e"] ∧
      apart.linesOf "a.cpp" = ["a.cpp:1: warning: w"] ∧
      issues.linesOf "b.cpp" = [] ∧ apart.linesOf "b.cpp" = ["b.cpp:1: error: e"] ∧
      issues ≠ apart := by
  decide +kernel

end Invocation

end EngineUpkeep
