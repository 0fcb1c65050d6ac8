import EngineUpkeep.Report.Issues
import EngineUpkeep.Selection
import EngineUpkeep.Text.Blank

/-!
# Diagnostics

What the analyzer prints is free text. A line is filed under a file when it speaks of a warning or
an error and the text before its first colon ends like the name of a source or a header. A reader
who asks for everything gets the lines that do not speak of a warning or an error, too.

A line in which a drive letter comes first has the wrong text before its first colon and is not
filed.
-/

namespace EngineUpkeep

namespace Diagnostic

/-- A line speaks of a warning or an error. Case does not matter; outside ASCII no letter has a
letter of these words as its lower case. -/
def mentionsTrouble (line : Text) : Bool :=
  let lower : Text := line.map Text.lowerAscii
  Text.contains lower "warning" || Text.contains lower "error"

/-- The key of a path in a line: relative to the root if it is below it, else as it is written. -/
def keyOf (root : Path) (file : Text) : Text :=
  (Path.key? root ⟨file⟩).getD file

/-- The key under which a line is filed and the line without blanks around it, if it is filed. -/
def ofLine? (root : Path) (verbose : Bool) (raw : Text) : Option (Text × Text) :=
  let line := raw.trim
  if line = [] || !(mentionsTrouble line || verbose) then none
  else match line.splitOnce ':' with
    | none => none
    | some (head, _) =>
      -- The ending decides alone; the file need not be there.
      if Selection.namesSource head.trim then some (keyOf root head.trim, line) else none

/-- The filed lines of a text, in order. -/
def ofText (root : Path) (verbose : Bool) (text : Text) : List (Text × Text) :=
  (text.pieces '\n').filterMap (ofLine? root verbose)

end Diagnostic

namespace Issues

/-- Files one line. -/
def file (issues : Issues) (diagnostic : Text × Text) : Issues :=
  issues.add diagnostic.1 [diagnostic.2]

/-- The issues that some diagnostics make. -/
def ofDiagnostics (diagnostics : List (Text × Text)) : Issues :=
  diagnostics.foldl file empty

/-- The issues that a text of the analyzer reports. -/
def ofOutput (root : Path) (verbose : Bool) (text : Text) : Issues :=
  ofDiagnostics (Diagnostic.ofText root verbose text)

/-- Filing diagnostics puts those of a file behind its lines, in order. -/
theorem linesOf_foldl_file (diagnostics : List (Text × Text)) (issues : Issues) (key : Text) :
    (diagnostics.foldl file issues).linesOf key =
      issues.linesOf key ++ (diagnostics.filter fun d => d.1 = key).map (·.2) := by
  induction diagnostics generalizing issues with
  | nil => simp
  | cons d diagnostics ih =>
    rw [List.foldl_cons, ih, file, linesOf_add]
    by_cases h : d.1 = key
    · simp [h]
    · have hflip : ¬ key = d.1 := fun heq => h heq.symm
      simp [h, hflip]

end Issues

end EngineUpkeep
