import EngineUpkeep.Proofs.Report.Issues
import EngineUpkeep.Proofs.Text.Pieces

/-!
# Diagnostics of several texts

A text that ends with a line can be followed by another without a change to the diagnostics of
either (`Diagnostic.ofText_append`). So the lines that many such texts give for a file are those of
the texts, one after the other (`Issues.linesOf_ofOutput_flatMap`).
-/

namespace EngineUpkeep

/-- A text ends with a line feed, or it has no last line at all. -/
def Text.EndsLine (text : Text) : Prop :=
  text = [] ∨ text.getLast? = some '\n'

/-- Whether a text ends with a line is decidable. -/
instance (text : Text) : Decidable text.EndsLine := by
  unfold Text.EndsLine
  infer_instance

namespace Diagnostic

/-- The diagnostics of a text and of one that comes after it, if the first ends with a line. -/
theorem ofText_append (root : Path) (verbose : Bool) {first : Text} (h : first.EndsLine)
    (second : Text) :
    ofText root verbose (first ++ second) =
      ofText root verbose first ++ ofText root verbose second := by
  have hblank : ofLine? root verbose [] = none := rfl
  rcases h with rfl | h
  · rw [List.nil_append, ofText, ofText]
    simp [Text.pieces, hblank]
  · obtain ⟨lines, rfl⟩ := List.getLast?_eq_some_iff.1 h
    rw [List.append_assoc, List.singleton_append, ofText, ofText, ofText, Text.pieces_append_cons,
      Text.pieces_append_cons, List.filterMap_append, List.filterMap_append]
    simp [Text.pieces, hblank]

end Diagnostic

namespace Issues

theorem linesOf_ofDiagnostics_append (first second : List (Text × Text)) (key : Text) :
    (ofDiagnostics (first ++ second)).linesOf key =
      (ofDiagnostics first).linesOf key ++ (ofDiagnostics second).linesOf key := by
  rw [linesOf_ofDiagnostics, linesOf_ofDiagnostics, linesOf_ofDiagnostics, List.filter_append,
    List.map_append]

theorem linesOf_ofOutput_append (root : Path) (verbose : Bool) {first : Text} (h : first.EndsLine)
    (second : Text) (key : Text) :
    (ofOutput root verbose (first ++ second)).linesOf key =
      (ofOutput root verbose first).linesOf key ++
        (ofOutput root verbose second).linesOf key := by
  rw [ofOutput, ofOutput, ofOutput, Diagnostic.ofText_append root verbose h,
    linesOf_ofDiagnostics_append]

/-- The lines that texts give for a file, if each of them ends with a line. -/
theorem linesOf_ofOutput_flatMap (root : Path) (verbose : Bool) {items : List Text}
    {text : Text → Text} (h : ∀ item ∈ items, (text item).EndsLine) (key : Text) :
    (ofOutput root verbose (items.flatMap text)).linesOf key =
      items.flatMap fun item => (ofOutput root verbose (text item)).linesOf key := by
  induction items with
  | nil => rfl
  | cons item items ih =>
    rw [List.flatMap_cons, linesOf_ofOutput_append root verbose (h item List.mem_cons_self),
      List.flatMap_cons, ih fun other hmem => h other (List.mem_cons_of_mem _ hmem)]

end Issues

end EngineUpkeep
