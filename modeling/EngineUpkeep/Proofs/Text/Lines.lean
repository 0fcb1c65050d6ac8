import EngineUpkeep.Proofs.Text.Pieces
import Mathlib.Data.List.Basic

/-!
# Lines of texts

A text is made of lines, each of which but the last one has a line feed at its end and none inside
(`areLines_linesWithEnds`, `linesWithEnds_flatten`). So a text can be taken apart line by line
(`lines_induction`). The pieces between line feeds are the lines without their ends, and a reader of
lines to whom ends and empty lines mean nothing reads the same in them (`filterMap_linesWithEnds`).
-/

namespace EngineUpkeep

namespace Text

/-! ## The lines of a text -/

/-- These are the lines of a text: each of them but the last one ends in a line feed, and there is
no line feed inside of one. -/
def AreLines : List Text → Prop
  | [] => True
  | line :: rest =>
    line ≠ [] ∧ '\n' ∉ line.dropLast ∧ (rest ≠ [] → line.getLast? = some '\n') ∧ AreLines rest

theorem areLines_linesWithEnds (text : Text) : AreLines (linesWithEnds text) := by
  induction text with
  | nil => trivial
  | cons c rest ih =>
    rw [linesWithEnds]
    split
    · exact ⟨by simp, by simp, fun _ => rfl, ih⟩
    · next hc =>
      split
      · exact ⟨by simp, by simp, fun hne => absurd rfl hne, trivial⟩
      · next line others hlines =>
        rw [hlines] at ih
        obtain ⟨hne, hinside, hlast, hothers⟩ := ih
        refine ⟨by simp, ?_, fun hothersNe => ?_, hothers⟩
        · rw [List.dropLast_cons_of_ne_nil hne, List.mem_cons, not_or]
          exact ⟨fun h => hc h.symm, hinside⟩
        · rw [List.getLast?_cons_of_ne_nil hne]
          exact hlast hothersNe

/-- A line feed ends the first line. -/
theorem linesWithEnds_append {before : Text} (h : '\n' ∉ before) (after : Text) :
    linesWithEnds (before ++ '\n' :: after) = (before ++ ['\n']) :: linesWithEnds after := by
  induction before with
  | nil => rw [List.nil_append, linesWithEnds, if_pos rfl, List.nil_append]
  | cons c before ih =>
    rw [List.mem_cons, not_or] at h
    rw [List.cons_append, linesWithEnds, if_neg (Ne.symm h.1), ih h.2]
    rfl

theorem linesWithEnds_of_notMem {line : Text} (hne : line ≠ []) (h : '\n' ∉ line) :
    linesWithEnds line = [line] := by
  induction line with
  | nil => exact absurd rfl hne
  | cons c line ih =>
    rw [List.mem_cons, not_or] at h
    rw [linesWithEnds, if_neg (Ne.symm h.1)]
    by_cases hline : line = []
    · rw [hline]
      rfl
    · rw [ih hline h.2]

/-- Lines, written one after the other, are the lines of what they make. -/
theorem linesWithEnds_flatten {lines : List Text} (h : AreLines lines) :
    linesWithEnds lines.flatten = lines := by
  induction lines with
  | nil => rfl
  | cons line rest ih =>
    obtain ⟨hne, hinside, hlast, hrest⟩ := h
    obtain ⟨before, last, rfl⟩ := (List.eq_nil_or_concat' line).resolve_left hne
    rw [List.dropLast_concat] at hinside
    rw [List.flatten_cons]
    by_cases hfeed : last = '\n'
    · rw [hfeed, List.append_assoc, List.singleton_append, linesWithEnds_append hinside, ih hrest]
    · -- A line without a line feed is the last one.
      obtain rfl : rest = [] := by
        by_contra hrestNe
        have hend := hlast hrestNe
        rw [List.getLast?_concat] at hend
        exact hfeed (Option.some.inj hend)
      rw [List.flatten_nil, List.append_nil, linesWithEnds_of_notMem hne]
      rw [List.mem_append, List.mem_singleton, not_or]
      exact ⟨hinside, Ne.symm hfeed⟩

/-- Lines stay lines when each of them keeps its end. -/
theorem AreLines.map {lines : List Text} (h : AreLines lines) {change : Text → Text}
    (hchange : ∀ line, line ≠ [] → '\n' ∉ line.dropLast →
      change line ≠ [] ∧ '\n' ∉ (change line).dropLast ∧
        (change line).getLast? = line.getLast?) : AreLines (lines.map change) := by
  induction lines with
  | nil => trivial
  | cons line rest ih =>
    obtain ⟨hne, hinside, hlast, hrest⟩ := h
    obtain ⟨hneAfter, hinsideAfter, hlastAfter⟩ := hchange line hne hinside
    refine ⟨hneAfter, hinsideAfter, fun hrestNe => ?_, ih hrest⟩
    rw [hlastAfter]
    exact hlast fun hnil => hrestNe (by simp [hnil])

/-! ## Line by line -/

/-- A text is empty, or it is a line without an end, or a line with its end comes first in it. -/
@[elab_as_elim]
theorem lines_induction {motive : Text → Prop} (nil : motive [])
    (last : ∀ line, line ≠ [] → '\n' ∉ line → motive line)
    (line : ∀ before after, '\n' ∉ before → motive after → motive (before ++ '\n' :: after))
    (text : Text) : motive text := by
  have hjoin : ∀ names : List Text, (∀ name ∈ names, '\n' ∉ name) → motive (join ['\n'] names) := by
    intro names hnames
    induction names with
    | nil => exact nil
    | cons name names ih =>
      obtain ⟨hname, hrest⟩ := List.forall_mem_cons.1 hnames
      cases names with
      | nil =>
        by_cases hempty : name = []
        · rw [hempty]
          exact nil
        · exact last name hempty hname
      | cons next others =>
        rw [join, List.append_assoc, List.singleton_append]
        exact line name _ hname (ih hrest)
  have htext := hjoin (pieces text '\n') fun name hname => notMem_of_mem_pieces hname
  rwa [join_pieces] at htext

/-- What is read of lines is what is read of the pieces between line feeds, if neither the end of a
line nor an empty piece says anything. -/
theorem filterMap_linesWithEnds {α : Type} {read : Text → Option α}
    (hend : ∀ line, read (line ++ ['\n']) = read line) (hnil : read [] = none) (text : Text) :
    (linesWithEnds text).filterMap read = (pieces text '\n').filterMap read := by
  induction text using lines_induction with
  | nil => simp [linesWithEnds, pieces, hnil]
  | last line hne h => rw [linesWithEnds_of_notMem hne h, pieces_of_notMem h]
  | line before after h ih =>
    rw [linesWithEnds_append h, pieces_append_cons, pieces_of_notMem h, List.singleton_append,
      List.filterMap_cons, List.filterMap_cons, hend, ih]

end Text

end EngineUpkeep
