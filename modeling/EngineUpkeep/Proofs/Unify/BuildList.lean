import EngineUpkeep.Proofs.Text.Lines
import EngineUpkeep.Proofs.Unify.Steps
import Mathlib.Data.List.TakeWhile

/-!
# Edits of a build list in any order

An edit looks for lines that have an entry in them, and changes one marker in front of each. If the
entry begins with a character that is neither blank nor a marker, a marker more or less does not
decide whether the entry is in a line (`contains_edited`). So two edits of the same kind can be made
in either order (`toggle_comm`), even where both entries are in the same line.
-/

namespace EngineUpkeep

namespace BuildList

open Text

variable {needle other line : Text} {edit : LineEdit}

/-! ## Entries that no marker can be part of -/

/-- The text begins with a character that is neither blank nor a marker. -/
def IsAnchored : Text → Prop
  | [] => False
  | c :: _ => isBlank c = false ∧ c ≠ marker

instance instDecidableIsAnchored : (needle : Text) → Decidable (IsAnchored needle)
  | [] => .isFalse id
  | c :: _ => inferInstanceAs (Decidable (isBlank c = false ∧ c ≠ marker))

theorem contains_cons (h : IsAnchored needle) {c : Char} (hc : isBlank c = true ∨ c = marker)
    (line : Text) : contains (c :: line) needle = contains line needle := by
  rcases needle with _ | ⟨d, rest⟩
  · exact h.elim
  obtain ⟨hblank, hmarker⟩ := h
  have hne : d ≠ c := by
    rintro rfl
    obtain hd | hd := hc
    · rw [hblank] at hd
      cases hd
    · exact hmarker hd
  rw [contains, List.isPrefixOf_cons_cons, beq_eq_false_iff_ne.2 hne, Bool.false_and, Bool.false_or]

theorem contains_append_blank (h : IsAnchored needle) {blanks : Text}
    (hblanks : ∀ c ∈ blanks, isBlank c = true) (line : Text) :
    contains (blanks ++ line) needle = contains line needle := by
  induction blanks with
  | nil => rfl
  | cons c blanks ih =>
    rw [List.cons_append, contains_cons h (.inl (hblanks c (by simp))),
      ih fun d hd => hblanks d (by simp [hd])]

/-- A line from which a marker is taken is blank up to the marker. -/
theorem uncommented?_eq_some {after : Text} (h : uncommented? line = some after) :
    ∃ blanks rest, (∀ c ∈ blanks, isBlank c = true) ∧ line = blanks ++ marker :: rest ∧
      after = blanks ++ rest := by
  rw [uncommented?] at h
  split at h
  · next c rest hdrop =>
    split at h
    · next hc =>
      cases h
      refine ⟨line.takeWhile isBlank, rest, fun d hd => List.mem_takeWhile_imp hd, ?_, rfl⟩
      rw [← hc, ← hdrop, List.takeWhile_append_dropWhile]
    · cases h
  · cases h

/-- A line after an edit of every line. -/
def edited (edit : LineEdit) (line : Text) : Text :=
  (edited? edit line).getD line

/-- An edit changes no more than one marker, so it does not decide what is in a line. -/
theorem contains_edited (h : IsAnchored needle) (edit : LineEdit) (line : Text) :
    contains (edited edit line) needle = contains line needle := by
  cases edit with
  | comment => exact contains_cons h (.inr rfl) line
  | uncomment =>
    rw [edited, edited?]
    rcases huncommented : uncommented? line with _ | after
    · rfl
    · obtain ⟨blanks, rest, hblanks, rfl, rfl⟩ := uncommented?_eq_some huncommented
      rw [Option.getD_some, contains_append_blank h hblanks, contains_append_blank h hblanks,
        contains_cons h (.inr rfl)]

/-- A line with an entry in it keeps its end when it is edited. -/
theorem end_edited (h : IsAnchored needle) (hcontains : contains line needle = true)
    (hne : line ≠ []) (hinside : '\n' ∉ line.dropLast) :
    edited edit line ≠ [] ∧ '\n' ∉ (edited edit line).dropLast ∧
      (edited edit line).getLast? = line.getLast? := by
  cases edit with
  | comment =>
    refine ⟨by simp [edited, edited?], ?_, List.getLast?_cons_of_ne_nil hne⟩
    show '\n' ∉ (marker :: line).dropLast
    rw [List.dropLast_cons_of_ne_nil hne, List.mem_cons, not_or]
    exact ⟨by decide, hinside⟩
  | uncomment =>
    rw [edited, edited?]
    rcases huncommented : uncommented? line with _ | after
    · exact ⟨hne, hinside, rfl⟩
    · obtain ⟨blanks, rest, hblanks, rfl, rfl⟩ := uncommented?_eq_some huncommented
      -- The entry is behind the marker, so there is something left of the line.
      have hrest : rest ≠ [] := by
        rintro rfl
        rw [contains_append_blank h hblanks, contains_cons h (.inr rfl)] at hcontains
        rcases needle with _ | ⟨c, more⟩
        · exact h
        · cases hcontains
      rw [List.dropLast_append_of_ne_nil (by simp), List.dropLast_cons_of_ne_nil hrest] at hinside
      refine ⟨by simp [hrest], ?_, ?_⟩
      · rw [Option.getD_some, List.dropLast_append_of_ne_nil hrest]
        simp only [List.mem_append, List.mem_cons, not_or] at hinside ⊢
        exact ⟨hinside.1, hinside.2.2⟩
      · rw [Option.getD_some, List.getLast?_append_of_ne_nil _ hrest,
          List.getLast?_append_of_ne_nil _ (by simp), List.getLast?_cons_of_ne_nil hrest]

/-! ## Two edits -/

/-- A line after an edit of the lines that have an entry in them. -/
def toggledLine (needle : Text) (edit : LineEdit) (line : Text) : Text :=
  if contains line needle then edited edit line else line

theorem toggle_eq (needle : Text) (edit : LineEdit) (content : Text) :
    (toggle needle edit content).1 =
      ((linesWithEnds content).map (toggledLine needle edit)).flatten := by
  show ((linesWithEnds content).flatMap fun line => (toggled? needle edit line).getD line) = _
  rw [List.flatMap_def]
  congr 2
  funext line
  rw [toggled?, toggledLine, edited]
  split <;> rfl

/-- An edit makes lines of lines. -/
theorem linesWithEnds_toggle (h : IsAnchored needle) (edit : LineEdit) (content : Text) :
    linesWithEnds (toggle needle edit content).1 =
      (linesWithEnds content).map (toggledLine needle edit) := by
  rw [toggle_eq]
  refine linesWithEnds_flatten ((areLines_linesWithEnds content).map fun line hne hinside => ?_)
  rw [toggledLine]
  split
  · next hcontains => exact end_edited h hcontains hne hinside
  · exact ⟨hne, hinside, rfl⟩

theorem toggledLine_comm (h : IsAnchored needle) (hother : IsAnchored other) (edit : LineEdit)
    (line : Text) :
    toggledLine other edit (toggledLine needle edit line) =
      toggledLine needle edit (toggledLine other edit line) := by
  simp only [toggledLine]
  by_cases hneedle : contains line needle = true
  · by_cases hfound : contains line other = true
    · simp [hneedle, hfound, contains_edited h, contains_edited hother]
    · simp [hneedle, hfound, contains_edited hother]
  · by_cases hfound : contains line other = true
    · simp [hneedle, hfound, contains_edited h]
    · simp [hneedle, hfound]

/-- Two edits of the same kind come to the same in either order. -/
theorem toggle_comm (h : IsAnchored needle) (hother : IsAnchored other) (edit : LineEdit)
    (content : Text) :
    (toggle other edit (toggle needle edit content).1).1 =
      (toggle needle edit (toggle other edit content).1).1 := by
  rw [toggle_eq other edit (toggle needle edit content).1, linesWithEnds_toggle h,
    toggle_eq needle edit (toggle other edit content).1, linesWithEnds_toggle hother,
    List.map_map, List.map_map]
  congr 2
  funext line
  exact toggledLine_comm h hother edit line

end BuildList

/-- So do two edits of an entry of the file tree. -/
theorem Entry.toggled_comm {needle other : Text} (h : BuildList.IsAnchored needle)
    (hother : BuildList.IsAnchored other) (edit : LineEdit) (entry : Entry) :
    (entry.toggled needle edit).toggled other edit =
      (entry.toggled other edit).toggled needle edit := by
  rcases entry with _ | ⟨⟨chars⟩ | bytes, runnable⟩ | link
  · rfl
  · simp only [Entry.toggled, BuildList.toggle_comm h hother]
  · rfl
  · rfl

end EngineUpkeep
