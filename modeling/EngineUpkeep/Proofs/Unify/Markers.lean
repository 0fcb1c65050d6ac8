import EngineUpkeep.Proofs.Text.Search
import EngineUpkeep.Proofs.Unify.BuildList

/-!
# What an edit of a build list changes

A build list is read in lines, which are found by what is in them, their ends included. An edit is
seen best in the pieces between line feeds: there are as many after it as before, and a piece is the
same unless its line is found (`BuildList.changesOnlyMarkers_toggle`). Of a piece whose line is found
nothing changes but one marker. A marker that was put in front of a line comes first there, so it is
the one that is taken off again (`BuildList.toggle_uncomment_toggle_comment`).

Nothing is asked of the text that is looked for. It may be empty, or have markers or line feeds in it.
-/

namespace EngineUpkeep

namespace Text

/-- The line that the piece at a place is: with its line feed, if another piece comes behind it. An
empty piece at the end is no line. -/
def lineAt? (parts : List Text) (place : Nat) : Option Text :=
  match parts[place]?, parts[place + 1]? with
  | some piece, some _ => some (piece ++ ['\n'])
  | some piece, none => if piece = [] then none else some piece
  | none, _ => none

theorem lineAt?_cons_zero {piece : Text} {parts : List Text} (h : parts ≠ []) :
    lineAt? (piece :: parts) 0 = some (piece ++ ['\n']) := by
  obtain ⟨next, others, rfl⟩ := List.exists_cons_of_ne_nil h
  rfl

theorem lineAt?_cons_succ (piece : Text) (parts : List Text) (place : Nat) :
    lineAt? (piece :: parts) (place + 1) = lineAt? parts place := by
  simp only [lineAt?, List.getElem?_cons_succ]

end Text

namespace BuildList

open Text

variable {needle line piece before after content : Text} {edit : LineEdit}

/-! ## One line -/

/-- A marker is taken off behind the blanks of a line. -/
theorem uncommented?_append {blanks : Text} (hblanks : ∀ c ∈ blanks, isBlank c = true) (rest : Text) :
    uncommented? (blanks ++ marker :: rest) = some (blanks ++ rest) := by
  have hmarker : isBlank marker = false := by decide
  have hdrop : (blanks ++ marker :: rest).dropWhile isBlank = marker :: rest := by
    rw [List.dropWhile_append_of_pos hblanks, List.dropWhile_cons_of_neg (by simp [hmarker])]
  have htake : (blanks ++ marker :: rest).takeWhile isBlank = blanks := by
    rw [List.takeWhile_append_of_pos hblanks, List.takeWhile_cons_of_neg (by simp [hmarker]),
      List.append_nil]
  rw [uncommented?, hdrop]
  simp [htake]

/-- A marker is taken off a line exactly if it is the first character there that is not blank. -/
theorem isSome_uncommented?_iff :
    (uncommented? line).isSome ↔ line.find? (!isBlank ·) = some marker := by
  rw [List.find?_eq_head?_dropWhile_not]
  simp only [Bool.not_not, uncommented?]
  cases line.dropWhile isBlank with
  | nil => simp
  | cons c rest => by_cases hc : c = marker <;> simp [hc]

/-- An edit that changes a line does not care whether the line has its end. -/
theorem edited?_append_feed (edit : LineEdit) (line : Text) :
    edited? edit (line ++ ['\n']) = (edited? edit line).map (· ++ ['\n']) := by
  cases edit with
  | comment => rfl
  | uncomment =>
    rw [edited?, edited?]
    rcases hline : uncommented? line with _ | after
    · -- The end of the line is blank, so no marker comes first now that did not before.
      have hnone : ¬ (uncommented? line).isSome := by simp [hline]
      have hfeed : ¬ (uncommented? (line ++ ['\n'])).isSome := by
        rw [isSome_uncommented?_iff] at hnone ⊢
        have hend : (['\n'] : Text).find? (!isBlank ·) = none := by decide
        rwa [List.find?_append, hend, Option.or_none]
      simpa using hfeed
    · obtain ⟨blanks, rest, hblanks, rfl, rfl⟩ := uncommented?_eq_some hline
      rw [List.append_assoc, List.cons_append, uncommented?_append hblanks, Option.map_some,
        List.append_assoc]

/-- An edit puts no line feed into a piece. -/
theorem notMem_edited? (h : '\n' ∉ piece) (hafter : edited? edit piece = some after) :
    '\n' ∉ after := by
  cases edit with
  | comment =>
    cases hafter
    rw [List.mem_cons, not_or]
    exact ⟨by decide, h⟩
  | uncomment =>
    obtain ⟨blanks, rest, -, rfl, rfl⟩ := uncommented?_eq_some hafter
    simp only [List.mem_append, List.mem_cons, not_or] at h ⊢
    exact ⟨h.1, h.2.2⟩

/-- A text has got longer by as many markers, or shorter. -/
def LengthChanges : LineEdit → Nat → Text → Text → Prop
  | .comment, count, before, after => after.length = before.length + count
  | .uncomment, count, before, after => after.length + count = before.length

theorem lengthChanges_edited? (h : edited? edit line = some after) :
    LengthChanges edit 1 line after := by
  cases edit with
  | comment =>
    cases h
    rfl
  | uncomment =>
    obtain ⟨blanks, rest, -, rfl, rfl⟩ := uncommented?_eq_some h
    simp only [LengthChanges, List.length_append, List.length_cons]
    omega

/-! ## One line after the other -/

/-- A piece after an edit, if the edit changes it: its line is found, and there is something to change
about it. -/
def changed? (found : Bool) (edit : LineEdit) (piece : Text) : Option Text :=
  if found then edited? edit piece else none

/-- A piece after an edit, changed or not. -/
def pieceAfter (found : Bool) (edit : LineEdit) (piece : Text) : Text :=
  (changed? found edit piece).getD piece

variable {found : Bool}

theorem lengthChanges_changed? (h : changed? found edit piece = some after) :
    LengthChanges edit 1 piece after := by
  cases found with
  | true => exact lengthChanges_edited? h
  | false => cases h

/-- A piece that is changed is another piece. -/
theorem pieceAfter_ne_iff : pieceAfter found edit piece ≠ piece ↔ (changed? found edit piece).isSome := by
  rw [pieceAfter]
  rcases hpiece : changed? found edit piece with _ | after
  · simp
  · have hlength := lengthChanges_changed? hpiece
    simp only [Option.getD_some, Option.isSome_some, iff_true]
    rintro rfl
    cases edit <;> simp [LengthChanges] at hlength

/-- The count of one piece says whether it is another piece. -/
theorem toNat_isSome_changed? (found : Bool) (edit : LineEdit) (piece : Text) :
    (changed? found edit piece).isSome.toNat =
      if decide (pieceAfter found edit piece ≠ piece) then 1 else 0 := by
  have hdecide : decide (pieceAfter found edit piece ≠ piece) =
      (changed? found edit piece).isSome := by
    rw [Bool.eq_iff_iff, decide_eq_true_iff, pieceAfter_ne_iff]
  rw [hdecide]
  cases (changed? found edit piece).isSome <;> rfl

theorem lengthChanges_pieceAfter (found : Bool) (edit : LineEdit) (piece : Text) :
    LengthChanges edit (changed? found edit piece).isSome.toNat piece
      (pieceAfter found edit piece) := by
  rw [pieceAfter]
  rcases hpiece : changed? found edit piece with _ | after
  · cases edit <;> rfl
  · exact lengthChanges_changed? hpiece

theorem notMem_pieceAfter (h : '\n' ∉ piece) (found : Bool) (edit : LineEdit) :
    '\n' ∉ pieceAfter found edit piece := by
  rw [pieceAfter]
  rcases hpiece : changed? found edit piece with _ | after
  · exact h
  · cases found with
    | true => exact notMem_edited? h hpiece
    | false => cases hpiece

/-- A line with its end is changed like the piece in front of the end. -/
theorem toggled?_append_feed (needle : Text) (edit : LineEdit) (piece : Text) :
    toggled? needle edit (piece ++ ['\n']) =
      (changed? (contains (piece ++ ['\n']) needle) edit piece).map (· ++ ['\n']) := by
  rw [toggled?, changed?]
  split
  · exact edited?_append_feed edit piece
  · rfl

/-- An edit of a line and of what comes behind it. -/
theorem toggle_append (h : '\n' ∉ piece) (needle : Text) (edit : LineEdit) (rest : Text) :
    let found := contains (piece ++ ['\n']) needle
    toggle needle edit (piece ++ '\n' :: rest) =
      (pieceAfter found edit piece ++ '\n' :: (toggle needle edit rest).1,
        (toggle needle edit rest).2 + (changed? found edit piece).isSome.toNat) := by
  intro found
  rw [toggle, linesWithEnds_append h, List.flatMap_cons, List.countP_cons, toggled?_append_feed,
    pieceAfter]
  rcases changed? found edit piece with _ | after <;> simp [toggle]

/-- An edit of a line without an end. -/
theorem toggle_last (hne : line ≠ []) (h : '\n' ∉ line) (needle : Text) (edit : LineEdit) :
    let found := contains line needle
    toggle needle edit line =
      (pieceAfter found edit line, (changed? found edit line).isSome.toNat) := by
  intro found
  have hline : toggled? needle edit line = changed? found edit line := rfl
  rw [toggle, linesWithEnds_of_notMem hne h, List.flatMap_singleton, List.countP_singleton, hline,
    pieceAfter]
  rcases changed? found edit line with _ | after <;> rfl

/-! ## Back and forth -/

/-- The marker that is put in front of a piece is the one that is taken off. -/
theorem changed?_pieceAfter_comment (found : Bool) (piece : Text) :
    changed? found .uncomment (pieceAfter found .comment piece) =
      if found then some piece else none := by
  cases found with
  | true =>
    have hblanks : ∀ c ∈ ([] : Text), isBlank c = true := List.forall_mem_nil _
    exact uncommented?_append hblanks piece
  | false => rfl

/-- With a marker in front, a line is found if it was found before. -/
theorem contains_pieceAfter_comment (needle piece back : Text) :
    contains (pieceAfter (contains (piece ++ back) needle) .comment piece ++ back) needle =
      contains (piece ++ back) needle := by
  cases h : contains (piece ++ back) needle with
  | true => exact contains_cons_of_contains marker h
  | false => exact h

/-- Markers that are put in front of the lines with something in them are taken off again, and
nothing else is. -/
theorem toggle_uncomment_toggle_comment (needle content : Text) :
    toggle needle .uncomment (toggle needle .comment content).1 =
      (content, (toggle needle .comment content).2) := by
  -- Line by line. The lines of the edited text are the edited lines, which are found as before.
  induction content using lines_induction with
  | nil => rfl
  | last line hne h =>
    have hcontains := contains_pieceAfter_comment needle line []
    rw [List.append_nil, List.append_nil] at hcontains
    have hneAfter : pieceAfter (contains line needle) .comment line ≠ [] := by
      cases contains line needle with
      | true => exact List.cons_ne_nil marker line
      | false => exact hne
    rw [toggle_last hne h, toggle_last hneAfter (notMem_pieceAfter h _ _), hcontains, pieceAfter,
      changed?_pieceAfter_comment]
    cases contains line needle <;> rfl
  | line before after h ih =>
    rw [toggle_append h, toggle_append (notMem_pieceAfter h _ _), contains_pieceAfter_comment, ih,
      pieceAfter, changed?_pieceAfter_comment]
    cases contains (before ++ ['\n']) needle <;> rfl

/-! ## The pieces of a build list -/

/-- The line that the piece at a place is has `needle` in it. -/
def isFoundAt (needle : Text) (parts : List Text) (place : Nat) : Bool :=
  (lineAt? parts place).any fun line => contains line needle

theorem pieces_line (h : '\n' ∉ piece) (rest : Text) :
    pieces (piece ++ '\n' :: rest) '\n' = piece :: pieces rest '\n' := by
  rw [pieces_append_cons, pieces_of_notMem h, List.singleton_append]

/-- The pieces of an edited text are those of the text, each changed by itself. -/
theorem pieces_toggle (needle : Text) (edit : LineEdit) (content : Text) :
    pieces (toggle needle edit content).1 '\n' =
      (pieces content '\n').mapIdx fun place piece =>
        pieceAfter (isFoundAt needle (pieces content '\n') place) edit piece := by
  induction content using lines_induction with
  | nil => rfl
  | last line hne h =>
    have hline : isFoundAt needle [line] 0 = contains line needle := by
      simp [isFoundAt, lineAt?, hne]
    rw [toggle_last hne h, pieces_of_notMem (notMem_pieceAfter h _ _), pieces_of_notMem h,
      List.mapIdx_singleton, hline]
  | line before after h ih =>
    have hline : isFoundAt needle (before :: pieces after '\n') 0 =
        contains (before ++ ['\n']) needle := by
      rw [isFoundAt, lineAt?_cons_zero (pieces_ne_nil after '\n'), Option.any_some]
    rw [toggle_append h, pieces_line (notMem_pieceAfter h _ _), ih, pieces_line h, List.mapIdx_cons,
      hline]
    -- The places behind a line feed are those of what comes behind it.
    simp only [isFoundAt, lineAt?_cons_succ]

/-- The count of an edit is the number of pieces that are not what they were. -/
theorem count_toggle (needle : Text) (edit : LineEdit) (content : Text) :
    (toggle needle edit content).2 =
      ((pieces content '\n').zip (pieces (toggle needle edit content).1 '\n')).countP
        fun (old, new) => new ≠ old := by
  induction content using lines_induction with
  | nil => rfl
  | last line hne h =>
    rw [toggle_last hne h, pieces_of_notMem (notMem_pieceAfter h _ _), pieces_of_notMem h,
      toNat_isSome_changed?]
    exact List.countP_singleton.symm
  | line before after h ih =>
    rw [toggle_append h, pieces_line (notMem_pieceAfter h _ _), pieces_line h, List.zip_cons_cons,
      List.countP_cons, ← ih, toNat_isSome_changed?]

theorem lengthChanges_toggle (needle : Text) (edit : LineEdit) (content : Text) :
    LengthChanges edit (toggle needle edit content).2 content (toggle needle edit content).1 := by
  induction content using lines_induction with
  | nil => cases edit <;> rfl
  | last line hne h =>
    rw [toggle_last hne h]
    exact lengthChanges_pieceAfter _ _ _
  | line before after h ih =>
    rw [toggle_append h]
    have hpiece := lengthChanges_pieceAfter (contains (before ++ ['\n']) needle) edit before
    cases edit <;> simp only [LengthChanges, List.length_append, List.length_cons] at hpiece ih ⊢ <;>
      omega

/-- An edit that counts no line has changed nothing. -/
theorem toggle_eq_of_count_eq_zero (h : (toggle needle edit content).2 = 0) :
    (toggle needle edit content).1 = content := by
  -- The count is that of the pieces that have changed, so each piece is what it was.
  rw [count_toggle, List.countP_eq_zero] at h
  have hpieces : pieces (toggle needle edit content).1 '\n' = pieces content '\n' := by
    refine List.ext_getElem (by rw [pieces_toggle, List.length_mapIdx]) fun place hnew hold => ?_
    have hpair : ((pieces content '\n').zip (pieces (toggle needle edit content).1 '\n'))[place]? =
        some ((pieces content '\n')[place], (pieces (toggle needle edit content).1 '\n')[place]) :=
      List.getElem?_zip_eq_some.2
        ⟨List.getElem?_eq_getElem hold, List.getElem?_eq_getElem hnew⟩
    simpa using h _ (List.mem_of_getElem? hpair)
  rw [← join_pieces (toggle needle edit content).1 '\n', hpieces, join_pieces]

/-! ## Nothing but markers -/

/-- The piece has been edited. With `comment` it has a marker more in front. With `uncomment` it is
another piece exactly if a marker is the first character in it that is not blank, and then it is the
piece without this marker. -/
def IsEdited : LineEdit → Text → Text → Prop
  | .comment, piece, after => after = marker :: piece
  | .uncomment, piece, after =>
    (after ≠ piece ↔ piece.find? (!isBlank ·) = some marker) ∧
      (after ≠ piece → ∃ blanks rest, (∀ c ∈ blanks, isBlank c = true) ∧
        piece = blanks ++ marker :: rest ∧ after = blanks ++ rest)

theorem isEdited_pieceAfter (edit : LineEdit) (piece : Text) :
    IsEdited edit piece (pieceAfter true edit piece) := by
  cases edit with
  | comment => rfl
  | uncomment =>
    refine ⟨pieceAfter_ne_iff.trans isSome_uncommented?_iff, fun hne => ?_⟩
    obtain ⟨after, hafter⟩ := Option.isSome_iff_exists.1 (pieceAfter_ne_iff.1 hne)
    rw [pieceAfter, hafter]
    exact uncommented?_eq_some hafter

/-- Of two texts, the second is the first after an edit of the lines with `needle` in them, and
`count` says how many pieces of it are different. -/
structure ChangesOnlyMarkers (needle : Text) (edit : LineEdit) (before after : Text) (count : Nat) :
    Prop where
  /-- The texts have the same number of pieces. -/
  length_pieces : (pieces after '\n').length = (pieces before '\n').length
  /-- A piece is the same if its line is not found, and so is one that is no line. -/
  eq_of_not_found : ∀ place, ¬ isFoundAt needle (pieces before '\n') place →
    (pieces after '\n')[place]? = (pieces before '\n')[place]?
  /-- Every piece whose line is found has been edited. -/
  isEdited_of_found : ∀ place old new, isFoundAt needle (pieces before '\n') place →
    (pieces before '\n')[place]? = some old → (pieces after '\n')[place]? = some new →
      IsEdited edit old new
  /-- The count is the number of pieces that are different. -/
  count_eq : count =
    ((pieces before '\n').zip (pieces after '\n')).countP fun (old, new) => new ≠ old
  /-- Each of them makes the text one character longer, or shorter. -/
  lengthChanges : LengthChanges edit count before after
  /-- The texts are the same exactly if none is different. -/
  count_eq_zero_iff : count = 0 ↔ after = before

/-- An edit changes markers of the lines that it finds, and nothing else, and it counts them. -/
theorem changesOnlyMarkers_toggle (needle : Text) (edit : LineEdit) (content : Text) :
    ChangesOnlyMarkers needle edit content (toggle needle edit content).1
      (toggle needle edit content).2 := by
  have hpieces := pieces_toggle needle edit content
  have hlength := lengthChanges_toggle needle edit content
  refine ⟨?_, ?_, ?_, count_toggle needle edit content, hlength, toggle_eq_of_count_eq_zero, ?_⟩
  · rw [hpieces, List.length_mapIdx]
  · intro place hnot
    simp only [Bool.not_eq_true] at hnot
    rw [hpieces, List.getElem?_mapIdx, hnot]
    exact Option.map_id'
  · intro place old new hfound hold hnew
    rw [hpieces, List.getElem?_mapIdx, hold, hfound, Option.map_some, Option.some_inj] at hnew
    rw [← hnew]
    exact isEdited_pieceAfter edit old
  · intro hsame
    rw [hsame] at hlength
    cases edit <;> simp only [LengthChanges] at hlength <;> omega

end BuildList

end EngineUpkeep
