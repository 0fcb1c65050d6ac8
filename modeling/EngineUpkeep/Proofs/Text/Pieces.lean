import EngineUpkeep.Text.Basic

/-!
# Pieces of texts

`pieces` is the splitting of lists at one of their elements, so a mark that is written out in a text
separates the pieces before it from those after it (`pieces_append_cons`). Pieces without the mark
in them are given back when they are joined and split again (`pieces_join`), and each of them stands
in the joined text (`infix_join_of_mem`).
-/

namespace EngineUpkeep

namespace Text

/-- The pieces of a text are what the list of its characters is split into. -/
theorem pieces_eq_splitOn (text : Text) (mark : Char) : pieces text mark = text.splitOn mark := by
  induction text with
  | nil => rfl
  | cons c rest ih =>
    rw [pieces, ih, List.splitOn_cons_eq_if_modifyHead]
    by_cases hc : c = mark
    · simp [hc]
    · obtain ⟨piece, others, hrest⟩ :=
        List.exists_cons_of_ne_nil (List.splitOn_ne_nil mark rest)
      simp [hc, hrest]

/-- A mark in a text separates the pieces before it from those after it. -/
theorem pieces_append_cons (before after : Text) (mark : Char) :
    pieces (before ++ mark :: after) mark = pieces before mark ++ pieces after mark := by
  rw [pieces_eq_splitOn, pieces_eq_splitOn, pieces_eq_splitOn]
  exact List.splitOn_append_cons_of_beq before after (beq_self_eq_true mark)

/-- A text that is split at a mark is the part before it, the mark and the part after it. -/
theorem eq_append_of_splitOnce {text before after : Text} {mark : Char}
    (h : splitOnce text mark = some (before, after)) : text = before ++ mark :: after := by
  induction text generalizing before with
  | nil => cases h
  | cons c rest ih =>
    rw [splitOnce] at h
    split at h
    · next hc =>
      cases h
      rw [hc]
      rfl
    · obtain ⟨⟨first, second⟩, hrest, heq⟩ := Option.map_eq_some_iff.1 h
      cases heq
      rw [ih hrest]
      rfl

/-- A text is split at the first mark. -/
theorem notMem_of_splitOnce {text before after : Text} {mark : Char}
    (h : splitOnce text mark = some (before, after)) : mark ∉ before := by
  induction text generalizing before with
  | nil => cases h
  | cons c rest ih =>
    rw [splitOnce] at h
    split at h
    · cases h
      simp
    · next hc =>
      obtain ⟨⟨first, second⟩, hrest, heq⟩ := Option.map_eq_some_iff.1 h
      cases heq
      rw [List.mem_cons, not_or]
      exact ⟨Ne.symm hc, ih hrest⟩

theorem splitOnce_append {before : Text} {mark : Char} (h : mark ∉ before) (after : Text) :
    splitOnce (before ++ mark :: after) mark = some (before, after) := by
  induction before with
  | nil => rw [List.nil_append, splitOnce, if_pos rfl]
  | cons c before ih =>
    rw [List.mem_cons, not_or] at h
    rw [List.cons_append, splitOnce, if_neg (Ne.symm h.1), ih h.2]
    rfl

theorem splitOnce_eq_none_iff {text : Text} {mark : Char} :
    splitOnce text mark = none ↔ mark ∉ text := by
  induction text with
  | nil => simp [splitOnce]
  | cons c rest ih =>
    rw [splitOnce, List.mem_cons, not_or, ← ih]
    by_cases hc : c = mark
    · simp [hc]
    · simp [hc, Ne.symm hc]

/-- A text without the mark is its only piece. -/
theorem pieces_of_notMem {text : Text} {mark : Char} (h : mark ∉ text) :
    pieces text mark = [text] := by
  rw [pieces_eq_splitOn]
  exact List.splitOn_eq_singleton h

/-- No mark is in a piece. -/
theorem notMem_of_mem_pieces {text piece : Text} {mark : Char} (h : piece ∈ pieces text mark) :
    mark ∉ piece := by
  induction text generalizing piece with
  | nil =>
    obtain rfl := List.mem_singleton.1 h
    exact List.not_mem_nil
  | cons c rest ih =>
    obtain ⟨first, others, hrest⟩ := List.exists_cons_of_ne_nil (pieces_ne_nil rest mark)
    rw [pieces, hrest] at h
    rw [hrest] at ih
    split at h
    · obtain rfl | h := List.mem_cons.1 h
      · exact List.not_mem_nil
      · exact ih h
    · next hc =>
      obtain rfl | h := List.mem_cons.1 h
      · rw [List.mem_cons, not_or]
        exact ⟨Ne.symm hc, ih List.mem_cons_self⟩
      · exact ih (List.mem_cons_of_mem first h)

/-- Joined pieces are split into themselves. -/
theorem pieces_join {names : List Text} {mark : Char} (hne : names ≠ [])
    (hnames : ∀ name ∈ names, mark ∉ name) : pieces (join [mark] names) mark = names := by
  induction names with
  | nil => exact absurd rfl hne
  | cons name names ih =>
    cases names with
    | nil => exact pieces_of_notMem (hnames name (by simp))
    | cons next others =>
      rw [join, List.append_assoc, List.singleton_append, pieces_append_cons,
        pieces_of_notMem (hnames name (by simp)), ih (by simp)]
      · rfl
      · exact fun other hother => hnames other (List.mem_cons_of_mem name hother)

/-- What stands behind the last mark of a text is determined by the text. -/
theorem eq_of_append_mark_eq {before before' last last' : Text} {mark : Char}
    (h : before ++ mark :: last = before' ++ mark :: last') (hlast : mark ∉ last)
    (hlast' : mark ∉ last') : last = last' := by
  -- It is the last one of the pieces.
  have hpieces := congrArg (fun text => (pieces text mark).getLast?) h
  simpa [pieces_append_cons, pieces_of_notMem hlast, pieces_of_notMem hlast'] using hpieces

/-- Texts are joined in two parts with the mark between the parts. -/
theorem join_append {names more : List Text} (mark : Text) (hne : names ≠ []) (hmore : more ≠ []) :
    join mark (names ++ more) = join mark names ++ (mark ++ join mark more) := by
  induction names with
  | nil => exact absurd rfl hne
  | cons name names ih =>
    cases names with
    | nil =>
      obtain ⟨next, others, rfl⟩ := List.exists_cons_of_ne_nil hmore
      simp [join]
    | cons next others =>
      have hrest := ih (by simp)
      simp only [List.cons_append] at hrest ⊢
      rw [join, join, hrest]
      simp only [List.append_assoc]

/-- What is joined stands in the text that it makes. -/
theorem infix_join_of_mem {piece mark : Text} {names : List Text} (h : piece ∈ names) :
    piece <:+: join mark names := by
  induction names with
  | nil => cases h
  | cons name names ih =>
    cases names with
    | nil =>
      obtain rfl := List.mem_singleton.1 h
      exact List.infix_refl piece
    | cons next others =>
      rw [join]
      obtain rfl | h := List.mem_cons.1 h
      · rw [List.append_assoc]
        exact (List.prefix_append piece _).isInfix
      · exact (ih h).trans (List.suffix_append _ _).isInfix

/-- A character of a joined text is in the mark or in something that is joined. -/
theorem mem_or_exists_of_mem_join {c : Char} {mark : Text} {pieces : List Text}
    (h : c ∈ join mark pieces) : c ∈ mark ∨ ∃ piece ∈ pieces, c ∈ piece := by
  induction pieces with
  | nil => cases h
  | cons piece pieces ih =>
    cases pieces with
    | nil => exact .inr ⟨piece, List.mem_cons_self, h⟩
    | cons next pieces =>
      rw [join, List.mem_append, List.mem_append] at h
      obtain (hpiece | hbetween) | hothers := h
      · exact .inr ⟨piece, List.mem_cons_self, hpiece⟩
      · exact .inl hbetween
      · refine (ih hothers).imp_right fun hexists => ?_
        obtain ⟨other, hother, hmem⟩ := hexists
        exact ⟨other, List.mem_cons_of_mem piece hother, hmem⟩

theorem notMem_join {c : Char} {mark : Text} {pieces : List Text} (hmark : c ∉ mark)
    (hpieces : ∀ piece ∈ pieces, c ∉ piece) : c ∉ join mark pieces := by
  intro h
  obtain hmem | ⟨piece, hpiece, hmem⟩ := mem_or_exists_of_mem_join h
  · exact hmark hmem
  · exact hpieces piece hpiece hmem

end Text

end EngineUpkeep
