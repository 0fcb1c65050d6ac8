import EngineUpkeep.Text.Basic

/-!
# Ordered texts

Texts are ordered by their first differing character, a proper beginning coming first. A set of
texts is held as the strictly increasing list of its members, so that two sets with the same
members are the same list.
-/

namespace EngineUpkeep

namespace Text

/-- Of two texts, one comes first or they are the same. -/
theorem lt_of_ne_of_not_lt {a b : Text} (hne : a ≠ b) (hlt : ¬ a < b) : b < a :=
  ((Std.lt_trichotomy a b).resolve_left hlt).resolve_left hne

/-- Puts a text at its place in a strictly increasing list, once. -/
def insertDistinct (text : Text) : List Text → List Text
  | [] => [text]
  | next :: others =>
    if text = next then next :: others
    else if text < next then text :: next :: others
    else next :: insertDistinct text others

/-- The distinct texts of a list in increasing order. -/
def sortDistinct (texts : List Text) : List Text :=
  texts.foldr insertDistinct []

theorem mem_insertDistinct {text other : Text} {texts : List Text} :
    other ∈ insertDistinct text texts ↔ other = text ∨ other ∈ texts := by
  induction texts with
  | nil => simp [insertDistinct]
  | cons next others ih =>
    rw [insertDistinct]
    split
    · next h => simp [h]
    · split
      · simp
      · simp [ih, or_left_comm]

theorem pairwise_insertDistinct {text : Text} {texts : List Text}
    (h : texts.Pairwise (· < ·)) : (insertDistinct text texts).Pairwise (· < ·) := by
  induction texts with
  | nil => simp [insertDistinct]
  | cons next others ih =>
    rw [List.pairwise_cons] at h
    rw [insertDistinct]
    split
    · exact List.pairwise_cons.2 h
    · next hne =>
      split
      · next hlt =>
        refine List.pairwise_cons.2 ⟨?_, List.pairwise_cons.2 h⟩
        intro other hmem
        rcases List.mem_cons.1 hmem with rfl | hmem
        · exact hlt
        · exact List.lt_trans hlt (h.1 other hmem)
      · next hlt =>
        refine List.pairwise_cons.2 ⟨?_, ih h.2⟩
        intro other hmem
        rcases mem_insertDistinct.1 hmem with rfl | hmem
        · exact lt_of_ne_of_not_lt hne hlt
        · exact h.1 other hmem

/-- Sorting keeps the members. -/
theorem mem_sortDistinct {text : Text} {texts : List Text} :
    text ∈ sortDistinct texts ↔ text ∈ texts := by
  induction texts with
  | nil => simp [sortDistinct]
  | cons next others ih =>
    rw [sortDistinct, List.foldr_cons, ← sortDistinct, mem_insertDistinct, ih, List.mem_cons]

/-- Sorting gives a strictly increasing list. -/
theorem pairwise_sortDistinct (texts : List Text) : (sortDistinct texts).Pairwise (· < ·) := by
  induction texts with
  | nil => simp [sortDistinct]
  | cons next others ih =>
    rw [sortDistinct, List.foldr_cons, ← sortDistinct]
    exact pairwise_insertDistinct ih

end Text

end EngineUpkeep
