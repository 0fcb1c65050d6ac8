import EngineUpkeep.Proofs.Text.Pieces
import Mathlib.Data.List.Infix

/-!
# Searching a text

A text has another one in it exactly if the other one stands somewhere in it without a gap
(`contains_iff`). What has nothing in common with the ends of a text is found between them if it is
found at all (`infix_of_infix_between`). What does not have a mark in it is found in texts that are
joined with this mark exactly if it is found in one of them (`contains_join`).
-/

namespace EngineUpkeep

namespace Text

variable {text needle front back : Text}

/-- A search finds what stands in the text, and nothing else. -/
theorem contains_iff : contains text needle = true ↔ needle <:+: text := by
  induction text with
  | nil => simp [contains]
  | cons c rest ih =>
    rw [contains, Bool.or_eq_true, List.isPrefixOf_iff_prefix, ih, List.infix_cons_iff]

/-- What is in a text is also in the text with a character in front. -/
theorem contains_cons_of_contains (c : Char) (h : contains text needle = true) :
    contains (c :: text) needle = true := by
  rw [contains, h, Bool.or_true]

/-- What has nothing in common with the front of a text stands behind it. -/
theorem infix_of_infix_append (hne : needle ≠ []) (hfront : ∀ c ∈ front, c ∉ needle)
    (h : needle <:+: front ++ text) : needle <:+: text := by
  induction front with
  | nil => exact h
  | cons c front ih =>
    obtain ⟨hc, hrest⟩ := List.forall_mem_cons.1 hfront
    obtain hprefix | hinfix := List.infix_cons_iff.1 h
    · -- The needle would begin with a character that it does not have.
      obtain ⟨d, more, rfl⟩ := List.exists_cons_of_ne_nil hne
      obtain ⟨rfl, -⟩ := List.cons_prefix_cons.1 hprefix
      exact absurd List.mem_cons_self hc
    · exact ih hrest hinfix

/-- What has nothing in common with either end of a text stands between the ends. -/
theorem infix_of_infix_between (hne : needle ≠ []) (hfront : ∀ c ∈ front, c ∉ needle)
    (hback : ∀ c ∈ back, c ∉ needle) (h : needle <:+: front ++ (text ++ back)) :
    needle <:+: text := by
  have hright : needle <:+: text ++ back := infix_of_infix_append hne hfront h
  -- Read backwards, the end of the text is its front.
  have hreverse : needle.reverse <:+: back.reverse ++ text.reverse := by
    rw [← List.reverse_append]
    exact List.reverse_infix.2 hright
  refine List.reverse_infix.1 (infix_of_infix_append (by simpa using hne) ?_ hreverse)
  intro c hc hmem
  exact hback c (List.mem_reverse.1 hc) (List.mem_reverse.1 hmem)

/-! ## Joined texts -/

/-- What does not have a mark in it does not reach over this mark. -/
theorem prefix_of_prefix_append_cons {mark : Char} (hmark : mark ∉ needle)
    (h : needle <+: front ++ mark :: back) : needle <+: front := by
  have hfront : front ++ [mark] <+: front ++ mark :: back := ⟨back, by simp⟩
  obtain hneedle | hlonger := List.prefix_or_prefix_of_prefix h hfront
  · obtain rfl | hshorter := List.prefix_concat_iff.1 hneedle
    · exact absurd (by simp) hmark
    · exact hshorter
  · exact absurd (hlonger.subset (by simp)) hmark

theorem infix_append_cons_iff {mark : Char} (hmark : mark ∉ needle) :
    needle <:+: front ++ mark :: back ↔ needle <:+: front ∨ needle <:+: back := by
  refine ⟨fun h => ?_, ?_⟩
  · induction front with
    | nil =>
      obtain hprefix | hinfix := List.infix_cons_iff.1 h
      · have hnone : needle <+: [] ++ mark :: back := hprefix
        exact .inl (prefix_of_prefix_append_cons hmark hnone).isInfix
      · exact .inr hinfix
    | cons c front ih =>
      obtain hprefix | hinfix := List.infix_cons_iff.1 h
      · exact .inl (prefix_of_prefix_append_cons hmark hprefix).isInfix
      · exact (ih hinfix).imp_left List.infix_cons
  · rintro (hfront | hback)
    · exact hfront.trans (List.prefix_append _ _).isInfix
    · exact hback.trans ⟨front ++ [mark], [], by simp⟩

/-- No joint is in what is found, so it is found between two of them. -/
theorem infix_join_iff {mark : Char} {pieces : List Text} (hne : needle ≠ [])
    (hmark : mark ∉ needle) :
    needle <:+: join [mark] pieces ↔ ∃ piece ∈ pieces, needle <:+: piece := by
  refine ⟨fun h => ?_, fun ⟨piece, hpiece, h⟩ => h.trans (infix_join_of_mem hpiece)⟩
  induction pieces with
  | nil => exact absurd (List.infix_nil.1 h) hne
  | cons piece pieces ih =>
    cases pieces with
    | nil => exact ⟨piece, List.mem_singleton_self piece, h⟩
    | cons next pieces =>
      rw [join, List.append_assoc, List.singleton_append] at h
      obtain hpiece | hothers := (infix_append_cons_iff hmark).1 h
      · exact ⟨piece, List.mem_cons_self, hpiece⟩
      · obtain ⟨other, hother, hinfix⟩ := ih hothers
        exact ⟨other, List.mem_cons_of_mem piece hother, hinfix⟩

/-- To search joined texts is to search each of them. -/
theorem contains_join {mark : Char} (hne : needle ≠ []) (hmark : mark ∉ needle)
    (pieces : List Text) :
    contains (join [mark] pieces) needle = pieces.any fun piece => contains piece needle := by
  rw [Bool.eq_iff_iff, contains_iff, List.any_eq_true, infix_join_iff hne hmark]
  simp only [contains_iff]

end Text

end EngineUpkeep
