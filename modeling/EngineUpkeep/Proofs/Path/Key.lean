import EngineUpkeep.Proofs.Path.Below

/-!
# What keys are written with

The text that is left of a path when a root is taken off its front is made of pieces of the path. So
but for slashes and dots, a key has no character in it that the path does not have
(`Path.notMem_of_key?`).
-/

namespace EngineUpkeep

namespace Path

variable {root path : Path} {pieces : List Text} {piece rest key : Text} {c : Char}

/-- Each piece of a path stands in its text. -/
theorem infix_text_of_mem_body (h : piece ∈ path.body) : piece <:+: path.text := by
  rw [text_eq]
  exact (Text.infix_join_of_mem h).trans (List.suffix_append _ _).isInfix

theorem tail_suffix_body (path : Path) : path.tail <:+ path.body := by
  rw [tail]
  split
  · exact List.drop_suffix 1 path.body
  · exact List.suffix_refl path.body

theorem dropIdleEnd_prefix_self (pieces : List Text) : dropIdleEnd pieces <+: pieces := by
  have hsuffix : pieces.reverse.dropWhile isIdle <:+ pieces.reverse := List.dropWhile_suffix _
  rw [dropIdleEnd, ← List.reverse_suffix, List.reverse_reverse]
  exact hsuffix

theorem afterNamed_suffix (count : Nat) (pieces : List Text) :
    afterNamed count pieces <:+ pieces := by
  induction pieces generalizing count with
  | nil => cases count <;> exact List.suffix_refl []
  | cons piece pieces ih =>
    cases count with
    | zero => exact List.suffix_refl _
    | succ count =>
      rw [afterNamed]
      split
      · exact (ih _).trans (List.suffix_cons piece pieces)
      · exact (ih _).trans (List.suffix_cons piece pieces)

section NotMem

variable (hslash : c ≠ '/') (h : c ∉ path.text)
include hslash h

/-- Pieces of a path with slashes between them have nothing but slashes that the path does not
have. -/
theorem notMem_join_of_subset (hpieces : pieces ⊆ path.body) : c ∉ Text.join ['/'] pieces := by
  refine Text.notMem_join (by simpa using hslash) fun piece hpiece hmem => h ?_
  exact (infix_text_of_mem_body (hpieces hpiece)).mem hmem

/-- What is left of a path has nothing but slashes and dots that the path does not have. -/
theorem notMem_of_relativeTo? (hdot : c ≠ '.') (hrest : relativeTo? root path = some rest) :
    c ∉ rest := by
  have htail : path.tail ⊆ path.body := (tail_suffix_body path).subset
  rw [relativeTo?] at hrest
  split at hrest
  · cases hrest
  split at hrest
  · -- Nothing is taken off the front, and what stands idle is taken off the end.
    have hkept : dropIdleEnd path.tail ⊆ path.body :=
      List.Subset.trans (dropIdleEnd_prefix_self _).subset htail
    cases hrest
    by_cases hhere : path.startsHere = true
    · rw [trimmed, ofTail, if_pos hhere]
      refine Text.notMem_join (by simpa using hslash) (List.forall_mem_cons.2 ⟨?_, ?_⟩)
      · simpa using hdot
      · exact fun piece hpiece hmem => h ((infix_text_of_mem_body (hkept hpiece)).mem hmem)
    · rw [trimmed, ofTail, if_neg hhere, lead, if_neg hhere, List.mem_append, not_or]
      refine ⟨?_, notMem_join_of_subset hslash h hkept⟩
      split
      · simpa using hslash
      · exact List.not_mem_nil
  · cases hrest
    have hbehind (count : Nat) : afterNamed count path.tail ⊆ path.body :=
      List.Subset.trans (afterNamed_suffix count path.tail).subset htail
    refine notMem_join_of_subset hslash h ?_
    exact List.Subset.trans (dropIdleEnd_prefix_self _).subset
      (List.Subset.trans (List.dropWhile_suffix _).subset (hbehind _))

/-- A key has nothing but slashes and dots that the path does not have. -/
theorem notMem_of_key? (hdot : c ≠ '.') (hkey : key? root path = some key) : c ∉ key := by
  obtain ⟨rest, hrest, rfl⟩ := Option.map_eq_some_iff.1 hkey
  rw [Text.replaceChar, List.mem_map]
  rintro ⟨d, hd, hwritten⟩
  split at hwritten
  · exact hslash hwritten.symm
  · exact notMem_of_relativeTo? hslash h hdot hrest (hwritten ▸ hd)

end NotMem

end Path

end EngineUpkeep
