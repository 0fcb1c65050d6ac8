import EngineUpkeep.Proofs.FileTree.Change

/-!
# Questions that no content answers

Whether a path leads to a file or to anything at all, and what its canonical path is, does not
depend on what files hold (`SameShape.isFile_eq`, `SameShape.pathExists_eq`,
`SameShape.canonical_eq`). So trees that differ only in the content of one file (`SameBut`) answer
such questions alike.
-/

namespace EngineUpkeep

namespace FileTree

variable {tree tree' : FileTree} {location : Location}

/-- Trees that differ at most in the content of the file at a location. -/
def SameBut (location : Location) (tree tree' : FileTree) : Prop :=
  ∀ other, tree'.entryAt? other = tree.entryAt? other ∨
    other = location ∧ ∃ content content' runnable,
      tree.entryAt? other = some (.file content runnable) ∧
        tree'.entryAt? other = some (.file content' runnable)

theorem SameBut.refl (location : Location) (tree : FileTree) : SameBut location tree tree :=
  fun _ => Or.inl rfl

/-- Such trees have the same shape. -/
theorem SameBut.sameShape (h : SameBut location tree tree') : SameShape tree tree' := by
  intro other
  obtain hsame | ⟨-, content, content', runnable, hold, hnew⟩ := h other
  · rw [hsame]
  · rw [hold, hnew]
    rfl

/-- Another content for a file leaves everything else. -/
theorem sameBut_put {content : Content} {runnable : Bool}
    (h : tree.entryAt? location = some (.file content runnable)) (content' : Content) :
    SameBut location tree (tree.put location (.file content' runnable)) := by
  have hne : location ≠ [] := ne_nil_of_entryAt?_ne tree (by simp [h])
  intro other
  rw [entryAt?_put _ _ _ _ hne]
  by_cases hother : other = location
  · rw [if_pos hother, hother]
    exact Or.inr ⟨rfl, content, content', runnable, h, rfl⟩
  · exact Or.inl (if_neg hother)

/-- What a path leads to is of the same kind in trees of the same shape. -/
theorem SameShape.entryOf_cases (h : SameShape tree tree') (current : Location) (path : Path) :
    tree'.entryOf current path = tree.entryOf current path ∨
      ∃ old new runnable runnable', tree.entryOf current path = .ok (.file old runnable) ∧
        tree'.entryOf current path = .ok (.file new runnable') := by
  -- The walk reads links and kinds only, so it ends at the same location in both trees.
  simp only [entryOf, h.find_eq, bind, Except.bind]
  rcases tree.find current path with fault | location
  · exact Or.inl rfl
  · dsimp only
    obtain hsame | ⟨old, new, runnable, runnable', hold, hnew⟩ := h.eq_or_file location
    · rw [hsame]
      exact Or.inl rfl
    · rw [hold, hnew]
      exact Or.inr ⟨old, new, runnable, runnable', rfl, rfl⟩

theorem SameShape.isFile_eq (h : SameShape tree tree') (current : Location) (path : Path) :
    tree'.isFile current path = tree.isFile current path := by
  rw [isFile, isFile]
  obtain hsame | ⟨_, _, _, _, hold, hnew⟩ := h.entryOf_cases current path
  · rw [hsame]
  · rw [hold, hnew]

theorem SameShape.pathExists_eq (h : SameShape tree tree') (current : Location) (path : Path) :
    tree'.pathExists current path = tree.pathExists current path := by
  rw [pathExists, pathExists]
  obtain hsame | ⟨_, _, _, _, hold, hnew⟩ := h.entryOf_cases current path
  · rw [hsame]
  · rw [hold, hnew]

theorem SameShape.canonical_eq (h : SameShape tree tree') (current : Location) (path : Path) :
    tree'.canonical current path = tree.canonical current path := by
  rw [canonical, canonical, walkAny, walkAny, h.walkUpTo_eq]

/-- A path that can be walked is walked as one of any length. -/
theorem walkAny_of_walk {current : Location} {path : Path} {place : Place}
    (h : tree.walk current path = .ok place) : tree.walkAny current path = .ok place := by
  rw [walk] at h
  split at h
  · exact h
  · cases h

/-- A path leads to a file if its walk ends where a file stands. -/
theorem isFile_iff {current : Location} {path : Path} :
    tree.isFile current path = true ↔
      ∃ location content runnable, tree.find current path = .ok location ∧
        tree.entryAt? location = some (.file content runnable) := by
  rw [isFile]
  constructor
  · intro h
    split at h
    · next content runnable hentry =>
      obtain ⟨location, hfind, hfile⟩ := entryOf_eq_ok_iff.1 hentry
      exact ⟨location, content, runnable, hfind, hfile⟩
    · cases h
  · rintro ⟨location, content, runnable, hfind, hfile⟩
    rw [entryOf_eq_ok_iff.2 ⟨location, hfind, hfile⟩]

/-- A file has a canonical path. -/
theorem exists_canonical_of_isFile {current : Location} {path : Path}
    (h : tree.isFile current path = true) :
    ∃ resolved, tree.canonical current path = .ok resolved := by
  obtain ⟨location, -, -, hfind, -⟩ := isFile_iff.1 h
  refine ⟨pathOf location, ?_⟩
  rw [canonical, walkAny_of_walk (find_eq_ok_iff.1 hfind)]
  rfl

end FileTree

end EngineUpkeep
