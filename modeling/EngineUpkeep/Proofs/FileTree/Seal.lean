import EngineUpkeep.Proofs.FileTree.Walk

/-!
# Seals that stay

Which directories are sealed does not change while directories stay where they are: files may be
written (`isSealed_put`) and files and links deleted (`isSealed_erase`). A directory that is made is
not sealed, so making one changes nothing about seals either (`isSealed_put_directory`).

A location is free if the directory above it is not sealed (`Free`): then an entry can come there,
go away from there or take the place of the one that is there.
-/

namespace EngineUpkeep

namespace FileTree

variable {tree tree' : FileTree} {location : Location} {entry : Entry}

/-- No seal keeps what is at a location as it is. -/
def Free (tree : FileTree) (location : Location) : Prop :=
  tree.isSealed location.dropLast = false

instance instDecidableFree (tree : FileTree) (location : Location) :
    Decidable (tree.Free location) :=
  inferInstanceAs (Decidable (_ = _))

/-- Where the seals are the same, the same locations are free. -/
theorem free_iff (h : tree'.isSealed = tree.isSealed) :
    tree'.Free location ↔ tree.Free location := by
  rw [Free, Free, h]

/-- Without seals, every location is free. -/
theorem free_of_sealed (h : tree.sealed = []) (location : Location) : tree.Free location := by
  simp [Free, isSealed, h]

/-- What is no directory is not sealed. -/
theorem isSealed_of_ne (h : tree.entryAt? location ≠ some .directory) :
    tree.isSealed location = false := by
  rw [isSealed, decide_eq_false h, Bool.false_and]

/-- Trees with the same directories are sealed alike, if their lists of seals are the same. -/
theorem isSealed_eq_of_directory_iff
    (h : ∀ location, tree'.entryAt? location = some .directory ↔
      tree.entryAt? location = some .directory)
    (hsealed : tree'.sealed = tree.sealed) : tree'.isSealed = tree.isSealed := by
  funext location
  rw [isSealed, isSealed, hsealed, decide_eq_decide.2 (h location)]

theorem SameShape.isSealed_eq (h : SameShape tree tree') (hsealed : tree'.sealed = tree.sealed) :
    tree'.isSealed = tree.isSealed :=
  isSealed_eq_of_directory_iff h.directory_iff hsealed

/-- A file or a link that takes the place of no directory leaves the seals. -/
theorem isSealed_put (h : tree.entryAt? location ≠ some .directory) (hne : entry ≠ .directory) :
    (tree.put location entry).isSealed = tree.isSealed := by
  refine isSealed_eq_of_directory_iff (fun other => ?_) (sealed_put tree location entry)
  rw [entryAt?_put _ _ _ _ (ne_nil_of_entryAt?_ne tree h)]
  split
  · next hother => simp [hother, h, hne]
  · rfl

/-- What is taken away that is no directory leaves the seals. -/
theorem isSealed_erase (h : tree.entryAt? location ≠ some .directory) :
    (tree.erase location).isSealed = tree.isSealed := by
  refine isSealed_eq_of_directory_iff (fun other => ?_) (sealed_erase tree location)
  rw [entryAt?_erase _ _ _ (ne_nil_of_entryAt?_ne tree h)]
  split
  · next hother => simp [hother, h]
  · rfl

/-- A directory that is made at a vacant place leaves the seals, since it has none itself. -/
theorem isSealed_put_directory (h : tree.entryAt? location = none) :
    ((tree.put location .directory).withoutSeal location).isSealed = tree.isSealed := by
  have hne : location ≠ [] := ne_nil_of_entryAt?_ne tree (by simp [h])
  funext other
  rw [Bool.eq_iff_iff, isSealed_iff, isSealed_iff, entryAt?_withoutSeal, entryAt?_put _ _ _ _ hne]
  by_cases hother : other = location
  · simp [hother, h, withoutSeal]
  · simp [hother, withoutSeal]

end FileTree

end EngineUpkeep
