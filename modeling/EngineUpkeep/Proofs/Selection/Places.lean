import EngineUpkeep.Proofs.Path.Fold
import EngineUpkeep.Proofs.Selection.Membership

/-!
# The places of selected sources

Whether a source lies in the project is seen from its path as it is written, and so is whether two
sources are the same. For a relative `file` the path is folded first, so it is written in one way
and lies where it says (`fold_sourceFile`). An absolute `file` stands as it is, and a selection is
proper exactly if this does no harm for the absolute ones in it (`proper_ofDatabase_iff`).
-/

namespace EngineUpkeep

namespace CompileCommand

variable {entry : CompileCommand}

/-- An absolute file stands as it is written. -/
theorem sourceFile_of_absolute (h : (Path.mk entry.file).isAbsolute = true) :
    entry.sourceFile = ⟨entry.file⟩ := by
  rw [sourceFile, if_pos h]

/-- The source of a relative file is folded. -/
theorem fold_sourceFile (h : ¬ (Path.mk entry.file).isAbsolute = true) :
    entry.sourceFile.fold = entry.sourceFile := by
  rw [sourceFile, if_neg h, Path.fold_fold]

end CompileCommand

namespace Selection

/-- Sources are proper if different ones are different files and all of them lie in the project. -/
structure Proper (root : Path) (files : List Text) : Prop where
  /-- Different sources fold to different paths. -/
  fold_ne : ∀ file ∈ files, ∀ file' ∈ files, file ≠ file' →
    (Path.mk file).fold ≠ (Path.mk file').fold
  /-- Every source folds to a path under the root. -/
  under_root : ∀ file ∈ files, root.components <+: (Path.mk file).fold.components

variable {entries : List CompileCommand} {root : Path} {includes excludes : List Text} {file : Text}

/-- A selected source is that of an entry, and the root is at its front. -/
theorem exists_entry_of_mem_ofDatabase (h : file ∈ ofDatabase entries root includes excludes) :
    ∃ entry ∈ entries, entry.sourceFile = ⟨file⟩ ∧
      root.components <+: (Path.mk file).components := by
  obtain ⟨⟨entry, hentry, hsource⟩, hselected⟩ := mem_ofDatabase_iff.1 h
  exact ⟨entry, hentry, hsource, hselected.under_root⟩

/-- A selected source is folded and lies under the root, or it is the absolute file of an entry. -/
theorem folded_or_absolute_of_mem_ofDatabase
    (h : file ∈ ofDatabase entries root includes excludes) :
    ((Path.mk file).fold = ⟨file⟩ ∧ root.components <+: (Path.mk file).fold.components) ∨
      ∃ entry ∈ entries, (Path.mk entry.file).isAbsolute = true ∧ entry.file = file := by
  obtain ⟨entry, hentry, hsource, hprefix⟩ := exists_entry_of_mem_ofDatabase h
  -- The root is at the front of the path as it is written, which is the folded one if it is relative.
  by_cases habsolute : (Path.mk entry.file).isAbsolute = true
  · rw [CompileCommand.sourceFile_of_absolute habsolute] at hsource
    exact .inr ⟨entry, hentry, habsolute, congrArg Path.text hsource⟩
  · have hfold := CompileCommand.fold_sourceFile habsolute
    rw [hsource] at hfold
    exact .inl ⟨hfold, by rwa [hfold]⟩

/-- The selected sources are proper exactly if each absolute file among them lies in the project and
is written like every selected source that is the same file. So they are proper if every absolute
file is written as it folds, and in particular if there is none. -/
theorem proper_ofDatabase_iff (entries : List CompileCommand) (root : Path)
    (includes excludes : List Text) :
    let selected := ofDatabase entries root includes excludes
    (Proper root selected ↔
      ∀ entry ∈ entries, (Path.mk entry.file).isAbsolute = true → entry.file ∈ selected →
        root.components <+: (Path.mk entry.file).fold.components ∧
          ∀ file ∈ selected, (Path.mk file).fold = (Path.mk entry.file).fold →
            file = entry.file) ∧
    ((∀ entry ∈ entries, (Path.mk entry.file).isAbsolute = true →
      (Path.mk entry.file).fold = ⟨entry.file⟩) → Proper root selected) := by
  intro selected
  constructor
  · constructor
    · intro hproper entry _ _ hselected
      refine ⟨hproper.under_root _ hselected, fun file hfile hfold => ?_⟩
      by_contra hne
      exact hproper.fold_ne file hfile _ hselected hne hfold
    · intro habsolute
      refine ⟨fun file hfile file' hfile' hne hfold => hne ?_, fun file hfile => ?_⟩
      · -- If neither source is an absolute file, both are written as they fold.
        obtain ⟨hself, -⟩ | ⟨entry, hentry, hentryAbsolute, rfl⟩ :=
          folded_or_absolute_of_mem_ofDatabase hfile
        · obtain ⟨hself', -⟩ | ⟨entry, hentry, hentryAbsolute, rfl⟩ :=
            folded_or_absolute_of_mem_ofDatabase hfile'
          · exact congrArg Path.text (hself.symm.trans (hfold.trans hself'))
          · exact (habsolute entry hentry hentryAbsolute hfile').2 file hfile hfold
        · exact ((habsolute entry hentry hentryAbsolute hfile).2 file' hfile' hfold.symm).symm
      · obtain ⟨-, hunder⟩ | ⟨entry, hentry, hentryAbsolute, rfl⟩ :=
          folded_or_absolute_of_mem_ofDatabase hfile
        · exact hunder
        · exact (habsolute entry hentry hentryAbsolute hfile).1
  · intro hfolded
    -- Now every source is written as it folds, so different texts are different files.
    have hself : ∀ file ∈ selected, (Path.mk file).fold = ⟨file⟩ := by
      intro file hfile
      obtain ⟨hself, -⟩ | ⟨entry, hentry, hentryAbsolute, rfl⟩ :=
        folded_or_absolute_of_mem_ofDatabase hfile
      · exact hself
      · exact hfolded entry hentry hentryAbsolute
    refine ⟨fun file hfile file' hfile' hne hfold => hne ?_, fun file hfile => ?_⟩
    · rw [hself file hfile, hself file' hfile'] at hfold
      exact congrArg Path.text hfold
    · obtain ⟨-, -, -, hprefix⟩ := exists_entry_of_mem_ofDatabase hfile
      rwa [hself file hfile]

/-- Absolute files of which two are one file, and of which one lies outside the project. -/
theorem not_proper_ofDatabase_unfolded :
    let entries : List CompileCommand :=
      [⟨"/p/b", "/p/./a.cpp", none, none, none⟩, ⟨"/p/b", "/p/a.cpp", none, none, none⟩,
        ⟨"/p/b", "/p/../q/c.cpp", none, none, none⟩]
    ofDatabase entries ⟨"/p"⟩ [] [] = (["/p/../q/c.cpp", "/p/./a.cpp", "/p/a.cpp"] : List Text) ∧
      (Path.mk "/p/./a.cpp").fold = (Path.mk "/p/a.cpp").fold ∧
      (Path.mk "/p/../q/c.cpp").fold = ⟨"/q/c.cpp"⟩ ∧
      ¬ Proper ⟨"/p"⟩ (ofDatabase entries ⟨"/p"⟩ [] []) := by
  intro entries
  have hselected : ofDatabase entries ⟨"/p"⟩ [] [] =
      (["/p/../q/c.cpp", "/p/./a.cpp", "/p/a.cpp"] : List Text) := by decide +kernel
  have hfold : (Path.mk "/p/./a.cpp").fold = (Path.mk "/p/a.cpp").fold := by decide +kernel
  refine ⟨hselected, hfold, by decide +kernel, fun hproper => ?_⟩
  rw [hselected] at hproper
  exact hproper.fold_ne "/p/./a.cpp" (by decide) "/p/a.cpp" (by decide) (by decide) hfold

end Selection

end EngineUpkeep
