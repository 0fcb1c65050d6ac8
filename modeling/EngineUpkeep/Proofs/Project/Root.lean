import EngineUpkeep.Project
import EngineUpkeep.Proofs.FileTree.Content
import EngineUpkeep.Proofs.Path.Ancestors

/-!
# The nearest root

Source groups have root markers of their own, so there may be several marked directories on the way
up from a path. The root is the nearest of them (`nearestRoot_eq_ok_iff`), and there is none exactly
if no directory on the way is marked (`nearestRoot_eq_error_iff`). A search that starts further up,
but not above the root, passes fewer directories and comes to the same root
(`IsNearestRoot.of_between`).
-/

namespace EngineUpkeep

namespace Project

variable {tree : FileTree} {current : Location} {start root dir : Path}

/-- The directory holds the root marker: its path with the name of the marker behind it leads to a
regular file. A link to such a file is followed, and a path that no operation takes leads nowhere. -/
def IsMarked (tree : FileTree) (current : Location) (dir : Path) : Prop :=
  ∃ location content runnable, tree.find current (dir.join ⟨rootFileName⟩) = .ok location ∧
    tree.entryAt? location = some (.file content runnable)

/-- Among the directories from `start` upwards, as the path is written, `root` is the nearest one
that is marked. -/
structure IsNearestRoot (tree : FileTree) (current : Location) (start root : Path) : Prop where
  /-- The root is where the search starts, or it lies above. -/
  atOrAbove : root.AtOrAbove start
  /-- The root is marked. -/
  isMarked : IsMarked tree current root
  /-- No directory on the way that has the root above it is marked. -/
  not_isMarked : ∀ dir : Path, dir.AtOrAbove start → root.LiesAbove dir →
    ¬ IsMarked tree current dir

/-- From any directory on the way to the root, the root is the nearest one too. -/
theorem IsNearestRoot.of_between (h : IsNearestRoot tree current start root)
    (hdir : dir.AtOrAbove start) (hroot : root.AtOrAbove dir) :
    IsNearestRoot tree current dir root :=
  { atOrAbove := hroot
    isMarked := h.isMarked
    not_isMarked := fun nearer hnearer => h.not_isMarked nearer (hnearer.trans hdir) }

section Absolute

variable (hstart : start.isAbsolute = true)
include hstart

theorem nearestRoot_eq_ok_iff :
    nearestRoot tree current start = .ok root ↔ IsNearestRoot tree current start root := by
  have hfound : nearestRoot tree current start = .ok root ↔
      (start.ancestors.find? fun above => tree.isFile current (above.join ⟨rootFileName⟩)) =
        some root := by
    rw [nearestRoot]
    split
    · next found hfind => rw [hfind, Except.ok.injEq, Option.some_inj]
    · next hfind => simp [hfind]
  rw [hfound, Path.find?_ancestors_eq_some_iff hstart]
  simp only [← Bool.not_eq_true, FileTree.isFile_iff]
  exact ⟨fun h => ⟨h.1, h.2.1, h.2.2⟩, fun h => ⟨h.atOrAbove, h.isMarked, h.not_isMarked⟩⟩

/-- The search fails in one way only, and only if no directory from the start upwards is marked. -/
theorem nearestRoot_eq_error_iff {failure : Failure} :
    nearestRoot tree current start = .error failure ↔
      failure = .rootNotFound start.text rootFileName ∧
        ∀ dir : Path, dir.AtOrAbove start → ¬ IsMarked tree current dir := by
  have hnone : (start.ancestors.find? fun above =>
      tree.isFile current (above.join ⟨rootFileName⟩)) = none ↔
        ∀ dir : Path, dir.AtOrAbove start → ¬ IsMarked tree current dir := by
    rw [List.find?_eq_none]
    simp only [Path.mem_ancestors_iff hstart, FileTree.isFile_iff]
    rfl
  rw [← hnone, nearestRoot]
  split
  · next found hfind => simp [hfind]
  · next hfind => simp [hfind, eq_comm]

end Absolute

/-- The root of a path is the nearest marked directory from the path upwards: the path itself or one
that lies above it, with none in between. The search for it fails exactly if no directory from the
path upwards is marked, and it says so. From every directory between the path and its root the
search leads to the same root, and so it does from the root. -/
theorem nearestRoot_nearest_and_stable (tree : FileTree) (current : Location) (start : Path)
    (hstart : start.isAbsolute = true) :
    (∀ root, nearestRoot tree current start = .ok root ↔
      IsNearestRoot tree current start root) ∧
    (∀ failure, nearestRoot tree current start = .error failure ↔
      failure = .rootNotFound start.text rootFileName ∧
        ∀ dir : Path, dir.AtOrAbove start → ¬ IsMarked tree current dir) ∧
    ∀ root, nearestRoot tree current start = .ok root →
      (∀ dir : Path, dir.AtOrAbove start → root.AtOrAbove dir →
        nearestRoot tree current dir = .ok root) ∧
      nearestRoot tree current root = .ok root := by
  refine ⟨fun root => nearestRoot_eq_ok_iff hstart, fun failure => nearestRoot_eq_error_iff hstart,
    fun root hfound => ?_⟩
  have hnearest := (nearestRoot_eq_ok_iff hstart).1 hfound
  have hbetween : ∀ dir : Path, dir.AtOrAbove start → root.AtOrAbove dir →
      nearestRoot tree current dir = .ok root := by
    intro dir hdir hroot
    apply (nearestRoot_eq_ok_iff (hdir.isAbsolute_eq.trans hstart)).2
    exact hnearest.of_between hdir hroot
  -- The root is the last of these directories.
  exact ⟨hbetween, hbetween root hnearest.atOrAbove (.refl root)⟩

/-! ## A group with a marker of its own -/

/-- A project with a marked group. Below it, a directory has the name of the marker. -/
def groupTree : FileTree :=
  { entries := [(["p"], .directory), (["p", rootFileName], .file (.text []) false),
      (["p", "Core"], .directory), (["p", "Core", rootFileName], .file (.text []) false),
      (["p", "Core", "a"], .directory), (["p", "Core", "a", rootFileName], .directory)] }

/-- The group hides the project, however the way to it is written, and what only has the name of the
marker marks nothing. Beside the project there is no root. -/
theorem nearestRoot_nearest_and_stable_group :
    nearestRoot groupTree [] ⟨"/p//Core/./a/"⟩ = .ok ⟨"/p//Core"⟩ ∧
      IsNearestRoot groupTree [] ⟨"/p//Core/./a/"⟩ ⟨"/p//Core"⟩ ∧
      nearestRoot groupTree [] ⟨"/p//Core"⟩ = .ok ⟨"/p//Core"⟩ ∧
      nearestRoot groupTree [] ⟨"/q/b"⟩ = .error (.rootNotFound "/q/b" rootFileName) ∧
      ∀ dir : Path, dir.AtOrAbove ⟨"/q/b"⟩ → ¬ IsMarked groupTree [] dir := by
  have hfound : nearestRoot groupTree [] ⟨"/p//Core/./a/"⟩ = .ok ⟨"/p//Core"⟩ := by
    decide +kernel
  have hfailed : nearestRoot groupTree [] ⟨"/q/b"⟩ =
      .error (.rootNotFound "/q/b" rootFileName) := by
    decide +kernel
  obtain ⟨hok, -, hstable⟩ :=
    nearestRoot_nearest_and_stable groupTree [] ⟨"/p//Core/./a/"⟩ (by decide)
  obtain ⟨-, herror, -⟩ := nearestRoot_nearest_and_stable groupTree [] ⟨"/q/b"⟩ (by decide)
  exact ⟨hfound, (hok _).1 hfound, (hstable _ hfound).2, hfailed, ((herror _).1 hfailed).2⟩

end Project

end EngineUpkeep
