import EngineUpkeep.Proofs.FileTree.Seal
import Mathlib.Data.List.Basic

/-!
# What operations change

An operation that reads or writes depends on the entry at which the walk of its path ends
(`readFile_eq_ok_iff`, `write_eq_ok`, `copy_eq_ok`), one that deletes, makes or renames on
the entry that its path names (`delete_eq_ok_iff`, `makeDirectory_eq_ok_iff`, `rename_eq_ok`).
Making directories keeps whatever is there (`extends_makeDirectories`). A move that fails changes
nothing, or it has only copied what it could not rename (`moveEntry_eq_error`).
-/

namespace EngineUpkeep

/-- A computation in two parts succeeds if both parts do. -/
theorem bind_eq_ok_iff {ε α β : Type} {first : Except ε α} {second : α → Except ε β} {result : β} :
    first >>= second = .ok result ↔ ∃ value, first = .ok value ∧ second value = .ok result := by
  rcases first with error | value
  · exact ⟨fun h => (by cases h), fun ⟨_, h, _⟩ => (by cases h)⟩
  · exact ⟨fun h => ⟨value, rfl, h⟩, fun ⟨_, hvalue, h⟩ => (by cases hvalue; exact h)⟩

/-- A computation in two parts fails if one of them does. -/
theorem bind_eq_error_iff {ε α β : Type} {first : Except ε α} {second : α → Except ε β}
    {error : ε} :
    first >>= second = .error error ↔
      first = .error error ∨ ∃ value, first = .ok value ∧ second value = .error error := by
  rcases first with error' | value
  · exact ⟨fun h => .inl (by cases h; rfl),
      fun h => h.elim (fun h => (by cases h; rfl)) fun ⟨_, hvalue, _⟩ => (by cases hvalue)⟩
  · exact ⟨fun h => .inr ⟨value, rfl, h⟩,
      fun h => h.elim (fun h => (by cases h)) fun ⟨_, hvalue, h⟩ => (by cases hvalue; exact h)⟩

namespace FileTree

variable {tree tree' : FileTree} {current : Location} {path source target : Path}

/-! ## Reading -/

/-- What the walk of a path finds. -/
theorem find_eq_ok_iff {location : Location} :
    tree.find current path = .ok location ↔ tree.walk current path = .ok (.found location) := by
  rw [find]
  rcases tree.walk current path with fault | (found | ⟨directory, name⟩) <;> simp [locationOf]

theorem entryOf_eq_ok_iff {entry : Entry} :
    tree.entryOf current path = .ok entry ↔
      ∃ location, tree.find current path = .ok location ∧
        tree.entryAt? location = some entry := by
  rw [entryOf, bind_eq_ok_iff]
  refine exists_congr fun location => and_congr_right fun _ => ?_
  rcases tree.entryAt? location with _ | found <;> simp

/-- A file is read where the walk of its path ends. -/
theorem readFile_eq_ok_iff {content : Content} {runnable : Bool} :
    tree.readFile current path = .ok (content, runnable) ↔
      ∃ location, tree.find current path = .ok location ∧
        tree.entryAt? location = some (.file content runnable) := by
  rw [← entryOf_eq_ok_iff, readFile, bind_eq_ok_iff]
  constructor
  · rintro ⟨_ | _ | _, hentry, h⟩ <;> cases h
    exact hentry
  · intro hentry
    exact ⟨_, hentry, rfl⟩

theorem readText_eq_ok_iff {chars : Text} :
    tree.readText current path = .ok chars ↔
      ∃ location runnable, tree.find current path = .ok location ∧
        tree.entryAt? location = some (.file (.text chars) runnable) := by
  rw [readText, bind_eq_ok_iff]
  constructor
  · rintro ⟨⟨_ | _, runnable⟩, hread, h⟩ <;> cases h
    obtain ⟨location, hfind, hentry⟩ := readFile_eq_ok_iff.1 hread
    exact ⟨location, runnable, hfind, hentry⟩
  · rintro ⟨location, runnable, hfind, hentry⟩
    exact ⟨_, readFile_eq_ok_iff.2 ⟨location, hfind, hentry⟩, rfl⟩

theorem walk_eq_ok_iff {place : Place} :
    tree.walk current path = .ok place ↔ path.isUsable = true ∧ path.text ≠ [] ∧
      walkUpTo tree linkLimit (path.start current) path.steps = .ok place := by
  rw [walk, walkAny]
  cases husable : path.isUsable with
  | false => simp
  | true =>
    have hnul : '\x00' ∉ path.text := by
      simp only [Path.isUsable, Bool.and_eq_true, decide_eq_true_eq] at husable
      exact husable.1
    by_cases hempty : path.text = [] <;> simp [hnul, hempty]

/-- A path leads to the same place in every tree that keeps its ways and the file there. -/
theorem KeepsWays.find_eq (h : KeepsWays tree tree') {location : Location}
    (hend : KeepsFileAt tree tree' location) (hfind : tree.find current path = .ok location) :
    tree'.find current path = .ok location := by
  rw [find_eq_ok_iff, walk_eq_ok_iff] at hfind ⊢
  obtain ⟨husable, hempty, hwalk⟩ := hfind
  exact ⟨husable, hempty, h.walkUpTo_eq hend hwalk⟩

/-! ## Trees that have more -/

/-- Every entry of a tree is in the other tree as well. -/
def Extends (tree tree' : FileTree) : Prop :=
  ∀ location entry, tree.entryAt? location = some entry → tree'.entryAt? location = some entry

theorem Extends.refl (tree : FileTree) : Extends tree tree :=
  fun _ _ h => h

theorem Extends.trans {tree'' : FileTree} (h : Extends tree tree') (h' : Extends tree' tree'') :
    Extends tree tree'' :=
  fun location entry hentry => h' location entry (h location entry hentry)

theorem Extends.keepsWays (h : Extends tree tree') : KeepsWays tree tree' :=
  fun location entry hentry _ => h location entry hentry

theorem Extends.keepsFileAt (h : Extends tree tree') (location : Location) :
    KeepsFileAt tree tree' location :=
  fun content runnable hentry => ⟨content, runnable, h location _ hentry⟩

theorem extends_put {location : Location} {entry : Entry}
    (hvacant : tree.entryAt? location = none) : Extends tree (tree.put location entry) := by
  intro other found hother
  have hne : location ≠ [] := ne_nil_of_entryAt?_ne tree (by simp [hvacant])
  rw [entryAt?_put _ _ _ _ hne, if_neg]
  · exact hother
  · rintro rfl
    cases hvacant.symm.trans hother

/-- What has been erased was all that the tree had more. -/
theorem extends_erase {location : Location} (hne : location ≠ []) :
    Extends (tree.erase location) tree := by
  intro other entry hother
  rw [entryAt?_erase _ _ _ hne] at hother
  split at hother
  · cases hother
  · exact hother

/-- A file that is read is read in every tree that has more. -/
theorem Extends.readFile_eq (h : Extends tree tree') {content : Content} {runnable : Bool}
    (hread : tree.readFile current path = .ok (content, runnable)) :
    tree'.readFile current path = .ok (content, runnable) := by
  rw [readFile_eq_ok_iff] at hread ⊢
  obtain ⟨location, hfind, hentry⟩ := hread
  exact ⟨location, h.keepsWays.find_eq (h.keepsFileAt location) hfind, h location _ hentry⟩

/-! ## Changes of the entry that a path names -/

/-- A path names the entry with its last segment in the directory at which the walk through the
others ends. -/
theorem slot_eq_ok_iff {directory : Location} {name : Text} :
    tree.slot current path = .ok (directory, name) ↔
      path.isUsable = true ∧ ∃ before, path.segments = before ++ [name] ∧
        walkUpTo tree linkLimit (path.start current) before = .ok (.found directory) ∧
        tree.entryAt? directory = some .directory ∧ isName name = true := by
  rw [slot]
  cases husable : path.isUsable with
  | false => simp
  | true =>
    rcases List.eq_nil_or_concat' path.segments with hsegments | ⟨before, last, hsegments⟩
    · by_cases htext : path.text = [] <;> simp [hsegments, htext]
    simp only [hsegments, List.reverse_append, List.reverse_singleton, List.singleton_append,
      List.reverse_reverse, List.append_singleton_inj, Bool.not_true, Bool.false_eq_true, if_false,
      true_and]
    constructor
    · intro h
      split at h
      · cases h
      · cases h
      · next found hfound =>
        split at h
        · cases h
        · next hdirectory =>
          cases h
          exact ⟨before, ⟨rfl, rfl⟩, hfound, by simpa using hdirectory⟩
    · rintro ⟨_, ⟨rfl, rfl⟩, hfound, hdirectory, hname⟩
      simp [hfound, hdirectory, hname]

/-- Where a directory on the way is missing, a path names nothing. -/
theorem slot_eq_missing {before : List Text} {last : Text} (husable : path.isUsable = true)
    (hsegments : path.segments = before ++ [last])
    (hwalk : walkUpTo tree linkLimit (path.start current) before = .error .missing ∨
      ∃ directory name,
        walkUpTo tree linkLimit (path.start current) before = .ok (.vacant directory name)) :
    tree.slot current path = .error .missing := by
  rw [slot, husable, hsegments]
  obtain hwalk | ⟨directory, name, hwalk⟩ := hwalk <;> simp [hwalk]

theorem delete_eq_ok_iff :
    tree.delete current path = .ok tree' ↔
      ∃ directory name entry, tree.slot current path = .ok (directory, name) ∧
        tree.entryAt? (directory ++ [name]) = some entry ∧ entry ≠ .directory ∧
        path.hasSlashEnd = false ∧ tree.isSealed directory = false ∧
        tree' = tree.erase (directory ++ [name]) := by
  rw [delete, bind_eq_ok_iff]
  constructor
  · rintro ⟨⟨directory, name⟩, hslot, h⟩
    rcases hentry : tree.entryAt? (directory ++ [name]) with _ | (_ | ⟨content, runnable⟩ | link)
    · simp only [hentry, reduceCtorEq] at h
    · simp only [hentry, reduceCtorEq] at h
    all_goals
      simp only [hentry] at h
      split at h
      · cases h
      · next hfree =>
        cases h
        rw [Bool.or_eq_true, not_or, Bool.not_eq_true, Bool.not_eq_true] at hfree
        exact ⟨directory, name, _, hslot, hentry, by simp, hfree.1, hfree.2, rfl⟩
  · rintro ⟨directory, name, entry, hslot, hentry, hne, hslash, hfree, rfl⟩
    refine ⟨(directory, name), hslot, ?_⟩
    rcases entry with _ | ⟨content, runnable⟩ | link
    · exact absurd rfl hne
    all_goals simp [hentry, hslash, hfree]

/-- What is deleted in a tree is deleted in every tree of the same shape with the same seals. -/
theorem SameShape.delete_eq_ok {after : FileTree} (h : SameShape tree tree')
    (hseals : tree'.isSealed = tree.isSealed) (hdelete : tree'.delete current path = .ok after) :
    ∃ location, location ≠ [] ∧ after = tree'.erase location ∧
      tree.delete current path = .ok (tree.erase location) := by
  obtain ⟨directory, name, entry, hslot, hentry, hne, hslash, hfree, rfl⟩ :=
    delete_eq_ok_iff.1 hdelete
  rw [h.slot_eq] at hslot
  rw [hseals] at hfree
  refine ⟨directory ++ [name], by simp, rfl, delete_eq_ok_iff.2 ?_⟩
  obtain hsame | ⟨_, _, _, _, hold, -⟩ := h.eq_or_file (directory ++ [name])
  · exact ⟨directory, name, entry, hslot, hsame ▸ hentry, hne, hslash, hfree, rfl⟩
  · exact ⟨directory, name, _, hslot, hold, by simp, hslash, hfree, rfl⟩

theorem makeDirectory_eq_ok_iff :
    tree.makeDirectory current path = .ok tree' ↔
      ∃ directory name, tree.slot current path = .ok (directory, name) ∧
        tree.entryAt? (directory ++ [name]) = none ∧ tree.isSealed directory = false ∧
        tree' = (tree.put (directory ++ [name]) .directory).withoutSeal (directory ++ [name]) := by
  rw [makeDirectory, bind_eq_ok_iff]
  constructor
  · rintro ⟨⟨directory, name⟩, hslot, h⟩
    rcases hentry : tree.entryAt? (directory ++ [name]) with _ | entry
    · simp only [hentry] at h
      split at h
      · cases h
      · next hfree =>
        cases h
        exact ⟨directory, name, hslot, hentry, Bool.not_eq_true _ ▸ hfree, rfl⟩
    · simp only [hentry, reduceCtorEq] at h
  · rintro ⟨directory, name, hslot, hentry, hfree, rfl⟩
    exact ⟨(directory, name), hslot, by simp [hentry, hfree]⟩

/-- Where an entry is, no directory is made. -/
theorem makeDirectory_of_taken {directory : Location} {name : Text} {entry : Entry}
    (hslot : tree.slot current path = .ok (directory, name))
    (hentry : tree.entryAt? (directory ++ [name]) = some entry) :
    tree.makeDirectory current path = .error .refused := by
  unfold makeDirectory
  simp only [hslot, bind, Except.bind, hentry]

/-! ## Making directories -/

/-- A directory is made, or there is one already. -/
def Provides (tree : FileTree) (current : Location) (path : Path) (after : FileTree) : Prop :=
  tree.makeDirectory current path = .ok after ∨
    after = tree ∧ tree.makeDirectory current path = .error .refused ∧
      tree.isDirectory current path = true

/-- A directory that can be provided at once needs none of those above it. -/
theorem Provides.makeDirectoriesAlong {after : FileTree} (h : Provides tree current path after)
    (htext : path.text ≠ []) (above : List Path) :
    tree.makeDirectoriesAlong current (path :: above) = (after, .ok ()) := by
  rw [FileTree.makeDirectoriesAlong, if_neg htext]
  obtain hmake | ⟨rfl, hrefused, hdirectory⟩ := h
  · rw [hmake]
  · simp [hrefused, hdirectory]

/-- A directory above which one is missing is provided after those above it. -/
theorem Provides.makeDirectoriesAlong_of_missing {changed after : FileTree} {above : List Path}
    (h : Provides changed current path after) (htext : path.text ≠ [])
    (hmissing : tree.makeDirectory current path = .error .missing) (hne : above ≠ [])
    (habove : tree.makeDirectoriesAlong current above = (changed, .ok ())) :
    tree.makeDirectoriesAlong current (path :: above) = (after, .ok ()) := by
  rw [FileTree.makeDirectoriesAlong, if_neg htext, hmissing]
  simp only [hne, if_false, habove]
  obtain hmake | ⟨rfl, hrefused, hdirectory⟩ := h
  · rw [hmake]
  · simp [hrefused, hdirectory]

/-- What every made directory keeps is kept by making directories along a chain of paths. -/
theorem makeDirectoriesAlong_induction {motive : FileTree → Prop} (paths : List Path)
    (htree : motive tree)
    (hmake : ∀ before path after, motive before → before.makeDirectory current path = .ok after →
      motive after) : motive (tree.makeDirectoriesAlong current paths).1 := by
  induction paths with
  | nil => exact htree
  | cons path above ih =>
    rw [makeDirectoriesAlong]
    split
    · exact htree
    · split
      · next after hafter => exact hmake _ _ _ htree hafter
      · split
        · exact htree
        · revert ih
          rcases makeDirectoriesAlong tree current above with ⟨changed, fault | ⟨⟨⟩⟩⟩ <;> intro ih
          · exact ih
          · dsimp only
            split
            · next last hlast => exact hmake _ _ _ ih hlast
            · exact ih
      · exact htree

theorem extends_makeDirectories (tree : FileTree) (current : Location) (path : Path) :
    Extends tree (tree.makeDirectories current path).1 := by
  refine makeDirectoriesAlong_induction _ (Extends.refl tree)
    fun before path after hbefore hmake => ?_
  obtain ⟨directory, name, -, hvacant, -, rfl⟩ := makeDirectory_eq_ok_iff.1 hmake
  exact hbefore.trans (extends_put hvacant)

/-- Making directories leaves the seals. -/
theorem isSealed_makeDirectoriesAlong (tree : FileTree) (current : Location) (paths : List Path) :
    (tree.makeDirectoriesAlong current paths).1.isSealed = tree.isSealed := by
  refine makeDirectoriesAlong_induction (motive := fun after => after.isSealed = tree.isSealed)
    paths rfl fun before path after hbefore hmake => ?_
  obtain ⟨directory, name, -, hvacant, -, rfl⟩ := makeDirectory_eq_ok_iff.1 hmake
  exact (isSealed_put_directory hvacant).trans hbefore

/-! ## Grounded trees -/

/-- Every entry stands in a directory, and the current directory is one. -/
structure IsGrounded (tree : FileTree) (current : Location) : Prop where
  /-- Every entry stands in a directory. -/
  closed : IsClosed tree
  /-- The current directory is a directory. -/
  current : tree.entryAt? current = some .directory

/-- The directory in which a path starts is one. -/
theorem IsGrounded.start (h : IsGrounded tree current) (path : Path) :
    tree.entryAt? (path.start current) = some .directory := by
  unfold Path.start
  split
  · exact entryAt?_nil tree
  · exact h.current

theorem SameShape.isGrounded (h : SameShape tree tree') (hgrounded : IsGrounded tree current) :
    IsGrounded tree' current := by
  refine ⟨fun location hne hentry => ?_, (h.directory_iff current).2 hgrounded.current⟩
  refine (h.directory_iff _).2 (hgrounded.closed location hne fun hnone => hentry ?_)
  have hshape := h location
  rw [hnone] at hshape
  exact Option.map_eq_none_iff.1 hshape

theorem IsGrounded.erase (h : IsGrounded tree current) {location : Location} {entry : Entry}
    (hentry : tree.entryAt? location = some entry) (hne : entry ≠ .directory) :
    IsGrounded (tree.erase location) current := by
  have hlocation : location ≠ [] := ne_nil_of_entryAt?_ne tree (by simp [hentry, hne])
  have hdirectory : ∀ other, tree.entryAt? other = some .directory →
      (tree.erase location).entryAt? other = some .directory := by
    intro other hother
    rw [entryAt?_erase _ _ _ hlocation, if_neg]
    · exact hother
    · rintro rfl
      exact hne (Option.some.inj (hentry.symm.trans hother))
  refine ⟨fun other hother hfound => hdirectory _ (h.closed other hother fun hnone => hfound ?_),
    hdirectory _ h.current⟩
  rw [entryAt?_erase _ _ _ hlocation]
  split
  · rfl
  · exact hnone

theorem IsGrounded.put_directory (h : IsGrounded tree current) {directory : Location} {name : Text}
    (hdirectory : tree.entryAt? directory = some .directory)
    (hvacant : tree.entryAt? (directory ++ [name]) = none) :
    IsGrounded ((tree.put (directory ++ [name]) .directory).withoutSeal (directory ++ [name]))
      current := by
  have hmore : Extends tree (tree.put (directory ++ [name]) .directory) := extends_put hvacant
  refine ⟨fun location hne hentry => ?_, hmore _ _ h.current⟩
  rw [entryAt?_withoutSeal] at hentry ⊢
  rw [entryAt?_put _ _ _ _ (by simp)] at hentry
  split at hentry
  · next heq =>
    rw [heq, List.dropLast_concat]
    exact hmore _ _ hdirectory
  · exact hmore _ _ (h.closed location hne hentry)

theorem IsGrounded.makeDirectories (h : IsGrounded tree current) (path : Path) :
    IsGrounded (tree.makeDirectories current path).1 current := by
  refine makeDirectoriesAlong_induction (motive := fun tree => IsGrounded tree current) _ h
    fun before path after hbefore hmake => ?_
  obtain ⟨directory, name, hslot, hvacant, -, rfl⟩ := makeDirectory_eq_ok_iff.1 hmake
  obtain ⟨-, -, -, -, hdirectory, -⟩ := slot_eq_ok_iff.1 hslot
  exact hbefore.put_directory hdirectory hvacant

/-- In a grounded tree, a path that leads to a file has no slash at its end. -/
theorem IsGrounded.hasSlashEnd_of_find (h : IsGrounded tree current) {location : Location}
    (hfind : tree.find current path = .ok location)
    (hentry : tree.entryAt? location ≠ some .directory) : path.hasSlashEnd = false := by
  cases hslash : path.hasSlashEnd with
  | false => rfl
  | true =>
    obtain ⟨-, -, hwalk⟩ := walk_eq_ok_iff.1 (find_eq_ok_iff.1 hfind)
    rw [Path.steps, hslash, if_pos rfl] at hwalk
    obtain ⟨fewer, there, hthere, -, hlast⟩ := walkUpTo_of_append (by simp) hwalk
    obtain ⟨jump, hjump⟩ := exists_walkUpTo_eq tree fewer
    -- The slash adds a dot to the pieces, and a dot stays in a directory.
    have hdot := (hjump there [['.']]).symm.trans hlast
    rw [walkWith_dot] at hdot
    cases hdot
    exact absurd (hthere h.closed (h.start path)) hentry

/-! ## Writing -/

/-- The location at which a file is written: that of a file, or a vacant place. -/
def Receives (tree : FileTree) (current : Location) (path : Path) (location : Location) : Prop :=
  (tree.find current path = .ok location ∧
    ∃ content runnable, tree.entryAt? location = some (.file content runnable)) ∨
  ∃ directory name, tree.walk current path = .ok (.vacant directory name) ∧
    location = directory ++ [name]

theorem Receives.eq {location other : Location} (h : Receives tree current path location)
    (h' : Receives tree current path other) : location = other := by
  obtain ⟨hfind, -⟩ | ⟨directory, name, hwalk, rfl⟩ := h <;>
    obtain ⟨hfind', -⟩ | ⟨directory', name', hwalk', rfl⟩ := h'
  · exact Except.ok.inj (hfind.symm.trans hfind')
  · cases (find_eq_ok_iff.1 hfind).symm.trans hwalk'
  · cases (find_eq_ok_iff.1 hfind').symm.trans hwalk
  · cases hwalk.symm.trans hwalk'
    rfl

/-- Nothing but a file is written over. -/
theorem Receives.vacant_or_file {location : Location} (h : Receives tree current path location) :
    tree.entryAt? location = none ∨
      ∃ content runnable, tree.entryAt? location = some (.file content runnable) := by
  obtain ⟨-, hfile⟩ | ⟨directory, name, hwalk, rfl⟩ := h
  · exact .inr hfile
  · exact .inl (entryAt?_of_walkUpTo (walk_eq_ok_iff.1 hwalk).2.2)

/-- A file is written over a file or to a vacant place. -/
theorem write_eq_ok {content : Content} {runnable : Bool}
    (h : tree.write current path content (some runnable) = .ok tree') :
    ∃ location, Receives tree current path location ∧
      tree' = tree.put location (.file content runnable) := by
  rw [write] at h
  split at h
  · cases h
  obtain ⟨place, hwalk, h⟩ := bind_eq_ok_iff.1 h
  rcases place with location | ⟨directory, name⟩
  · rcases hentry : tree.entryAt? location with _ | (_ | ⟨old, runnable'⟩ | link) <;>
      simp only [hentry, reduceCtorEq] at h
    cases h
    exact ⟨location, .inl ⟨find_eq_ok_iff.2 hwalk, old, runnable', hentry⟩, rfl⟩
  · dsimp only at h
    split at h
    · cases h
    · cases h
      exact ⟨_, .inr ⟨directory, name, hwalk, rfl⟩, rfl⟩

/-- A file that a path leads to is written over. -/
theorem write_file {location : Location} {old : Content} {runnable : Bool}
    (hfind : tree.find current path = .ok location)
    (hentry : tree.entryAt? location = some (.file old runnable))
    (hslash : path.hasSlashEnd = false) (content : Content) (runnable? : Option Bool) :
    tree.write current path content runnable? =
      .ok (tree.put location (.file content (runnable?.getD runnable))) := by
  rw [write, if_neg (by simp [hslash]), bind_eq_ok_iff]
  exact ⟨_, find_eq_ok_iff.1 hfind, by simp [hentry]⟩

/-- Whatever is written, the path has no slash at its end. -/
theorem hasSlashEnd_of_write {content : Content} {runnable? : Option Bool}
    (h : tree.write current path content runnable? = .ok tree') : path.hasSlashEnd = false := by
  rw [write] at h
  split at h
  · cases h
  · next hslash => exact Bool.not_eq_true _ ▸ hslash

section PutFile

variable {location : Location} {content : Content} {runnable : Bool}
  (h : tree.entryAt? location = none ∨
    ∃ content runnable, tree.entryAt? location = some (.file content runnable))
include h

theorem ne_directory_of_vacant_or_file : tree.entryAt? location ≠ some .directory := by
  obtain hnone | ⟨_, _, hfile⟩ := h <;> simp [*]

/-- A file that comes to a vacant place, or to that of a file, is in no way. -/
theorem keepsWays_put_file : KeepsWays tree (tree.put location (.file content runnable)) := by
  intro other entry hentry hfile
  rw [entryAt?_put _ _ _ _ (ne_nil_of_entryAt?_ne tree (ne_directory_of_vacant_or_file h)), if_neg]
  · exact hentry
  · rintro rfl
    obtain hnone | ⟨_, _, hthere⟩ := h
    · cases hnone.symm.trans hentry
    · cases hthere.symm.trans hentry
      cases hfile

/-- What is read elsewhere is read as before. -/
theorem readFile_put_file {other : Location} {content' : Content} {runnable' : Bool}
    (hne : other ≠ location) (hfind : tree.find current path = .ok other)
    (hentry : tree.entryAt? other = some (.file content' runnable')) :
    (tree.put location (.file content runnable)).readFile current path =
      .ok (content', runnable') := by
  have hafter : (tree.put location (.file content runnable)).entryAt? other =
      some (.file content' runnable') := by
    rw [entryAt?_put _ _ _ _ (ne_nil_of_entryAt?_ne tree (ne_directory_of_vacant_or_file h)),
      if_neg hne, hentry]
  exact readFile_eq_ok_iff.2 ⟨other, (keepsWays_put_file h).find_eq
    (fun _ _ _ => ⟨content', runnable', hafter⟩) hfind, hafter⟩

end PutFile

/-! ## Moving -/

/-- A file or a link takes the place of whatever is no directory, if no seal keeps it. -/
theorem rename_eq {oldDirectory newDirectory : Location} {oldName newName : Text} {entry : Entry}
    (hold : tree.slot current source = .ok (oldDirectory, oldName))
    (hnew : tree.slot current target = .ok (newDirectory, newName))
    (hentry : tree.entryAt? (oldDirectory ++ [oldName]) = some entry) (hne : entry ≠ .directory)
    (hsource : source.hasSlashEnd = false) (htarget : target.hasSlashEnd = false)
    (hplace : tree.entryAt? (newDirectory ++ [newName]) ≠ some .directory)
    (hleaves : tree.isSealed oldDirectory = false) (hcomes : tree.isSealed newDirectory = false) :
    tree.rename current source target =
      .ok (if oldDirectory ++ [oldName] = newDirectory ++ [newName] then tree
        else (tree.erase (oldDirectory ++ [oldName])).put (newDirectory ++ [newName]) entry) := by
  have hslash : (source.hasSlashEnd || target.hasSlashEnd) = false := by rw [hsource, htarget]; rfl
  have hheld : tree.isHeld (oldDirectory ++ [oldName]) oldDirectory newDirectory = false := by
    rw [isHeld, hleaves, hcomes, isSealed_of_ne (by simp [hentry, hne]), Bool.and_false]
    rfl
  rw [rename, bind_eq_ok_iff]
  refine ⟨_, hold, bind_eq_ok_iff.2 ⟨_, hnew, ?_⟩⟩
  rcases entry with _ | ⟨content, runnable⟩ | link
  · exact absurd rfl hne
  all_goals
    simp only [hentry, hslash, hheld, Bool.false_eq_true, if_false]
    split <;> rfl

/-- What a renaming does: nothing if the new name is the old one, else a directory goes with all
that is below it, and anything else goes alone. -/
theorem rename_eq_ok (h : tree.rename current source target = .ok tree') :
    ∃ oldDirectory oldName newDirectory newName,
      tree.slot current source = .ok (oldDirectory, oldName) ∧
      tree.slot current target = .ok (newDirectory, newName) ∧
      (oldDirectory ++ [oldName] = newDirectory ++ [newName] ∧ tree' = tree ∨
        tree.entryAt? (oldDirectory ++ [oldName]) = some .directory ∧
          (tree.entryAt? (newDirectory ++ [newName]) = none ∨
            tree.entryAt? (newDirectory ++ [newName]) = some .directory ∧
              tree.hasBelow (newDirectory ++ [newName]) = false) ∧
          tree' = tree.relocate (oldDirectory ++ [oldName]) (newDirectory ++ [newName]) ∨
        ∃ entry, tree.entryAt? (oldDirectory ++ [oldName]) = some entry ∧ entry ≠ .directory ∧
          tree.entryAt? (newDirectory ++ [newName]) ≠ some .directory ∧
          tree' = (tree.erase (oldDirectory ++ [oldName])).put (newDirectory ++ [newName])
            entry) := by
  rw [rename, bind_eq_ok_iff] at h
  obtain ⟨⟨oldDirectory, oldName⟩, hold, h⟩ := h
  obtain ⟨⟨newDirectory, newName⟩, hnew, h⟩ := bind_eq_ok_iff.1 h
  refine ⟨oldDirectory, oldName, newDirectory, newName, hold, hnew, ?_⟩
  dsimp only at h
  -- Each branch that does not fail has one of the three effects.
  split at h
  · cases h
  · next hentry =>
    split at h
    · next hsame =>
      cases h
      exact .inl ⟨hsame, rfl⟩
    · split at h
      · cases h
      · split at h
        · next hvacant =>
          cases h
          exact .inr (.inl ⟨hentry, .inl hvacant, rfl⟩)
        · next hdirectory =>
          split at h
          · cases h
          · next hbelow =>
            cases h
            exact .inr (.inl ⟨hentry, .inr ⟨hdirectory, by simpa using hbelow⟩, rfl⟩)
        · cases h
  · next entry hne hentry =>
    split at h
    · cases h
    · split at h
      · next hsame =>
        cases h
        exact .inl ⟨hsame, rfl⟩
      · split at h
        · cases h
        · split at h
          · cases h
          · next hplace =>
            cases h
            exact .inr (.inr ⟨entry, hentry, fun heq => hne (heq ▸ rfl), hplace, rfl⟩)

/-- What a copying does: the file that is read is put where the target is written, without its
content if this is where it stands. -/
theorem copy_eq_ok (h : tree.copy current source target = .ok tree') :
    ∃ old new content runnable, tree.find current source = .ok old ∧
      tree.entryAt? old = some (.file content runnable) ∧ Receives tree current target new ∧
      tree' = tree.put new (.file (if new = old then .text [] else content) runnable) := by
  obtain ⟨⟨content, runnable⟩, hread, h⟩ := bind_eq_ok_iff.1 h
  obtain ⟨opened, hopen, h⟩ := bind_eq_ok_iff.1 h
  obtain ⟨⟨left, runnable'⟩, hleft, hwrite⟩ := bind_eq_ok_iff.1 h
  obtain ⟨old, hfind, hentry⟩ := readFile_eq_ok_iff.1 hread
  obtain ⟨new, hnew, rfl⟩ := write_eq_ok hopen
  obtain ⟨new', hnew', rfl⟩ := write_eq_ok hwrite
  obtain rfl := hnew.eq hnew'
  refine ⟨old, new, content, runnable, hfind, hentry, hnew, ?_⟩
  -- The source is read where it has been found, now that the target has been emptied.
  have hvacant := hnew.vacant_or_file
  by_cases hsame : new = old
  · subst hsame
    have hne := ne_nil_of_entryAt?_ne tree (ne_directory_of_vacant_or_file hvacant)
    have hempty : (tree.put new (.file (.text []) runnable)).entryAt? new =
        some (.file (.text []) runnable) := by
      rw [entryAt?_put _ _ _ _ hne, if_pos rfl]
    have hthere : (tree.put new (.file (.text []) runnable)).find current source = .ok new :=
      (keepsWays_put_file hvacant).find_eq (fun _ _ _ => ⟨_, _, hempty⟩) hfind
    cases hleft.symm.trans (readFile_eq_ok_iff.2 ⟨new, hthere, hempty⟩)
    rw [if_pos rfl]
  · cases hleft.symm.trans (readFile_put_file hvacant (Ne.symm hsame) hfind hentry)
    rw [if_neg hsame]

/-- A move is a renaming, or a copying of what cannot be renamed and a deletion. -/
theorem moveEntry_eq_ok (h : tree.moveEntry current source target = (tree', .ok ())) :
    tree.rename current source target = .ok tree' ∨
      (∃ fault, tree.rename current source target = .error fault) ∧
        ∃ copied, tree.copy current source target = .ok copied ∧
          copied.delete current source = .ok tree' := by
  rw [moveEntry] at h
  split at h
  · next hrename =>
    cases h
    exact .inl hrename
  · next fault hrename =>
    split at h
    · cases h
    · next copied hcopy =>
      split at h
      · next hdelete =>
        cases h
        exact .inr ⟨⟨fault, hrename⟩, copied, hcopy, hdelete⟩
      · cases h

/-- A move that fails changes nothing, or has copied what it could neither rename nor delete. -/
theorem moveEntry_eq_error {fault : Fault}
    (h : tree.moveEntry current source target = (tree', .error fault)) :
    tree' = tree ∨ (∃ fault, tree.rename current source target = .error fault) ∧
      tree.copy current source target = .ok tree' ∧
      tree'.delete current source = .error fault := by
  rw [moveEntry] at h
  split at h
  · cases h
  · next fault' hrename =>
    split at h
    · cases h
      exact .inl rfl
    · next copied hcopy =>
      split at h
      · cases h
      · next hdelete =>
        cases h
        exact .inr ⟨⟨fault', hrename⟩, hcopy, hdelete⟩

end FileTree

end EngineUpkeep
