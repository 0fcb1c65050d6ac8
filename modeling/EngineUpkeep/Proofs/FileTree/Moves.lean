import EngineUpkeep.Proofs.FileTree.Straight

/-!
# What moves come to

A move that succeeds takes an entry, with all that is below it, to another place, and leaves
everything else (`MovedTo`). This is so for a file and for a directory alike, since in a closed tree
there is nothing below a file. Where the ways to both places lead straight down, this is what comes
of a renaming, and of copying a file and deleting it (`movedTo_of_moveEntry`).

A move that fails there changes nothing, unless the directory of the file is sealed and only the
copy could be made (`StraightTo.moveEntry_eq_error`).
-/

namespace EngineUpkeep

namespace FileTree

variable {tree after : FileTree} {current old new : Location} {source target : Path}

/-- What is found after all that is found at `source` and below it has moved to `target`. -/
def moved {α : Type} (nothing : α) (found : Location → α) (source target location : Location) : α :=
  if target <+: location then found (source ++ location.drop target.length)
  else if source <+: location then nothing
  else found location

/-! ## Relocations -/

/-- What has come to the new place, or below it, was at the old one. -/
theorem relocated?_iff_inside {location other : Location} (h : new <+: location) :
    relocated? old new other = some location ↔ other = old ++ location.drop new.length := by
  obtain ⟨rest, rfl⟩ := h
  rw [List.drop_left, relocated?]
  by_cases hold : old <+: other
  · obtain ⟨more, rfl⟩ := hold
    simp
  · have hne : other ≠ old ++ rest := fun heq => hold ⟨rest, heq.symm⟩
    rw [if_neg (by simpa using hold)]
    split
    · simp [hne]
    · next hnew =>
      -- An item that stays where it is does not stay in the way.
      have hother : other ≠ new ++ rest := fun heq => hnew (by simp [heq])
      simp [hne, hother]

/-- What is found elsewhere has been there before. -/
theorem relocated?_iff_outside {location other : Location} (h : ¬ new <+: location) :
    relocated? old new other = some location ↔ ¬ old <+: location ∧ other = location := by
  rw [relocated?]
  by_cases hold : old <+: other
  · have hne : new ++ other.drop old.length ≠ location := fun heq => h ⟨_, heq⟩
    rw [if_pos (by simpa using hold), Option.some.injEq]
    exact iff_of_false hne fun ⟨hlocation, heq⟩ => hlocation (heq ▸ hold)
  · rw [if_neg (by simpa using hold)]
    split
    · next hnew =>
      have hnew : new <+: other := by simpa using hnew
      exact iff_of_false (by simp) fun ⟨_, heq⟩ => h (heq ▸ hnew)
    · rw [Option.some.injEq]
      exact ⟨fun heq => ⟨heq ▸ hold, heq⟩, And.right⟩

/-- What is found among relocated items. -/
theorem find?_relocated (items : List (Location × Entry)) (location : Location) :
    ((items.filterMap fun item => (relocated? old new item.1).map (·, item.2)).find?
        fun item => item.1 = location).map (·.2) =
      moved none (fun location => (items.find? fun item => item.1 = location).map (·.2)) old new
        location := by
  -- An item is found there if this is where it has been relocated to.
  have hfind : ((items.filterMap fun item => (relocated? old new item.1).map (·, item.2)).find?
      fun item => item.1 = location).map (·.2) =
        (items.find? fun item => relocated? old new item.1 = some location).map (·.2) := by
    induction items with
    | nil => rfl
    | cons item items ih =>
      rcases hitem : relocated? old new item.1 with _ | other
      · rw [List.filterMap_cons_none (by simp [hitem]), ih, List.find?_cons, hitem]
        rfl
      · rw [List.filterMap_cons_some (by rw [hitem]; rfl), List.find?_cons, List.find?_cons, hitem]
        by_cases hother : other = location
        · simp [hother]
        · simpa [hother] using ih
  rw [hfind, moved]
  split
  · next hlocation => simp only [relocated?_iff_inside hlocation]
  · next hlocation =>
    simp only [relocated?_iff_outside hlocation]
    split
    · next hold => simp [hold]
    · next hold => simp [hold]

/-- With nothing below the old place, a move takes one entry away and puts it elsewhere. -/
theorem moved_eq_of_alone {entry : Entry} (hentry : tree.entryAt? old = some entry)
    (hbelow : ∀ location, old <+: location → old ≠ location → tree.entryAt? location = none)
    (hbelowNew : ∀ location, new <+: location → new ≠ location → tree.entryAt? location = none)
    (location : Location) :
    moved none tree.entryAt? old new location =
      if location = new then some entry
      else if location = old then none else tree.entryAt? location := by
  rw [moved]
  by_cases hlocation : new <+: location
  · obtain ⟨rest, rfl⟩ := hlocation
    rw [if_pos (List.prefix_append new rest), List.drop_left]
    rcases rest with _ | ⟨name, rest⟩
    · simp [hentry]
    · -- There is nothing below either place.
      have hnone := hbelow (old ++ name :: rest) (List.prefix_append _ _) (by simp)
      have hnoneNew := hbelowNew (new ++ name :: rest) (List.prefix_append _ _) (by simp)
      rw [hnone, hnoneNew, ite_self, if_neg (by simp)]
  · have hne : location ≠ new := fun heq => hlocation (heq ▸ List.prefix_refl new)
    rw [if_neg hne, if_neg hlocation]
    by_cases hother : old <+: location
    · rw [if_pos hother]
      split
      · rfl
      · next hneOld => exact (hbelow location hother (Ne.symm hneOld)).symm
    · have hneOld : location ≠ old := fun heq => hother (heq ▸ List.prefix_refl old)
      rw [if_neg hneOld, if_neg hother]

/-- Where no directory is at either place, there is no seal to move. -/
theorem moved_isSealed_of_alone
    (hbelow : ∀ location, old <+: location → tree.entryAt? location ≠ some .directory)
    (hbelowNew : ∀ location, new <+: location → tree.entryAt? location ≠ some .directory)
    (location : Location) :
    moved false tree.isSealed old new location = tree.isSealed location := by
  rw [moved]
  split
  · next hlocation =>
    rw [isSealed_of_ne (hbelow _ (List.prefix_append _ _)), isSealed_of_ne (hbelowNew _ hlocation)]
  · split
    · next hlocation => rw [isSealed_of_ne (hbelow _ hlocation)]
    · rfl

section Apart

variable (hold : ¬ old <+: new) (hnew : ¬ new <+: old)
include hold hnew

/-- A relocation takes everything at the old place and below it to the new place. -/
theorem entryAt?_relocate (location : Location) :
    (tree.relocate old new).entryAt? location = moved none tree.entryAt? old new location := by
  by_cases hnil : location = []
  · have hneNew : ¬ new <+: [] := fun h => hnew (List.prefix_nil.1 h ▸ List.nil_prefix)
    have hneOld : ¬ old <+: [] := fun h => hold (List.prefix_nil.1 h ▸ List.nil_prefix)
    rw [hnil, moved, if_neg hneNew, if_neg hneOld, entryAt?_nil, entryAt?_nil]
  · rw [entryAt?, if_neg hnil, relocate, find?_relocated, moved, moved]
    split
    · have hne : old ++ location.drop new.length ≠ [] := fun heq =>
        hold ((List.append_eq_nil_iff.1 heq).1 ▸ List.nil_prefix)
      rw [entryAt?, if_neg hne]
    · split
      · rfl
      · rw [entryAt?, if_neg hnil]

/-- The seals go with the directories. -/
theorem isSealed_relocate (location : Location) :
    (tree.relocate old new).isSealed location = moved false tree.isSealed old new location := by
  have hsealed : location ∈ (tree.relocate old new).sealed ↔
      ∃ other ∈ tree.sealed, relocated? old new other = some location := List.mem_filterMap
  rw [isSealed, entryAt?_relocate hold hnew, moved, moved]
  by_cases hlocation : new <+: location
  · simp [hsealed, relocated?_iff_inside hlocation, hlocation, isSealed]
  · by_cases hother : old <+: location
    · simp [hlocation, hother]
    · simp [hsealed, relocated?_iff_outside hlocation, hlocation, hother, isSealed]

end Apart

/-- Nothing stands below a location if none of the entries does. -/
theorem entryAt?_of_hasBelow {location below : Location} (h : tree.hasBelow location = false)
    (hbelow : location <+: below) (hne : location ≠ below) : tree.entryAt? below = none := by
  by_contra hsome
  obtain ⟨entry, hentry⟩ := Option.ne_none_iff_exists'.1 hsome
  have hnil : below ≠ [] := by
    rintro rfl
    exact hne (List.prefix_nil.1 hbelow)
  have hmem := mem_entries_of_entryAt? hnil hentry
  rw [hasBelow, List.any_eq_false] at h
  exact h _ hmem (by simpa using ⟨hbelow, hne.symm⟩)

/-! ## Moves that succeed -/

/-- A move of an entry to a place that can take it. -/
structure MovedTo (tree after : FileTree) (old new : Location) : Prop where
  /-- All that stands at the old place and below it stands at the new one. -/
  entryAt?_eq : ∀ location, after.entryAt? location = moved none tree.entryAt? old new location
  /-- Directories that move stay sealed or not. -/
  isSealed_eq : ∀ location, after.isSealed location = moved false tree.isSealed old new location
  /-- The new place is in a directory. -/
  above : tree.entryAt? new.dropLast = some .directory
  /-- Nothing is below the new place. -/
  not_below : ∀ location, new <+: location → new ≠ location → tree.entryAt? location = none
  /-- Only a directory takes the place of a directory. -/
  directory : tree.entryAt? new = some .directory → tree.entryAt? old = some .directory

/-- An entry that is no directory moves if it is put at the new place, where no directory is, and
the old place is cleared. -/
theorem movedTo_of_alone {entry : Entry} (hclosed : IsClosed tree)
    (hentry : tree.entryAt? old = some entry) (hne : entry ≠ .directory)
    (hplace : tree.entryAt? new ≠ some .directory)
    (habove : tree.entryAt? new.dropLast = some .directory)
    (hseals : after.isSealed = tree.isSealed)
    (hafter : ∀ location, after.entryAt? location =
      if location = new then some entry
      else if location = old then none else tree.entryAt? location) :
    MovedTo tree after old new := by
  have hdirectory : tree.entryAt? old ≠ some .directory := by simp [hentry, hne]
  have hbelow : ∀ location, old <+: location → old ≠ location → tree.entryAt? location = none :=
    fun location => hclosed.eq_none_of_prefix hdirectory
  have hbelowNew : ∀ location, new <+: location → new ≠ location → tree.entryAt? location = none :=
    fun location => hclosed.eq_none_of_prefix hplace
  refine ⟨fun location => ?_, fun location => ?_, habove, hbelowNew,
    fun hthere => absurd hthere hplace⟩
  · rw [hafter, moved_eq_of_alone hentry hbelow hbelowNew]
  · rw [hseals, moved_isSealed_of_alone]
    · intro location hlocation
      by_cases heq : old = location
      · exact heq ▸ hdirectory
      · simp [hbelow location hlocation heq]
    · intro location hlocation
      by_cases heq : new = location
      · exact heq ▸ hplace
      · simp [hbelowNew location hlocation heq]

section Moves

variable (hsource : StraightTo tree current source old) (htarget : StraightTo tree current target new)
include hsource htarget

/-- What has been renamed has moved. -/
theorem movedTo_of_rename (hclosed : IsClosed tree) (hold : ¬ old <+: new) (hnew : ¬ new <+: old)
    (hrename : tree.rename current source target = .ok after) : MovedTo tree after old new := by
  obtain ⟨oldDirectory, oldName, newDirectory, newName, hslot, hslot', hcases⟩ :=
    rename_eq_ok hrename
  obtain ⟨-, -, -, -, hdirectory, -⟩ := slot_eq_ok_iff.1 hslot'
  have habove : tree.entryAt? new.dropLast = some .directory := by
    rw [← htarget.eq_of_slot hslot', List.dropLast_concat]
    exact hdirectory
  rw [hsource.eq_of_slot hslot, htarget.eq_of_slot hslot'] at hcases
  obtain ⟨rfl, -⟩ | ⟨hentry, hplace, rfl⟩ | ⟨entry, hentry, hne, hplace, rfl⟩ := hcases
  · exact absurd (List.prefix_refl old) hold
  · refine ⟨entryAt?_relocate hold hnew, isSealed_relocate hold hnew, habove,
      fun location hbelow hother => ?_, fun _ => hentry⟩
    obtain hvacant | ⟨-, hempty⟩ := hplace
    · exact hclosed.eq_none_of_prefix (by simp [hvacant]) hbelow hother
    · exact entryAt?_of_hasBelow hempty hbelow hother
  · have hneOld : tree.entryAt? old ≠ some .directory := by simp [hentry, hne]
    have herase : (tree.erase old).entryAt? new = tree.entryAt? new := by
      rw [entryAt?_erase _ _ _ (ne_nil_of_entryAt?_ne tree hneOld), if_neg]
      exact fun heq => hold (heq ▸ List.prefix_refl new)
    refine movedTo_of_alone hclosed hentry hne hplace habove ?_ fun location => ?_
    · rw [isSealed_put (herase ▸ hplace) hne, isSealed_erase hneOld]
    · rw [entryAt?_put _ _ _ _ (ne_nil_of_entryAt?_ne tree hplace),
        entryAt?_erase _ _ _ (ne_nil_of_entryAt?_ne tree hneOld)]

/-- A file that is copied straight down is put at the new place, in the directory that is there.
Then the file is deleted, unless a seal keeps it. -/
theorem StraightTo.copy_eq_ok (hne : old ≠ new)
    (hcopy : tree.copy current source target = .ok after) :
    ∃ content runnable, tree.entryAt? old = some (.file content runnable) ∧
      tree.entryAt? new ≠ some .directory ∧ tree.entryAt? new.dropLast = some .directory ∧
      after = tree.put new (.file content runnable) ∧
      after.delete current source =
        if tree.Free old then .ok (after.erase old) else .error .refused := by
  obtain ⟨old', new', content, runnable, hfind, hentry, hreceives, rfl⟩ :=
    FileTree.copy_eq_ok hcopy
  have hvacant := hreceives.vacant_or_file
  have hplace := ne_directory_of_vacant_or_file hvacant
  obtain rfl := hsource.eq_of_find hfind
  obtain ⟨rfl, habove⟩ := htarget.eq_of_receives hreceives
  rw [if_neg (Ne.symm hne)]
  refine ⟨content, runnable, hentry, hplace, habove, rfl, ?_⟩
  -- The way to the file is as it was, and so is the file.
  obtain ⟨root, base, names, hreaches, rfl, rfl⟩ := hsource.exists_reaches hfind
  have hthere : (tree.put new' (.file content runnable)).entryAt? (base ++ names) =
      some (.file content runnable) := by
    rw [entryAt?_put _ _ _ _ (ne_nil_of_entryAt?_ne tree hplace), if_neg hne, hentry]
  rw [(hreaches.of_keepsWays (keepsWays_put_file hvacant)).delete_eq hthere]
  exact if_congr (free_iff (isSealed_put hplace (by simp))) rfl rfl

/-- Straight down, a move that succeeds takes the entry to its new place. -/
theorem movedTo_of_moveEntry (hclosed : IsClosed tree) (hold : ¬ old <+: new)
    (hnew : ¬ new <+: old)
    (hmove : tree.moveEntry current source target = (after, .ok ())) :
    MovedTo tree after old new := by
  obtain hrename | ⟨-, copied, hcopy, hdelete⟩ := moveEntry_eq_ok hmove
  · exact movedTo_of_rename hsource htarget hclosed hold hnew hrename
  have hne : old ≠ new := fun heq => hold (heq ▸ List.prefix_refl old)
  obtain ⟨content, runnable, hentry, hplace, habove, rfl, hdeleted⟩ :=
    hsource.copy_eq_ok htarget hne hcopy
  rw [hdelete] at hdeleted
  split at hdeleted
  · cases hdeleted
    have hold' : tree.entryAt? old ≠ some .directory := by simp [hentry]
    have hnil := ne_nil_of_entryAt?_ne tree hplace
    have hthere : (tree.put new (.file content runnable)).entryAt? old ≠ some .directory := by
      rw [entryAt?_put _ _ _ _ hnil, if_neg hne]
      exact hold'
    refine movedTo_of_alone hclosed hentry (by simp) hplace habove ?_ fun location => ?_
    · rw [isSealed_erase hthere, isSealed_put hplace (by simp)]
    · rw [entryAt?_erase _ _ _ (ne_nil_of_entryAt?_ne tree hold'), entryAt?_put _ _ _ _ hnil]
      by_cases hlocation : location = new
      · rw [if_pos hlocation, if_pos hlocation, if_neg (hlocation ▸ Ne.symm hne)]
      · rw [if_neg hlocation, if_neg hlocation]
  · cases hdeleted

/-- Straight down, a move that fails changes nothing, or the file is kept by a seal and its copy is
at the new place. -/
theorem StraightTo.moveEntry_eq_error (hne : old ≠ new) {fault : Fault}
    (hmove : tree.moveEntry current source target = (after, .error fault)) :
    after = tree ∨ ¬ tree.Free old ∧ ∃ content runnable,
      tree.entryAt? old = some (.file content runnable) ∧
      tree.entryAt? new ≠ some .directory ∧ after = tree.put new (.file content runnable) := by
  obtain hsame | ⟨-, hcopy, hdelete⟩ := FileTree.moveEntry_eq_error hmove
  · exact .inl hsame
  · obtain ⟨content, runnable, hentry, hplace, -, rfl, hdeleted⟩ :=
      hsource.copy_eq_ok htarget hne hcopy
    refine .inr ⟨fun hfree => ?_, content, runnable, hentry, hplace, rfl⟩
    rw [hdelete, if_pos hfree] at hdeleted
    cases hdeleted

end Moves

/-- After a move, every entry stands in a directory. -/
theorem MovedTo.isClosed (h : MovedTo tree after old new) (hclosed : IsClosed tree)
    (hold : ¬ old <+: new) (hnew : ¬ new <+: old) : IsClosed after := by
  intro location hne hentry
  have hstays : ∀ above, ¬ new <+: above → ¬ old <+: above →
      tree.entryAt? above = some .directory → after.entryAt? above = some .directory := by
    intro above hnotNew hnotOld hdirectory
    rw [h.entryAt?_eq, moved, if_neg hnotNew, if_neg hnotOld, hdirectory]
  rw [h.entryAt?_eq, moved] at hentry
  by_cases hlocation : new <+: location
  · rw [if_pos hlocation] at hentry
    obtain ⟨rest, rfl⟩ := hlocation
    rw [List.drop_left] at hentry
    rcases List.eq_nil_or_concat' rest with rfl | ⟨before, last, rfl⟩
    · -- The entry at the new place itself stands in the directory that was there.
      rw [List.append_nil]
      have hnil : new ≠ [] := fun heq => hnew (heq ▸ List.nil_prefix)
      have habove : new.dropLast <+: new := List.dropLast_prefix new
      refine hstays _ (fun hwithin => ?_) (fun hwithin => hold (hwithin.trans habove)) h.above
      have hlength := hwithin.length_le
      rw [List.length_dropLast] at hlength
      have hpositive := List.length_pos_iff.2 hnil
      omega
    · rw [← List.append_assoc] at hentry
      have hdirectory := hclosed _ (by simp) hentry
      rw [List.dropLast_concat] at hdirectory
      rw [← List.append_assoc, List.dropLast_concat, h.entryAt?_eq, moved,
        if_pos (List.prefix_append _ _), List.drop_left, hdirectory]
  · rw [if_neg hlocation] at hentry
    by_cases hother : old <+: location
    · rw [if_pos hother] at hentry
      exact absurd rfl hentry
    · rw [if_neg hother] at hentry
      have habove : location.dropLast <+: location := List.dropLast_prefix location
      exact hstays _ (fun hwithin => hlocation (hwithin.trans habove))
        (fun hwithin => hother (hwithin.trans habove)) (hclosed location hne hentry)

end FileTree

end EngineUpkeep
