import EngineUpkeep.Proofs.FileTree.Below
import Mathlib.Data.List.Induction

/-!
# Ways that lead straight down

Where there are no links on the way, a path below a root that gets anywhere reaches the location
below that of the root, whatever it is asked for: a walk (`RootAt.reaches_of_walk`) or the entry
that it names (`RootAt.reaches_of_slot`). Such a path leads straight down (`StraightTo`).

So it is known what making directories comes to, also when it fails: the directories from the root
down to some location are there afterwards, and when it succeeds this location is the last one
(`RootAt.madeDown_makeDirectoriesAlong`).
-/

namespace EngineUpkeep

namespace FileTree

variable {tree tree' : FileTree} {current : Location} {root : Path} {base : Location}
  {names : List Text}

/-! ## Closed trees -/

/-- Nothing but the current directory is asked of a grounded tree besides that it is closed. -/
theorem IsClosed.isGrounded (h : IsClosed tree) : IsGrounded tree [] :=
  ⟨h, entryAt?_nil tree⟩

theorem SameShape.isClosed (h : SameShape tree tree') (hclosed : IsClosed tree) : IsClosed tree' :=
  (h.isGrounded hclosed.isGrounded).closed

theorem IsClosed.erase (h : IsClosed tree) {location : Location} {entry : Entry}
    (hentry : tree.entryAt? location = some entry) (hne : entry ≠ .directory) :
    IsClosed (tree.erase location) :=
  (h.isGrounded.erase hentry hne).closed

theorem IsClosed.makeDirectories (h : IsClosed tree) (current : Location) (path : Path) :
    IsClosed (tree.makeDirectories current path).1 := by
  refine makeDirectoriesAlong_induction _ h fun before path after hbefore hmake => ?_
  obtain ⟨directory, name, hslot, hvacant, -, rfl⟩ := makeDirectory_eq_ok_iff.1 hmake
  obtain ⟨-, -, -, -, hdirectory, -⟩ := slot_eq_ok_iff.1 hslot
  exact (hbefore.isGrounded.put_directory hdirectory hvacant).closed

/-- Whatever is above an entry is a directory. -/
theorem IsClosed.directory_of_prefix (h : IsClosed tree) {above location : Location}
    (hentry : tree.entryAt? location ≠ none) (habove : above <+: location)
    (hne : above ≠ location) : tree.entryAt? above = some .directory := by
  obtain ⟨more, rfl⟩ := habove
  -- From the entry upwards, one name after the other is taken off.
  induction more using List.reverseRecOn with
  | nil => exact absurd (List.append_nil above).symm hne
  | append_singleton more last ih =>
    rw [← List.append_assoc] at hentry
    have hparent := h _ (by simp) hentry
    rw [List.dropLast_concat] at hparent
    by_cases hmore : more = []
    · rwa [hmore, List.append_nil] at hparent
    · exact ih (by simp [hparent]) (by simpa using hmore)

/-- Below what is no directory there is nothing. -/
theorem IsClosed.eq_none_of_prefix (h : IsClosed tree) {location below : Location}
    (hentry : tree.entryAt? location ≠ some .directory) (hbelow : location <+: below)
    (hne : location ≠ below) : tree.entryAt? below = none := by
  by_contra hsome
  exact hentry (h.directory_of_prefix hsome hbelow hne)

/-- In a closed tree, the directories from a directory down to a location are all those above it. -/
theorem IsClosed.withDirectories_eq (h : IsClosed tree) {target : Location}
    (hbase : tree.entryAt? base = some .directory) (htarget : base <+: target)
    (location : Location) :
    tree.withDirectories base target location =
      if location <+: target then some .directory else tree.entryAt? location := by
  rw [withDirectories]
  by_cases hlocation : location <+: target
  · rw [if_pos hlocation]
    obtain hbelow | habove := List.prefix_or_prefix_of_prefix htarget hlocation
    · rw [if_pos ⟨hbelow, hlocation⟩]
    · by_cases hne : location = base
      · rw [if_pos ⟨hne ▸ List.prefix_refl base, hlocation⟩]
      · have hdirectory := h.directory_of_prefix (by simp [hbase]) habove hne
        split
        · rfl
        · exact hdirectory
  · rw [if_neg hlocation, if_neg fun hbetween => hlocation hbetween.2]

/-! ## Roots in trees that lose ways -/

/-- A root stays where it is, when ways are lost, if some names below it can still be found. -/
theorem RootAt.of_losesWays (h : RootAt tree current root base) (hloses : LosesWays tree tree')
    (hclosed : IsClosed tree') (hne : names ≠ []) (hnames : ∀ name ∈ names, Path.IsPlain name)
    {location : Location} (hfind : tree'.find current (root.below names) = .ok location) :
    RootAt tree' current root base := by
  obtain ⟨-, -, hwalk⟩ := walk_eq_ok_iff.1 (find_eq_ok_iff.1 hfind)
  have hsteps : (root.below names).steps = root.segments ++ names := by
    rw [Path.steps, Path.hasSlashEnd_below hne hnames, Path.segments_below h.text_ne_nil hne hnames]
    rfl
  rw [Path.start_below h.text_ne_nil hne hnames, hsteps] at hwalk
  obtain ⟨fewer, there, -, hroot, hrest⟩ := walkUpTo_of_append hne hwalk
  obtain rfl : there = base := hloses.walkUpTo_eq h.directory h.walkUpTo_segments hroot
  obtain ⟨husable, htext, -⟩ := walk_eq_ok_iff.1 (find_eq_ok_iff.1 h.find_eq)
  refine rootAt_of_walkUpTo husable htext ?_ hroot
  -- The first of the names is an entry, and it stands in a directory.
  obtain ⟨name, more, rfl⟩ := List.exists_cons_of_ne_nil hne
  obtain ⟨jump, hjump⟩ := exists_walkUpTo_eq tree' fewer
  have hwith := (hjump there (name :: more)).symm.trans hrest
  have hentry : tree'.entryAt? (there ++ [name]) ≠ none := by
    intro hnone
    have hplain := hnames name (by simp)
    obtain rfl | rfl | hname | ⟨hdot, hup, hname⟩ := piece_cases name
    · exact hplain.ne_here rfl
    · exact hplain.ne_up rfl
    · rw [walkWith_none hname hnone] at hwith
      split at hwith <;> cases hwith
    · rw [walkWith_refused hdot hup hname] at hwith
      cases hwith
  have hdirectory := hclosed _ (by simp) hentry
  rwa [List.dropLast_concat] at hdirectory

/-! ## Whatever a path is asked for -/

theorem Unlinked.mono {target target' : Location} (h : Unlinked tree base target')
    (htarget : target <+: target') : Unlinked tree base target :=
  fun location link habove hbelow => h location link habove (hbelow.trans htarget)

section Straight

variable (h : RootAt tree current root base) (hne : names ≠ [])
  (hnames : ∀ name ∈ names, Path.IsPlain name) (hlinks : Unlinked tree base (base ++ names))
include h hne hnames hlinks

/-- A walk that gets somewhere reaches the place below the root. -/
theorem RootAt.reaches_of_walk {place : Place}
    (hwalk : tree.walk current (root.below names) = .ok place) :
    Reaches tree current root base names ∧
      (place = .found (base ++ names) ∨ ∃ before last, names = before ++ [last] ∧
        place = .vacant (base ++ before) last) := by
  obtain ⟨jump, hbelow⟩ := h.walk_below hne hnames
  obtain ⟨husable, hwith⟩ := (hbelow place).1 hwalk
  obtain ⟨hareNames, hdirectories, hplace⟩ := straight_of_walkWith hnames h.directory hlinks hwith
  exact ⟨⟨h, hne, hareNames, husable, hdirectories⟩, hplace⟩

theorem RootAt.reaches_of_find {location : Location}
    (hfind : tree.find current (root.below names) = .ok location) :
    Reaches tree current root base names ∧ location = base ++ names := by
  obtain ⟨hreaches, hplace⟩ := h.reaches_of_walk hne hnames hlinks (find_eq_ok_iff.1 hfind)
  obtain hfound | ⟨_, _, _, hvacant⟩ := hplace
  · cases hfound
    exact ⟨hreaches, rfl⟩
  · cases hvacant

/-- A path that names an entry, or a vacant place, reaches it below the root. -/
theorem RootAt.reaches_of_slot {directory : Location} {name : Text}
    (hslot : tree.slot current (root.below names) = .ok (directory, name)) :
    Reaches tree current root base names ∧ directory ++ [name] = base ++ names := by
  obtain ⟨before, last, rfl⟩ := (List.eq_nil_or_concat' names).resolve_left hne
  obtain ⟨husable, -⟩ := slot_eq_ok_iff.1 hslot
  obtain ⟨jump, hdirectory, -⟩ := h.exists_slot_below hnames husable
  obtain ⟨hwalk, hentry, hlast, rfl⟩ := (hdirectory _ _).1 hslot
  have hbefore : base ++ before <+: base ++ (before ++ [name]) :=
    (List.prefix_append_right_inj base).2 (List.prefix_append _ _)
  obtain ⟨rfl, hareNames, hdirectories⟩ := found_of_walkWith
    (fun other hother => hnames other (by simp [hother])) h.directory (hlinks.mono hbefore) hwalk
  refine ⟨⟨h, by simp, ?_, husable, fun location habove hbelow hother => ?_⟩, by simp⟩
  · intro other hother
    obtain hother | hother := List.mem_append.1 hother
    · exact hareNames other hother
    · rwa [List.mem_singleton.1 hother]
  · have hwithin := (prefix_above_iff name).2 ⟨hbelow, hother⟩
    by_cases hlocation : location = base ++ before
    · rw [hlocation, hentry]
    · exact hdirectories location habove hwithin hlocation

/-- A directory that has been made is the last of those down to it. -/
theorem RootAt.entryAt?_of_makeDirectory {after : FileTree}
    (hmake : tree.makeDirectory current (root.below names) = .ok after) (location : Location) :
    after.entryAt? location = tree.withDirectories base (base ++ names) location := by
  obtain ⟨directory, name, hslot, -, -, rfl⟩ := makeDirectory_eq_ok_iff.1 hmake
  obtain ⟨hreaches, hplace⟩ := h.reaches_of_slot hne hnames hlinks hslot
  rw [hplace]
  exact hreaches.entryAt?_put_directory location

/-- Where a directory is found, there are directories all the way down. -/
theorem RootAt.entryAt?_of_isDirectory
    (hdirectory : tree.isDirectory current (root.below names) = true) (location : Location) :
    tree.entryAt? location = tree.withDirectories base (base ++ names) location := by
  rw [isDirectory] at hdirectory
  split at hdirectory
  · next hentry =>
    obtain ⟨found, hfind, hentry⟩ := entryOf_eq_ok_iff.1 hentry
    obtain ⟨hreaches, rfl⟩ := h.reaches_of_find hne hnames hlinks hfind
    exact hreaches.withDirectories_eq hentry location
  · cases hdirectory

end Straight

/-- The path is that of names below a root, and there are no links on the way down to the location
that these names lead to. -/
def StraightTo (tree : FileTree) (current : Location) (path : Path) (location : Location) : Prop :=
  ∃ root base names, RootAt tree current root base ∧ names ≠ [] ∧
    (∀ name ∈ names, Path.IsPlain name) ∧ Unlinked tree base location ∧
    path = root.below names ∧ location = base ++ names

section StraightTo

variable {path : Path} {location found : Location} (h : StraightTo tree current path location)
include h

/-- What is found by the path stands at the location. -/
theorem StraightTo.eq_of_find (hfind : tree.find current path = .ok found) : found = location := by
  obtain ⟨root, base, names, hroot, hne, hnames, hlinks, rfl, rfl⟩ := h
  exact (hroot.reaches_of_find hne hnames hlinks hfind).2

/-- What is found by the path is reached by it. -/
theorem StraightTo.exists_reaches (hfind : tree.find current path = .ok found) :
    ∃ root base names, Reaches tree current root base names ∧ path = root.below names ∧
      location = base ++ names := by
  obtain ⟨root, base, names, hroot, hne, hnames, hlinks, rfl, rfl⟩ := h
  exact ⟨root, base, names, (hroot.reaches_of_find hne hnames hlinks hfind).1, rfl, rfl⟩

/-- What is written by the path stands at the location, in a directory. -/
theorem StraightTo.eq_of_receives (hreceives : Receives tree current path found) :
    found = location ∧ tree.entryAt? location.dropLast = some .directory := by
  obtain ⟨root, base, names, hroot, hne, hnames, hlinks, rfl, rfl⟩ := h
  obtain ⟨hfind, -⟩ | ⟨directory, name, hwalk, rfl⟩ := hreceives
  · obtain ⟨hreaches, rfl⟩ := hroot.reaches_of_find hne hnames hlinks hfind
    exact ⟨rfl, hreaches.above⟩
  · obtain ⟨hreaches, hplace⟩ := hroot.reaches_of_walk hne hnames hlinks hwalk
    obtain hfound | ⟨before, last, rfl, hvacant⟩ := hplace
    · cases hfound
    · cases hvacant
      exact ⟨by rw [List.append_assoc], hreaches.above⟩

/-- What is named by the path stands at the location. -/
theorem StraightTo.eq_of_slot {directory : Location} {name : Text}
    (hslot : tree.slot current path = .ok (directory, name)) : directory ++ [name] = location := by
  obtain ⟨root, base, names, hroot, hne, hnames, hlinks, rfl, rfl⟩ := h
  exact (hroot.reaches_of_slot hne hnames hlinks hslot).2

/-- What is deleted by the path has stood at the location. -/
theorem StraightTo.delete_eq_ok {after : FileTree}
    (hdelete : tree.delete current path = .ok after) :
    after = tree.erase location ∧
      ∃ entry, tree.entryAt? location = some entry ∧ entry ≠ .directory := by
  obtain ⟨directory, name, entry, hslot, hentry, hne, -, -, rfl⟩ := delete_eq_ok_iff.1 hdelete
  rw [h.eq_of_slot hslot] at hentry ⊢
  exact ⟨rfl, entry, hentry, hne⟩

end StraightTo

/-! ## Making directories, as far as it gets -/

/-- In the directory of a root nothing is missing on the way to a name. -/
theorem RootAt.makeDirectory_ne_missing (h : RootAt tree current root base) {name : Text}
    (hname : Path.IsPlain name) :
    tree.makeDirectory current (root.below [name]) ≠ .error .missing := by
  have hnames : ∀ other ∈ [name], Path.IsPlain other := by simpa using hname
  have hslot : tree.slot current (root.below [name]) ≠ .error .missing := by
    rw [slot, Path.segments_below h.text_ne_nil (by simp) hnames, List.reverse_append,
      Path.start_below h.text_ne_nil (by simp) hnames]
    simp only [List.reverse_singleton, List.singleton_append, List.reverse_reverse,
      h.walkUpTo_segments]
    split
    · simp
    · split <;> simp
  intro hmissing
  rw [makeDirectory] at hmissing
  rcases hresult : tree.slot current (root.below [name]) with fault | ⟨directory, last⟩
  · rw [hresult] at hmissing hslot
    cases hmissing
    exact hslot rfl
  · rw [hresult] at hmissing
    simp only [bind, Except.bind] at hmissing
    split at hmissing
    · split at hmissing <;> cases hmissing
    · cases hmissing

/-- What comes of making directories down to a location: all of them are there, or it fails, and
those down to some location above are there. -/
def MadeDown (tree : FileTree) (base : Location) (names : List Text)
    (made : FileTree × Except Fault Unit) : Prop :=
  (made.2 = .ok () ∧
    ∀ location, made.1.entryAt? location = tree.withDirectories base (base ++ names) location) ∨
  (made.2 ≠ .ok () ∧ ∃ upper, upper <+: names ∧ upper ≠ names ∧
    ∀ location, made.1.entryAt? location = tree.withDirectories base (base ++ upper) location)

/-- Where nothing is made, the directory of the root is all that is certain to be there. -/
theorem RootAt.madeDown_of_error (h : RootAt tree current root base) (hne : names ≠ [])
    (fault : Fault) : MadeDown tree base names (tree, .error fault) := by
  refine .inr ⟨by simp, [], List.nil_prefix, hne.symm, fun location => ?_⟩
  rw [List.append_nil, withDirectories]
  split
  · next hbetween =>
    rw [hbetween.2.eq_of_length_le hbetween.1.length_le, h.directory]
  · rfl

/-- A directory that cannot be made may be there already. -/
theorem RootAt.madeDown_of_isDirectory (h : RootAt tree current root base) (hne : names ≠ [])
    (hnames : ∀ name ∈ names, Path.IsPlain name) (hlinks : Unlinked tree base (base ++ names))
    (fault : Fault) :
    MadeDown tree base names
      (tree, if tree.isDirectory current (root.below names) then .ok () else .error fault) := by
  by_cases hdirectory : tree.isDirectory current (root.below names) = true
  · rw [if_pos hdirectory]
    exact .inl ⟨rfl, h.entryAt?_of_isDirectory hne hnames hlinks hdirectory⟩
  · rw [if_neg hdirectory]
    exact h.madeDown_of_error hne fault

section WithDirectories

variable {target : Location}
  (hafter : ∀ location, tree'.entryAt? location = tree.withDirectories base target location)
include hafter

/-- Where there are no links on the way, directories take the place of nothing else than files. -/
theorem keepsWays_of_withDirectories (hlinks : Unlinked tree base target) :
    KeepsWays tree tree' := by
  intro location entry hentry hfile
  rw [hafter, withDirectories]
  split
  · next hbetween =>
    rcases entry with _ | ⟨content, runnable⟩ | link
    · rfl
    · cases hfile
    · exact absurd hentry (hlinks location link hbetween.1 hbetween.2)
  · exact hentry

/-- No links come with directories. -/
theorem Unlinked.of_withDirectories {target' : Location} (h : Unlinked tree base target') :
    Unlinked tree' base target' := by
  intro location link habove hbelow
  rw [hafter, withDirectories]
  split
  · simp
  · exact h location link habove hbelow

end WithDirectories

/-- Where the directories above the last name have been made, making the last one goes on from
them. -/
theorem MadeDown.of_before {before : List Text} {last : Text} {made : FileTree × Except Fault Unit}
    (hafter : ∀ location,
      tree'.entryAt? location = tree.withDirectories base (base ++ before) location)
    (h : MadeDown tree' base (before ++ [last]) made)
    (hsame : made.2 ≠ .ok () → made.1 = tree') : MadeDown tree base (before ++ [last]) made := by
  obtain ⟨hok, hmade⟩ | ⟨herror, -⟩ := h
  · refine .inl ⟨hok, fun location => ?_⟩
    rw [hmade]
    exact withDirectories_withDirectories
      ((List.prefix_append_right_inj base).2 (List.prefix_append _ _)) hafter location
  · refine .inr ⟨herror, before, List.prefix_append _ _, by simp, fun location => ?_⟩
    rw [hsame herror, hafter]

/-- Along the paths around names below a root, directories are made as far as it gets. -/
theorem RootAt.madeDown_makeDirectoriesAlong (fuel : Nat) (h : RootAt tree current root base)
    (hne : names ≠ []) (hnames : ∀ name ∈ names, Path.IsPlain name)
    (hlinks : Unlinked tree base (base ++ names)) :
    MadeDown tree base names
      (tree.makeDirectoriesAlong current (Path.ancestorsUpTo fuel (root.below names))) := by
  -- The paths around names come from the names before the last one, so these vary with the fuel.
  induction fuel generalizing names with
  | zero =>
    rw [Path.ancestorsUpTo, makeDirectoriesAlong, if_neg (Path.text_below_ne_nil hne hnames)]
    split
    · next hmake => exact .inl ⟨rfl, h.entryAt?_of_makeDirectory hne hnames hlinks hmake⟩
    · exact h.madeDown_of_error hne _
    · exact h.madeDown_of_isDirectory hne hnames hlinks _
  | succ fuel ih =>
    obtain ⟨above, habove⟩ := Path.exists_ancestorsUpTo_eq (fuel + 1) (root.below names)
    rw [habove, makeDirectoriesAlong, if_neg (Path.text_below_ne_nil hne hnames)]
    split
    · next hmake => exact .inl ⟨rfl, h.entryAt?_of_makeDirectory hne hnames hlinks hmake⟩
    · next hmissing =>
      obtain ⟨before, last, rfl⟩ := (List.eq_nil_or_concat' names).resolve_left hne
      have hbefore : before ≠ [] := by
        rintro rfl
        exact h.makeDirectory_ne_missing (hnames last (by simp)) hmissing
      have hwithin : base ++ before <+: base ++ (before ++ [last]) :=
        (List.prefix_append_right_inj base).2 (List.prefix_append _ _)
      obtain rfl : above = Path.ancestorsUpTo fuel (root.below before) := by
        rw [Path.ancestorsUpTo, Path.parent?_below h.text_ne_nil hbefore hnames] at habove
        exact (List.cons.inj habove).2.symm
      have hmade := ih hbefore (fun name hname => hnames name (by simp [hname]))
        (hlinks.mono hwithin)
      split
      · exact h.madeDown_of_error hne _
      · split
        · next changed fault hresult =>
          -- The directories above could not be made, so neither could the last one.
          rw [hresult] at hmade
          obtain ⟨hok, -⟩ | ⟨-, upper, hupper, -, hchanged⟩ := hmade
          · cases hok
          · refine .inr ⟨by simp, upper, hupper.trans (List.prefix_append _ _), ?_, hchanged⟩
            rintro rfl
            have hlength := hupper.length_le
            rw [List.length_append, List.length_singleton] at hlength
            omega
        · next changed hresult =>
          rw [hresult] at hmade
          obtain ⟨-, hchanged⟩ | ⟨herror, -⟩ := hmade
          · have hroot : RootAt changed current root base :=
              h.of_keepsWays (keepsWays_of_withDirectories hchanged (hlinks.mono hwithin))
            have hunlinked := hlinks.of_withDirectories hchanged
            refine MadeDown.of_before hchanged ?_ ?_
            · split
              · next last hmake =>
                exact .inl ⟨rfl, hroot.entryAt?_of_makeDirectory hne hnames hunlinked hmake⟩
              · exact hroot.madeDown_of_isDirectory hne hnames hunlinked _
            · split
              · exact fun hne => absurd rfl hne
              · exact fun _ => rfl
          · exact absurd rfl herror
    · exact h.madeDown_of_isDirectory hne hnames hlinks _

end FileTree

end EngineUpkeep
