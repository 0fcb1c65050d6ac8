import EngineUpkeep.Proofs.FileTree.Change
import EngineUpkeep.Proofs.Path.Below

/-!
# Entries below a root

Where no links are below a root, a path of names below it leads to where the names are below the
location of the root. So a file that is read there stands there (`RootAt.entryAt?_of_readFile`), a
path there names the entry there (`RootAt.exists_slot_below`), and making directories there makes
those that are missing on the way (`RootAt.makeDirectories_below`).
-/

namespace EngineUpkeep

namespace FileTree

variable {tree tree' : FileTree} {current : Location} {root : Path} {base here : Location}
  {names : List Text} {last : Text} {jump : Location → List Text → Except Fault Place}

/-! ## Walks through names -/

/-- From one location on the way down to another there is only one way on. -/
theorem eq_or_prefix_of_between {location : Location} {name : Text} (habove : here <+: location)
    (hbelow : location <+: here ++ name :: names) :
    location = here ∨ here ++ [name] <+: location := by
  obtain ⟨more, rfl⟩ := habove
  rw [List.prefix_append_right_inj] at hbelow
  rcases more with _ | ⟨first, more⟩
  · exact .inl (List.append_nil here)
  · obtain rfl : first = name := (List.cons_prefix_cons.1 hbelow).1
    exact .inr ⟨more, by simp⟩

/-- Names of directories are walked through. -/
theorem walkWith_directories (hnames : ∀ name ∈ names, isName name = true)
    (hdirectories : ∀ location, here <+: location → location <+: here ++ names →
      tree.entryAt? location = some .directory) (rest : List Text) :
    walkWith tree jump here (names ++ rest) = walkWith tree jump (here ++ names) rest := by
  refine walkWith_append names here hnames fun depth _ => hdirectories _ (List.prefix_append _ _) ?_
  exact (List.prefix_append_right_inj here).2 (List.take_prefix depth names)

/-- A walk through names ends early at the first directory that is missing. -/
theorem walkWith_missing (hnames : ∀ name ∈ names, isName name = true)
    (hhere : tree.entryAt? here = some .directory)
    (hvacant : ∀ location, here <+: location → location <+: here ++ names →
      tree.entryAt? location = none ∨ tree.entryAt? location = some .directory)
    (hmissing : ∃ location, here <+: location ∧ location <+: here ++ names ∧
      tree.entryAt? location = none) :
    walkWith tree jump here names = .error .missing ∨
      ∃ directory name, walkWith tree jump here names = .ok (.vacant directory name) := by
  induction names generalizing here with
  | nil =>
    obtain ⟨location, habove, hbelow, hnone⟩ := hmissing
    rw [List.append_nil] at hbelow
    cases hhere.symm.trans ((congrArg _ (habove.eq_of_length_le hbelow.length_le)).trans hnone)
  | cons name names ih =>
    have hname := hnames name (by simp)
    have hwithin : here ++ [name] <+: here ++ name :: names := ⟨names, by simp⟩
    rcases hvacant (here ++ [name]) (List.prefix_append _ _) hwithin with hentry | hentry
    · rw [walkWith_none hname hentry]
      split
      · exact .inr ⟨here, name, rfl⟩
      · exact .inl rfl
    · rw [walkWith_directory hname hentry]
      refine ih (fun other hother => hnames other (by simp [hother])) hentry ?_ ?_
      · intro location habove hbelow
        exact hvacant location ((List.prefix_append _ _).trans habove) (by simpa using hbelow)
      · obtain ⟨location, habove, hbelow, hnone⟩ := hmissing
        refine ⟨location, ?_, by simpa using hbelow, hnone⟩
        obtain rfl | h := eq_or_prefix_of_between habove hbelow
        · cases hhere.symm.trans hnone
        · exact h

/-- There are no links on the way from one location down to another. -/
def Unlinked (tree : FileTree) (base target : Location) : Prop :=
  ∀ location link, base <+: location → location <+: target →
    tree.entryAt? location ≠ some (.link link)

/-- Where there are no links, a walk through names that gets somewhere leads straight down to the
last name, or to the vacant place that it would have. -/
theorem straight_of_walkWith {place : Place} (hnames : ∀ name ∈ names, Path.IsPlain name)
    (hhere : tree.entryAt? here = some .directory) (hlinks : Unlinked tree here (here ++ names))
    (hwalk : walkWith tree jump here names = .ok place) :
    (∀ name ∈ names, isName name = true) ∧
      (∀ other, here <+: other → other <+: here ++ names → other ≠ here ++ names →
        tree.entryAt? other = some .directory) ∧
      (place = .found (here ++ names) ∨ ∃ before last, names = before ++ [last] ∧
        place = .vacant (here ++ before) last) := by
  induction names generalizing here with
  | nil =>
    cases hwalk
    refine ⟨by simp, fun other habove hbelow hne => ?_, .inl (by simp)⟩
    rw [List.append_nil] at hbelow hne
    exact absurd (hbelow.eq_of_length_le habove.length_le) hne
  | cons name names ih =>
    have hplain := hnames name (by simp)
    have hwithin : here ++ [name] <+: here ++ name :: names := ⟨names, by simp⟩
    -- A walk that ends at its first name has passed no location but the one it started from.
    have hends : names = [] → ∀ other, here <+: other → other <+: here ++ name :: names →
        other ≠ here ++ name :: names → tree.entryAt? other = some .directory := by
      rintro rfl other habove hbelow hne
      obtain rfl | h := eq_or_prefix_of_between habove hbelow
      · exact hhere
      · exact absurd (hbelow.eq_of_length_le h.length_le) hne
    obtain rfl | rfl | hname | ⟨hdot, hup, hname⟩ := piece_cases name
    · exact absurd rfl hplain.ne_here
    · exact absurd rfl hplain.ne_up
    · rcases hentry : tree.entryAt? (here ++ [name]) with _ | (_ | ⟨content, runnable⟩ | target)
      · rw [walkWith_none hname hentry] at hwalk
        split at hwalk
        · next hrest =>
          cases hwalk
          refine ⟨by simp [hrest, hname], hends hrest, .inr ⟨[], name, by simp [hrest], by simp⟩⟩
        · cases hwalk
      · rw [walkWith_directory hname hentry] at hwalk
        obtain ⟨hareNames, hdirectories, hplace⟩ := ih
          (fun other hother => hnames other (by simp [hother])) hentry
          (fun other link habove hbelow => hlinks other link
            ((List.prefix_append _ _).trans habove) (by simpa using hbelow)) hwalk
        refine ⟨by simpa using ⟨hname, hareNames⟩, fun other habove hbelow hne => ?_, ?_⟩
        · obtain rfl | h := eq_or_prefix_of_between habove hbelow
          · exact hhere
          · exact hdirectories other h (by simpa using hbelow) (by simpa using hne)
        · obtain rfl | ⟨before, last, rfl, rfl⟩ := hplace
          · exact .inl (by simp)
          · exact .inr ⟨name :: before, last, by simp, by simp⟩
      · rw [walkWith_file hname hentry] at hwalk
        split at hwalk
        · next hrest =>
          cases hwalk
          exact ⟨by simp [hrest, hname], hends hrest, .inl (by simp [hrest])⟩
        · cases hwalk
      · exact absurd hentry (hlinks _ _ (List.prefix_append _ _) hwithin)
    · rw [walkWith_refused hdot hup hname] at hwalk
      cases hwalk

/-- Where there are no links, a walk through names that arrives has come straight down to the last
name. -/
theorem found_of_walkWith {location : Location} (hnames : ∀ name ∈ names, Path.IsPlain name)
    (hhere : tree.entryAt? here = some .directory) (hlinks : Unlinked tree here (here ++ names))
    (hwalk : walkWith tree jump here names = .ok (.found location)) :
    location = here ++ names ∧ (∀ name ∈ names, isName name = true) ∧
      ∀ other, here <+: other → other <+: here ++ names → other ≠ here ++ names →
        tree.entryAt? other = some .directory := by
  obtain ⟨hareNames, hdirectories, hplace⟩ := straight_of_walkWith hnames hhere hlinks hwalk
  obtain hfound | ⟨_, _, _, hvacant⟩ := hplace
  · cases hfound
    exact ⟨rfl, hareNames, hdirectories⟩
  · cases hvacant

/-! ## Roots -/

/-- The path of a root leads to a directory. -/
structure RootAt (tree : FileTree) (current : Location) (root : Path) (base : Location) :
    Prop where
  /-- The path leads here. -/
  find_eq : tree.find current root = .ok base
  /-- A directory is here. -/
  directory : tree.entryAt? base = some .directory

/-- A root stays where it is while directories and links stay. -/
theorem RootAt.of_keepsWays (h : RootAt tree current root base) (hkeeps : KeepsWays tree tree') :
    RootAt tree' current root base := by
  refine ⟨hkeeps.find_eq (fun content runnable hentry => ?_) h.find_eq,
    hkeeps base _ h.directory rfl⟩
  cases h.directory.symm.trans hentry

theorem RootAt.text_ne_nil (h : RootAt tree current root base) : root.text ≠ [] :=
  (walk_eq_ok_iff.1 (find_eq_ok_iff.1 h.find_eq)).2.1

/-- The walk through the segments of a root leads to it. -/
theorem RootAt.walkUpTo_segments (h : RootAt tree current root base) :
    walkUpTo tree linkLimit (root.start current) root.segments = .ok (.found base) := by
  obtain ⟨-, -, hwalk⟩ := walk_eq_ok_iff.1 (find_eq_ok_iff.1 h.find_eq)
  rw [Path.steps] at hwalk
  split at hwalk
  · obtain ⟨fewer, there, -, hsegments, hlast⟩ := walkUpTo_of_append (by simp) hwalk
    obtain ⟨jump, hjump⟩ := exists_walkUpTo_eq tree fewer
    have hdot := (hjump there [['.']]).symm.trans hlast
    rw [walkWith_dot] at hdot
    cases hdot
    exact hsegments
  · exact hwalk

/-- A root is where the walk through its segments leads, if this is a directory. -/
theorem rootAt_of_walkUpTo (husable : root.isUsable = true) (htext : root.text ≠ [])
    (hdirectory : tree.entryAt? base = some .directory)
    (hwalk : walkUpTo tree linkLimit (root.start current) root.segments = .ok (.found base)) :
    RootAt tree current root base := by
  refine ⟨find_eq_ok_iff.2 (walk_eq_ok_iff.2 ⟨husable, htext, ?_⟩), hdirectory⟩
  rw [Path.steps]
  split
  · obtain ⟨fewer, hfewer⟩ := walkUpTo_append hwalk hdirectory
    obtain ⟨jump, hjump⟩ := exists_walkUpTo_eq tree fewer
    rw [hfewer, hjump, walkWith_dot]
    rfl
  · exact hwalk

/-- A walk below a root goes on from the root. -/
theorem RootAt.exists_walkUpTo_append (h : RootAt tree current root base) :
    ∃ jump, ∀ rest, walkUpTo tree linkLimit (root.start current) (root.segments ++ rest) =
      walkWith tree jump base rest := by
  obtain ⟨fewer, hfewer⟩ := walkUpTo_append h.walkUpTo_segments h.directory
  obtain ⟨jump, hjump⟩ := exists_walkUpTo_eq tree fewer
  exact ⟨jump, fun rest => (hfewer rest).trans (hjump base rest)⟩

theorem RootAt.walk_below (h : RootAt tree current root base) (hne : names ≠ [])
    (hnames : ∀ name ∈ names, Path.IsPlain name) :
    ∃ jump, ∀ place, tree.walk current (root.below names) = .ok place ↔
      (root.below names).isUsable = true ∧ walkWith tree jump base names = .ok place := by
  obtain ⟨jump, hjump⟩ := h.exists_walkUpTo_append
  refine ⟨jump, fun place => ?_⟩
  have hsteps : (root.below names).steps = root.segments ++ names := by
    rw [Path.steps, Path.hasSlashEnd_below hne hnames, Path.segments_below h.text_ne_nil hne hnames]
    rfl
  rw [walk_eq_ok_iff, Path.start_below h.text_ne_nil hne hnames, hsteps, hjump]
  simp [Path.text_below_ne_nil hne hnames]

/-- The walk to the directory that holds a name decides what a path names. -/
theorem RootAt.exists_slot_below (h : RootAt tree current root base)
    (hnames : ∀ name ∈ names ++ [last], Path.IsPlain name)
    (husable : (root.below (names ++ [last])).isUsable = true) :
    ∃ jump, (∀ directory name,
        tree.slot current (root.below (names ++ [last])) = .ok (directory, name) ↔
          walkWith tree jump base names = .ok (.found directory) ∧
            tree.entryAt? directory = some .directory ∧ isName last = true ∧ name = last) ∧
      ((walkWith tree jump base names = .error .missing ∨
          ∃ directory name, walkWith tree jump base names = .ok (.vacant directory name)) →
        tree.slot current (root.below (names ++ [last])) = .error .missing) := by
  obtain ⟨jump, hjump⟩ := h.exists_walkUpTo_append
  have hsegments : (root.below (names ++ [last])).segments = root.segments ++ names ++ [last] := by
    rw [Path.segments_below h.text_ne_nil (by simp) hnames, List.append_assoc]
  have hstart := Path.start_below h.text_ne_nil (by simp) hnames current
  refine ⟨jump, fun directory name => ?_, fun hwalk => ?_⟩
  · rw [slot_eq_ok_iff, hstart, ← hjump]
    constructor
    · rintro ⟨-, before, hbefore, hwalk, hdirectory, hname⟩
      obtain ⟨rfl, rfl⟩ := List.append_singleton_inj.1 (hsegments.symm.trans hbefore)
      exact ⟨hwalk, hdirectory, hname, rfl⟩
    · rintro ⟨hwalk, hdirectory, hname, rfl⟩
      exact ⟨husable, _, hsegments, hwalk, hdirectory, hname⟩
  · refine slot_eq_missing husable hsegments ?_
    rw [hstart, hjump]
    exact hwalk

/-- A file that is read below a root, where there are no links, stands below the root, in
directories all the way. -/
theorem RootAt.entryAt?_of_readFile (h : RootAt tree current root base) (hne : names ≠ [])
    (hnames : ∀ name ∈ names, Path.IsPlain name) (hlinks : Unlinked tree base (base ++ names))
    {content : Content} {runnable : Bool}
    (hread : tree.readFile current (root.below names) = .ok (content, runnable)) :
    tree.entryAt? (base ++ names) = some (.file content runnable) ∧
      (root.below names).isUsable = true ∧ (∀ name ∈ names, isName name = true) ∧
      ∀ location, base <+: location → location <+: base ++ names → location ≠ base ++ names →
        tree.entryAt? location = some .directory := by
  obtain ⟨location, hfind, hentry⟩ := readFile_eq_ok_iff.1 hread
  obtain ⟨jump, hwalk⟩ := h.walk_below hne hnames
  obtain ⟨husable, hfound⟩ := (hwalk _).1 (find_eq_ok_iff.1 hfind)
  obtain ⟨rfl, hnames, hdirectories⟩ := found_of_walkWith hnames h.directory hlinks hfound
  exact ⟨hentry, husable, hnames, hdirectories⟩

/-- Where a directory is missing, a path below it names nothing. -/
theorem RootAt.slot_below_missing (h : RootAt tree current root base)
    (hnames : ∀ name ∈ names ++ [last], isName name = true)
    (husable : (root.below (names ++ [last])).isUsable = true)
    (hvacant : ∀ location, base <+: location → location <+: base ++ names →
      tree.entryAt? location = none ∨ tree.entryAt? location = some .directory)
    (hmissing : ∃ location, base <+: location ∧ location <+: base ++ names ∧
      tree.entryAt? location = none) :
    tree.slot current (root.below (names ++ [last])) = .error .missing := by
  obtain ⟨jump, -, hslot⟩ :=
    h.exists_slot_below (fun name hname => Path.isPlain_of_isName (hnames name hname)) husable
  apply hslot
  exact walkWith_missing (fun name hname => hnames name (by simp [hname])) h.directory hvacant
    hmissing

/-- The locations above the last name are those down to the directory that holds it. -/
theorem prefix_above_iff (last : Text) {location : Location} :
    location <+: base ++ names ↔
      location <+: base ++ (names ++ [last]) ∧ location ≠ base ++ (names ++ [last]) := by
  rw [← List.append_assoc, List.prefix_concat_iff]
  constructor
  · intro hwithin
    refine ⟨.inr hwithin, ?_⟩
    rintro rfl
    have hlength := hwithin.length_le
    simp only [List.length_append, List.length_singleton] at hlength
    omega
  · exact fun ⟨hwithin, hother⟩ => hwithin.resolve_left hother

/-! ## Entries that paths name -/

/-- The path of names below a root names the entry, or the vacant place, below the location of the
root. -/
structure Reaches (tree : FileTree) (current : Location) (root : Path) (base : Location)
    (names : List Text) : Prop where
  /-- The root is there. -/
  rootAt : RootAt tree current root base
  /-- The path leads below the root. -/
  ne_nil : names ≠ []
  /-- Entries can have the names. -/
  areNames : ∀ name ∈ names, isName name = true
  /-- The path can be handed over. -/
  usable : (root.below names).isUsable = true
  /-- Directories are on the way. -/
  directories : ∀ location, base <+: location → location <+: base ++ names →
    location ≠ base ++ names → tree.entryAt? location = some .directory

theorem Reaches.of_keepsWays (h : Reaches tree current root base names)
    (hkeeps : KeepsWays tree tree') : Reaches tree' current root base names :=
  ⟨h.rootAt.of_keepsWays hkeeps, h.ne_nil, h.areNames, h.usable, fun location habove hbelow hne =>
    hkeeps location _ (h.directories location habove hbelow hne) rfl⟩

theorem Reaches.arePlain (h : Reaches tree current root base names) :
    ∀ name ∈ names, Path.IsPlain name :=
  fun name hname => Path.isPlain_of_isName (h.areNames name hname)

theorem Reaches.hasSlashEnd (h : Reaches tree current root base names) :
    (root.below names).hasSlashEnd = false :=
  Path.hasSlashEnd_below h.ne_nil h.arePlain

/-- The walk leads straight down to the directory that holds the last name. -/
theorem Reaches.walkWith_above {before : List Text}
    (h : Reaches tree current root base (before ++ [last])) (rest : List Text) :
    walkWith tree jump base (before ++ rest) = walkWith tree jump (base ++ before) rest := by
  apply walkWith_directories (fun name hname => h.areNames name (by simp [hname]))
  intro location habove hbelow
  obtain ⟨hwithin, hother⟩ := (prefix_above_iff last).1 hbelow
  exact h.directories location habove hwithin hother

theorem Reaches.slot (h : Reaches tree current root base names) :
    ∃ directory name, tree.slot current (root.below names) = .ok (directory, name) ∧
      directory ++ [name] = base ++ names ∧
      (tree.Free (base ++ names) ↔ tree.isSealed directory = false) := by
  obtain ⟨before, last, rfl⟩ := (List.eq_nil_or_concat' names).resolve_left h.ne_nil
  obtain ⟨jump, hslot, -⟩ := h.rootAt.exists_slot_below h.arePlain h.usable
  refine ⟨base ++ before, last, (hslot _ _).2 ⟨?_, ?_, h.areNames last (by simp), rfl⟩, by simp, ?_⟩
  · have hwalk : walkWith tree jump base (before ++ []) = .ok (.found (base ++ before)) :=
      h.walkWith_above []
    rwa [List.append_nil] at hwalk
  · obtain ⟨hwithin, hother⟩ := (prefix_above_iff last).1 (List.prefix_refl (base ++ before))
    exact h.directories _ (List.prefix_append _ _) hwithin hother
  · rw [Free, ← List.append_assoc, List.dropLast_concat]

/-- What the path reaches is in a directory. -/
theorem Reaches.above (h : Reaches tree current root base names) :
    tree.entryAt? (base ++ names).dropLast = some .directory := by
  obtain ⟨directory, name, hslot, hplace, -⟩ := h.slot
  obtain ⟨-, -, -, -, hdirectory, -⟩ := slot_eq_ok_iff.1 hslot
  rw [← hplace, List.dropLast_concat]
  exact hdirectory

/-- An entry that is no link is found where the path reaches. -/
theorem Reaches.find_eq (h : Reaches tree current root base names) {entry : Entry}
    (hentry : tree.entryAt? (base ++ names) = some entry) (hlink : ∀ target, entry ≠ .link target) :
    tree.find current (root.below names) = .ok (base ++ names) := by
  obtain ⟨before, last, rfl⟩ := (List.eq_nil_or_concat' names).resolve_left h.ne_nil
  obtain ⟨jump, hwalk⟩ := h.rootAt.walk_below h.ne_nil h.arePlain
  have hname : isName last = true := h.areNames last (by simp)
  have hfound : walkWith tree jump base (before ++ [last]) =
      .ok (.found (base ++ (before ++ [last]))) := by
    rw [h.walkWith_above]
    rw [← List.append_assoc] at hentry ⊢
    rcases entry with _ | ⟨content, runnable⟩ | target
    · exact walkWith_directory hname hentry
    · exact walkWith_file hname hentry
    · exact absurd rfl (hlink target)
  exact find_eq_ok_iff.2 ((hwalk _).2 ⟨h.usable, hfound⟩)

theorem Reaches.entryOf_eq (h : Reaches tree current root base names) {entry : Entry}
    (hentry : tree.entryAt? (base ++ names) = some entry) (hlink : ∀ target, entry ≠ .link target) :
    tree.entryOf current (root.below names) = .ok entry :=
  entryOf_eq_ok_iff.2 ⟨_, h.find_eq hentry hlink, hentry⟩

/-- A file that a path reaches is deleted there, unless a seal keeps it. -/
theorem Reaches.delete_eq (h : Reaches tree current root base names) {content : Content}
    {runnable : Bool} (hentry : tree.entryAt? (base ++ names) = some (.file content runnable)) :
    tree.delete current (root.below names) =
      if tree.Free (base ++ names) then .ok (tree.erase (base ++ names)) else .error .refused := by
  obtain ⟨directory, name, hslot, hplace, hsealed⟩ := h.slot
  rw [delete, hslot]
  simp only [bind, Except.bind, hplace, hentry, h.hasSlashEnd, Bool.false_or, hsealed]
  cases tree.isSealed directory <;> rfl

section Moving

variable {root' : Path} {base' : Location} {names' : List Text} {content : Content}
  {runnable : Bool} (h : Reaches tree current root base names)
  (h' : Reaches tree current root' base' names')
  (hentry : tree.entryAt? (base ++ names) = some (.file content runnable))
  (hother : base ++ names ≠ base' ++ names')
include h h' hentry hother

/-- A file is renamed to what its new path reaches, if no directory is there and no seal keeps
either place. -/
theorem Reaches.rename (hplace : tree.entryAt? (base' ++ names') ≠ some .directory)
    (hfree : tree.Free (base ++ names)) (hfree' : tree.Free (base' ++ names')) :
    tree.rename current (root.below names) (root'.below names') =
      .ok ((tree.erase (base ++ names)).put (base' ++ names') (.file content runnable)) := by
  obtain ⟨directory, name, hslot, hold, hsealed⟩ := h.slot
  obtain ⟨directory', name', hslot', hnew, hsealed'⟩ := h'.slot
  have hrename := rename_eq hslot hslot' (hold ▸ hentry) (by simp) h.hasSlashEnd h'.hasSlashEnd
    (hnew ▸ hplace) (hsealed.1 hfree) (hsealed'.1 hfree')
  rwa [hold, hnew, if_neg hother] at hrename

/-- A file is not renamed to a place that a seal keeps. -/
theorem Reaches.rename_of_not_free (hfree' : ¬ tree.Free (base' ++ names')) :
    ∃ fault, tree.rename current (root.below names) (root'.below names') = .error fault := by
  obtain ⟨directory, name, hslot, hold, -⟩ := h.slot
  obtain ⟨directory', name', hslot', hnew, hsealed'⟩ := h'.slot
  have hsealed : tree.isSealed directory' = true := by
    rwa [hsealed', Bool.not_eq_false] at hfree'
  refine ⟨.refused, ?_⟩
  rw [FileTree.rename, hslot, hslot']
  simp only [bind, Except.bind, hold, hnew, hentry, if_neg hother, isHeld, hsealed, Bool.or_true,
    Bool.true_or, if_true, ite_self]

/-- A file is copied over another one. -/
theorem Reaches.copy {old : Content} {runnable' : Bool}
    (hplace : tree.entryAt? (base' ++ names') = some (.file old runnable')) :
    tree.copy current (root.below names) (root'.below names') =
      .ok (tree.put (base' ++ names') (.file content runnable)) := by
  have hfind := h.find_eq hentry (by simp)
  have hwrite := write_file (h'.find_eq hplace (by simp)) hplace h'.hasSlashEnd
  rw [FileTree.copy, bind_eq_ok_iff]
  refine ⟨_, readFile_eq_ok_iff.2 ⟨_, hfind, hentry⟩, bind_eq_ok_iff.2 ⟨_, hwrite _ _, ?_⟩⟩
  exact bind_eq_ok_iff.2 ⟨_, readFile_put_file (.inr ⟨old, runnable', hplace⟩) hother hfind hentry,
    hwrite _ _⟩

/-- A file moves to where its new path reaches, if no directory is there and no seal keeps the file.
A seal that keeps the new place makes no difference where a file is, since it is written over
then. -/
theorem Reaches.moveEntry (hplace : tree.entryAt? (base' ++ names') ≠ some .directory)
    (hfree : tree.Free (base ++ names))
    (hfree' : tree.Free (base' ++ names') ∨
      ∃ old runnable', tree.entryAt? (base' ++ names') = some (.file old runnable')) :
    ∃ after, tree.moveEntry current (root.below names) (root'.below names') = (after, .ok ()) ∧
      after.isSealed = tree.isSealed ∧
      ∀ location, after.entryAt? location =
        if location = base' ++ names' then some (.file content runnable)
        else if location = base ++ names then none else tree.entryAt? location := by
  have hnil : base ++ names ≠ [] := by simp [h.ne_nil]
  have hnil' : base' ++ names' ≠ [] := by simp [h'.ne_nil]
  by_cases htarget : tree.Free (base' ++ names')
  · refine ⟨(tree.erase (base ++ names)).put (base' ++ names') (.file content runnable), ?_, ?_,
      fun location => ?_⟩
    · rw [FileTree.moveEntry, h.rename h' hentry hother hplace hfree htarget]
    · rw [isSealed_put _ (by simp), isSealed_erase (by simp [hentry])]
      rwa [entryAt?_erase _ _ _ hnil, if_neg (Ne.symm hother)]
    · rw [entryAt?_put _ _ _ _ hnil', entryAt?_erase _ _ _ hnil]
  · -- Renaming is refused, so the file is copied over the one that is there.
    obtain ⟨fault, hrename⟩ := h.rename_of_not_free h' hentry hother htarget
    obtain ⟨old, runnable', hold⟩ := hfree'.resolve_left htarget
    have hvacant : tree.entryAt? (base' ++ names') = none ∨ ∃ content runnable,
        tree.entryAt? (base' ++ names') = some (.file content runnable) :=
      .inr ⟨old, runnable', hold⟩
    have hseals : (tree.put (base' ++ names') (.file content runnable)).isSealed = tree.isSealed :=
      isSealed_put hplace (by simp)
    have hthere : (tree.put (base' ++ names') (.file content runnable)).entryAt? (base ++ names) =
        some (.file content runnable) := by
      rw [entryAt?_put _ _ _ _ hnil', if_neg hother, hentry]
    have hdelete := (h.of_keepsWays (keepsWays_put_file hvacant)).delete_eq hthere
    rw [if_pos ((free_iff hseals).2 hfree)] at hdelete
    refine ⟨(tree.put (base' ++ names') (.file content runnable)).erase (base ++ names), ?_, ?_,
      fun location => ?_⟩
    · rw [FileTree.moveEntry, hrename, h.copy h' hentry hother hold]
      simp only [hdelete]
    · rw [isSealed_erase (by simp [hthere]), hseals]
    · rw [entryAt?_erase _ _ _ hnil, entryAt?_put _ _ _ _ hnil']
      by_cases hnew : location = base' ++ names'
      · rw [if_pos hnew, if_pos hnew, if_neg (hnew ▸ Ne.symm hother)]
      · rw [if_neg hnew, if_neg hnew]

end Moving

/-- A file that is read below a root is reached, where there are no links. -/
theorem RootAt.reaches_of_readFile (h : RootAt tree current root base) (hne : names ≠ [])
    (hnames : ∀ name ∈ names, Path.IsPlain name) (hlinks : Unlinked tree base (base ++ names))
    {content : Content} {runnable : Bool}
    (hread : tree.readFile current (root.below names) = .ok (content, runnable)) :
    Reaches tree current root base names ∧
      tree.entryAt? (base ++ names) = some (.file content runnable) := by
  obtain ⟨hentry, husable, hnames, hdirectories⟩ := h.entryAt?_of_readFile hne hnames hlinks hread
  exact ⟨⟨h, hne, hnames, husable, hdirectories⟩, hentry⟩

/-! ## Directories below a root -/

/-- What stands at a location once the directories from `base` down to `target` have been made. -/
def withDirectories (tree : FileTree) (base target location : Location) : Option Entry :=
  if base <+: location ∧ location <+: target then some .directory else tree.entryAt? location

/-- Where directories are made, nothing else is lost. -/
theorem extends_of_withDirectories {target : Location}
    (hvacant : ∀ location, base <+: location → location <+: target →
      tree.entryAt? location = none ∨ tree.entryAt? location = some .directory)
    (hafter : ∀ location, tree'.entryAt? location = tree.withDirectories base target location) :
    Extends tree tree' := by
  intro location entry hentry
  rw [hafter, withDirectories]
  split
  · next hbetween =>
    obtain hnone | hdirectory := hvacant location hbetween.1 hbetween.2
    · cases hnone.symm.trans hentry
    · exact hdirectory.symm.trans hentry
  · exact hentry

/-- Directories further down come on top of those that have been made. -/
theorem withDirectories_withDirectories {target target' : Location} (htarget : target <+: target')
    (hafter : ∀ location, tree'.entryAt? location = tree.withDirectories base target location)
    (location : Location) :
    tree'.withDirectories base target' location = tree.withDirectories base target' location := by
  rw [withDirectories, withDirectories]
  split
  · rfl
  · next hbetween =>
    rw [hafter, withDirectories, if_neg]
    exact fun hwithin => hbetween ⟨hwithin.1, hwithin.2.trans htarget⟩

/-- A directory that is made where a path reaches is the last of those down to there. -/
theorem Reaches.entryAt?_put_directory (h : Reaches tree current root base names)
    (location : Location) :
    (tree.put (base ++ names) .directory).entryAt? location =
      tree.withDirectories base (base ++ names) location := by
  have hwithin : base <+: base ++ names := List.prefix_append _ _
  rw [entryAt?_put _ _ _ _ (by simp [h.ne_nil]), withDirectories]
  by_cases hlast : location = base ++ names
  · rw [if_pos hlast, if_pos ⟨hlast ▸ hwithin, hlast ▸ List.prefix_refl _⟩]
  · rw [if_neg hlast]
    split
    · next hbetween => exact h.directories location hbetween.1 hbetween.2 hlast
    · rfl

/-- Where a path reaches a directory, there are directories all the way down. -/
theorem Reaches.withDirectories_eq (h : Reaches tree current root base names)
    (hentry : tree.entryAt? (base ++ names) = some .directory) (location : Location) :
    tree.entryAt? location = tree.withDirectories base (base ++ names) location := by
  rw [withDirectories]
  split
  · next hbetween =>
    by_cases hlast : location = base ++ names
    · rw [hlast, hentry]
    · exact h.directories location hbetween.1 hbetween.2 hlast
  · rfl

/-- A directory stands at a location, or can be made there. -/
def TakesDirectory (tree : FileTree) (location : Location) : Prop :=
  tree.entryAt? location = some .directory ∨
    tree.entryAt? location = none ∧ tree.Free location

theorem TakesDirectory.vacant_or_directory {location : Location}
    (h : tree.TakesDirectory location) :
    tree.entryAt? location = none ∨ tree.entryAt? location = some .directory :=
  h.symm.imp_left And.left

theorem TakesDirectory.of_eq {location : Location} (h : tree.TakesDirectory location)
    (hentry : tree'.entryAt? location = tree.entryAt? location)
    (hseals : tree'.isSealed = tree.isSealed) : tree'.TakesDirectory location := by
  rwa [TakesDirectory, hentry, free_iff hseals]

section Reached

variable (h : Reaches tree current root base names) (hplace : tree.TakesDirectory (base ++ names))
include h hplace

/-- A directory is made where a path reaches, or it is there already. -/
theorem Reaches.provides :
    ∃ after, Provides tree current (root.below names) after ∧
      ∀ location, after.entryAt? location = tree.withDirectories base (base ++ names) location := by
  obtain ⟨directory, name, hslot, heq, hsealed⟩ := h.slot
  obtain hentry | ⟨hnone, hfree⟩ := hplace
  · have hrefused := makeDirectory_of_taken hslot (heq ▸ hentry)
    refine ⟨tree, .inr ⟨rfl, hrefused, ?_⟩, h.withDirectories_eq hentry⟩
    rw [isDirectory, h.entryOf_eq hentry (by simp)]
  · refine ⟨(tree.put (base ++ names) .directory).withoutSeal (base ++ names), .inl ?_,
      h.entryAt?_put_directory⟩
    exact makeDirectory_eq_ok_iff.2
      ⟨directory, name, hslot, heq ▸ hnone, hsealed.1 hfree, by rw [heq]⟩

/-- Where a path reaches, no other path has to be looked at to make a directory. -/
theorem Reaches.makeDirectoriesAlong (fuel : Nat) :
    ∃ after, tree.makeDirectoriesAlong current (Path.ancestorsUpTo fuel (root.below names)) =
        (after, .ok ()) ∧
      ∀ location, after.entryAt? location = tree.withDirectories base (base ++ names) location := by
  obtain ⟨after, hprovides, hafter⟩ := h.provides hplace
  obtain ⟨above, habove⟩ := Path.exists_ancestorsUpTo_eq fuel (root.below names)
  refine ⟨after, ?_, hafter⟩
  rw [habove]
  exact hprovides.makeDirectoriesAlong (Path.text_below_ne_nil h.ne_nil h.arePlain) above

end Reached

/-- When the directories above the last name have been made, the path reaches the place of the last
name, where nothing has changed. -/
theorem RootAt.reaches_of_withDirectories (h : RootAt tree' current root base)
    (hnames : ∀ name ∈ names ++ [last], isName name = true)
    (husable : (root.below (names ++ [last])).isUsable = true)
    (hafter : ∀ location,
      tree'.entryAt? location = tree.withDirectories base (base ++ names) location) :
    Reaches tree' current root base (names ++ [last]) ∧
      tree'.entryAt? (base ++ (names ++ [last])) = tree.entryAt? (base ++ (names ++ [last])) := by
  constructor
  · refine ⟨h, by simp, hnames, husable, fun location habove hbelow hother => ?_⟩
    rw [hafter, withDirectories, if_pos]
    exact ⟨habove, (prefix_above_iff last).2 ⟨hbelow, hother⟩⟩
  · rw [hafter, withDirectories, if_neg]
    intro hbetween
    exact ((prefix_above_iff last).1 hbetween.2).2 rfl

/-- Where nothing but directories is on the way, a path reaches its place or a directory on the way
is missing. The root is there, so then the missing one has a name. -/
theorem RootAt.reaches_or_missing (h : RootAt tree current root base)
    (hnames : ∀ name ∈ names ++ [last], isName name = true)
    (husable : (root.below (names ++ [last])).isUsable = true)
    (hvacant : ∀ location, base <+: location → location <+: base ++ names →
      tree.entryAt? location = none ∨ tree.entryAt? location = some .directory) :
    Reaches tree current root base (names ++ [last]) ∨
      names ≠ [] ∧ tree.makeDirectory current (root.below (names ++ [last])) = .error .missing := by
  by_cases hdirectories : ∀ location, base <+: location → location <+: base ++ names →
      tree.entryAt? location = some .directory
  · exact .inl ⟨h, by simp, hnames, husable, fun location habove hbelow hother =>
      hdirectories location habove ((prefix_above_iff last).2 ⟨hbelow, hother⟩)⟩
  simp only [Classical.not_forall] at hdirectories
  obtain ⟨location, habove, hbelow, hentry⟩ := hdirectories
  have hnone := (hvacant location habove hbelow).resolve_right hentry
  refine .inr ⟨?_, ?_⟩
  · rintro rfl
    rw [List.append_nil] at hbelow
    rw [hbelow.eq_of_length_le habove.length_le, h.directory] at hnone
    cases hnone
  · have hmissing : ∃ location, base <+: location ∧ location <+: base ++ names ∧
        tree.entryAt? location = none := ⟨location, habove, hbelow, hnone⟩
    rw [makeDirectory, h.slot_below_missing hnames husable hvacant hmissing]
    rfl

/-- Along the paths around names below a root, the directories that are missing are made. -/
theorem RootAt.makeDirectoriesAlong_below (fuel : Nat) (hlength : names.length ≤ fuel + 1)
    (h : RootAt tree current root base) (hne : names ≠ [])
    (hnames : ∀ name ∈ names, isName name = true) (husable : (root.below names).isUsable = true)
    (hways : ∀ location, base <+: location → location <+: base ++ names →
      tree.TakesDirectory location) :
    ∃ after, tree.makeDirectoriesAlong current (Path.ancestorsUpTo fuel (root.below names)) =
        (after, .ok ()) ∧
      ∀ location, after.entryAt? location = tree.withDirectories base (base ++ names) location := by
  -- The paths around names come from the names before the last one, so these vary with the fuel.
  induction fuel generalizing names with
  | zero =>
    obtain ⟨names, last, rfl⟩ := (List.eq_nil_or_concat' names).resolve_left hne
    obtain rfl : names = [] := by simpa using hlength
    have htarget := hways _ (List.prefix_append _ _) (List.prefix_refl _)
    obtain hreaches | ⟨hnil, -⟩ := h.reaches_or_missing hnames husable fun location habove hbelow =>
      (hways location habove (hbelow.trans (by simp))).vacant_or_directory
    · exact hreaches.makeDirectoriesAlong htarget 0
    · exact absurd rfl hnil
  | succ fuel ih =>
    obtain ⟨names, last, rfl⟩ := (List.eq_nil_or_concat' names).resolve_left hne
    have htarget := hways _ (List.prefix_append _ _) (List.prefix_refl _)
    have hlast : base ++ names <+: base ++ (names ++ [last]) := ⟨[last], by simp⟩
    have hwaysNames : ∀ location, base <+: location → location <+: base ++ names →
        tree.TakesDirectory location :=
      fun location habove hbelow => hways location habove (hbelow.trans hlast)
    have hvacantNames := fun location habove hbelow =>
      (hwaysNames location habove hbelow).vacant_or_directory
    obtain hreaches | ⟨hneNames, hmissing⟩ := h.reaches_or_missing hnames husable hvacantNames
    · exact hreaches.makeDirectoriesAlong htarget (fuel + 1)
    have hplain : ∀ name ∈ names ++ [last], Path.IsPlain name :=
      fun name hname => Path.isPlain_of_isName (hnames name hname)
    -- First the directories above the last one are made, then the last one in them.
    obtain ⟨changed, hchanged, hentries⟩ := ih (by simpa using hlength) hneNames
      (fun name hname => hnames name (List.mem_append_left [last] hname))
      (Path.isUsable_below hneNames hplain husable) hwaysNames
    have hseals := isSealed_makeDirectoriesAlong tree current
      (Path.ancestorsUpTo fuel (root.below names))
    rw [hchanged] at hseals
    have hroot := h.of_keepsWays (extends_of_withDirectories hvacantNames hentries).keepsWays
    obtain ⟨hreaches, hsame⟩ := hroot.reaches_of_withDirectories hnames husable hentries
    obtain ⟨after, hprovides, hafter⟩ := hreaches.provides (htarget.of_eq hsame hseals)
    refine ⟨after, ?_, fun other => ?_⟩
    · rw [Path.ancestorsUpTo, Path.parent?_below h.text_ne_nil hneNames hplain]
      obtain ⟨above, hcons⟩ := Path.exists_ancestorsUpTo_eq fuel (root.below names)
      exact hprovides.makeDirectoriesAlong_of_missing (Path.text_below_ne_nil hne hplain)
        hmissing (by simp [hcons]) hchanged
    · rw [hafter, withDirectories_withDirectories hlast hentries]

/-- Names below a root become directories, where nothing but directories is on the way and no seal
keeps those that are missing from being made. -/
theorem RootAt.makeDirectories_below (h : RootAt tree current root base) (hne : names ≠ [])
    (hnames : ∀ name ∈ names, isName name = true) (husable : (root.below names).isUsable = true)
    (hways : ∀ location, base <+: location → location <+: base ++ names →
      tree.TakesDirectory location) :
    ∃ after, tree.makeDirectories current (root.below names) = (after, .ok ()) ∧
      ∀ location, after.entryAt? location =
        tree.withDirectories base (base ++ names) location := by
  have hlength := Path.length_le_components h.text_ne_nil hne
    fun name hname => Path.isPlain_of_isName (hnames name hname)
  exact h.makeDirectoriesAlong_below _ (Nat.le_succ_of_le hlength) hne hnames husable hways

end FileTree

end EngineUpkeep
