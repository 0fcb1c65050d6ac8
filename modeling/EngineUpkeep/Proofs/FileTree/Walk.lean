import EngineUpkeep.FileTree.Operations

/-!
# What walks depend on

A walk looks at directories, links and at what kind of entry it ends at, and never into a file. So
trees of the same shape have the same walks (`SameShape.walk_eq`), and a walk that arrives in one
tree arrives in every tree that keeps its directories, its links and the kind of the last entry
(`KeepsWays.walkUpTo_eq`). A tree that loses directories and links leads nowhere else: what a walk
to a directory still finds there is that directory (`LosesWays.walkUpTo_eq`).

A walk through more pieces goes on from where the walk through the first of them has ended, if that
is not a file (`walkUpTo_append`). In a tree in which every entry stands in a directory, it goes on
from a directory.
-/

namespace EngineUpkeep

/-- The entry without what a file holds. -/
def Entry.shape : Entry → Entry
  | .file _ _ => .file (.text []) false
  | entry => entry

/-- The entry is a regular file. -/
def Entry.isFile : Entry → Bool
  | .file _ _ => true
  | _ => false

namespace FileTree

variable {tree tree' : FileTree} {current : Location}

/-- Whatever is no directory is not the root of the file tree. -/
theorem ne_nil_of_entryAt?_ne (tree : FileTree) {location : Location}
    (h : tree.entryAt? location ≠ some .directory) : location ≠ [] := by
  rintro rfl
  exact h (entryAt?_nil tree)

/-! ## One step of a walk -/

section Step

variable {jump : Location → List Text → Except Fault Place} {here : Location} {piece : Text}
  {rest : List Text}

/-- A piece is a dot, two dots, a name or refused. -/
theorem piece_cases (piece : Text) :
    piece = ['.'] ∨ piece = ['.', '.'] ∨ isName piece = true ∨
      (piece ≠ ['.'] ∧ piece ≠ ['.', '.'] ∧ isName piece = false) := by
  by_cases hdot : piece = ['.']
  · exact .inl hdot
  by_cases hup : piece = ['.', '.']
  · exact .inr (.inl hup)
  cases hname : isName piece with
  | true => exact .inr (.inr (.inl rfl))
  | false => exact .inr (.inr (.inr ⟨hdot, hup, rfl⟩))

theorem walkWith_dot : walkWith tree jump here (['.'] :: rest) = walkWith tree jump here rest := by
  rw [walkWith, if_pos rfl]

theorem walkWith_up :
    walkWith tree jump here (['.', '.'] :: rest) = walkWith tree jump here.dropLast rest := by
  rw [walkWith, if_neg (by decide), if_pos rfl]

theorem walkWith_refused (hdot : piece ≠ ['.']) (hup : piece ≠ ['.', '.'])
    (hname : isName piece = false) :
    walkWith tree jump here (piece :: rest) = .error .refused := by
  rw [walkWith, if_neg hdot, if_neg hup, hname]
  rfl

/-- A name is neither a dot nor two dots. -/
theorem ne_dots_of_isName (hname : isName piece = true) : piece ≠ ['.'] ∧ piece ≠ ['.', '.'] := by
  constructor
  all_goals
    rintro rfl
    simp [isName] at hname

/-- A name that a directory does not have ends the walk. -/
theorem walkWith_none (hname : isName piece = true)
    (hentry : tree.entryAt? (here ++ [piece]) = none) :
    walkWith tree jump here (piece :: rest) =
      if rest = [] then .ok (.vacant here piece) else .error .missing := by
  obtain ⟨hdot, hup⟩ := ne_dots_of_isName hname
  rw [walkWith, if_neg hdot, if_neg hup, hname, hentry]
  rfl

theorem walkWith_directory (hname : isName piece = true)
    (hentry : tree.entryAt? (here ++ [piece]) = some .directory) :
    walkWith tree jump here (piece :: rest) = walkWith tree jump (here ++ [piece]) rest := by
  obtain ⟨hdot, hup⟩ := ne_dots_of_isName hname
  rw [walkWith, if_neg hdot, if_neg hup, hname, hentry]
  rfl

theorem walkWith_file {content : Content} {runnable : Bool} (hname : isName piece = true)
    (hentry : tree.entryAt? (here ++ [piece]) = some (.file content runnable)) :
    walkWith tree jump here (piece :: rest) =
      if rest = [] then .ok (.found (here ++ [piece])) else .error .refused := by
  obtain ⟨hdot, hup⟩ := ne_dots_of_isName hname
  rw [walkWith, if_neg hdot, if_neg hup, hname, hentry]
  rfl

theorem walkWith_link {target : Path} (hname : isName piece = true)
    (hentry : tree.entryAt? (here ++ [piece]) = some (.link target)) :
    walkWith tree jump here (piece :: rest) =
      if target.text = [] then .error .missing
      else jump (target.start here) (target.steps ++ rest) := by
  obtain ⟨hdot, hup⟩ := ne_dots_of_isName hname
  rw [walkWith, if_neg hdot, if_neg hup, hname, hentry]
  rfl

/-- A walk with few links is one with some way to carry on after a link. -/
theorem exists_walkUpTo_eq (tree : FileTree) (links : Nat) :
    ∃ jump, ∀ here pieces, walkUpTo tree links here pieces = walkWith tree jump here pieces := by
  cases links with
  | zero => exact ⟨_, fun _ _ => rfl⟩
  | succ links => exact ⟨_, fun _ _ => rfl⟩

/-- Where a walk ends at a vacant place there is no entry. -/
private theorem entryAt?_of_walkWith {directory : Location} {name : Text}
    (hjump : ∀ here pieces, jump here pieces = .ok (.vacant directory name) →
      tree.entryAt? (directory ++ [name]) = none) {pieces : List Text}
    (hwalk : walkWith tree jump here pieces = .ok (.vacant directory name)) :
    tree.entryAt? (directory ++ [name]) = none := by
  induction pieces generalizing here with
  | nil => cases hwalk
  | cons piece rest ih =>
    obtain rfl | rfl | hname | ⟨hdot, hup, hname⟩ := piece_cases piece
    · rw [walkWith_dot] at hwalk
      exact ih hwalk
    · rw [walkWith_up] at hwalk
      exact ih hwalk
    · rcases htree : tree.entryAt? (here ++ [piece]) with _ | (_ | ⟨content, runnable⟩ | target)
      · rw [walkWith_none hname htree] at hwalk
        split at hwalk <;> cases hwalk
        exact htree
      · rw [walkWith_directory hname htree] at hwalk
        exact ih hwalk
      · rw [walkWith_file hname htree] at hwalk
        split at hwalk <;> cases hwalk
      · rw [walkWith_link hname htree] at hwalk
        split at hwalk
        · cases hwalk
        · exact hjump _ _ hwalk
    · rw [walkWith_refused hdot hup hname] at hwalk
      cases hwalk

theorem entryAt?_of_walkUpTo {links : Nat} {pieces : List Text} {directory : Location} {name : Text}
    (hwalk : walkUpTo tree links here pieces = .ok (.vacant directory name)) :
    tree.entryAt? (directory ++ [name]) = none := by
  induction links generalizing here pieces with
  | zero => exact entryAt?_of_walkWith (fun _ _ hjump => by cases hjump) hwalk
  | succ links ih => exact entryAt?_of_walkWith (fun _ _ hjump => ih hjump) hwalk

end Step

/-! ## Trees of the same shape -/

/-- Two trees have the same entries, but for what files hold. -/
def SameShape (tree tree' : FileTree) : Prop :=
  ∀ location, (tree'.entryAt? location).map Entry.shape = (tree.entryAt? location).map Entry.shape

theorem SameShape.refl (tree : FileTree) : SameShape tree tree :=
  fun _ => rfl

theorem SameShape.trans {tree'' : FileTree} (h : SameShape tree tree')
    (h' : SameShape tree' tree'') : SameShape tree tree'' :=
  fun location => (h' location).trans (h location)

/-- What stands at a location of both trees is the same, unless it is a file. -/
theorem SameShape.eq_or_file (h : SameShape tree tree') (location : Location) :
    tree'.entryAt? location = tree.entryAt? location ∨
      ∃ old new runnable runnable', tree.entryAt? location = some (.file old runnable) ∧
        tree'.entryAt? location = some (.file new runnable') := by
  have hshape := h location
  rcases htree : tree.entryAt? location with _ | (_ | _ | _) <;>
    rcases htree' : tree'.entryAt? location with _ | (_ | _ | _) <;>
      rw [htree, htree'] at hshape <;> simp [Entry.shape] at hshape ⊢
  exact hshape

/-- A directory is one in every tree of the same shape. -/
theorem SameShape.directory_iff (h : SameShape tree tree') (location : Location) :
    tree'.entryAt? location = some .directory ↔ tree.entryAt? location = some .directory := by
  obtain hsame | ⟨_, _, _, _, hold, hnew⟩ := h.eq_or_file location
  · rw [hsame]
  · simp [hold, hnew]

/-- Where no more than a directory is, trees of the same shape have the same. -/
theorem SameShape.entryAt?_eq (h : SameShape tree tree') {location : Location}
    (hvacant : tree.entryAt? location = none ∨ tree.entryAt? location = some .directory) :
    tree'.entryAt? location = tree.entryAt? location := by
  obtain hsame | ⟨_, _, _, _, hold, -⟩ := h.eq_or_file location
  · exact hsame
  · simp [hold] at hvacant

private theorem SameShape.walkWith_eq (h : SameShape tree tree')
    {jump jump' : Location → List Text → Except Fault Place}
    (hjump : ∀ here pieces, jump' here pieces = jump here pieces) (here : Location)
    (pieces : List Text) : walkWith tree' jump' here pieces = walkWith tree jump here pieces := by
  induction pieces generalizing here with
  | nil => rfl
  | cons piece rest ih =>
    rw [walkWith, walkWith, ih here, ih here.dropLast]
    obtain hsame | ⟨_, _, _, _, hold, hnew⟩ := h.eq_or_file (here ++ [piece])
    · rw [hsame]
      simp only [ih, hjump]
    · -- Only what the file holds can differ, and a walk does not look at that.
      rw [hold, hnew]

/-- Trees of the same shape have the same walks. -/
theorem SameShape.walkUpTo_eq (h : SameShape tree tree') (links : Nat) (here : Location)
    (pieces : List Text) : walkUpTo tree' links here pieces = walkUpTo tree links here pieces := by
  induction links generalizing here pieces with
  | zero => exact h.walkWith_eq (fun _ _ => rfl) here pieces
  | succ links ih => exact h.walkWith_eq ih here pieces

theorem SameShape.walk_eq (h : SameShape tree tree') (current : Location) (path : Path) :
    tree'.walk current path = tree.walk current path := by
  rw [walk, walk, walkAny, walkAny, h.walkUpTo_eq]

theorem SameShape.find_eq (h : SameShape tree tree') (current : Location) (path : Path) :
    tree'.find current path = tree.find current path := by
  rw [find, find, h.walk_eq]

theorem SameShape.slot_eq (h : SameShape tree tree') (current : Location) (path : Path) :
    tree'.slot current path = tree.slot current path := by
  have hwalk : walkUpTo tree' = walkUpTo tree := by
    funext links here pieces
    exact h.walkUpTo_eq links here pieces
  have hdirectory : ∀ location, (tree'.entryAt? location ≠ some .directory) =
      (tree.entryAt? location ≠ some .directory) := fun location =>
    propext (not_congr (h.directory_iff location))
  simp only [slot, hwalk, hdirectory]

/-- Trees of the same shape keep it when they lose the same entry. -/
theorem SameShape.erase (h : SameShape tree tree') {location : Location} (hne : location ≠ []) :
    SameShape (tree.erase location) (tree'.erase location) := by
  intro other
  rw [entryAt?_erase _ _ _ hne, entryAt?_erase _ _ _ hne]
  split
  · rfl
  · exact h other

/-- Writing to a file leaves the shape of the tree. -/
theorem sameShape_put_file {location : Location} {old new : Content} {runnable runnable' : Bool}
    (h : tree.entryAt? location = some (.file old runnable)) :
    SameShape tree (tree.put location (.file new runnable')) := by
  have hne : location ≠ [] := ne_nil_of_entryAt?_ne tree (by simp [h])
  intro other
  rw [entryAt?_put _ _ _ _ hne]
  split
  · next hother => rw [hother, h]; rfl
  · rfl

/-! ## Trees that keep their ways -/

/-- Every directory and every link of a tree stands in the other tree as well. -/
def KeepsWays (tree tree' : FileTree) : Prop :=
  ∀ location entry, tree.entryAt? location = some entry → entry.isFile = false →
    tree'.entryAt? location = some entry

theorem KeepsWays.trans {tree'' : FileTree} (h : KeepsWays tree tree')
    (h' : KeepsWays tree' tree'') : KeepsWays tree tree'' :=
  fun location entry hentry hfile => h' location entry (h location entry hentry hfile) hfile

/-- Trees of the same shape have the same ways. -/
theorem SameShape.keepsWays (h : SameShape tree tree') : KeepsWays tree tree' := by
  intro location entry hentry hfile
  obtain hsame | ⟨_, _, _, _, hold, -⟩ := h.eq_or_file location
  · exact hsame.trans hentry
  · cases hold.symm.trans hentry
    cases hfile

/-- Ways do not lead through files. -/
theorem keepsWays_erase {location : Location} {entry : Entry}
    (hentry : tree.entryAt? location = some entry) (hfile : entry.isFile = true) :
    KeepsWays tree (tree.erase location) := by
  intro other found hother hfound
  have hne : location ≠ [] := ne_nil_of_entryAt?_ne tree <| by
    rintro hdirectory
    cases hentry.symm.trans hdirectory
    cases hfile
  rw [entryAt?_erase _ _ _ hne, if_neg]
  · exact hother
  · rintro rfl
    cases hentry.symm.trans hother
    cases hfile.symm.trans hfound

/-- What ends a walk in the other tree: if a file stands at the location, a file stands there
still. -/
def KeepsFileAt (tree tree' : FileTree) (location : Location) : Prop :=
  ∀ content runnable, tree.entryAt? location = some (.file content runnable) →
    ∃ content' runnable', tree'.entryAt? location = some (.file content' runnable')

private theorem KeepsWays.walkWith_eq (h : KeepsWays tree tree') {location : Location}
    (hend : KeepsFileAt tree tree' location)
    {jump jump' : Location → List Text → Except Fault Place}
    (hjump : ∀ here pieces, jump here pieces = .ok (.found location) →
      jump' here pieces = .ok (.found location))
    {here : Location} {pieces : List Text}
    (hwalk : walkWith tree jump here pieces = .ok (.found location)) :
    walkWith tree' jump' here pieces = .ok (.found location) := by
  induction pieces generalizing here with
  | nil => exact hwalk
  | cons piece rest ih =>
    obtain rfl | rfl | hname | ⟨hdot, hup, hname⟩ := piece_cases piece
    · rw [walkWith_dot] at hwalk ⊢
      exact ih hwalk
    · rw [walkWith_up] at hwalk ⊢
      exact ih hwalk
    · rcases htree : tree.entryAt? (here ++ [piece]) with _ | (_ | ⟨content, runnable⟩ | target)
      · rw [walkWith_none hname htree] at hwalk
        split at hwalk <;> cases hwalk
      · rw [walkWith_directory hname htree] at hwalk
        rw [walkWith_directory hname (h _ _ htree rfl)]
        exact ih hwalk
      · rw [walkWith_file hname htree] at hwalk
        split at hwalk
        · next hrest =>
          cases hwalk
          obtain ⟨content', runnable', htree'⟩ := hend _ _ htree
          rw [walkWith_file hname htree', if_pos hrest]
        · cases hwalk
      · -- The link is the same in both trees, so both walks jump to its target.
        rw [walkWith_link hname htree] at hwalk
        rw [walkWith_link hname (h _ _ htree rfl)]
        split at hwalk
        · cases hwalk
        · next htarget =>
          rw [if_neg htarget]
          exact hjump _ _ hwalk
    · rw [walkWith_refused hdot hup hname] at hwalk
      cases hwalk

/-- A walk that arrives does so in every tree that keeps its ways and the file at its end. -/
theorem KeepsWays.walkUpTo_eq (h : KeepsWays tree tree') {location : Location}
    (hend : KeepsFileAt tree tree' location) {links : Nat} {here : Location}
    {pieces : List Text} (hwalk : walkUpTo tree links here pieces = .ok (.found location)) :
    walkUpTo tree' links here pieces = .ok (.found location) := by
  induction links generalizing here pieces with
  | zero => exact h.walkWith_eq hend (fun _ _ hjump => by cases hjump) hwalk
  | succ links ih => exact h.walkWith_eq hend (fun _ _ hjump => ih hjump) hwalk

/-! ## Trees that lose ways -/

/-- Where a tree has a directory or a link, the other tree has the same or nothing. -/
def LosesWays (tree tree' : FileTree) : Prop :=
  ∀ location entry, tree.entryAt? location = some entry → entry.isFile = false →
    tree'.entryAt? location = some entry ∨ tree'.entryAt? location = none

private theorem LosesWays.walkWith_eq (h : LosesWays tree tree') {location location' : Location}
    (hend : tree.entryAt? location = some .directory)
    {jump jump' : Location → List Text → Except Fault Place}
    (hjump : ∀ here pieces, jump here pieces = .ok (.found location) →
      jump' here pieces = .ok (.found location') → location' = location)
    {here : Location} {pieces : List Text}
    (hwalk : walkWith tree jump here pieces = .ok (.found location))
    (hwalk' : walkWith tree' jump' here pieces = .ok (.found location')) :
    location' = location := by
  induction pieces generalizing here with
  | nil =>
    cases hwalk
    cases hwalk'
    rfl
  | cons piece rest ih =>
    obtain rfl | rfl | hname | ⟨hdot, hup, hname⟩ := piece_cases piece
    · rw [walkWith_dot] at hwalk hwalk'
      exact ih hwalk hwalk'
    · rw [walkWith_up] at hwalk hwalk'
      exact ih hwalk hwalk'
    · rcases htree : tree.entryAt? (here ++ [piece]) with _ | (_ | ⟨content, runnable⟩ | target)
      · rw [walkWith_none hname htree] at hwalk
        split at hwalk <;> cases hwalk
      · obtain htree' | htree' := h _ _ htree rfl
        · rw [walkWith_directory hname htree] at hwalk
          rw [walkWith_directory hname htree'] at hwalk'
          exact ih hwalk hwalk'
        · rw [walkWith_none hname htree'] at hwalk'
          split at hwalk' <;> cases hwalk'
      · -- A walk that has come to a file does not end at a directory.
        rw [walkWith_file hname htree] at hwalk
        split at hwalk
        · cases hwalk
          cases htree.symm.trans hend
        · cases hwalk
      · obtain htree' | htree' := h _ _ htree rfl
        · rw [walkWith_link hname htree] at hwalk
          rw [walkWith_link hname htree'] at hwalk'
          split at hwalk
          · cases hwalk
          · next htarget =>
            rw [if_neg htarget] at hwalk'
            exact hjump _ _ hwalk hwalk'
        · rw [walkWith_none hname htree'] at hwalk'
          split at hwalk' <;> cases hwalk'
    · rw [walkWith_refused hdot hup hname] at hwalk
      cases hwalk

/-- A walk to a directory that still arrives when ways are lost arrives at the same place. -/
theorem LosesWays.walkUpTo_eq (h : LosesWays tree tree') {location location' : Location}
    (hend : tree.entryAt? location = some .directory) {links : Nat} {here : Location}
    {pieces : List Text} (hwalk : walkUpTo tree links here pieces = .ok (.found location))
    (hwalk' : walkUpTo tree' links here pieces = .ok (.found location')) :
    location' = location := by
  induction links generalizing here pieces with
  | zero => exact h.walkWith_eq hend (fun _ _ hjump => by cases hjump) hwalk hwalk'
  | succ links ih => exact h.walkWith_eq hend (fun _ _ hjump hjump' => ih hjump hjump') hwalk hwalk'

/-! ## Walks through more pieces -/

/-- Every entry stands in a directory. -/
def IsClosed (tree : FileTree) : Prop :=
  ∀ location, location ≠ [] → tree.entryAt? location ≠ none →
    tree.entryAt? location.dropLast = some .directory

theorem IsClosed.dropLast (h : IsClosed tree) {location : Location}
    (hdirectory : tree.entryAt? location = some .directory) :
    tree.entryAt? location.dropLast = some .directory := by
  by_cases hne : location = []
  · rw [hne]
    exact entryAt?_nil tree
  · exact h location hne (by simp [hdirectory])

/-- An entry that counts is one of the entries. -/
theorem mem_entries_of_entryAt? {location : Location} {entry : Entry} (hne : location ≠ [])
    (h : tree.entryAt? location = some entry) : (location, entry) ∈ tree.entries := by
  rw [entryAt?, if_neg hne] at h
  obtain ⟨⟨found, entry'⟩, hfound, rfl⟩ := Option.map_eq_some_iff.1 h
  obtain rfl : found = location := by simpa using List.find?_some hfound
  exact List.mem_of_find?_eq_some hfound

/-- It is enough to look at the entries. -/
theorem isClosed_of_entries
    (h : ∀ item ∈ tree.entries, tree.entryAt? item.1.dropLast = some .directory) :
    IsClosed tree := by
  intro location hne hentry
  obtain ⟨entry, hentry⟩ := Option.ne_none_iff_exists'.1 hentry
  exact h _ (mem_entries_of_entryAt? hne hentry)

/-- It is enough to look at the entries for links. -/
theorem no_link_of_entries (h : ∀ item ∈ tree.entries, item.2 = .directory ∨ item.2.isFile = true)
    (location : Location) (target : Path) : tree.entryAt? location ≠ some (.link target) := by
  intro hentry
  have hne : location ≠ [] := ne_nil_of_entryAt?_ne tree (by simp [hentry])
  obtain hdirectory | hfile := h _ (mem_entries_of_entryAt? hne hentry)
  · cases hdirectory
  · cases hfile

/-- In a closed tree, a directory at one end of a walk means one at the other. -/
def StaysInDirectories (tree : FileTree) (here there : Location) : Prop :=
  IsClosed tree → tree.entryAt? here = some .directory → tree.entryAt? there = some .directory

/-- The walk ends after these pieces: at a file, or because something is missing or refused. -/
def EndsAfter (tree : FileTree) (walk : List Text → Except Fault Place) (pieces : List Text) :
    Prop :=
  (∀ location, walk pieces = .ok (.found location) →
    tree.entryAt? location ≠ some .directory) ∧
  ∀ rest, rest ≠ [] → ∃ fault, walk (pieces ++ rest) = .error fault

/-- A walk goes on after some pieces without having met a link, or goes on after a link, or ends. -/
private def GoesOn (tree : FileTree) (jump : Location → List Text → Except Fault Place)
    (here : Location) (pieces : List Text) : Prop :=
  (∃ there, StaysInDirectories tree here there ∧
    ∀ rest, walkWith tree jump here (pieces ++ rest) = walkWith tree jump there rest) ∨
  (∃ there before, StaysInDirectories tree here there ∧
    ∀ rest, walkWith tree jump here (pieces ++ rest) = jump there (before ++ rest)) ∨
  EndsAfter tree (walkWith tree jump here) pieces

section GoesOn

variable {jump : Location → List Text → Except Fault Place} {here next : Location} {piece : Text}
  {pieces : List Text}

/-- A step to a directory leaves what the rest of the walk does. -/
private theorem GoesOn.cons (h : GoesOn tree jump next pieces)
    (hnext : StaysInDirectories tree here next)
    (hstep : ∀ rest, walkWith tree jump here (piece :: rest) = walkWith tree jump next rest) :
    GoesOn tree jump here (piece :: pieces) := by
  obtain ⟨there, hthere, hrest⟩ | ⟨there, before, hthere, hrest⟩ | ⟨hfound, hrest⟩ := h
  · exact .inl ⟨there, fun hclosed hhere => hthere hclosed (hnext hclosed hhere),
      fun rest => (hstep _).trans (hrest rest)⟩
  · exact .inr (.inl ⟨there, before, fun hclosed hhere => hthere hclosed (hnext hclosed hhere),
      fun rest => (hstep _).trans (hrest rest)⟩)
  · refine .inr (.inr ⟨fun location hlocation => ?_, fun rest hne => ?_⟩)
    · exact hfound location ((hstep _).symm.trans hlocation)
    · obtain ⟨fault, hfault⟩ := hrest rest hne
      exact ⟨fault, (hstep _).trans hfault⟩

/-- A piece at which no walk arrives in a directory or goes on ends the walk. -/
private theorem goesOn_of_fault (fault : Fault)
    (hfound : ∀ location, walkWith tree jump here (piece :: pieces) = .ok (.found location) →
      tree.entryAt? location ≠ some .directory)
    (hfault : ∀ rest, rest ≠ [] → walkWith tree jump here (piece :: rest) = .error fault) :
    GoesOn tree jump here (piece :: pieces) :=
  .inr (.inr ⟨hfound, fun rest hne => ⟨fault, hfault (pieces ++ rest) (by simp [hne])⟩⟩)

private theorem goesOn (tree : FileTree) (jump : Location → List Text → Except Fault Place)
    (here : Location) (pieces : List Text) : GoesOn tree jump here pieces := by
  induction pieces generalizing here with
  | nil => exact .inl ⟨here, fun _ hhere => hhere, fun _ => rfl⟩
  | cons piece pieces ih =>
    obtain rfl | rfl | hname | ⟨hdot, hup, hname⟩ := piece_cases piece
    · exact (ih here).cons (fun _ hhere => hhere) fun _ => walkWith_dot
    · exact (ih here.dropLast).cons (fun hclosed hhere => hclosed.dropLast hhere)
        fun _ => walkWith_up
    · rcases htree : tree.entryAt? (here ++ [piece]) with _ | (_ | ⟨content, runnable⟩ | target)
      · refine goesOn_of_fault .missing (fun location hlocation => ?_) fun rest hne => ?_
        · rw [walkWith_none hname htree] at hlocation
          split at hlocation <;> cases hlocation
        · rw [walkWith_none hname htree, if_neg hne]
      · exact (ih (here ++ [piece])).cons (fun _ _ => htree) fun _ => walkWith_directory hname htree
      · refine goesOn_of_fault .refused (fun location hlocation => ?_) fun rest hne => ?_
        · rw [walkWith_file hname htree] at hlocation
          split at hlocation
          · cases hlocation
            simp [htree]
          · cases hlocation
        · rw [walkWith_file hname htree, if_neg hne]
      · by_cases htarget : target.text = []
        · refine goesOn_of_fault .missing (fun location hlocation => ?_) fun rest hne => ?_
          · rw [walkWith_link hname htree, if_pos htarget] at hlocation
            cases hlocation
          · rw [walkWith_link hname htree, if_pos htarget]
        · -- From the target of the link, the walk goes on through the pieces that are left.
          refine .inr (.inl ⟨target.start here, target.steps ++ pieces, ?_, fun rest => ?_⟩)
          · intro _ hhere
            unfold Path.start
            split
            · exact entryAt?_nil tree
            · exact hhere
          · rw [List.cons_append, walkWith_link hname htree, if_neg htarget, List.append_assoc]
    · refine goesOn_of_fault .refused (fun location hlocation => ?_) fun rest hne => ?_
      · rw [walkWith_refused hdot hup hname] at hlocation
        cases hlocation
      · rw [walkWith_refused hdot hup hname]

end GoesOn

/-- After some pieces a walk goes on from where these lead, with the links that are left, or it has
ended. -/
theorem walkUpTo_append_cases (tree : FileTree) (links : Nat) (here : Location)
    (pieces : List Text) :
    (∃ fewer there, StaysInDirectories tree here there ∧
      ∀ rest, walkUpTo tree links here (pieces ++ rest) = walkUpTo tree fewer there rest) ∨
    EndsAfter tree (walkUpTo tree links here) pieces := by
  induction links generalizing here pieces with
  | zero =>
    obtain ⟨there, hthere, hrest⟩ | ⟨there, before, -, hrest⟩ | hends :=
      goesOn tree (fun _ _ => .error .refused) here pieces
    · exact .inl ⟨0, there, hthere, hrest⟩
    · -- No link is left to follow, so the walk has ended.
      refine .inr ⟨fun location hlocation => ?_, fun rest _ => ⟨.refused, hrest rest⟩⟩
      have hnil := hrest []
      rw [List.append_nil] at hnil
      cases hnil.symm.trans hlocation
    · exact .inr hends
  | succ links ih =>
    obtain ⟨there, hthere, hrest⟩ | ⟨there, before, hthere, hrest⟩ | hends :=
      goesOn tree (walkUpTo tree links) here pieces
    · exact .inl ⟨links + 1, there, hthere, hrest⟩
    · obtain ⟨fewer, last, hlast, hbefore⟩ | ⟨hfound, hbefore⟩ := ih there before
      · exact .inl ⟨fewer, last, fun hclosed hhere => hlast hclosed (hthere hclosed hhere),
          fun rest => (hrest rest).trans (hbefore rest)⟩
      · refine .inr ⟨fun location hlocation => ?_, fun rest hne => ?_⟩
        · have hnil := hrest []
          rw [List.append_nil, List.append_nil] at hnil
          exact hfound location (hnil.symm.trans hlocation)
        · obtain ⟨fault, hfault⟩ := hbefore rest hne
          exact ⟨fault, (hrest rest).trans hfault⟩
    · exact .inr hends

/-- A walk to a directory goes on from there. -/
theorem walkUpTo_append {links : Nat} {here there : Location} {pieces : List Text}
    (hwalk : walkUpTo tree links here pieces = .ok (.found there))
    (hdirectory : tree.entryAt? there = some .directory) :
    ∃ fewer, ∀ rest,
      walkUpTo tree links here (pieces ++ rest) = walkUpTo tree fewer there rest := by
  obtain ⟨fewer, last, -, hrest⟩ | ⟨hfound, -⟩ := walkUpTo_append_cases tree links here pieces
  · have hnil := (hrest []).symm.trans ((congrArg _ (List.append_nil pieces)).trans hwalk)
    cases fewer <;> cases hnil <;> exact ⟨_, hrest⟩
  · exact absurd hdirectory (hfound there hwalk)

/-- A walk that gets somewhere has got somewhere by its first pieces. -/
theorem walkUpTo_of_append {links : Nat} {here : Location} {pieces rest : List Text} {place : Place}
    (hne : rest ≠ []) (hwalk : walkUpTo tree links here (pieces ++ rest) = .ok place) :
    ∃ fewer there, StaysInDirectories tree here there ∧
      walkUpTo tree links here pieces = .ok (.found there) ∧
      walkUpTo tree fewer there rest = .ok place := by
  obtain ⟨fewer, there, hthere, hrest⟩ | ⟨-, hends⟩ := walkUpTo_append_cases tree links here pieces
  · refine ⟨fewer, there, hthere, ?_, (hrest rest).symm.trans hwalk⟩
    have hnil := hrest []
    rw [List.append_nil] at hnil
    rw [hnil]
    cases fewer <;> rfl
  · obtain ⟨fault, hfault⟩ := hends rest hne
    cases hfault.symm.trans hwalk

end FileTree

end EngineUpkeep
