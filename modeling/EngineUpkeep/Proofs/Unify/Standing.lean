import EngineUpkeep.Proofs.FileTree.Moves
import EngineUpkeep.Proofs.Unify.LastCopy

/-!
# What steps come to

A source tree stands at a location if its root leads straight down to there, whether or not all of
the directories on the way are there yet (`StandsAt`). Where the trees stand apart and without links
in them (`Standing`), each step that can be done has an effect that is known from the step alone
(`Standing.perform_eq_ok`), and so have steps in order (`Standing.performAll_eq_ok`). A step that
cannot be done has none, but for the directories that were made before one that could not be made,
and the copy of a file that a seal keeps from being moved (`Standing.perform_eq_error`).
-/

namespace EngineUpkeep

open FileTree

variable {checkout : Checkout} {current : Location} {tree after : FileTree}
  {kind : OperationKind} {source target : SourceTree} {file targetFile : Text} {step : UnifyStep}
  {bases : SourceTree → Location} {listAt? : SourceTree → Text → Option Location}
  {used : List SourceTree}

/-! ## Effects -/

/-- What stands at a location after a step, given what stood at each location before it. -/
def UnifyStep.effect (bases : SourceTree → Location)
    (listAt? : SourceTree → Text → Option Location) :
    UnifyStep → (Location → Option Entry) → Location → Option Entry
  | .toggle source group entry edit, entries, location =>
    if listAt? source group = some location then
      (entries location).map (Entry.toggled entry edit)
    else entries location
  | .delete source file, entries, location =>
    if location = Unify.placeOf bases source file then none else entries location
  | .prepare target file, entries, location =>
    if location <+: (Unify.placeOf bases target file).dropLast then some .directory
    else entries location
  | .move source sourceFile target targetFile, entries, location =>
    moved none entries (Unify.placeOf bases source sourceFile)
      (Unify.placeOf bases target targetFile) location

/-- What a step that cannot be done leaves of a tree all the same. -/
def UnifyStep.Leftover (bases : SourceTree → Location) (tree after : FileTree) : UnifyStep → Prop
  | .toggle _ _ _ _ => after = tree
  | .delete _ _ => after = tree
  -- The directories down to some location above the last one are there.
  | .prepare target file => ∃ upper, upper <+: (Unify.placeOf bases target file).dropLast ∧
      upper ≠ (Unify.placeOf bases target file).dropLast ∧
      ∀ location, after.entryAt? location =
        if location <+: upper then some .directory else tree.entryAt? location
  -- The file has not moved, but a copy of it has been made if a seal keeps it.
  | .move source file target targetFile => after = tree ∨
      ¬ tree.Free (Unify.placeOf bases source file) ∧ ∃ content runnable,
        tree.entryAt? (Unify.placeOf bases source file) = some (.file content runnable) ∧
        tree.entryAt? (Unify.placeOf bases target targetFile) ≠ some .directory ∧
        after = tree.put (Unify.placeOf bases target targetFile) (.file content runnable)

/-- A step leaves what stands at a location. -/
def UnifyStep.Leaves (bases : SourceTree → Location)
    (listAt? : SourceTree → Text → Option Location) (location : Location) : UnifyStep → Prop
  | .toggle source group _ _ => listAt? source group ≠ some location
  | .delete source file => location ≠ Unify.placeOf bases source file
  | .prepare target file => ¬ location <+: (Unify.placeOf bases target file).dropLast
  | .move source file target targetFile =>
    ¬ Unify.placeOf bases source file <+: location ∧
      ¬ Unify.placeOf bases target targetFile <+: location

/-- A step that cannot be done leaves what it would have left. -/
theorem UnifyStep.Leftover.entryAt?_eq {location : Location} (h : step.Leftover bases tree after)
    (hleaves : step.Leaves bases listAt? location) :
    after.entryAt? location = tree.entryAt? location := by
  cases step with
  | toggle source group entry edit => rw [show after = tree from h]
  | delete source file => rw [show after = tree from h]
  | prepare target file =>
    obtain ⟨upper, hupper, -, hafter⟩ := h
    rw [hafter, if_neg fun hwithin => hleaves (hwithin.trans hupper)]
  | move source file target targetFile =>
    obtain rfl | ⟨-, content, runnable, -, -, rfl⟩ := h
    · rfl
    · rw [entryAt?_put _ _ _ _ (Unify.placeOf_ne_nil bases target targetFile), if_neg]
      rintro rfl
      exact hleaves.2 (List.prefix_refl _)

/-- The step moves a file. -/
def UnifyStep.isMove : UnifyStep → Bool
  | .move _ _ _ _ => true
  | _ => false

/-- The files that a step deletes, moves or makes a place for are files of these trees, and their
paths lead straight down. A place is made in some group. -/
def UnifyStep.LeadsDown (used : List SourceTree) : UnifyStep → Prop
  | .toggle _ _ _ _ => True
  | .delete source file =>
    source ∈ used ∧ ∀ name ∈ Text.pieces file '/', Path.IsPlain name
  | .prepare target file =>
    target ∈ used ∧ (∀ name ∈ Text.pieces file '/', Path.IsPlain name) ∧
      2 ≤ (Text.pieces file '/').length
  | .move source file target targetFile =>
    source ∈ used ∧ target ∈ used ∧ source ≠ target ∧
      (∀ name ∈ Text.pieces file '/', Path.IsPlain name) ∧
      ∀ name ∈ Text.pieces targetFile '/', Path.IsPlain name

/-- Whatever the steps edit as the list of a group stands where `listAt?` says. -/
def Checkout.ListsAt (checkout : Checkout) (current : Location) (tree : FileTree)
    (listAt? : SourceTree → Text → Option Location) (steps : List UnifyStep) : Prop :=
  ∀ source group entry edit, .toggle source group entry edit ∈ steps → ∀ location,
    tree.find current (checkout.listPath source group) = .ok location →
      listAt? source group = some location

namespace Unify

/-- What stands at a location after steps in order. -/
def effects (bases : SourceTree → Location) (listAt? : SourceTree → Text → Option Location)
    (steps : List UnifyStep) (entries : Location → Option Entry) : Location → Option Entry :=
  steps.foldl (fun entries step => step.effect bases listAt? entries) entries

/-- Steps that leave a location have no effect on it. -/
theorem effects_eq_of_leaves {steps : List UnifyStep} {location : Location}
    (entries : Location → Option Entry)
    (h : ∀ step ∈ steps, step.Leaves bases listAt? location) :
    effects bases listAt? steps entries location = entries location := by
  induction steps generalizing entries with
  | nil => rfl
  | cons step steps ih =>
    have hstep : step.effect bases listAt? entries location = entries location := by
      have hleaves := h step (by simp)
      cases step with
      | toggle source group entry edit => rw [UnifyStep.effect, if_neg hleaves]
      | delete source file => rw [UnifyStep.effect, if_neg hleaves]
      | prepare target file => rw [UnifyStep.effect, if_neg hleaves]
      | move source file target targetFile =>
        rw [UnifyStep.effect, moved, if_neg hleaves.2, if_neg hleaves.1]
    have hrest : effects bases listAt? (step :: steps) entries location =
        effects bases listAt? steps (step.effect bases listAt? entries) location := rfl
    rw [hrest, ih _ fun other hother => h other (List.mem_cons_of_mem step hother), hstep]

/-! ## Trees that are kept -/

/-- Directories, links and seals stay, no links come, nothing but directories comes to vacant
places, and every entry stands in a directory if it has done so before. -/
structure Keeps (tree after : FileTree) : Prop where
  /-- The same directories are sealed. -/
  isSealed_eq : after.isSealed = tree.isSealed
  /-- Every entry still stands in a directory. -/
  closed : IsClosed tree → IsClosed after
  /-- Directories and links stay. -/
  ways : KeepsWays tree after
  /-- No links come. -/
  links : ∀ location link, after.entryAt? location = some (.link link) →
    tree.entryAt? location = some (.link link)
  /-- A vacant place stays vacant or becomes a directory. -/
  vacant : ∀ location, tree.entryAt? location = none →
    after.entryAt? location = none ∨ after.entryAt? location = some .directory

theorem Keeps.refl (tree : FileTree) : Keeps tree tree :=
  ⟨rfl, fun h => h, fun _ _ h _ => h, fun _ _ h => h, fun _ h => .inl h⟩

theorem Keeps.trans {middle : FileTree} (h : Keeps tree middle) (h' : Keeps middle after) :
    Keeps tree after := by
  refine ⟨h'.isSealed_eq.trans h.isSealed_eq, fun hclosed => h'.closed (h.closed hclosed),
    h.ways.trans h'.ways,
    fun location link hlink => h.links location link (h'.links location link hlink),
    fun location hnone => ?_⟩
  obtain hmiddle | hmiddle := h.vacant location hnone
  · exact h'.vacant location hmiddle
  · exact .inr (h'.ways location _ hmiddle rfl)

theorem keeps_of_sameShape (h : SameShape tree after) (hseals : after.isSealed = tree.isSealed) :
    Keeps tree after := by
  refine ⟨hseals, h.isClosed, h.keepsWays, fun location link hlink => ?_, fun location hnone => ?_⟩
  · obtain hsame | ⟨_, _, _, _, -, hnew⟩ := h.eq_or_file location
    · exact hsame.symm.trans hlink
    · cases hnew.symm.trans hlink
  · exact .inl (Option.map_eq_none_iff.1 ((h location).trans (by rw [hnone]; rfl)))

/-! ## Where trees stand -/

/-- The root of a tree leads straight down to the base, from a directory that is there. -/
def StandsAt (tree : FileTree) (current : Location) (root : Path) (base : Location) : Prop :=
  ∃ start anchor names, RootAt tree current start anchor ∧
    (∀ name ∈ names, Path.IsPlain name) ∧ Unlinked tree anchor base ∧
    root = start.within names ∧ base = anchor ++ names

/-- A root that is there stands at its location. -/
theorem standsAt_of_rootAt {root : Path} {base : Location} (h : RootAt tree current root base) :
    StandsAt tree current root base := by
  refine ⟨root, base, [], h, by simp, fun location link habove hbelow hlink => ?_, rfl, by simp⟩
  obtain rfl := hbelow.eq_of_length_le habove.length_le
  cases h.directory.symm.trans hlink

/-- Some source trees stand at their bases, no base is inside another, and there are no links below
any of them. -/
structure Standing (checkout : Checkout) (current : Location) (tree : FileTree)
    (bases : SourceTree → Location) (used : List SourceTree) : Prop where
  /-- Every entry stands in a directory. -/
  closed : IsClosed tree
  /-- No source tree is inside another. -/
  apart : ∀ source other, bases source <+: bases other → source = other
  /-- There are no links in the source trees. -/
  no_link : ∀ source location link, bases source <+: location →
    tree.entryAt? location ≠ some (.link link)
  /-- The roots of these trees lead to their bases. -/
  stands : ∀ source ∈ used, StandsAt tree current (checkout.rootOf source) (bases source)

/-- Trees that are apart stand at their bases. -/
theorem TreesApart.standing (h : TreesApart checkout current tree bases) (hclosed : IsClosed tree) :
    Standing checkout current tree bases used :=
  ⟨hclosed, h.apart, h.no_link, fun source _ => standsAt_of_rootAt (h.root source)⟩

/-- The trees stay where they are in a tree that is kept. -/
theorem Standing.of_keeps (h : Standing checkout current tree bases used)
    (hkeeps : Keeps tree after) : Standing checkout current after bases used := by
  refine ⟨hkeeps.closed h.closed, h.apart, fun source location link hbase hlink =>
    h.no_link source location link hbase (hkeeps.links location link hlink), fun source hsource => ?_⟩
  obtain ⟨start, anchor, names, hroot, hnames, hunlinked, heq⟩ := h.stands source hsource
  exact ⟨start, anchor, names, hroot.of_keepsWays hkeeps.ways, hnames,
    fun location link habove hbelow hlink =>
      hunlinked location link habove hbelow (hkeeps.links location link hlink), heq⟩

/-- A path below a root leads straight down from the directory that the root starts from, if there
are no links below the base. -/
theorem StandsAt.exists_below {root : Path} {base : Location} (h : StandsAt tree current root base)
    (hno : ∀ location link, base <+: location → tree.entryAt? location ≠ some (.link link))
    {names : List Text} (hne : names ≠ []) (hnames : ∀ name ∈ names, Path.IsPlain name) :
    ∃ start anchor more, RootAt tree current start anchor ∧
      (∀ name ∈ more ++ names, Path.IsPlain name) ∧ Unlinked tree anchor (base ++ names) ∧
      root.below names = start.below (more ++ names) ∧ base ++ names = anchor ++ (more ++ names) := by
  obtain ⟨start, anchor, more, hroot, hmore, hlinks, rfl, rfl⟩ := h
  refine ⟨start, anchor, more, hroot, fun name hname => ?_, fun location link habove hbelow => ?_,
    Path.below_within hmore hne hnames, List.append_assoc _ _ _⟩
  · exact (List.mem_append.1 hname).elim (hmore name) (hnames name)
  · obtain hwithin | hwithin :=
      List.prefix_or_prefix_of_prefix hbelow (List.prefix_append (anchor ++ more) names)
    · exact hlinks location link habove hwithin
    · exact hno location link hwithin

section Standing

variable (h : Standing checkout current tree bases used)
include h

/-- Where one location is inside two trees, these are one. -/
theorem Standing.eq_of_prefix {first second : SourceTree} {location : Location}
    (hfirst : bases first <+: location) (hsecond : bases second <+: location) : first = second :=
  eq_of_prefix_of_apart h.apart hfirst hsecond

/-- The places of files of two trees are not inside each other. -/
theorem Standing.not_prefix {first second : SourceTree} (hne : first ≠ second)
    (text text' : Text) : ¬ placeOf bases first text <+: placeOf bases second text' := by
  intro hwithin
  apply hne
  exact h.eq_of_prefix ((prefix_placeOf bases first text).trans hwithin)
    (prefix_placeOf bases second text')

variable (hsource : source ∈ used) (hplain : ∀ name ∈ Text.pieces file '/', Path.IsPlain name)
include hsource hplain

/-- The path of a file leads to its place, from the directory that the root starts from. -/
theorem Standing.exists_rootAt :
    ∃ start anchor names, RootAt tree current start anchor ∧
      (∀ name ∈ names ++ Text.pieces file '/', Path.IsPlain name) ∧
      Unlinked tree anchor (placeOf bases source file) ∧
      checkout.pathIn source file = start.below (names ++ Text.pieces file '/') ∧
      placeOf bases source file = anchor ++ (names ++ Text.pieces file '/') := by
  rw [pathIn_eq_below]
  exact (h.stands source hsource).exists_below (h.no_link source) (Text.pieces_ne_nil file '/') hplain

theorem Standing.straightTo :
    StraightTo tree current (checkout.pathIn source file) (placeOf bases source file) := by
  obtain ⟨start, anchor, names, hroot, hnames, hlinks, hpath, hplace⟩ :=
    h.exists_rootAt hsource hplain
  exact ⟨start, anchor, _, hroot, by simp [Text.pieces_ne_nil file '/'], hnames, hlinks, hpath,
    hplace⟩

end Standing

/-! ## Steps one by one -/

/-- An edit that cannot be done changes nothing, and fails for a fault of the file tree. -/
theorem perform_toggle_eq_error {group entry : Text} {edit : LineEdit} {failure : Failure}
    (h : perform checkout current tree (.toggle source group entry edit) =
      (after, .error failure)) :
    after = tree ∧ ∃ fault, failure = .io fault := by
  rw [perform, BuildList.editFile] at h
  rcases hread : tree.readText current (checkout.listPath source group) with fault | chars
  · rw [hread] at h
    cases h
    exact ⟨rfl, fault, rfl⟩
  rcases hwrite : tree.write current (checkout.listPath source group)
    (.text (BuildList.toggle entry edit chars).1) none with fault | written
  · simp only [hread, hwrite] at h
    cases h
    exact ⟨rfl, fault, rfl⟩
  · simp [hread, hwrite] at h

/-- An edit that can be done changes the text of the list. -/
theorem perform_toggle_eq_ok {group entry : Text} {edit : LineEdit}
    (h : perform checkout current tree (.toggle source group entry edit) = (after, .ok ())) :
    ∃ location, tree.find current (checkout.listPath source group) = .ok location ∧
      (∃ chars runnable, tree.entryAt? location = some (.file (.text chars) runnable)) ∧
      SameShape tree after ∧ after.isSealed = tree.isSealed ∧
      ∀ other, after.entryAt? other =
        if other = location then (tree.entryAt? other).map (Entry.toggled entry edit)
        else tree.entryAt? other := by
  rw [perform, BuildList.editFile] at h
  rcases hread : tree.readText current (checkout.listPath source group) with fault | chars
  · simp [hread] at h
  obtain ⟨location, runnable, hfind, hentry⟩ := readText_eq_ok_iff.1 hread
  rcases hwrite : tree.write current (checkout.listPath source group)
    (.text (BuildList.toggle entry edit chars).1) none with fault | written
  · simp [hread, hwrite] at h
  -- What has been written is what an edit of this list writes.
  have hedit := BuildList.editFile_eq hfind hentry (hasSlashEnd_of_write hwrite) entry edit
  simp only [BuildList.editFile, hread, hwrite] at hedit h
  obtain rfl : written = after := (Prod.mk.inj h).1
  obtain rfl := (Prod.mk.inj hedit).1
  have hne : location ≠ [] := ne_nil_of_entryAt?_ne tree (by simp [hentry])
  refine ⟨location, hfind, ⟨chars, runnable, hentry⟩, sameShape_put_file hentry,
    isSealed_put (by simp [hentry]) (by simp), fun other => ?_⟩
  rw [entryAt?_put _ _ _ _ hne]
  split
  · next heq =>
    rw [heq, hentry]
    rfl
  · rfl

section Perform

variable (h : Standing checkout current tree bases used)
include h

/-- A deletion that can be done takes a file from its place. -/
theorem Standing.perform_delete (hsource : source ∈ used)
    (hplain : ∀ name ∈ Text.pieces file '/', Path.IsPlain name)
    (hperform : perform checkout current tree (.delete source file) = (after, .ok ())) :
    Keeps tree after ∧
      ∀ location, after.entryAt? location =
        if location = placeOf bases source file then none else tree.entryAt? location := by
  rw [perform] at hperform
  rcases hdelete : tree.delete current (checkout.pathIn source file) with fault | changed
  · simp [hdelete] at hperform
  rw [hdelete] at hperform
  obtain rfl : changed = after := (Prod.mk.inj hperform).1
  obtain ⟨rfl, entry, hentry, hne⟩ := (h.straightTo hsource hplain).delete_eq_ok hdelete
  have hfile : entry.isFile = true := by
    rcases entry with _ | ⟨content, runnable⟩ | link
    · exact absurd rfl hne
    · rfl
    · exact absurd hentry (h.no_link source _ link (prefix_placeOf bases source file))
  have hafter : ∀ location, (tree.erase (placeOf bases source file)).entryAt? location =
      if location = placeOf bases source file then none else tree.entryAt? location :=
    fun location => entryAt?_erase _ _ _ (placeOf_ne_nil bases source file)
  refine ⟨⟨isSealed_erase (by simp [hentry, hne]), fun hclosed => hclosed.erase hentry hne,
    keepsWays_erase hentry hfile,
    fun location link hlink => extends_erase (placeOf_ne_nil bases source file) location _ hlink,
    fun location hnone => .inl ?_⟩, hafter⟩
  rw [hafter, hnone, ite_self]

/-- Preparing the place of a file makes the directories above it, or some of them from the top down
if it fails. -/
theorem Standing.perform_prepare (hsource : source ∈ used)
    (hplain : ∀ name ∈ Text.pieces file '/', Path.IsPlain name)
    (hlength : 2 ≤ (Text.pieces file '/').length) :
    ∃ upper, upper <+: (placeOf bases source file).dropLast ∧
      ((perform checkout current tree (.prepare source file)).2 = .ok () ↔
        upper = (placeOf bases source file).dropLast) ∧
      Keeps tree (perform checkout current tree (.prepare source file)).1 ∧
      ∀ location, (perform checkout current tree (.prepare source file)).1.entryAt? location =
        if location <+: upper then some .directory else tree.entryAt? location := by
  obtain ⟨start, anchor, more, hroot, hnames, hlinks, hpath, hplace⟩ := h.exists_rootAt hsource hplain
  obtain ⟨before, last, hpieces⟩ :=
    (List.eq_nil_or_concat' (Text.pieces file '/')).resolve_left (Text.pieces_ne_nil file '/')
  have hbefore : before ≠ [] := by
    rintro rfl
    simp [hpieces] at hlength
  rw [hpieces, ← List.append_assoc] at hnames hpath
  rw [hpieces] at hplace
  have hne : more ++ before ≠ [] := by simp [hbefore]
  have habove : (placeOf bases source file).dropLast = anchor ++ (more ++ before) := by
    rw [hplace, ← List.append_assoc, ← List.append_assoc, List.dropLast_concat, List.append_assoc]
  have hlinksAbove : Unlinked tree anchor (anchor ++ (more ++ before)) :=
    hlinks.mono (habove ▸ List.dropLast_prefix _)
  have hperform : perform checkout current tree (.prepare source file) =
      ((tree.makeDirectories current (start.below (more ++ before))).1,
        stepResult (tree.makeDirectories current (start.below (more ++ before))).2) := by
    rw [perform, hpath, Path.parent?_below hroot.text_ne_nil hne hnames]
  have hmade : MadeDown tree anchor (more ++ before)
      (tree.makeDirectories current (start.below (more ++ before))) :=
    hroot.madeDown_makeDirectoriesAlong _ hne
      (fun name hname => hnames name (List.mem_append_left [last] hname)) hlinksAbove
  have hclosed : IsClosed tree →
      IsClosed (tree.makeDirectories current (start.below (more ++ before))).1 :=
    fun hclosed => hclosed.makeDirectories current _
  have hseals : (tree.makeDirectories current (start.below (more ++ before))).1.isSealed =
      tree.isSealed := isSealed_makeDirectoriesAlong tree current _
  rw [hperform, habove]
  generalize tree.makeDirectories current (start.below (more ++ before)) = made
    at hmade hclosed hseals ⊢
  obtain ⟨changed, result⟩ := made
  -- However far it gets, there are directories from the anchor down to some name.
  obtain ⟨upper, hupper, hresult, hchanged⟩ : ∃ upper, upper <+: more ++ before ∧
      (stepResult result = .ok () ↔ anchor ++ upper = anchor ++ (more ++ before)) ∧
      ∀ location, changed.entryAt? location =
        tree.withDirectories anchor (anchor ++ upper) location := by
    obtain ⟨rfl, hchanged⟩ | ⟨herror, upper, hupper, hother, hchanged⟩ := hmade
    · exact ⟨_, List.prefix_refl _, by simp [stepResult], hchanged⟩
    · refine ⟨upper, hupper, ?_, hchanged⟩
      rcases result with fault | ⟨⟨⟩⟩
      · simp [stepResult, hother]
      · exact absurd rfl herror
  have hwithin : anchor ++ upper <+: anchor ++ (more ++ before) :=
    (List.prefix_append_right_inj anchor).2 hupper
  refine ⟨anchor ++ upper, hwithin, hresult, ⟨hseals, hclosed,
    keepsWays_of_withDirectories hchanged (hlinksAbove.mono hwithin), ?_, ?_⟩, fun location => ?_⟩
  · intro location link hlink
    rw [hchanged, withDirectories] at hlink
    split at hlink
    · cases hlink
    · exact hlink
  · intro location hnone
    rw [hchanged, withDirectories]
    split
    · exact .inr rfl
    · exact .inl hnone
  · rw [hchanged, h.closed.withDirectories_eq hroot.directory (List.prefix_append _ _)]

/-- A move that can be done takes a file, or a directory, to its place in another tree. -/
theorem Standing.perform_move (hsource : source ∈ used) (htarget : target ∈ used)
    (hne : source ≠ target) (hplain : ∀ name ∈ Text.pieces file '/', Path.IsPlain name)
    (htargetPlain : ∀ name ∈ Text.pieces targetFile '/', Path.IsPlain name)
    (hperform : perform checkout current tree (.move source file target targetFile) =
      (after, .ok ())) :
    MovedTo tree after (placeOf bases source file) (placeOf bases target targetFile) := by
  rw [perform] at hperform
  rcases hmove : tree.moveEntry current (checkout.pathIn source file)
    (checkout.pathIn target targetFile) with ⟨changed, fault | ⟨⟨⟩⟩⟩
  · simp [hmove, stepResult] at hperform
  · rw [hmove] at hperform
    obtain rfl : changed = after := (Prod.mk.inj hperform).1
    exact movedTo_of_moveEntry (h.straightTo hsource hplain) (h.straightTo htarget htargetPlain)
      h.closed (h.not_prefix hne file targetFile) (h.not_prefix hne.symm targetFile file) hmove

/-- A step that can be done has its effect, and keeps the tree if it moves nothing. -/
theorem Standing.perform_eq_ok (hstep : step.LeadsDown used)
    (hlists : checkout.ListsAt current tree listAt? [step])
    (hperform : perform checkout current tree step = (after, .ok ())) :
    after.entryAt? = step.effect bases listAt? tree.entryAt? ∧
      (step.isEdit = true → SameShape tree after) ∧ (step.isMove = false → Keeps tree after) := by
  cases step with
  | toggle source group entry edit =>
    obtain ⟨found, hfind, -, hshape, hseals, hafter⟩ := perform_toggle_eq_ok hperform
    refine ⟨funext fun location => ?_, fun _ => hshape, fun _ => keeps_of_sameShape hshape hseals⟩
    rw [hafter, UnifyStep.effect, hlists source group entry edit (by simp) found hfind]
    simp only [Option.some.injEq, eq_comm]
  | delete source file =>
    obtain ⟨hsource, hplain⟩ := hstep
    obtain ⟨hkeeps, hafter⟩ := h.perform_delete hsource hplain hperform
    exact ⟨funext hafter, fun hedit => (by cases hedit), fun _ => hkeeps⟩
  | prepare target file =>
    obtain ⟨htarget, hplain, hlength⟩ := hstep
    obtain ⟨upper, -, hresult, hkeeps, hafter⟩ := h.perform_prepare htarget hplain hlength
    rw [hperform] at hresult hkeeps hafter
    obtain rfl := hresult.1 rfl
    exact ⟨funext hafter, fun hedit => (by cases hedit), fun _ => hkeeps⟩
  | move source file target targetFile =>
    obtain ⟨hsource, htarget, hne, hplain, htargetPlain⟩ := hstep
    have hmoved := h.perform_move hsource htarget hne hplain htargetPlain hperform
    exact ⟨funext hmoved.entryAt?_eq, fun hedit => (by cases hedit), fun hmove => (by cases hmove)⟩

/-- A step that cannot be done leaves the seals, and no more than some directories or a copy. -/
theorem Standing.perform_eq_error (hstep : step.LeadsDown used) {failure : Failure}
    (hperform : perform checkout current tree step = (after, .error failure)) :
    step.Leftover bases tree after ∧ after.isSealed = tree.isSealed := by
  cases step with
  | toggle source group entry edit =>
    obtain ⟨rfl, -⟩ := perform_toggle_eq_error hperform
    exact ⟨rfl, rfl⟩
  | delete source file =>
    rw [perform] at hperform
    rcases hdelete : tree.delete current (checkout.pathIn source file) with fault | changed
    · rw [hdelete] at hperform
      obtain rfl : tree = after := (Prod.mk.inj hperform).1
      exact ⟨rfl, rfl⟩
    · simp [hdelete] at hperform
  | prepare target file =>
    obtain ⟨htarget, hplain, hlength⟩ := hstep
    obtain ⟨upper, hupper, hresult, hkeeps, hafter⟩ := h.perform_prepare htarget hplain hlength
    rw [hperform] at hresult hkeeps hafter
    have hne : upper ≠ (placeOf bases target file).dropLast := fun heq => by cases hresult.2 heq
    exact ⟨⟨upper, hupper, hne, hafter⟩, hkeeps.isSealed_eq⟩
  | move source file target targetFile =>
    obtain ⟨hsource, htarget, hne, hplain, htargetPlain⟩ := hstep
    rw [perform] at hperform
    rcases hmove : tree.moveEntry current (checkout.pathIn source file)
      (checkout.pathIn target targetFile) with ⟨changed, fault | ⟨⟨⟩⟩⟩
    · rw [hmove] at hperform
      obtain rfl : changed = after := (Prod.mk.inj hperform).1
      have hplaces : placeOf bases source file ≠ placeOf bases target targetFile := fun heq =>
        h.not_prefix hne file targetFile (heq ▸ List.prefix_refl _)
      obtain rfl | ⟨hkept, content, runnable, hentry, hplace, rfl⟩ :=
        (h.straightTo hsource hplain).moveEntry_eq_error (h.straightTo htarget htargetPlain) hplaces
          hmove
      · exact ⟨.inl rfl, rfl⟩
      · exact ⟨.inr ⟨hkept, content, runnable, hentry, hplace, rfl⟩, isSealed_put hplace (by simp)⟩
    · simp [hmove, stepResult] at hperform

end Perform

/-! ## Steps in order -/

/-- Lists are edited first, and a file is moved last. -/
def InOrder (steps : List UnifyStep) : Prop :=
  steps.Pairwise fun first second =>
    first.isMove = false ∧ (second.isEdit = true → first.isEdit = true)

/-- Steps that can all be done have their effects one after the other. -/
theorem Standing.performAll_eq_ok {steps : List UnifyStep}
    (h : Standing checkout current tree bases used) (hsteps : ∀ step ∈ steps, step.LeadsDown used)
    (horder : InOrder steps) (hlists : checkout.ListsAt current tree listAt? steps)
    (hperform : performAll checkout current tree steps = (after, .ok ())) :
    after.entryAt? = effects bases listAt? steps tree.entryAt? ∧
      ((∀ step ∈ steps, step.isMove = false) → Keeps tree after) := by
  induction steps generalizing tree with
  | nil =>
    cases hperform
    exact ⟨rfl, fun _ => Keeps.refl _⟩
  | cons step steps ih =>
    obtain ⟨hfirst, hrest⟩ := List.pairwise_cons.1 horder
    rw [performAll] at hperform
    rcases hresult : perform checkout current tree step with ⟨changed, failure | ⟨⟨⟩⟩⟩
    · simp [hresult] at hperform
    rw [hresult] at hperform
    obtain ⟨hchanged, hshape, hkeeps⟩ := h.perform_eq_ok (hsteps step (by simp))
      (fun source group entry edit hmem => hlists source group entry edit
        (by simp [List.mem_singleton.1 hmem])) hresult
    rcases steps with _ | ⟨next, steps⟩
    · cases hperform
      exact ⟨hchanged, fun hmove => hkeeps (hmove step (by simp))⟩
    have hkept := hkeeps (hfirst next (by simp)).1
    -- Where an edit is still to come, this step was one, so the lists are found where they were.
    have hlistsAfter : checkout.ListsAt current changed listAt? (next :: steps) := by
      intro source group entry edit hmem location hfind
      have hedit := (hfirst _ hmem).2 rfl
      rw [(hshape hedit).find_eq] at hfind
      exact hlists source group entry edit (List.mem_cons_of_mem step hmem) location hfind
    obtain ⟨hafter, hkeepsAll⟩ := ih (h.of_keeps hkept)
      (fun other hother => hsteps other (List.mem_cons_of_mem step hother)) hrest hlistsAfter
      hperform
    refine ⟨?_, fun hmove => hkept.trans (hkeepsAll fun other hother => ?_)⟩
    · rw [hafter, hchanged]
      rfl
    · exact hmove other (List.mem_cons_of_mem step hother)

/-! ## The steps of an operation -/

/-- The steps that move a file to another tree, where some other trees lose the file as well. -/
def stepsWith (others : List SourceTree) (source : SourceTree) (file : Text) (target : SourceTree)
    (targetFile : Text) (old new : ListedPath) : List UnifyStep :=
  (others ++ [source]).map (fun tree => .toggle tree old.group old.entry .comment) ++
    .toggle target new.group new.entry .uncomment ::
      (others.map (fun tree => .delete tree file) ++ placing source file target targetFile)

/-- The trees besides the source that lose their copies in an operation. -/
def Others : OperationKind → SourceTree → List SourceTree → Prop
  | .unify, source, others => ∃ other, source.counterpart = .ok other ∧ others = [other]
  | .move, _, others => others = []

/-- An operation that can be split into steps has these, and its paths have groups. -/
theorem stepsOf_eq_stepsWith {steps : List UnifyStep}
    (h : stepsOf kind source file target targetFile = .ok steps) :
    ∃ others old new, Others kind source others ∧ ListedPath.ofText file = .ok old ∧
      ListedPath.ofText targetFile = .ok new ∧
      steps = stepsWith others source file target targetFile old new := by
  cases kind with
  | unify =>
    obtain ⟨_, -, h⟩ := bind_eq_ok_iff.1 h
    obtain ⟨other, hother, h⟩ := bind_eq_ok_iff.1 h
    obtain ⟨old, hold, h⟩ := bind_eq_ok_iff.1 h
    obtain ⟨new, hnew, h⟩ := bind_eq_ok_iff.1 h
    cases h
    exact ⟨[other], old, new, ⟨other, hother, rfl⟩, hold, hnew, rfl⟩
  | move =>
    obtain ⟨_, -, h⟩ := bind_eq_ok_iff.1 h
    obtain ⟨old, hold, h⟩ := bind_eq_ok_iff.1 h
    obtain ⟨new, hnew, h⟩ := bind_eq_ok_iff.1 h
    cases h
    exact ⟨[], old, new, rfl, hold, hnew, rfl⟩

theorem mem_stepsWith {others : List SourceTree} {old new : ListedPath} :
    step ∈ stepsWith others source file target targetFile old new ↔
      (∃ tree ∈ others ++ [source], step = .toggle tree old.group old.entry .comment) ∨
      step = .toggle target new.group new.entry .uncomment ∨
      (∃ tree ∈ others, step = .delete tree file) ∨ step = .prepare target targetFile ∨
      step = .move source file target targetFile := by
  simp only [stepsWith, placing, List.mem_append, List.mem_cons, List.mem_map, List.not_mem_nil,
    or_false, eq_comm (a := step)]

/-- The last step of an operation is the move. -/
theorem exists_stepsWith_eq_concat (others : List SourceTree) (source : SourceTree) (file : Text)
    (target : SourceTree) (targetFile : Text) (old new : ListedPath) :
    ∃ front, stepsWith others source file target targetFile old new =
      front ++ [.move source file target targetFile] := by
  refine ⟨(others ++ [source]).map (fun tree => .toggle tree old.group old.entry .comment) ++
    .toggle target new.group new.entry .uncomment ::
      (others.map (fun tree => .delete tree file) ++ [.prepare target targetFile]), ?_⟩
  simp [stepsWith, placing]

theorem inOrder_stepsWith (others : List SourceTree) (old new : ListedPath) :
    InOrder (stepsWith others source file target targetFile old new) := by
  rw [InOrder, stepsWith, List.pairwise_append, List.pairwise_cons, List.pairwise_append,
    List.pairwise_map, List.pairwise_map]
  -- Every edit may be followed by anything, and every other step by what is no edit.
  refine ⟨List.pairwise_of_forall fun _ _ => ⟨rfl, fun _ => rfl⟩, ⟨fun _ _ => ⟨rfl, fun _ => rfl⟩,
    List.pairwise_of_forall fun _ _ => ⟨rfl, fun hedit => hedit⟩,
    List.pairwise_pair.2 ⟨rfl, fun hedit => hedit⟩, ?_⟩, ?_⟩
  · intro first hfirst second hsecond
    obtain ⟨other, -, rfl⟩ := List.mem_map.1 hfirst
    have hrest : second.isEdit = false := by
      obtain rfl | hsecond := List.mem_cons.1 hsecond
      · rfl
      · rw [List.mem_singleton.1 hsecond]
        rfl
    exact ⟨rfl, fun hedit => absurd hedit (by simp [hrest])⟩
  · intro first hfirst second _
    obtain ⟨tree, -, rfl⟩ := List.mem_map.1 hfirst
    exact ⟨rfl, fun _ => rfl⟩

/-- In trees that an operation uses, its steps lead straight down. -/
theorem leadsDown_of_mem_stepsWith {others : List SourceTree} {old new : ListedPath}
    (hothers : ∀ other ∈ others, other ∈ used) (hsource : source ∈ used) (htarget : target ∈ used)
    (hne : step.isMove = true → source ≠ target)
    (hplain : ∀ name ∈ Text.pieces file '/', Path.IsPlain name)
    (htargetPlain : ∀ name ∈ Text.pieces targetFile '/', Path.IsPlain name)
    (hnew : ListedPath.ofText targetFile = .ok new)
    (hstep : step ∈ stepsWith others source file target targetFile old new) :
    step.LeadsDown used := by
  obtain ⟨tree, -, rfl⟩ | rfl | ⟨other, hother, rfl⟩ | rfl | rfl := mem_stepsWith.1 hstep
  · exact trivial
  · exact trivial
  · exact ⟨hothers other hother, hplain⟩
  · obtain ⟨before, last, hbefore, hpieces⟩ := exists_pieces_of_ofText hnew
    refine ⟨htarget, htargetPlain, ?_⟩
    have hpositive := List.length_pos_iff.2 hbefore
    rw [hpieces, List.length_append, List.length_singleton]
    omega
  · exact ⟨hsource, htarget, hne rfl, hplain, htargetPlain⟩

end Unify

end EngineUpkeep
