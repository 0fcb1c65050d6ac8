import EngineUpkeep.Proofs.FileTree.Below
import EngineUpkeep.Proofs.Unify.Steps

/-!
# The effect of unifying a file

Where the three trees are apart, the build lists are three files, both variants have the file and no
seal is in the way, unifying it succeeds, and every location of the file tree has what
`entryAfterUnifying?` says: edited lists, no copies in the variants, the kept copy at its place in
the core tree, directories above it, and whatever was there everywhere else. The same directories
are sealed.

The steps are followed one after the other. The edits and the deletion leave a tree that is
`Cleared`, and in such a tree the kept copy can be placed (`CanUnify.performAll_placing`).
-/

namespace EngineUpkeep

open FileTree

namespace Unify

variable {checkout : Checkout} {current : Location} {tree : FileTree} {source other : SourceTree}
  {file targetFile : Text} {old new : ListedPath} {bases lists : SourceTree → Location}

/-- What stands at a location after the edits. -/
def entryAfterEdits? (tree : FileTree) (lists : SourceTree → Location) (source other : SourceTree)
    (old new : ListedPath) (location : Location) : Option Entry :=
  if location = lists other ∨ location = lists source then
    (tree.entryAt? location).map (Entry.toggled old.entry .comment)
  else if location = lists .core then
    (tree.entryAt? location).map (Entry.toggled new.entry .uncomment)
  else tree.entryAt? location

/-- What stands at a location after a file has been unified. -/
def entryAfterUnifying? (tree : FileTree) (bases lists : SourceTree → Location)
    (source other : SourceTree) (file targetFile : Text) (old new : ListedPath)
    (location : Location) : Option Entry :=
  if location = placeOf bases .core targetFile then tree.entryAt? (placeOf bases source file)
  else if location = placeOf bases source file ∨ location = placeOf bases other file then none
  else if bases .core <+: location ∧ location <+: placeOf bases .core targetFile then
    some .directory
  else entryAfterEdits? tree lists source other old new location

/-- What asks for a file to be unified: trees that are apart, a build list for each of them, a copy
in both variants, and a place for the copy that is kept. -/
structure Unifiable (checkout : Checkout) (current : Location) (tree : FileTree)
    (source other : SourceTree) (file targetFile : Text) (old new : ListedPath)
    (bases lists : SourceTree → Location) : Prop
    extends TreesApart checkout current tree bases where
  /-- The file tree hangs together. -/
  grounded : IsGrounded tree current
  /-- The source is a variant. -/
  counterpart : source.counterpart = .ok other
  /-- The file has a group. -/
  listed : ListedPath.ofText file = .ok old
  /-- The new file has a group. -/
  targetListed : ListedPath.ofText targetFile = .ok new
  /-- The path of the file leads straight down. -/
  plain : ∀ name ∈ Text.pieces file '/', Path.IsPlain name
  /-- The path of the new file leads straight down. -/
  targetPlain : ∀ name ∈ Text.pieces targetFile '/', Path.IsPlain name
  /-- Both variants have the file. -/
  copy : ∀ variant ∈ SourceTree.variants, (checkout.copy? current tree variant file).isSome
  /-- The build lists of the variants are there. -/
  variantList : ∀ variant ∈ SourceTree.variants,
    ListAt tree current (checkout.listPath variant old.group) (lists variant)
  /-- The build list of the core tree is there. -/
  coreList : ListAt tree current (checkout.listPath .core new.group) (lists .core)
  /-- No build list is a copy of the file. -/
  list_ne_copy : ∀ source, ∀ variant ∈ SourceTree.variants,
    lists source ≠ placeOf bases variant file
  /-- No build list is at the place of the new file. -/
  list_ne_target : ∀ source, lists source ≠ placeOf bases .core targetFile
  /-- No directory is at the place of the new file. -/
  target : tree.entryAt? (placeOf bases .core targetFile) ≠ some .directory
  /-- Whatever is above the place of the new file is a directory. -/
  above : ∀ location, bases .core <+: location → location <+: placeOf bases .core targetFile →
    location ≠ placeOf bases .core targetFile →
      tree.entryAt? location = none ∨ tree.entryAt? location = some .directory

/-- What lets a file be unified: what asks for it, three lists that are three files, a place that
the system can give to the new file, and no seals on what has to change. -/
structure CanUnify (checkout : Checkout) (current : Location) (tree : FileTree)
    (source other : SourceTree) (file targetFile : Text) (old new : ListedPath)
    (bases lists : SourceTree → Location) : Prop
    extends Unifiable checkout current tree source other file targetFile old new bases lists where
  /-- No two of the build lists are the same file. -/
  lists_apart : ∀ source other, lists source = lists other → source = other
  /-- Entries can have the names on the path of the new file. -/
  names : ∀ name ∈ Text.pieces targetFile '/', isName name = true
  /-- The path of the new file can be handed over. -/
  usable : (checkout.pathIn .core targetFile).isUsable = true
  /-- No seal keeps the copies. -/
  copy_free : ∀ variant ∈ SourceTree.variants, tree.Free (placeOf bases variant file)
  /-- No seal keeps the new file, or a directory above it, from being made where it is missing. -/
  target_free : ∀ location, bases .core <+: location → location <+: placeOf bases .core targetFile →
    tree.entryAt? location = none → tree.Free location

/-! ## The steps in turn -/

/-- The edits of the three lists. -/
def editSteps (source other : SourceTree) (old new : ListedPath) : List UnifyStep :=
  [.toggle other old.group old.entry .comment, .toggle source old.group old.entry .comment,
    .toggle .core new.group new.entry .uncomment]

/-- A step that can be done leaves the other steps to be carried out. -/
theorem performAll_cons {changed : FileTree} {step : UnifyStep} {steps : List UnifyStep}
    (h : perform checkout current tree step = (changed, .ok ())) :
    performAll checkout current tree (step :: steps) =
      performAll checkout current changed steps := by
  rw [performAll, h]

/-- Where no list is, there is no edit. -/
theorem entryAfterEdits?_of_ne {location : Location} (h : ∀ source, lists source ≠ location) :
    entryAfterEdits? tree lists source other old new location = tree.entryAt? location := by
  rw [entryAfterEdits?, if_neg, if_neg (h .core).symm]
  rintro (heq | heq)
  · exact h other heq.symm
  · exact h source heq.symm

section Steps

variable (h : CanUnify checkout current tree source other file targetFile old new bases lists)
include h

/-- The three lists are edited, each of them once. -/
theorem CanUnify.performAll_edits (rest : List UnifyStep) :
    ∃ edited, performAll checkout current tree (editSteps source other old new ++ rest) =
        performAll checkout current edited rest ∧
      SameShape tree edited ∧ edited.isSealed = tree.isSealed ∧
      ∀ location, edited.entryAt? location =
        entryAfterEdits? tree lists source other old new location := by
  obtain ⟨hne, hsource, hother⟩ := SourceTree.counterpart_cases h.counterpart
  have hcore : ∀ variant ∈ SourceTree.variants, lists .core ≠ lists variant := by
    intro variant hvariant heq
    exact SourceTree.ne_core_of_mem_variants hvariant (h.lists_apart _ _ heq).symm
  have hlists : lists source ≠ lists other := fun heq => hne (h.lists_apart _ _ heq)
  -- The three lists are different, so each of them is as it was until it is edited.
  obtain ⟨first, hfirst, hfirstShape, hfirstSeals, hfirstEntry⟩ :=
    (h.variantList other hother).perform_toggle h.grounded old.entry .comment
  have hfirstOf : ∀ location, location ≠ lists other →
      first.entryAt? location = tree.entryAt? location := fun location hlocation => by
    rw [hfirstEntry, if_neg hlocation]
  obtain ⟨second, hsecond, hsecondShape, hsecondSeals, hsecondEntry⟩ :=
    ((h.variantList source hsource).of_sameShape hfirstShape (hfirstOf _ hlists)).perform_toggle
      (hfirstShape.isGrounded h.grounded) old.entry .comment
  have hshape := hfirstShape.trans hsecondShape
  have hsecondOf : second.entryAt? (lists .core) = tree.entryAt? (lists .core) := by
    rw [hsecondEntry, if_neg (hcore source hsource), hfirstOf _ (hcore other hother)]
  obtain ⟨third, hthird, hthirdShape, hthirdSeals, hthirdEntry⟩ :=
    (h.coreList.of_sameShape hshape hsecondOf).perform_toggle (hshape.isGrounded h.grounded)
      new.entry .uncomment
  refine ⟨third, ?_, hshape.trans hthirdShape,
    hthirdSeals.trans (hsecondSeals.trans hfirstSeals), fun location => ?_⟩
  · rw [editSteps, List.cons_append, List.cons_append, List.cons_append, List.nil_append,
      performAll_cons hfirst, performAll_cons hsecond, performAll_cons hthird]
  · rw [hthirdEntry, hsecondEntry, hfirstEntry, entryAfterEdits?]
    by_cases hat : location = lists .core
    · subst hat
      simp [hcore source hsource, hcore other hother]
    · by_cases hatSource : location = lists source
      · subst hatSource
        simp [hat, hlists]
      · simp [hat, hatSource]

/-- Above the place of the new file there are directories, or they can be made. -/
theorem CanUnify.takesDirectory {location : Location} (hbase : bases .core <+: location)
    (htarget : location <+: placeOf bases .core targetFile)
    (hne : location ≠ placeOf bases .core targetFile) : tree.TakesDirectory location :=
  (h.above location hbase htarget hne).symm.imp_right fun hnone =>
    ⟨hnone, h.target_free location hbase htarget hnone⟩

/-- Preparing the place of the new file makes the directories above it. -/
theorem CanUnify.perform_prepare {before : FileTree} (hkeeps : KeepsWays tree before)
    (habove : ∀ location, bases .core <+: location →
      location <+: placeOf bases .core targetFile → location ≠ placeOf bases .core targetFile →
        before.TakesDirectory location) :
    ∃ after, perform checkout current before (.prepare .core targetFile) = (after, .ok ()) ∧
      Extends before after ∧ after.isSealed = before.isSealed ∧
      ∀ location, after.entryAt? location =
        if (bases .core <+: location ∧ location <+: placeOf bases .core targetFile) ∧
            location ≠ placeOf bases .core targetFile then some .directory
        else before.entryAt? location := by
  obtain ⟨names, last, hne, hpieces⟩ := exists_pieces_of_ofText h.targetListed
  have hroot := (h.root .core).of_keepsWays hkeeps
  have hplain : ∀ name ∈ names ++ [last], Path.IsPlain name := fun name hname =>
    Path.isPlain_of_isName (h.names name (hpieces ▸ hname))
  have husable := h.usable
  rw [pathIn_eq_below, hpieces] at husable
  have hplace : placeOf bases .core targetFile = bases .core ++ (names ++ [last]) := by
    rw [placeOf, hpieces]
  -- Strictly above the place there is nothing in the way, and these are the directories to make.
  have hways : ∀ location, bases .core <+: location → location <+: bases .core ++ names →
      before.TakesDirectory location := by
    intro location hbase hlocation
    obtain ⟨hwithin, hother⟩ := (prefix_above_iff last).1 hlocation
    rw [← hplace] at hwithin hother
    exact habove location hbase hwithin hother
  obtain ⟨after, hmake, hafter⟩ := hroot.makeDirectories_below hne
    (fun name hname => h.names name (hpieces ▸ List.mem_append_left [last] hname))
    (Path.isUsable_below hne hplain husable) hways
  refine ⟨after, ?_, ?_, ?_, fun location => ?_⟩
  · rw [perform, pathIn_eq_below, hpieces, Path.parent?_below hroot.text_ne_nil hne hplain]
    simp only [hmake]
    rfl
  · have hextends := extends_makeDirectories before current
      ((checkout.rootOf .core).below names)
    rwa [hmake] at hextends
  · have hseals := isSealed_makeDirectoriesAlong before current
      ((checkout.rootOf .core).below names).ancestors
    rwa [← makeDirectories, hmake] at hseals
  · rw [hafter, withDirectories, hplace]
    refine if_congr ?_ rfl rfl
    rw [prefix_above_iff last, and_assoc]

/-- With the lists edited, the other copy is deleted. -/
theorem CanUnify.perform_delete {edited : FileTree} (hshape : SameShape tree edited)
    (hseals : edited.isSealed = tree.isSealed) :
    perform checkout current edited (.delete other file) =
        (edited.erase (placeOf bases other file), .ok ()) ∧
      KeepsWays tree (edited.erase (placeOf bases other file)) ∧
      (edited.erase (placeOf bases other file)).isSealed = tree.isSealed := by
  obtain ⟨-, -, hother⟩ := SourceTree.counterpart_cases h.counterpart
  obtain ⟨hreaches, content, runnable, hentry⟩ := h.reaches h.plain (h.copy other hother)
  obtain ⟨content', runnable', hedited⟩ : ∃ content' runnable',
      edited.entryAt? (placeOf bases other file) = some (.file content' runnable') := by
    obtain hsame | ⟨_, content', _, runnable', -, hnew⟩ :=
      hshape.eq_or_file (placeOf bases other file)
    · exact ⟨content, runnable, hsame.trans hentry⟩
    · exact ⟨content', runnable', hnew⟩
  refine ⟨?_, hshape.keepsWays.trans (keepsWays_erase hedited rfl),
    (isSealed_erase (by simp [hedited])).trans hseals⟩
  have hdelete := ((hreaches.of_keepsWays hshape.keepsWays).delete_eq hedited).trans
    (if_pos ((free_iff hseals).2 (h.copy_free other hother)))
  rw [perform, pathIn_eq_below, hdelete]
  rfl

/-- What is left of a tree when the lists have been edited and the other copy is gone. -/
structure Cleared (tree : FileTree) (bases lists : SourceTree → Location)
    (source other : SourceTree) (file targetFile : Text) (old new : ListedPath)
    (cleared : FileTree) : Prop where
  /-- Directories and links are still there. -/
  keepsWays : KeepsWays tree cleared
  /-- The same directories are sealed. -/
  isSealed_eq : cleared.isSealed = tree.isSealed
  /-- The other copy is gone, and elsewhere there are the edits. -/
  entryAt?_eq : ∀ location, cleared.entryAt? location =
    if location = placeOf bases other file then none
    else entryAfterEdits? tree lists source other old new location
  /-- Above the place of the new file there are still directories, or they can be made. -/
  above : ∀ location, bases .core <+: location → location <+: placeOf bases .core targetFile →
    location ≠ placeOf bases .core targetFile → cleared.TakesDirectory location

/-- The lists are edited and the other copy is deleted. -/
theorem CanUnify.performAll_clear (rest : List UnifyStep) :
    ∃ cleared, performAll checkout current tree
        (editSteps source other old new ++ .delete other file :: rest) =
          performAll checkout current cleared rest ∧
      Cleared tree bases lists source other file targetFile old new cleared := by
  obtain ⟨-, -, hother⟩ := SourceTree.counterpart_cases h.counterpart
  obtain ⟨edited, hedits, hshape, hedits', hedited⟩ :=
    h.performAll_edits (.delete other file :: rest)
  obtain ⟨hdelete, hkeeps, hseals⟩ := h.perform_delete hshape hedits'
  have hentry : ∀ location, (edited.erase (placeOf bases other file)).entryAt? location =
      if location = placeOf bases other file then none else edited.entryAt? location :=
    fun location => entryAt?_erase _ _ _ (placeOf_ne_nil bases other file)
  refine ⟨_, hedits.trans (performAll_cons hdelete), hkeeps, hseals, fun location => ?_, ?_⟩
  · rw [hentry, hedited]
  · intro location hbase htarget hplace
    -- The other copy is not inside the core tree.
    have hne : location ≠ placeOf bases other file := fun heq =>
      SourceTree.ne_core_of_mem_variants hother
        (h.eq_of_prefix (heq ▸ prefix_placeOf bases other file) hbase)
    refine (h.takesDirectory hbase htarget hplace).of_eq ?_ hseals
    rw [hentry, if_neg hne, hshape.entryAt?_eq (h.above location hbase htarget hplace)]

/-- With the place prepared, the kept copy moves there. -/
theorem CanUnify.perform_move {before : FileTree} (hkeeps : KeepsWays tree before)
    (hseals : before.isSealed = tree.isSealed)
    (hcopy : before.entryAt? (placeOf bases source file) =
      tree.entryAt? (placeOf bases source file))
    (hplace : before.entryAt? (placeOf bases .core targetFile) =
      tree.entryAt? (placeOf bases .core targetFile))
    (habove : ∀ location, bases .core <+: location →
      location <+: placeOf bases .core targetFile → location ≠ placeOf bases .core targetFile →
        before.entryAt? location = some .directory) :
    ∃ after, perform checkout current before (.move source file .core targetFile) =
        (after, .ok ()) ∧
      after.isSealed = tree.isSealed ∧
      ∀ location, after.entryAt? location =
        if location = placeOf bases .core targetFile then
          tree.entryAt? (placeOf bases source file)
        else if location = placeOf bases source file then none
        else before.entryAt? location := by
  obtain ⟨-, hsource, -⟩ := SourceTree.counterpart_cases h.counterpart
  obtain ⟨hreaches, content, runnable, hentry⟩ := h.reaches h.plain (h.copy source hsource)
  have htarget : Reaches before current (checkout.rootOf .core) (bases .core)
      (Text.pieces targetFile '/') :=
    ⟨(h.root .core).of_keepsWays hkeeps, Text.pieces_ne_nil targetFile '/', h.names,
      pathIn_eq_below checkout .core targetFile ▸ h.usable, habove⟩
  have hne : placeOf bases source file ≠ placeOf bases .core targetFile :=
    h.placeOf_ne (SourceTree.ne_core_of_mem_variants hsource) file targetFile
  -- There is no link at the place of the new file, so nothing is there or a file to write over.
  have hover : before.Free (placeOf bases .core targetFile) ∨ ∃ content runnable,
      before.entryAt? (placeOf bases .core targetFile) = some (.file content runnable) := by
    rw [free_iff hseals, hplace]
    rcases hthere : tree.entryAt? (placeOf bases .core targetFile) with
      _ | (_ | ⟨content, runnable⟩ | target)
    · have hbelow := prefix_placeOf bases .core targetFile
      exact .inl (h.target_free _ hbelow (List.prefix_refl _) hthere)
    · exact absurd hthere h.target
    · exact .inr ⟨content, runnable, rfl⟩
    · exact absurd hthere (h.no_link .core _ target (prefix_placeOf bases .core targetFile))
  obtain ⟨after, hmove, hsealed, hafter⟩ := (hreaches.of_keepsWays hkeeps).moveEntry htarget
    (hcopy.trans hentry) hne (hplace ▸ h.target) ((free_iff hseals).2 (h.copy_free source hsource))
    hover
  refine ⟨after, ?_, hsealed.trans hseals, fun location => ?_⟩
  · rw [perform, pathIn_eq_below, pathIn_eq_below, hmove]
    rfl
  · rw [hentry]
    exact hafter location

/-- When the other copy is gone, the kept copy is placed, with directories above it. -/
theorem CanUnify.performAll_placing {cleared : FileTree}
    (hcleared : Cleared tree bases lists source other file targetFile old new cleared) :
    ∃ after, performAll checkout current cleared (placing source file .core targetFile) =
        (after, .ok ()) ∧
      after.isSealed = tree.isSealed ∧
      ∀ location, after.entryAt? location =
        if location = placeOf bases .core targetFile then tree.entryAt? (placeOf bases source file)
        else if location = placeOf bases source file then none
        else if bases .core <+: location ∧ location <+: placeOf bases .core targetFile then
          some .directory
        else cleared.entryAt? location := by
  obtain ⟨hne, hsource, hother⟩ := SourceTree.counterpart_cases h.counterpart
  have hsourceCore := SourceTree.ne_core_of_mem_variants hsource
  have hotherCore := SourceTree.ne_core_of_mem_variants hother
  obtain ⟨prepared, hprepare, hmore, hseals, hprepared⟩ :=
    h.perform_prepare hcleared.keepsWays hcleared.above
  -- Neither place is a list or the place of the other copy.
  have hcopy : prepared.entryAt? (placeOf bases source file) =
      tree.entryAt? (placeOf bases source file) := by
    rw [hprepared, if_neg, hcleared.entryAt?_eq, if_neg (h.placeOf_ne hne file file),
      entryAfterEdits?_of_ne fun list => h.list_ne_copy list source hsource]
    intro hbetween
    exact hsourceCore (h.eq_of_prefix (prefix_placeOf bases source file) hbetween.1.1)
  have hplace : prepared.entryAt? (placeOf bases .core targetFile) =
      tree.entryAt? (placeOf bases .core targetFile) := by
    rw [hprepared, if_neg (fun hbetween => hbetween.2 rfl), hcleared.entryAt?_eq,
      if_neg (h.placeOf_ne hotherCore.symm targetFile file),
      entryAfterEdits?_of_ne h.list_ne_target]
  obtain ⟨after, hmove, hsealed, hafter⟩ := h.perform_move
    (hcleared.keepsWays.trans hmore.keepsWays) (hseals.trans hcleared.isSealed_eq) hcopy hplace
    fun location hbase htarget hother => by rw [hprepared, if_pos ⟨⟨hbase, htarget⟩, hother⟩]
  refine ⟨after, ?_, hsealed, fun location => ?_⟩
  · rw [placing, performAll_cons hprepare, performAll_cons hmove, performAll]
  · rw [hafter, hprepared]
    by_cases hatPlace : location = placeOf bases .core targetFile
    · rw [if_pos hatPlace, if_pos hatPlace]
    · simp only [hatPlace, if_false, not_false_eq_true, ne_eq, and_true]

/-- Unifying a file succeeds and leaves every location as described, and the same directories
sealed. -/
theorem exists_unifyIntoCore_eq :
    ∃ after, unifyIntoCore checkout current tree source file .core targetFile = (after, .ok ()) ∧
      after.isSealed = tree.isSealed ∧
      ∀ location, after.entryAt? location =
        entryAfterUnifying? tree bases lists source other file targetFile old new location := by
  obtain ⟨-, -, hother⟩ := SourceTree.counterpart_cases h.counterpart
  have hsteps : unifySteps source file .core targetFile =
      .ok (editSteps source other old new ++
        .delete other file :: placing source file .core targetFile) := by
    rw [unifySteps, h.counterpart, h.listed, h.targetListed]
    rfl
  obtain ⟨cleared, hclear, hcleared⟩ :=
    h.performAll_clear (placing source file .core targetFile)
  obtain ⟨after, hplacing, hseals, hafter⟩ := h.performAll_placing hcleared
  refine ⟨after, ?_, hseals, fun location => ?_⟩
  · rw [unifyIntoCore, hsteps, performIf, hclear, hplacing]
  · rw [hafter, hcleared.entryAt?_eq, entryAfterUnifying?]
    by_cases hatPlace : location = placeOf bases .core targetFile
    · rw [if_pos hatPlace, if_pos hatPlace]
    rw [if_neg hatPlace, if_neg hatPlace]
    by_cases hatSource : location = placeOf bases source file
    · rw [if_pos hatSource, if_pos (.inl hatSource)]
    rw [if_neg hatSource]
    by_cases hatOther : location = placeOf bases other file
    · -- The place of the other copy is not inside the core tree.
      have hnot : ¬ bases .core <+: location := by
        intro hbase
        apply SourceTree.ne_core_of_mem_variants hother
        exact h.eq_of_prefix (hatOther ▸ prefix_placeOf bases other file) hbase
      rw [if_neg fun hbetween => hnot hbetween.1, if_pos hatOther, if_pos (.inr hatOther)]
    · rw [if_neg hatOther, if_neg (not_or.2 ⟨hatSource, hatOther⟩)]

end Steps

/-! ## A unified file, and what is not covered -/

/-- It is enough to look at the locations above a place one by one. -/
theorem above_of_take {base place : Location}
    (h : ∀ length < place.length, base <+: place.take length →
      tree.entryAt? (place.take length) = none ∨
        tree.entryAt? (place.take length) = some .directory)
    (location : Location) (hbase : base <+: location) (hplace : location <+: place)
    (hne : location ≠ place) :
    tree.entryAt? location = none ∨ tree.entryAt? location = some .directory := by
  have htake : location = place.take location.length := List.prefix_iff_eq_take.1 hplace
  have hlength : location.length < place.length :=
    Nat.lt_of_le_of_ne hplace.length_le fun heq => hne (hplace.eq_of_length heq)
  rw [htake]
  exact h location.length hlength (htake ▸ hbase)

/-- Both variants have the file `G/a`. -/
def bothCopies : FileTree :=
  withGroup [(["p", "Generals", "G", "a"], .file (.text "1") true),
    (["p", "ZeroHour", "G", "a"], .file (.text "2") false)]

/-- It can be asked for the file to be unified as any file of the group that is not there. -/
theorem unifiable_bothCopies {targetFile entry : Text}
    (hlisted : ListedPath.ofText targetFile = .ok ⟨"G", entry⟩)
    (hplain : ∀ name ∈ Text.pieces targetFile '/', Path.IsPlain name)
    (hlists : ∀ source, groupLists source ≠ placeOf sideBySideBases .core targetFile)
    (hvacant : bothCopies.entryAt? (placeOf sideBySideBases .core targetFile) = none)
    (habove : ∀ length < (placeOf sideBySideBases .core targetFile).length,
      sideBySideBases .core <+: (placeOf sideBySideBases .core targetFile).take length →
        bothCopies.entryAt? ((placeOf sideBySideBases .core targetFile).take length) = none ∨
        bothCopies.entryAt? ((placeOf sideBySideBases .core targetFile).take length) =
          some .directory) :
    Unifiable sideBySide ["p"] bothCopies .generals .zeroHour "G/a" targetFile ⟨"G", "a"⟩
      ⟨"G", entry⟩ sideBySideBases groupLists where
  root source := by
    cases source <;> exact ⟨by decide +kernel, by decide +kernel⟩
  apart source other h := by
    revert h
    cases source <;> cases other <;> decide
  no_link _ location target _ := no_link_of_entries (by decide +kernel) location target
  grounded := ⟨isClosed_of_entries (by decide +kernel), by decide +kernel⟩
  counterpart := rfl
  listed := rfl
  targetListed := hlisted
  plain := by decide +kernel
  targetPlain := hplain
  copy := by decide +kernel
  variantList variant hvariant := by
    obtain rfl | rfl : variant = .generals ∨ variant = .zeroHour := by
      simpa [SourceTree.variants] using hvariant
    all_goals exact ⟨by decide +kernel, "a", false, by decide +kernel⟩
  coreList := by
    show ListAt bothCopies ["p"] (sideBySide.listPath .core "G") (groupLists .core)
    exact ⟨by decide +kernel, "#a", false, by decide +kernel⟩
  list_ne_copy source variant hvariant := by
    cases source <;> revert hvariant <;> cases variant <;> decide +kernel
  list_ne_target := hlists
  target := by simp [hvacant]
  above := above_of_take habove

/-- The file can be unified under another name and in a directory that is still to be made. -/
theorem canUnify_bothCopies :
    CanUnify sideBySide ["p"] bothCopies .generals .zeroHour "G/a" "G/sub/b" ⟨"G", "a"⟩
      ⟨"G", "sub/b"⟩ sideBySideBases groupLists where
  toUnifiable := unifiable_bothCopies rfl (by decide +kernel)
    (fun source => by cases source <;> decide +kernel) (by decide +kernel) (by decide +kernel)
  lists_apart source other h := by
    revert h
    cases source <;> cases other <;> decide
  names := by decide +kernel
  usable := by decide +kernel
  copy_free := by decide +kernel
  target_free location _ _ _ := free_of_sealed rfl location

/-- The kept copy is in the new directory of the core tree, with the lists edited. -/
theorem exists_unifyIntoCore_new_directory :
    ∃ after, unifyIntoCore sideBySide ["p"] bothCopies .generals "G/a" .core "G/sub/b" =
        (after, .ok ()) ∧
      after.entryAt? ["p", "Core", "G", "sub", "b"] = some (.file (.text "1") true) ∧
      after.entryAt? ["p", "Core", "G", "sub"] = some .directory ∧
      after.entryAt? ["p", "Generals", "G", "a"] = none ∧
      after.entryAt? ["p", "ZeroHour", "G", "a"] = none ∧
      after.entryAt? (groupLists .generals) = some (.file (.text "#a") false) ∧
      after.entryAt? (groupLists .zeroHour) = some (.file (.text "#a") false) ∧
      after.entryAt? (groupLists .core) = some (.file (.text "#a") false) := by
  obtain ⟨after, hrun, -, hafter⟩ := exists_unifyIntoCore_eq canUnify_bothCopies
  refine ⟨after, hrun, ?_⟩
  simp only [hafter]
  decide +kernel

/-- A file of the group with a name of 256 bytes. -/
def longFile : Text :=
  "G/" ++ List.replicate 256 'a'

/-- A checkout in which every group of every tree has one and the same build list. -/
def sharedList : Checkout :=
  { sideBySide with listName := "/p/list" }

/-- The trees of `sharedList`. -/
def sharedCopies : FileTree :=
  { bothCopies with entries := (["p", "list"], .file (.text "a") false) :: bothCopies.entries }

/-- It can be asked for the file to be unified where the one list is the list of each tree. -/
theorem unifiable_sharedCopies :
    Unifiable sharedList ["p"] sharedCopies .generals .zeroHour "G/a" "G/a" ⟨"G", "a"⟩ ⟨"G", "a"⟩
      sideBySideBases fun _ => ["p", "list"] where
  root source := by
    cases source <;> exact ⟨by decide +kernel, by decide +kernel⟩
  apart source other h := by
    revert h
    cases source <;> cases other <;> decide
  no_link _ location target _ := no_link_of_entries (by decide +kernel) location target
  grounded := ⟨isClosed_of_entries (by decide +kernel), by decide +kernel⟩
  counterpart := rfl
  listed := rfl
  targetListed := rfl
  plain := by decide +kernel
  targetPlain := by decide +kernel
  copy := by decide +kernel
  variantList variant hvariant := by
    obtain rfl | rfl : variant = .generals ∨ variant = .zeroHour := by
      simpa [SourceTree.variants] using hvariant
    all_goals exact ⟨by decide +kernel, "a", false, by decide +kernel⟩
  coreList := ⟨by decide +kernel, "a", false, by decide +kernel⟩
  list_ne_copy _ variant _ := by cases variant <;> decide +kernel
  list_ne_target _ := by decide +kernel
  target := by decide +kernel
  above := above_of_take (by decide +kernel)

/-- What asks for a file to be unified does not depend on seals. -/
theorem Unifiable.with_sealed
    (h : Unifiable checkout current tree source other file targetFile old new bases lists)
    (sealed : List Location) :
    Unifiable checkout current { tree with sealed } source other file targetFile old new bases
      lists := by
  have hshape : SameShape tree { tree with sealed } := fun _ => rfl
  have hextends : Extends tree { tree with sealed } := fun _ _ hentry => hentry
  refine { h with
    root := fun source => (h.root source).of_keepsWays hshape.keepsWays
    grounded := hshape.isGrounded h.grounded
    copy := fun variant hvariant => ?_
    variantList := fun variant hvariant => (h.variantList variant hvariant).of_sameShape hshape rfl
    coreList := h.coreList.of_sameShape hshape rfl }
  obtain ⟨content, hcontent⟩ := Option.isSome_iff_exists.1 (h.copy variant hvariant)
  exact Option.isSome_iff_exists.2 ⟨content, copy?_of_extends hextends hcontent⟩

/-- The copies of the file, with the group of one tree sealed. -/
def sealedCopies (source : SourceTree) : FileTree :=
  { bothCopies with sealed := [placeOf sideBySideBases source "G"] }

/-- It can be asked for more than can be done. No entry can have a name of 256 bytes, plain as it
is. Where one file is the list of all three trees, that of the core tree is not just uncommented.
And no copy can be deleted, moved away or made in a directory that is sealed. -/
theorem not_unified_long_name_or_shared_list_or_sealed :
    (Unifiable sideBySide ["p"] bothCopies .generals .zeroHour "G/a" longFile ⟨"G", "a"⟩
        ⟨"G", List.replicate 256 'a'⟩ sideBySideBases groupLists ∧
      (unifyIntoCore sideBySide ["p"] bothCopies .generals "G/a" .core longFile).2 =
        .error (.io .refused)) ∧
    (Unifiable sharedList ["p"] sharedCopies .generals .zeroHour "G/a" "G/a" ⟨"G", "a"⟩ ⟨"G", "a"⟩
        sideBySideBases (fun _ => ["p", "list"]) ∧
      sharedCopies.readText ["p"] (sharedList.listPath .core "G") = .ok "a" ∧
      (unifyIntoCore sharedList ["p"] sharedCopies .generals "G/a" .core "G/a").2 = .ok () ∧
      (unifyIntoCore sharedList ["p"] sharedCopies .generals "G/a" .core "G/a").1.readText ["p"]
        (sharedList.listPath .core "G") ≠ .ok (BuildList.toggle "a" .uncomment "a").1) ∧
    ∀ source, Unifiable sideBySide ["p"] (sealedCopies source) .generals .zeroHour "G/a" "G/b"
        ⟨"G", "a"⟩ ⟨"G", "b"⟩ sideBySideBases groupLists ∧
      (unifyIntoCore sideBySide ["p"] (sealedCopies source) .generals "G/a" .core "G/b").2 =
        .error (.io .refused) := by
  refine ⟨⟨?_, by decide +kernel⟩, ⟨unifiable_sharedCopies, by decide +kernel⟩, fun source =>
    ⟨.with_sealed ?_ _, by cases source <;> decide +kernel⟩⟩
  · exact unifiable_bothCopies (by decide +kernel) (by decide +kernel)
      (fun source => by cases source <;> decide +kernel) (by decide +kernel) (by decide +kernel)
  · exact unifiable_bothCopies rfl (by decide +kernel)
      (fun source => by cases source <;> decide +kernel) (by decide +kernel) (by decide +kernel)

end Unify

end EngineUpkeep
