import EngineUpkeep.Proofs.Unify.Independence
import Mathlib.Data.List.Pairwise
import Mathlib.Data.List.Perm.Basic

/-!
# The order of independent operations

A plan whose operations do not get in each other's way leaves the same file tree, with the same
seals, in any order in which it can be carried out (`entryAt?_run_of_perm`). Each operation that can
be carried out has its effect (`Descends.run`), and the effects of independent operations commute.

A directory that is moved away can be one that the root of a tree leads through, so a root is not
known to be there in later trees. But an operation edits its lists first, and where a list is found
the root is where it has been (`Descends.standing`).
-/

namespace EngineUpkeep

open FileTree

variable {checkout : Checkout} {current : Location} {start tree after : FileTree}
  {bases : SourceTree → Location} {used : List SourceTree}

/-! ## Build lists with a plain name -/

/-- The build list of a group is below the root of its tree. -/
theorem Checkout.listPath_eq_below {group : Text} (hgroup : Path.IsPlain group)
    (hlist : Path.IsPlain checkout.listName) (source : SourceTree) :
    checkout.listPath source group =
      (checkout.rootOf source).below [group, checkout.listName] := by
  have hbelow : ((checkout.rootOf source).below [group]).below [checkout.listName] =
      (checkout.rootOf source).below ([group] ++ [checkout.listName]) :=
    Path.below_below (by simp) (by simpa using hgroup) (by simp) (by simpa using hlist)
  exact hbelow

namespace Unify

/-- Steps that can all be done have found the lists that they edit before anything else. -/
theorem exists_find_of_performAll {edits rest : List UnifyStep}
    (hedits : ∀ step ∈ edits, step.isEdit = true)
    (hperform : performAll checkout current tree (edits ++ rest) = (after, .ok ()))
    {source : SourceTree} {group entry : Text} {edit : LineEdit}
    (hmem : .toggle source group entry edit ∈ edits) :
    ∃ location, tree.find current (checkout.listPath source group) = .ok location := by
  induction edits generalizing tree with
  | nil => cases hmem
  | cons step edits ih =>
    rw [List.cons_append, performAll] at hperform
    rcases hresult : perform checkout current tree step with ⟨changed, failure | ⟨⟨⟩⟩⟩
    · simp [hresult] at hperform
    rw [hresult] at hperform
    cases step with
    | toggle source' group' entry' edit' =>
      obtain ⟨location, hfind, -, hshape, -⟩ := perform_toggle_eq_ok hresult
      obtain heq | hrest := List.mem_cons.1 hmem
      · cases heq
        exact ⟨location, hfind⟩
      · -- The edit has left the ways to the other lists.
        obtain ⟨location', hfind'⟩ :=
          ih (fun other hother => hedits other (List.mem_cons_of_mem _ hother)) hperform hrest
        exact ⟨location', (hshape.find_eq _ _).symm.trans hfind'⟩
    | delete source' file => cases hedits _ List.mem_cons_self
    | prepare target file => cases hedits _ List.mem_cons_self
    | move source' file target targetFile => cases hedits _ List.mem_cons_self

/-! ## Trees while a plan is carried out -/

/-- What has become of a file tree by operations: links have not come, and the directories and links
that there were are still there, but for directories that have gone from the variants. -/
structure Descends (bases : SourceTree → Location) (start tree : FileTree) : Prop where
  /-- Every entry stands in a directory. -/
  closed : IsClosed tree
  /-- What has gone was a directory of a variant. -/
  ways : ∀ location entry, start.entryAt? location = some entry → entry.isFile = false →
    tree.entryAt? location = some entry ∨ tree.entryAt? location = none ∧ entry = .directory ∧
      ∃ variant ∈ SourceTree.variants, bases variant <+: location
  /-- No links have come. -/
  links : ∀ location link, tree.entryAt? location = some (.link link) →
    start.entryAt? location = some (.link link)

theorem Descends.refl (hclosed : IsClosed tree) : Descends bases tree tree :=
  ⟨hclosed, fun _ _ h _ => .inl h, fun _ _ h => h⟩

theorem Descends.losesWays (h : Descends bases start tree) : LosesWays start tree :=
  fun location entry hentry hfile => (h.ways location entry hentry hfile).imp_right And.left

theorem Descends.of_keeps (h : Descends bases start tree) (hkeeps : Keeps tree after) :
    Descends bases start after := by
  refine ⟨hkeeps.closed h.closed, fun location entry hentry hfile => ?_,
    fun location link hlink => h.links location link (hkeeps.links location link hlink)⟩
  obtain hstays | ⟨hgone, rfl, hvariant⟩ := h.ways location entry hentry hfile
  · exact .inl (hkeeps.ways location entry hstays hfile)
  · obtain hnone | hdirectory := hkeeps.vacant location hgone
    · exact .inr ⟨hnone, rfl, hvariant⟩
    · exact .inl hdirectory

section Standing

variable (hstart : Standing checkout current start bases SourceTree.all)
  (h : Descends bases start tree)
include hstart h

/-- What moves is taken from a variant, and what is at its new place takes the place of at most an
empty directory. -/
theorem Descends.of_movedTo {source : SourceTree} {file targetFile : Text}
    (hvariant : source ∈ SourceTree.variants)
    (hmoved : MovedTo tree after (placeOf bases source file) (placeOf bases .core targetFile)) :
    Descends bases start after := by
  have hno : ∀ tree' location link, bases tree' <+: location →
      tree.entryAt? location ≠ some (.link link) := fun tree' location link hbase hlink =>
    hstart.no_link tree' location link hbase (h.links location link hlink)
  have hne := SourceTree.ne_core_of_mem_variants hvariant
  refine ⟨hmoved.isClosed h.closed (hstart.not_prefix hne file targetFile)
    (hstart.not_prefix hne.symm targetFile file), fun location entry hentry hfile => ?_,
    fun location link hlink => ?_⟩
  · rw [hmoved.entryAt?_eq, moved]
    obtain hstays | ⟨hgone, rfl, hinside⟩ := h.ways location entry hentry hfile
    · by_cases htarget : placeOf bases .core targetFile <+: location
      · -- Nothing is below the new place, and only a directory takes the place of a directory.
        obtain rfl : placeOf bases .core targetFile = location := by
          by_contra hother
          cases (hmoved.not_below location htarget hother).symm.trans hstays
        obtain rfl : entry = .directory := by
          rcases entry with _ | ⟨content, runnable⟩ | link
          · rfl
          · cases hfile
          · exact absurd hstays (hno .core _ link (prefix_placeOf bases .core targetFile))
        rw [if_pos htarget, List.drop_length, List.append_nil]
        exact .inl (hmoved.directory hstays)
      · rw [if_neg htarget]
        by_cases hsource : placeOf bases source file <+: location
        · have hbase := (prefix_placeOf bases source file).trans hsource
          rw [if_pos hsource]
          refine .inr ⟨rfl, ?_, source, hvariant, hbase⟩
          rcases entry with _ | ⟨content, runnable⟩ | link
          · rfl
          · cases hfile
          · exact absurd hstays (hno source _ link hbase)
        · rw [if_neg hsource]
          exact .inl hstays
    · -- The place of a directory that has gone is in a variant, so nothing comes to it.
      obtain ⟨variant, hmem, hbase⟩ := hinside
      have hnotTarget : ¬ placeOf bases .core targetFile <+: location := fun hwithin =>
        SourceTree.ne_core_of_mem_variants hmem (hstart.eq_of_prefix hbase
          ((prefix_placeOf bases .core targetFile).trans hwithin))
      rw [if_neg hnotTarget, hgone, ite_self]
      exact .inr ⟨rfl, rfl, variant, hmem, hbase⟩
  · rw [hmoved.entryAt?_eq, moved] at hlink
    by_cases htarget : placeOf bases .core targetFile <+: location
    · rw [if_pos htarget] at hlink
      exact absurd hlink (hno source _ link
        ((prefix_placeOf bases source file).trans (List.prefix_append _ _)))
    · rw [if_neg htarget] at hlink
      split at hlink
      · cases hlink
      · exact h.links location link hlink

/-- Trees in which lists are still found stand where they have stood. -/
theorem Descends.standing (hlist : Path.IsPlain checkout.listName)
    (hfound : ∀ source ∈ used, ∃ group, Path.IsPlain group ∧
      ∃ location, tree.find current (checkout.listPath source group) = .ok location) :
    Standing checkout current tree bases used := by
  refine ⟨h.closed, hstart.apart, fun source location link hbase hlink =>
    hstart.no_link source location link hbase (h.links location link hlink), fun source hused => ?_⟩
  obtain ⟨group, hgroup, location, hfind⟩ := hfound source hused
  obtain ⟨root, anchor, names, hroot, hnames, hlinks, hpath, hbase⟩ :=
    hstart.stands source (SourceTree.mem_all source)
  have hplain : ∀ name ∈ [group, checkout.listName], Path.IsPlain name := by
    simpa using ⟨hgroup, hlist⟩
  have hall : ∀ name ∈ names ++ [group, checkout.listName], Path.IsPlain name := fun name hname =>
    (List.mem_append.1 hname).elim (hnames name) (hplain name)
  rw [Checkout.listPath_eq_below hgroup hlist, hpath,
    Path.below_within hnames (by simp) hplain] at hfind
  exact ⟨root, anchor, names, hroot.of_losesWays h.losesWays h.closed (by simp) hall hfind, hnames,
    fun other link habove hbelow hlink => hlinks other link habove hbelow (h.links other link hlink),
    hpath, hbase⟩

end Standing

/-- A list that is found stands at its place. -/
theorem Standing.eq_of_find_listPath (h : Standing checkout current tree bases used)
    {source : SourceTree} (hused : source ∈ used) {group : Text} (hgroup : Path.IsPlain group)
    (hlist : Path.IsPlain checkout.listName) {location : Location}
    (hfind : tree.find current (checkout.listPath source group) = .ok location) :
    location = bases source ++ [group, checkout.listName] := by
  obtain ⟨root, anchor, more, hroot, hnames, hlinks, hpath, hplace⟩ :=
    (h.stands source hused).exists_below (h.no_link source)
      (List.cons_ne_nil group [checkout.listName]) (by simpa using ⟨hgroup, hlist⟩)
  rw [Checkout.listPath_eq_below hgroup hlist] at hfind
  have hstraight : StraightTo tree current
      ((checkout.rootOf source).below [group, checkout.listName])
      (bases source ++ [group, checkout.listName]) :=
    ⟨root, anchor, _, hroot, by simp, hnames, hlinks, hpath, hplace⟩
  exact hstraight.eq_of_find hfind

/-- Before the steps of an operation can all be done, its lists stand at their places, and so do the
trees that it uses. -/
theorem Descends.standing_of_performAll (hstart : Standing checkout current start bases SourceTree.all)
    (h : Descends bases start tree) (hlist : Path.IsPlain checkout.listName)
    {others : List SourceTree} {source : SourceTree} {file targetFile : Text} {old new : ListedPath}
    (hold : Path.IsPlain old.group) (hnew : Path.IsPlain new.group)
    (hperform : performAll checkout current tree
      (stepsWith others source file .core targetFile old new) = (after, .ok ())) :
    Standing checkout current tree bases (others ++ [source, .core]) ∧
      checkout.ListsAt current tree (Operation.listPlace bases checkout.listName)
        (stepsWith others source file .core targetFile old new) := by
  have hstanding : Standing checkout current tree bases (others ++ [source, .core]) := by
    -- The lists are edited first, so all of them were found in trees that have lost nothing yet.
    have hedits : stepsWith others source file .core targetFile old new =
        ((others ++ [source]).map (fun tree => .toggle tree old.group old.entry .comment) ++
          [.toggle .core new.group new.entry .uncomment]) ++
        (others.map (fun tree => .delete tree file) ++ placing source file .core targetFile) := by
      simp [stepsWith]
    rw [hedits] at hperform
    have hedit : ∀ step ∈ (others ++ [source]).map
        (fun tree => UnifyStep.toggle tree old.group old.entry .comment) ++
          [UnifyStep.toggle .core new.group new.entry .uncomment], step.isEdit = true := by
      intro step hstep
      obtain hcomment | hcore := List.mem_append.1 hstep
      · obtain ⟨_, -, rfl⟩ := List.mem_map.1 hcomment
        rfl
      · rw [List.mem_singleton.1 hcore]
        rfl
    refine h.standing hstart hlist fun used hused => ?_
    rw [List.append_cons, List.mem_append] at hused
    obtain hvariant | hcore := hused
    · exact ⟨old.group, hold, exists_find_of_performAll hedit hperform
        (List.mem_append_left _ (List.mem_map_of_mem hvariant))⟩
    · obtain rfl := List.mem_singleton.1 hcore
      exact ⟨new.group, hnew, exists_find_of_performAll hedit hperform
        (List.mem_append_right _ List.mem_cons_self)⟩
  refine ⟨hstanding, fun source' group entry edit hmem location hfind => ?_⟩
  -- A list that is found is at its place, since its tree stands at its base.
  obtain ⟨hused, hgroup⟩ : source' ∈ others ++ [source, .core] ∧ Path.IsPlain group := by
    obtain ⟨variant, hvariant, heq⟩ | heq | ⟨_, -, heq⟩ | heq | heq := mem_stepsWith.1 hmem
    · cases heq
      exact ⟨by rw [List.append_cons]; exact List.mem_append_left _ hvariant, hold⟩
    · cases heq
      exact ⟨by simp, hnew⟩
    · cases heq
    · cases heq
    · cases heq
  rw [hstanding.eq_of_find_listPath hused hgroup hlist hfind]
  rfl

/-- Steps that can all be done, of which only the last one moves something, and that from a variant.
The seals go with it. -/
theorem Descends.of_performAll (hstart : Standing checkout current start bases SourceTree.all)
    (h : Descends bases start tree) (hstanding : Standing checkout current tree bases used)
    {listAt? : SourceTree → Text → Option Location} {front : List UnifyStep} {source : SourceTree}
    {file targetFile : Text} (hvariant : source ∈ SourceTree.variants)
    (hleads : ∀ step ∈ front ++ [.move source file .core targetFile], step.LeadsDown used)
    (horder : InOrder (front ++ [.move source file .core targetFile]))
    (hlists : checkout.ListsAt current tree listAt? (front ++ [.move source file .core targetFile]))
    (hperform : performAll checkout current tree (front ++ [.move source file .core targetFile]) =
      (after, .ok ())) :
    Descends bases start after ∧ after.isSealed = moved false tree.isSealed
      (placeOf bases source file) (placeOf bases .core targetFile) := by
  rw [performAll_append] at hperform
  rcases hfront : performAll checkout current tree front with ⟨middle, failure | ⟨⟨⟩⟩⟩
  · simp [hfront] at hperform
  simp only [hfront, performAll] at hperform
  obtain ⟨hfrontOrder, -, hbefore⟩ := List.pairwise_append.1 horder
  obtain ⟨-, hkeeps⟩ := hstanding.performAll_eq_ok
    (fun step hstep => hleads step (List.mem_append_left _ hstep)) hfrontOrder
    (fun source' group entry edit hmem => hlists source' group entry edit
      (List.mem_append_left _ hmem)) hfront
  have hkept := hkeeps fun step hstep => (hbefore step hstep _ List.mem_cons_self).1
  obtain ⟨hsource, htarget, hne, hplain, htargetPlain⟩ :=
    hleads _ (List.mem_append_right _ List.mem_cons_self)
  rcases hmove : perform checkout current middle (.move source file .core targetFile) with
    ⟨changed, failure | ⟨⟨⟩⟩⟩
  · simp [hmove] at hperform
  · rw [hmove] at hperform
    cases hperform
    have hmoved := (hstanding.of_keeps hkept).perform_move hsource htarget hne hplain htargetPlain
      hmove
    refine ⟨(h.of_keeps hkept).of_movedTo hstart hvariant hmoved, ?_⟩
    rw [← hkept.isSealed_eq]
    exact funext hmoved.isSealed_eq

end Unify

open Unify

theorem Operation.run_eq (checkout : Checkout) (current : Location) (tree : FileTree)
    (operation : Operation) :
    operation.run checkout current tree = performIf checkout current tree operation.steps := by
  rw [run, steps]
  cases operation.kind <;> rfl

section Plan

variable (hstart : Standing checkout current start bases SourceTree.all)
  (hlist : Path.IsPlain checkout.listName)
include hstart hlist

/-- An operation that can be carried out has its effect, takes seals with it, and what has become of
a tree before has become of it then. -/
theorem Unify.Descends.run (h : Descends bases start tree) {operation : Operation}
    (hregular : operation.IsRegular checkout.listName)
    (hrun : operation.run checkout current tree = (after, .ok ())) :
    after.entryAt? =
        operation.effect bases (Operation.listPlace bases checkout.listName) tree.entryAt? ∧
      after.isSealed = operation.sealsAfter bases tree.isSealed ∧
      Descends bases start after := by
  rw [Operation.run_eq] at hrun
  rcases hsteps : operation.steps with failure | steps
  · simp [hsteps, performIf] at hrun
  rw [hsteps, performIf] at hrun
  rw [Operation.effect_eq_effects hsteps]
  obtain ⟨others, old, new, hothers, hold, hnew, rfl⟩ := stepsOf_eq_stepsWith hsteps
  have hplain : ∀ name ∈ Text.pieces operation.file '/', Path.IsPlain name :=
    hregular.plain (operation.source, operation.file) List.mem_cons_self
  have htargetPlain : ∀ name ∈ Text.pieces operation.destination '/', Path.IsPlain name :=
    hregular.plain (.core, operation.destination) (List.mem_cons_of_mem _ List.mem_cons_self)
  obtain ⟨hstanding, hlists⟩ := h.standing_of_performAll hstart hlist
    (hplain old.group (by rw [pieces_of_ofText hold]; exact List.mem_cons_self))
    (htargetPlain new.group (by rw [pieces_of_ofText hnew]; exact List.mem_cons_self)) hrun
  have hne := SourceTree.ne_core_of_mem_variants hregular.variant
  have hleads : ∀ step ∈ stepsWith others operation.source operation.file .core
      operation.destination old new, step.LeadsDown (others ++ [operation.source, .core]) :=
    fun step hstep => leadsDown_of_mem_stepsWith (fun other hother => List.mem_append_left _ hother)
      (by simp) (by simp) (fun _ => hne) hplain htargetPlain hnew hstep
  have horder : InOrder (stepsWith others operation.source operation.file .core
      operation.destination old new) := inOrder_stepsWith others old new
  refine ⟨(hstanding.performAll_eq_ok hleads horder hlists hrun).1, ?_⟩
  obtain ⟨front, hfront⟩ := exists_stepsWith_eq_concat others operation.source operation.file .core
    operation.destination old new
  rw [hfront] at hleads horder hlists hrun
  exact (h.of_performAll hstart hstanding hregular.variant hleads horder hlists hrun).symm

/-- A plan that can be carried out has the effects of its operations, one after the other. -/
theorem Unify.Descends.runPlan (h : Descends bases start tree) {plan : Plan}
    (hregular : ∀ operation ∈ plan, operation.IsRegular checkout.listName) {count : Nat}
    (hrun : plan.run checkout current tree = (after, .ok count)) :
    after.entryAt? = plan.foldl (fun entries operation =>
        operation.effect bases (Operation.listPlace bases checkout.listName) entries)
          tree.entryAt? ∧
      after.isSealed =
        plan.foldl (fun seals operation => operation.sealsAfter bases seals) tree.isSealed := by
  induction plan generalizing tree count with
  | nil =>
    cases hrun
    exact ⟨rfl, rfl⟩
  | cons operation plan ih =>
    rw [Plan.run] at hrun
    rcases hoperation : operation.run checkout current tree with ⟨changed, failure | ⟨⟨⟩⟩⟩
    · simp [hoperation] at hrun
    rcases hrest : Plan.run checkout current changed plan with ⟨last, failure | count'⟩
    · simp [hoperation, hrest] at hrun
    simp only [hoperation, hrest] at hrun
    cases hrun
    obtain ⟨hchanged, hseals, hdescends⟩ := h.run hstart hlist
      (hregular operation List.mem_cons_self) hoperation
    rw [List.foldl_cons, List.foldl_cons, ← hchanged, ← hseals]
    exact ih hdescends (fun other hother => hregular other (List.mem_cons_of_mem _ hother)) hrest

end Plan

/-- A plan of independent operations leaves the same file tree in any order in which it can be
carried out. -/
theorem Plan.entryAt?_run_of_perm (hstart : Standing checkout current start bases SourceTree.all)
    (hlist : Path.IsPlain checkout.listName) {plan plan' : Plan}
    (hregular : ∀ operation ∈ plan, operation.IsRegular checkout.listName)
    (hindependent : plan.Pairwise Operation.Independent) (hperm : plan.Perm plan')
    {after after' : FileTree} {count count' : Nat}
    (hrun : plan.run checkout current start = (after, .ok count))
    (hrun' : plan'.run checkout current start = (after', .ok count')) :
    after.entryAt? = after'.entryAt? ∧ after.isSealed = after'.isSealed := by
  have hrefl : Descends bases start start := Descends.refl hstart.closed
  obtain ⟨hentries, hseals⟩ := hrefl.runPlan hstart hlist hregular hrun
  obtain ⟨hentries', hseals'⟩ := hrefl.runPlan hstart hlist
    (fun other hother => hregular other (hperm.mem_iff.2 hother)) hrun'
  -- Two operations of the plan are independent, unless they are one.
  have hpair : ∀ first ∈ plan, ∀ second ∈ plan, first ≠ second →
      Operation.Independent first second := fun _ hfirst _ hsecond hne =>
    hindependent.forall hfirst hsecond hne
  rw [hentries, hentries', hseals, hseals']
  refine ⟨hperm.foldl_eq' (fun first hfirst second hsecond entries => ?_) _,
    hperm.foldl_eq' (fun first hfirst second hsecond seals => ?_) _⟩
  · by_cases hsame : first = second
    · rw [hsame]
    · exact Operation.effect_comm hstart.apart (hregular first hfirst) (hregular second hsecond)
        (hpair first hfirst second hsecond hsame) entries
  · by_cases hsame : first = second
    · rw [hsame]
    · exact Operation.sealsAfter_comm hstart.apart (hregular first hfirst)
        (hregular second hsecond) (hpair first hfirst second hsecond hsame) seals

/-! ## Two orders, and what is not covered -/

/-- It is enough to look at the files of an operation one by one. -/
theorem Operation.isRegular_of_touched {operation : Operation} {listName : Text}
    (hvariant : operation.source ∈ SourceTree.variants)
    (h : ∀ file ∈ operation.touched, (∀ name ∈ Text.pieces file.2 '/', Path.IsPlain name) ∧
      (∀ listed ∈ (ListedPath.ofText file.2).toOption, BuildList.IsAnchored listed.entry) ∧
      ∃ name ∈ (Text.pieces file.2 '/')[1]?, name ≠ listName) :
    operation.IsRegular listName where
  variant := hvariant
  plain file hfile := (h file hfile).1
  anchored file hfile listed hlisted := (h file hfile).2.1 listed (by rw [hlisted]; rfl)
  no_list file hfile group hwithin := by
    obtain ⟨-, -, name, hname, hne⟩ := h file hfile
    obtain ⟨hlength, rfl⟩ := List.getElem?_eq_some_iff.1 hname
    exact hne (hwithin.getElem hlength)

namespace Unify

/-- A file of both variants is unified, and another one is moved whose name begins with its name. -/
def nestedPlan : Plan :=
  [⟨.unify, .generals, "G/a", none⟩, ⟨.move, .generals, "G/ab", none⟩]

/-- The files of this plan, with a list that names both. -/
def nestedCopies : FileTree :=
  (withGroup [(["p", "Generals", "G", "a"], .file (.text "1") true),
    (["p", "Generals", "G", "ab"], .file (.text "2") true),
    (["p", "ZeroHour", "G", "a"], .file (.text "3") true)]).put
    ["p", "Generals", "G", "list"] (.file (.text "a\nab") false)

theorem standing_nestedCopies :
    Standing sideBySide ["p"] nestedCopies sideBySideBases SourceTree.all where
  closed := isClosed_of_entries (by decide +kernel)
  apart source other h := by
    revert h
    cases source <;> cases other <;> decide
  no_link _ location target _ := no_link_of_entries (by decide +kernel) location target
  stands source _ := by
    apply standsAt_of_rootAt
    cases source <;> exact ⟨by decide +kernel, by decide +kernel⟩

/-- In both orders the line of the longer name has a marker for each of the names. -/
theorem entryAt?_run_nestedPlan :
    (nestedPlan.run sideBySide ["p"] nestedCopies).2 = .ok 2 ∧
      (Plan.run sideBySide ["p"] nestedCopies nestedPlan.reverse).2 = .ok 2 ∧
      (nestedPlan.run sideBySide ["p"] nestedCopies).1.entryAt? =
        (Plan.run sideBySide ["p"] nestedCopies nestedPlan.reverse).1.entryAt? ∧
      (nestedPlan.run sideBySide ["p"] nestedCopies).1.isSealed =
        (Plan.run sideBySide ["p"] nestedCopies nestedPlan.reverse).1.isSealed ∧
      (nestedPlan.run sideBySide ["p"] nestedCopies).1.entryAt? (groupLists .generals) =
        some (.file (.text "#a\n##ab") false) := by
  have hrun : (nestedPlan.run sideBySide ["p"] nestedCopies).2 = .ok 2 := by decide +kernel
  have hrun' : (Plan.run sideBySide ["p"] nestedCopies nestedPlan.reverse).2 = .ok 2 := by
    decide +kernel
  have hregular : ∀ operation ∈ nestedPlan, operation.IsRegular sideBySide.listName := by
    intro operation hoperation
    obtain rfl | rfl : operation = ⟨.unify, .generals, "G/a", none⟩ ∨
        operation = ⟨.move, .generals, "G/ab", none⟩ := by
      simpa [nestedPlan] using hoperation
    all_goals exact Operation.isRegular_of_touched (by decide) (by decide +kernel)
  obtain ⟨hentries, hseals⟩ := Plan.entryAt?_run_of_perm standing_nestedCopies (by decide +kernel)
    hregular (by decide +kernel) (List.reverse_perm _).symm (by rw [← hrun]) (by rw [← hrun'])
  exact ⟨hrun, hrun', hentries, hseals, by decide +kernel⟩

/-- Two files are moved to places whose paths are not inside each other. -/
def linkedPlan : Plan :=
  [⟨.move, .generals, "G/a", some "G/x"⟩, ⟨.move, .generals, "G/b", some "H/x"⟩]

/-- The files of this plan, with a link in the core tree that makes one group of the two. -/
def linkedCopies : FileTree :=
  withGroup [(["p", "Generals", "G", "a"], .file (.text "1") true),
    (["p", "Generals", "G", "b"], .file (.text "2") true), (["p", "Core", "H"], .link ⟨"G"⟩)]

/-- Where there is a link, paths that are apart lead to one place, and the last file to be moved
there is left. -/
theorem run_ne_through_link :
    (IsClosed linkedCopies ∧
      (∀ source, RootAt linkedCopies ["p"] (sideBySide.rootOf source) (sideBySideBases source)) ∧
      (∀ source other, sideBySideBases source <+: sideBySideBases other → source = other)) ∧
    (∀ operation ∈ linkedPlan, operation.IsRegular sideBySide.listName) ∧
    linkedPlan.Pairwise Operation.Independent ∧ linkedPlan.Perm linkedPlan.reverse ∧
    (linkedPlan.run sideBySide ["p"] linkedCopies).2 = .ok 2 ∧
    (Plan.run sideBySide ["p"] linkedCopies linkedPlan.reverse).2 = .ok 2 ∧
    (linkedPlan.run sideBySide ["p"] linkedCopies).1.entryAt? ["p", "Core", "G", "x"] =
      some (.file (.text "2") true) ∧
    (Plan.run sideBySide ["p"] linkedCopies linkedPlan.reverse).1.entryAt? ["p", "Core", "G", "x"] =
      some (.file (.text "1") true) := by
  refine ⟨⟨isClosed_of_entries (by decide +kernel), fun source => ?_, fun source other => ?_⟩,
    fun operation hoperation => ?_, by decide +kernel, (List.reverse_perm _).symm,
    by decide +kernel, by decide +kernel, by decide +kernel, by decide +kernel⟩
  · cases source <;> exact ⟨by decide +kernel, by decide +kernel⟩
  · cases source <;> cases other <;> decide
  · obtain rfl | rfl : operation = ⟨.move, .generals, "G/a", some "G/x"⟩ ∨
        operation = ⟨.move, .generals, "G/b", some "H/x"⟩ := by
      simpa [linkedPlan] using hoperation
    all_goals exact Operation.isRegular_of_touched (by decide) (by decide +kernel)

end Unify

end EngineUpkeep
