import EngineUpkeep.Proofs.Unify.Effect
import EngineUpkeep.Proofs.Unify.Standing

/-!
# What a failure leaves

An operation that fails has done its steps up to one that cannot be done. Where the trees stand
apart and the paths lead straight down, what is left is the effect of the steps that have been done,
and what the one that cannot be done leaves (`LeavesFirst`): the directories that were made before
one that could not be made, or a copy of the file if this is kept by a seal. The copy to be kept has
not changed then, and what was at the destination has not changed either, unless it has become that
copy. A file that is moved changes nothing in the tree of the other variant, whether or not it
succeeds.
-/

namespace EngineUpkeep

open FileTree

/-- The location of the build list of a group, if there is one. -/
def Checkout.listAt? (checkout : Checkout) (current : Location) (tree : FileTree)
    (source : SourceTree) (group : Text) : Option Location :=
  (tree.find current (checkout.listPath source group)).toOption

namespace Unify

variable {checkout : Checkout} {current : Location} {tree after : FileTree}
  {kind : OperationKind} {source other : SourceTree} {file targetFile : Text}
  {steps : List UnifyStep} {failure : Failure} {bases : SourceTree → Location}
  {location : Location}

/-! ## Steps that fail -/

/-- Steps that fail have been done up to one that cannot be done. -/
theorem exists_first_of_performAll_error
    (h : performAll checkout current tree steps = (after, .error failure)) :
    ∃ done next rest middle, steps = done ++ next :: rest ∧
      performAll checkout current tree done = (middle, .ok ()) ∧
      perform checkout current middle next = (after, .error failure) := by
  induction steps generalizing tree with
  | nil => cases h
  | cons step steps ih =>
    rw [performAll] at h
    rcases hstep : perform checkout current tree step with ⟨changed, failure' | ⟨⟨⟩⟩⟩
    · rw [hstep] at h
      cases h
      exact ⟨[], step, steps, tree, rfl, rfl, hstep⟩
    · rw [hstep] at h
      obtain ⟨done, next, rest, middle, rfl, hdone, hnext⟩ := ih h
      refine ⟨step :: done, next, rest, middle, rfl, ?_, hnext⟩
      rw [performAll_cons hstep, hdone]

/-- A path without a group is refused for its shape. -/
theorem ofText_ne_io {text : Text} {fault : Fault} : ListedPath.ofText text ≠ .error (.io fault) := by
  intro h
  cases ListedPath.eq_pathShape_of_ofText h

/-- What is refused before the first step has nothing to do with files. -/
theorem stepsOf_ne_io {target : SourceTree} {fault : Fault} :
    stepsOf kind source file target targetFile ≠ .error (.io fault) := by
  have hcore : ensureCore target ≠ .error (.io fault) := by
    rw [ensureCore]
    split <;> simp
  have hcounterpart : source.counterpart ≠ .error (.io fault) := by
    cases source <;> simp [SourceTree.counterpart]
  intro h
  cases kind with
  | unify =>
    obtain h | ⟨_, -, h⟩ := bind_eq_error_iff.1 h
    · exact hcore h
    obtain h | ⟨_, -, h⟩ := bind_eq_error_iff.1 h
    · exact hcounterpart h
    obtain h | ⟨_, -, h⟩ := bind_eq_error_iff.1 h
    · exact ofText_ne_io h
    obtain h | ⟨_, -, h⟩ := bind_eq_error_iff.1 h
    · exact ofText_ne_io h
    · cases h
  | move =>
    obtain h | ⟨_, -, h⟩ := bind_eq_error_iff.1 h
    · exact hcore h
    obtain h | ⟨_, -, h⟩ := bind_eq_error_iff.1 h
    · exact ofText_ne_io h
    obtain h | ⟨_, -, h⟩ := bind_eq_error_iff.1 h
    · exact ofText_ne_io h
    · cases h

/-! ## What an operation leaves -/

/-- What is left by steps that fail: the effect of those before the first that cannot be done, and
what this one leaves. No seals have changed. -/
def LeavesFirst (checkout : Checkout) (current : Location) (tree : FileTree)
    (bases : SourceTree → Location) (steps : List UnifyStep) (after : FileTree) : Prop :=
  ∃ done next rest middle, steps = done ++ next :: rest ∧
    performAll checkout current tree done = (middle, .ok ()) ∧
    (perform checkout current middle next).2 ≠ .ok () ∧
    middle.entryAt? = effects bases (checkout.listAt? current tree) done tree.entryAt? ∧
    next.Leftover bases middle after ∧
    middle.isSealed = tree.isSealed ∧ after.isSealed = tree.isSealed

/-- What asks for a file of a variant to go to the core tree: trees that stand apart, and paths of
the file and of its destination that lead straight down. -/
structure Asked (checkout : Checkout) (current : Location) (tree : FileTree) (source : SourceTree)
    (file targetFile : Text) (bases : SourceTree → Location) : Prop
    extends Standing checkout current tree bases SourceTree.all where
  /-- The source is a variant. -/
  variant : source ∈ SourceTree.variants
  /-- The path of the file leads straight down. -/
  plain : ∀ name ∈ Text.pieces file '/', Path.IsPlain name
  /-- The path of the destination leads straight down. -/
  targetPlain : ∀ name ∈ Text.pieces targetFile '/', Path.IsPlain name

theorem listsAt_listAt? (checkout : Checkout) (current : Location) (tree : FileTree)
    (steps : List UnifyStep) :
    checkout.ListsAt current tree (checkout.listAt? current tree) steps := by
  intro source group entry edit _ location hfind
  rw [Checkout.listAt?, hfind]
  rfl

/-- A list that is not found at a location is not there. -/
theorem listAt?_ne {group entry : Text} {edit : LineEdit}
    (hmem : .toggle source group entry edit ∈ steps)
    (h : ∀ list ∈ steps.filterMap (·.list? checkout), tree.find current list ≠ .ok location) :
    checkout.listAt? current tree source group ≠ some location := by
  have hlist := h (checkout.listPath source group) (List.mem_filterMap.2 ⟨_, hmem, rfl⟩)
  rw [Checkout.listAt?]
  rcases hfind : tree.find current (checkout.listPath source group) with fault | found
  · simp [Except.toOption]
  · rw [hfind] at hlist
    simpa [Except.toOption] using hlist

section Asked

variable (h : Asked checkout current tree source file targetFile bases)
include h

/-- The steps are those of trees that stand apart. -/
theorem Asked.exists_stepsWith (hsteps : stepsOf kind source file .core targetFile = .ok steps) :
    (∀ step ∈ steps, step.LeadsDown SourceTree.all) ∧ InOrder steps ∧
      ∃ others old new, Others kind source others ∧
        steps = stepsWith others source file .core targetFile old new := by
  obtain ⟨others, old, new, hothers, -, hnew, rfl⟩ := stepsOf_eq_stepsWith hsteps
  have hne := SourceTree.ne_core_of_mem_variants h.variant
  exact ⟨fun step hstep => leadsDown_of_mem_stepsWith (fun other _ => SourceTree.mem_all other)
    (SourceTree.mem_all source) (SourceTree.mem_all .core) (fun _ => hne) h.plain h.targetPlain hnew
    hstep,
    inOrder_stepsWith others old new, others, old, new, hothers, rfl⟩

/-- Steps that fail leave what those before the first that cannot be done come to. -/
theorem Asked.leavesFirst (hsteps : stepsOf kind source file .core targetFile = .ok steps)
    (hfailed : performAll checkout current tree steps = (after, .error failure)) :
    LeavesFirst checkout current tree bases steps after := by
  obtain ⟨hleads, horder, -⟩ := h.exists_stepsWith hsteps
  obtain ⟨done, next, rest, middle, rfl, hdone, hnext⟩ := exists_first_of_performAll_error hfailed
  obtain ⟨hdoneOrder, -, hbefore⟩ := List.pairwise_append.1 horder
  have hlists := listsAt_listAt? checkout current tree done
  obtain ⟨hmiddle, hkeeps⟩ := h.toStanding.performAll_eq_ok
    (fun step hstep => hleads step (List.mem_append_left _ hstep)) hdoneOrder hlists hdone
  -- Nothing has moved, since a step is still to be done.
  have hkept := hkeeps fun step hstep => (hbefore step hstep next (by simp)).1
  obtain ⟨hleft, hseals⟩ := (h.toStanding.of_keeps hkept).perform_eq_error (hleads next (by simp))
    hnext
  exact ⟨done, next, rest, middle, rfl, hdone, by simp [hnext], hmiddle, hleft, hkept.isSealed_eq,
    hseals.trans hkept.isSealed_eq⟩

/-- No step but the last changes the copy to be kept or what is at the destination, if neither is a
list that is edited. -/
theorem Asked.leaves_of_mem (hsteps : stepsOf kind source file .core targetFile = .ok steps)
    (hplace : location = placeOf bases source file ∨ location = placeOf bases .core targetFile)
    (hlists : ∀ list ∈ steps.filterMap (·.list? checkout), tree.find current list ≠ .ok location)
    {step : UnifyStep} (hstep : step ∈ steps) (hmove : step.isMove = false) :
    step.Leaves bases (checkout.listAt? current tree) location := by
  obtain ⟨-, -, others, old, new, hothers, rfl⟩ := h.exists_stepsWith hsteps
  have hsourceCore := SourceTree.ne_core_of_mem_variants h.variant
  obtain ⟨variant, -, rfl⟩ | rfl | ⟨other, hother, rfl⟩ | rfl | rfl := mem_stepsWith.1 hstep
  · exact listAt?_ne hstep hlists
  · exact listAt?_ne hstep hlists
  · -- The copy that is deleted is that of the counterpart, which is another tree.
    obtain ⟨hsource, hcore⟩ : source ≠ other ∧ SourceTree.core ≠ other := by
      cases kind with
      | unify =>
        obtain ⟨counterpart, hcounterpart, rfl⟩ := hothers
        obtain ⟨hne, -, hvariant⟩ := SourceTree.counterpart_cases hcounterpart
        obtain rfl := List.mem_singleton.1 hother
        exact ⟨hne, (SourceTree.ne_core_of_mem_variants hvariant).symm⟩
      | move =>
        obtain rfl : others = [] := hothers
        cases hother
    rintro rfl
    obtain hsame | hsame := hplace
    · exact h.toStanding.not_prefix hsource.symm file file (hsame ▸ List.prefix_refl _)
    · exact h.toStanding.not_prefix hcore.symm file targetFile (hsame ▸ List.prefix_refl _)
  · intro hwithin
    have hbelow := hwithin.trans (List.dropLast_prefix _)
    obtain rfl | rfl := hplace
    · exact h.toStanding.not_prefix hsourceCore file targetFile hbelow
    · have hlength := hwithin.length_le
      have hpositive := List.length_pos_iff.2 (placeOf_ne_nil bases .core targetFile)
      rw [List.length_dropLast] at hlength
      omega
  · cases hmove

/-- What steps leave that fail has the copy to be kept, and what was at the destination, unless it
is a copy there of a file that is kept by a seal. -/
theorem Asked.entryAt?_of_leavesFirst
    (hsteps : stepsOf kind source file .core targetFile = .ok steps)
    (hleft : LeavesFirst checkout current tree bases steps after)
    (hlists : ∀ list ∈ steps.filterMap (·.list? checkout),
      tree.find current list ≠ .ok (placeOf bases source file) ∧
      tree.find current list ≠ .ok (placeOf bases .core targetFile)) :
    after.entryAt? (placeOf bases source file) = tree.entryAt? (placeOf bases source file) ∧
      (after.entryAt? (placeOf bases .core targetFile) =
          tree.entryAt? (placeOf bases .core targetFile) ∨
        ¬ tree.Free (placeOf bases source file) ∧
          after.entryAt? (placeOf bases .core targetFile) =
            tree.entryAt? (placeOf bases source file)) := by
  obtain ⟨-, horder, others, old, new, -, hwith⟩ := h.exists_stepsWith hsteps
  obtain ⟨done, next, rest, middle, rfl, -, -, hmiddle, hleftover, hsealed, -⟩ := hleft
  obtain ⟨-, -, hbefore⟩ := List.pairwise_append.1 horder
  have hleaves : ∀ location, location = placeOf bases source file ∨
      location = placeOf bases .core targetFile → ∀ step ∈ done ++ next :: rest,
        step.isMove = false → step.Leaves bases (checkout.listAt? current tree) location := by
    intro location hplace step hstep hmove
    refine h.leaves_of_mem hsteps hplace (fun list hlist => ?_) hstep hmove
    obtain rfl | rfl := hplace
    · exact (hlists list hlist).1
    · exact (hlists list hlist).2
  have hdone : ∀ location, location = placeOf bases source file ∨
      location = placeOf bases .core targetFile →
        middle.entryAt? location = tree.entryAt? location := by
    intro location hplace
    rw [hmiddle]
    exact effects_eq_of_leaves _ fun step hstep => hleaves location hplace step
      (List.mem_append_left _ hstep) (hbefore step hstep next (by simp)).1
  have hsource := hdone _ (.inl rfl)
  have htarget := hdone _ (.inr rfl)
  cases hmove : next.isMove with
  | false =>
    rw [hleftover.entryAt?_eq (hleaves _ (.inl rfl) next (by simp) hmove),
      hleftover.entryAt?_eq (hleaves _ (.inr rfl) next (by simp) hmove)]
    exact ⟨hsource, .inl htarget⟩
  | true =>
    -- The step that cannot be done is the move.
    obtain rfl : next = .move source file .core targetFile := by
      have hmem : next ∈ stepsWith others source file .core targetFile old new := hwith ▸ by simp
      obtain ⟨_, -, rfl⟩ | rfl | ⟨_, -, rfl⟩ | rfl | rfl := mem_stepsWith.1 hmem
      all_goals first | rfl | cases hmove
    obtain rfl | ⟨hkept, content, runnable, hentry, -, rfl⟩ := hleftover
    · exact ⟨hsource, .inl htarget⟩
    · have hne : placeOf bases source file ≠ placeOf bases .core targetFile := fun heq =>
        h.toStanding.not_prefix (SourceTree.ne_core_of_mem_variants h.variant) file targetFile
          (heq ▸ List.prefix_refl _)
      have hput := fun location => entryAt?_put middle (placeOf bases .core targetFile) location
        (.file content runnable) (placeOf_ne_nil bases .core targetFile)
      refine ⟨?_, .inr ⟨(free_iff hsealed).not.1 hkept, ?_⟩⟩
      · rw [hput, if_neg hne, hsource]
      · rw [hput, if_pos rfl, ← hentry, hsource]

/-- A file that is moved leaves the tree of the other variant, in which no list is edited. -/
theorem Asked.leaves_counterpart (hsteps : stepsOf .move source file .core targetFile = .ok steps)
    (hother : source.counterpart = .ok other) (hlocation : bases other <+: location)
    (hlists : ∀ list ∈ steps.filterMap (·.list? checkout), tree.find current list ≠ .ok location)
    {step : UnifyStep} (hstep : step ∈ steps) :
    step.Leaves bases (checkout.listAt? current tree) location := by
  obtain ⟨-, -, others, old, new, hothers, rfl⟩ := h.exists_stepsWith hsteps
  obtain rfl : others = [] := hothers
  obtain ⟨hne, -, hvariant⟩ := SourceTree.counterpart_cases hother
  have houtside : ∀ {tree : SourceTree} {text : Text}, tree ≠ other →
      ¬ placeOf bases tree text <+: location := fun htree hwithin =>
    htree (h.toStanding.eq_of_prefix ((prefix_placeOf bases _ _).trans hwithin) hlocation)
  obtain ⟨variant, -, rfl⟩ | rfl | ⟨_, hdeleted, -⟩ | rfl | rfl := mem_stepsWith.1 hstep
  · exact listAt?_ne hstep hlists
  · exact listAt?_ne hstep hlists
  · cases hdeleted
  · intro hwithin
    have hbelow := hlocation.trans (hwithin.trans (List.dropLast_prefix _))
    exact SourceTree.ne_core_of_mem_variants hvariant
      (h.toStanding.eq_of_prefix hbelow (prefix_placeOf bases .core targetFile))
  · exact ⟨houtside hne, houtside (SourceTree.ne_core_of_mem_variants hvariant).symm⟩

/-- A file that is moved changes nothing in the tree of the other variant, whatever comes of it. -/
theorem Asked.entryAt?_counterpart (hother : source.counterpart = .ok other)
    (hlocation : bases other <+: location)
    (hlists : ∀ steps, stepsOf .move source file .core targetFile = .ok steps →
      ∀ list ∈ steps.filterMap (·.list? checkout), tree.find current list ≠ .ok location) :
    (attempt .move checkout current tree source file .core targetFile).1.entryAt? location =
      tree.entryAt? location := by
  rw [attempt_eq]
  rcases hsteps : stepsOf .move source file .core targetFile with failure | steps
  · rfl
  obtain ⟨hleads, horder, -⟩ := h.exists_stepsWith hsteps
  have hleaves : ∀ step ∈ steps, step.Leaves bases (checkout.listAt? current tree) location :=
    fun step hstep => h.leaves_counterpart hsteps hother hlocation (hlists steps hsteps) hstep
  rw [performIf]
  rcases hresult : performAll checkout current tree steps with ⟨after, failure | ⟨⟨⟩⟩⟩
  · obtain ⟨done, next, rest, middle, rfl, -, -, hmiddle, hleftover, -⟩ :=
      h.leavesFirst hsteps hresult
    rw [hleftover.entryAt?_eq (hleaves next (by simp)), hmiddle]
    exact effects_eq_of_leaves _ fun step hstep => hleaves step (List.mem_append_left _ hstep)
  · obtain ⟨hafter, -⟩ := h.toStanding.performAll_eq_ok hleads horder
      (listsAt_listAt? checkout current tree steps) hresult
    rw [hafter, effects_eq_of_leaves _ hleaves]

end Asked

/-- An operation that fails leaves a beginning of its steps and the copy to be kept. It leaves what
was at the destination, unless a seal keeps the copy from being moved: then it can have been copied
there. One that moves a file leaves the tree of the other variant in any case. -/
theorem leavesFirst_of_failed_attempt
    (h : Asked checkout current tree source file targetFile bases)
    (hlists : ∀ steps, stepsOf kind source file .core targetFile = .ok steps →
      ∀ list ∈ steps.filterMap (·.list? checkout),
        tree.find current list ≠ .ok (placeOf bases source file) ∧
        tree.find current list ≠ .ok (placeOf bases .core targetFile)) :
    (∀ after failure, attempt kind checkout current tree source file .core targetFile =
        (after, .error failure) →
      (∀ fault, failure = .io fault → ∃ steps,
        stepsOf kind source file .core targetFile = .ok steps ∧
        LeavesFirst checkout current tree bases steps after) ∧
      after.entryAt? (placeOf bases source file) = tree.entryAt? (placeOf bases source file) ∧
      (after.entryAt? (placeOf bases .core targetFile) =
          tree.entryAt? (placeOf bases .core targetFile) ∨
        ¬ tree.Free (placeOf bases source file) ∧
          after.entryAt? (placeOf bases .core targetFile) =
            tree.entryAt? (placeOf bases source file))) ∧
    (kind = .move → ∀ other, source.counterpart = .ok other → ∀ location,
      bases other <+: location →
      (∀ steps, stepsOf kind source file .core targetFile = .ok steps →
        ∀ list ∈ steps.filterMap (·.list? checkout), tree.find current list ≠ .ok location) →
      (attempt kind checkout current tree source file .core targetFile).1.entryAt? location =
        tree.entryAt? location) := by
  constructor
  · intro after failure hfailed
    rw [attempt_eq] at hfailed
    rcases hsteps : stepsOf kind source file .core targetFile with refusal | steps
    · -- What is refused before the first step changes nothing, and no file is the reason.
      rw [hsteps] at hfailed
      cases hfailed
      exact ⟨fun fault hfault => absurd (hfault ▸ hsteps) stepsOf_ne_io, rfl, .inl rfl⟩
    · rw [hsteps, performIf] at hfailed
      have hleft := h.leavesFirst hsteps hfailed
      exact ⟨fun _ _ => ⟨steps, rfl, hleft⟩,
        h.entryAt?_of_leavesFirst hsteps hleft (hlists steps hsteps)⟩
  · rintro rfl other hother location hlocation hapart
    exact h.entryAt?_counterpart hother hlocation hapart

/-! ## Copies that a failure spares -/

/-- What an operation deletes is the copy of the other variant. -/
theorem counterpart_of_delete_mem {target : SourceTree}
    (hsteps : stepsOf kind source file target targetFile = .ok steps)
    (hmem : .delete other file ∈ steps) : source.counterpart = .ok other := by
  obtain ⟨others, old, new, hothers, -, -, rfl⟩ := stepsOf_eq_stepsWith hsteps
  obtain ⟨_, -, heq⟩ | heq | ⟨deleted, hdeleted, heq⟩ | heq | heq := mem_stepsWith.1 hmem <;>
    cases heq
  cases kind with
  | unify =>
    obtain ⟨counterpart, hcounterpart, rfl⟩ := hothers
    exact List.mem_singleton.1 hdeleted ▸ hcounterpart
  | move =>
    obtain rfl : others = [] := hothers
    cases hdeleted

/-- What an operation moves goes to its destination. -/
theorem eq_of_move_mem {target target' : SourceTree} {targetFile' : Text}
    (hsteps : stepsOf kind source file target targetFile = .ok steps)
    (hmem : .move source file target' targetFile' ∈ steps) :
    target' = target ∧ targetFile' = targetFile := by
  obtain ⟨others, old, new, -, -, -, rfl⟩ := stepsOf_eq_stepsWith hsteps
  obtain ⟨_, -, heq⟩ | heq | ⟨_, -, heq⟩ | heq | heq := mem_stepsWith.1 hmem <;> cases heq
  exact ⟨rfl, rfl⟩

section Apart

variable (h : TreesApart checkout current tree bases) (hclosed : IsClosed tree)
  (hplain : ∀ name ∈ Text.pieces file '/', Path.IsPlain name)
  (htargetPlain : ∀ name ∈ Text.pieces targetFile '/', Path.IsPlain name)
  (hsteps : stepsOf kind source file .core targetFile = .ok steps)
include h hclosed hplain htargetPlain hsteps

/-- In trees that are apart, and with paths that lead straight down, the destination never leads to
where the copy of a variant is. -/
theorem TreesApart.find_destination_ne {middle : FileTree} {variant : SourceTree}
    (hvariant : variant ∈ SourceTree.variants)
    (hmiddle : performAll checkout current tree steps.dropLast = (middle, .ok ()))
    (hfind : middle.find current (checkout.pathIn .core targetFile) = .ok location) :
    middle.find current (checkout.pathIn variant file) ≠ .ok location := by
  obtain ⟨others, old, new, -, -, hnew, rfl⟩ := stepsOf_eq_stepsWith hsteps
  obtain ⟨front, hfront⟩ := exists_stepsWith_eq_concat others source file .core targetFile old new
  have horder : InOrder (stepsWith others source file .core targetFile old new) :=
    inOrder_stepsWith others old new
  rw [hfront, List.dropLast_concat] at hmiddle
  rw [hfront] at horder
  obtain ⟨hfrontOrder, -, hbefore⟩ := List.pairwise_append.1 horder
  have hnoMove : ∀ step ∈ front, step.isMove = false := fun step hstep =>
    (hbefore step hstep _ List.mem_cons_self).1
  have hleads : ∀ step ∈ front, step.LeadsDown SourceTree.all := fun step hstep =>
    leadsDown_of_mem_stepsWith (fun other _ => SourceTree.mem_all other) (SourceTree.mem_all source)
      (SourceTree.mem_all .core) (fun hmove => by simp [hnoMove step hstep] at hmove) hplain
      htargetPlain hnew (hfront ▸ List.mem_append_left _ hstep)
  have hstanding : Standing checkout current tree bases SourceTree.all := h.standing hclosed
  -- Before the move the trees stand where they have stood, so both paths lead straight down.
  have hkeeps := (hstanding.performAll_eq_ok hleads hfrontOrder
    (listsAt_listAt? checkout current tree front) hmiddle).2 hnoMove
  have hafter := hstanding.of_keeps hkeeps
  have htarget := (hafter.straightTo (SourceTree.mem_all .core) htargetPlain).eq_of_find hfind
  intro hcopy
  have hsource := (hafter.straightTo (SourceTree.mem_all variant) hplain).eq_of_find hcopy
  exact hafter.not_prefix (SourceTree.ne_core_of_mem_variants hvariant) file targetFile
    (hsource ▸ htarget ▸ List.prefix_refl _)

/-- So no copy is reached over the other one or from the destination: it is enough that no list is a
copy and that there is a copy to be kept. -/
theorem TreesApart.spares
    (hlists : ∀ list ∈ steps.filterMap (·.list? checkout), ∀ variant ∈ SourceTree.variants,
      (checkout.copy? current tree variant file).isSome →
        tree.find current list ≠ tree.find current (checkout.pathIn variant file))
    (hcopies : ∃ variant ∈ SourceTree.variants, (checkout.copy? current tree variant file).isSome)
    (hkept : ∀ other, .delete other file ∈ steps → CanEdit checkout current tree steps →
      (checkout.copy? current tree source file).isSome) :
    Spares checkout current tree source file steps := by
  refine ⟨hlists, hkept, fun other hother hedit changed hdelete => ?_,
    fun target targetFile' hmove middle hmiddle _ _ => ?_⟩
  · exact h.entryOf_delete
      (SourceTree.counterpart_cases (counterpart_of_delete_mem hsteps hother)).1 hplain
      (hkept other hother hedit) hdelete
  · obtain ⟨rfl, rfl⟩ := eq_of_move_mem hsteps hmove
    -- The copy to be kept is one that is not deleted.
    obtain ⟨variant, hvariant, hstays, hcopy⟩ : ∃ variant ∈ SourceTree.variants,
        .delete variant file ∉ steps ∧ (checkout.copy? current tree variant file).isSome := by
      by_cases hdelete : ∃ other, .delete other file ∈ steps
      · obtain ⟨other, hother⟩ := hdelete
        obtain ⟨-, hsource, -⟩ :=
          SourceTree.counterpart_cases (counterpart_of_delete_mem hsteps hother)
        refine ⟨source, hsource, fun hmem => ?_,
          hkept other hother (canEdit_of_dropLast hsteps hmiddle)⟩
        exact (SourceTree.counterpart_cases (counterpart_of_delete_mem hsteps hmem)).1 rfl
      · obtain ⟨variant, hvariant, hcopy⟩ := hcopies
        exact ⟨variant, hvariant, fun hmem => hdelete ⟨variant, hmem⟩, hcopy⟩
    exact ⟨variant, hvariant, hstays, hcopy, fun location hfind =>
      h.find_destination_ne hclosed hplain htargetPlain hsteps hvariant hmiddle hfind⟩

end Apart

/-! ## Failures, and what is not covered -/

/-- A file of the group in a directory that no entry can have the name of. -/
def deepFile : Text :=
  "G/x/" ++ List.replicate 256 'a' ++ "/y"

/-- The steps of unifying the file `G/a` as this one. -/
def deepSteps : List UnifyStep :=
  stepsWith [.zeroHour] .generals "G/a" .core deepFile ⟨"G", "a"⟩ ⟨"G", deepFile.drop 2⟩

theorem stepsOf_deepFile : stepsOf .unify .generals "G/a" .core deepFile = .ok deepSteps := by
  decide +kernel

/-- It can be asked for the file to be moved in trees without links that are side by side, whatever
the build lists are called. -/
theorem asked_of_entries (hroot : ∀ source, checkout.rootOf source = sideBySide.rootOf source)
    (hclosed : ∀ item ∈ tree.entries, tree.entryAt? item.1.dropLast = some .directory)
    (hlinks : ∀ item ∈ tree.entries, item.2 = .directory ∨ item.2.isFile = true)
    (hbases : ∀ source, RootAt tree ["p"] (sideBySide.rootOf source) (sideBySideBases source))
    (htargetPlain : ∀ name ∈ Text.pieces targetFile '/', Path.IsPlain name) :
    Asked checkout ["p"] tree .generals "G/a" targetFile sideBySideBases where
  closed := isClosed_of_entries hclosed
  apart source other h := by
    revert h
    cases source <;> cases other <;> decide
  no_link _ location target _ := no_link_of_entries hlinks location target
  stands source _ := standsAt_of_rootAt (hroot source ▸ hbases source)
  variant := by decide
  plain := by decide +kernel
  targetPlain := htargetPlain

theorem asked_bothCopies (hroot : ∀ source, checkout.rootOf source = sideBySide.rootOf source)
    (htargetPlain : ∀ name ∈ Text.pieces targetFile '/', Path.IsPlain name) :
    Asked checkout ["p"] bothCopies .generals "G/a" targetFile sideBySideBases :=
  asked_of_entries hroot (by decide +kernel) (by decide +kernel)
    (fun source => by cases source <;> exact ⟨by decide +kernel, by decide +kernel⟩) htargetPlain

/-- Unifying fails half way down to the new directory, and the copies stay; moving leaves the other
variant. -/
theorem leavesFirst_deepFile :
    (attempt .unify sideBySide ["p"] bothCopies .generals "G/a" .core deepFile).2 =
      .error (.io .refused) ∧
    (∃ steps, stepsOf .unify .generals "G/a" .core deepFile = .ok steps ∧
      LeavesFirst sideBySide ["p"] bothCopies sideBySideBases steps
        (attempt .unify sideBySide ["p"] bothCopies .generals "G/a" .core deepFile).1) ∧
    (attempt .unify sideBySide ["p"] bothCopies .generals "G/a" .core deepFile).1.entryAt?
      (placeOf sideBySideBases .generals "G/a") = some (.file (.text "1") true) ∧
    (attempt .move sideBySide ["p"] bothCopies .generals "G/a" .core "G/b").1.entryAt?
      ["p", "ZeroHour", "G", "a"] = some (.file (.text "2") false) := by
  have hfailed : (attempt .unify sideBySide ["p"] bothCopies .generals "G/a" .core deepFile).2 =
      .error (.io .refused) := by decide +kernel
  have hlists : ∀ steps, stepsOf .unify .generals "G/a" .core deepFile = .ok steps →
      ∀ list ∈ steps.filterMap (·.list? sideBySide),
        bothCopies.find ["p"] list ≠ .ok (placeOf sideBySideBases .generals "G/a") ∧
        bothCopies.find ["p"] list ≠ .ok (placeOf sideBySideBases .core deepFile) := by
    intro steps hsteps
    obtain rfl := Except.ok.inj (stepsOf_deepFile.symm.trans hsteps)
    decide +kernel
  have hlistsMoved : ∀ steps, stepsOf .move .generals "G/a" .core "G/b" = .ok steps →
      ∀ list ∈ steps.filterMap (·.list? sideBySide),
        bothCopies.find ["p"] list ≠ .ok (placeOf sideBySideBases .generals "G/a") ∧
        bothCopies.find ["p"] list ≠ .ok (placeOf sideBySideBases .core "G/b") := by
    intro steps hsteps
    obtain rfl : _ = steps := Except.ok.inj hsteps
    decide +kernel
  obtain ⟨hleft, -⟩ := leavesFirst_of_failed_attempt
    (asked_bothCopies (fun _ => rfl) (by decide +kernel)) hlists
  obtain ⟨-, hmoved⟩ := leavesFirst_of_failed_attempt
    (asked_bothCopies (fun _ => rfl) (by decide +kernel)) hlistsMoved
  obtain ⟨hfirst, hcopy, -⟩ := hleft (attempt .unify sideBySide ["p"] bothCopies .generals "G/a"
    .core deepFile).1 (.io .refused) (by rw [← hfailed])
  have hkept : bothCopies.entryAt? (placeOf sideBySideBases .generals "G/a") =
      some (.file (.text "1") true) := by decide +kernel
  have hother : bothCopies.entryAt? ["p", "ZeroHour", "G", "a"] =
      some (.file (.text "2") false) := by decide +kernel
  refine ⟨hfailed, hfirst .refused rfl, hcopy.trans hkept, ?_⟩
  refine (hmoved rfl .zeroHour rfl ["p", "ZeroHour", "G", "a"] (by decide) ?_).trans hother
  intro steps hsteps
  obtain rfl : _ = steps := Except.ok.inj hsteps
  decide +kernel

/-- The checkout whose every build list is the one that the second variant has for the group. -/
def foreignList : Checkout :=
  { sideBySide with listName := "/p/ZeroHour/G/list" }

/-- The first variant has the file in a group that is sealed, and another one is at the
destination. -/
def sealedGroup : FileTree :=
  { withGroup [(["p", "Generals", "G", "a"], .file (.text "1") true),
      (["p", "Core", "G", "b"], .file (.text "2") false)] with
    sealed := [["p", "Generals", "G"]] }

/-- A directory that was made on the way is left, though no whole steps leave it. Where the group of
the file is sealed, the file that was at the destination is written over. And where the list of a
variant is in the tree of the other one, a file that is moved changes this tree. -/
theorem not_whole_steps_or_sealed_group_or_foreign_list :
    (Asked sideBySide ["p"] bothCopies .generals "G/a" deepFile sideBySideBases ∧
      (attempt .unify sideBySide ["p"] bothCopies .generals "G/a" .core deepFile).2 =
        .error (.io .refused) ∧
      (attempt .unify sideBySide ["p"] bothCopies .generals "G/a" .core deepFile).1.entryAt?
        ["p", "Core", "G", "x"] = some .directory ∧
      stepsOf .unify .generals "G/a" .core deepFile = .ok deepSteps ∧
      ∀ count, (performAll sideBySide ["p"] bothCopies (deepSteps.take count)).2 = .ok () →
        (performAll sideBySide ["p"] bothCopies (deepSteps.take count)).1.entryAt?
          ["p", "Core", "G", "x"] = none) ∧
    (Asked sideBySide ["p"] sealedGroup .generals "G/a" "G/b" sideBySideBases ∧
      (attempt .move sideBySide ["p"] sealedGroup .generals "G/a" .core "G/b").2 =
        .error (.io .refused) ∧
      sealedGroup.entryAt? ["p", "Core", "G", "b"] = some (.file (.text "2") false) ∧
      (attempt .move sideBySide ["p"] sealedGroup .generals "G/a" .core "G/b").1.entryAt?
        ["p", "Core", "G", "b"] = some (.file (.text "1") true)) ∧
    (Asked foreignList ["p"] bothCopies .generals "G/a" "G/b" sideBySideBases ∧
      (attempt .move foreignList ["p"] bothCopies .generals "G/a" .core "G/b").1.entryAt?
        ["p", "ZeroHour", "G", "list"] ≠ bothCopies.entryAt? ["p", "ZeroHour", "G", "list"]) := by
  have hcount : ∀ count < 7,
      (performAll sideBySide ["p"] bothCopies (deepSteps.take count)).2 = .ok () →
        (performAll sideBySide ["p"] bothCopies (deepSteps.take count)).1.entryAt?
          ["p", "Core", "G", "x"] = none := by decide +kernel
  have hlength : deepSteps.length ≤ 6 := by decide +kernel
  refine ⟨⟨asked_bothCopies (fun _ => rfl) (by decide +kernel), by decide +kernel,
    by decide +kernel, stepsOf_deepFile, fun count => ?_⟩,
    ⟨asked_of_entries (fun _ => rfl) (by decide +kernel) (by decide +kernel)
      (fun source => by cases source <;> exact ⟨by decide +kernel, by decide +kernel⟩)
      (by decide +kernel), by decide +kernel⟩,
    asked_bothCopies (fun source => by cases source <;> rfl) (by decide +kernel),
    by decide +kernel⟩
  by_cases hfew : count < 7
  · exact hcount count hfew
  · -- All steps have been taken, as by taking six.
    have hall := hcount 6 (by decide)
    rw [List.take_of_length_le hlength] at hall
    rwa [List.take_of_length_le (Nat.le_trans hlength (by omega))]

end Unify

end EngineUpkeep
