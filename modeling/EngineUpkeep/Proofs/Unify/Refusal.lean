import EngineUpkeep.Proofs.Unify.Failed

/-!
# Paths that are refused

A path inside a source tree names a group and an entry. An operation that is given a path without a
group is refused before its first step, so nothing changes. A path that ends behind the slash of its
group names no entry, and it is not refused: the empty text is looked for in the build list then,
and every line has it (`Unify.refusedForShape_iff`).
-/

namespace EngineUpkeep

/-- The step edits a build list, and what it looks for is in every line there can be. -/
def UnifyStep.FindsEveryLine : UnifyStep → Prop
  | .toggle _ _ entry _ => ∀ line, Text.contains line entry = true
  | _ => False

/-- Nothing but the empty text is in every line. -/
theorem UnifyStep.findsEveryLine_toggle {source : SourceTree} {group entry : Text}
    {edit : LineEdit} : (toggle source group entry edit).FindsEveryLine ↔ entry = [] := by
  constructor
  · intro h
    exact List.isEmpty_iff.1 (h [])
  · rintro rfl line
    cases line <;> rfl

namespace Unify

open ListedPath

variable {checkout : Checkout} {current : Location} {tree after : FileTree}
  {kind : OperationKind} {source : SourceTree} {file targetFile : Text}
  {steps : List UnifyStep} {failure : Failure} {old new : ListedPath}

/-- The operation is refused for the shape of one of its paths, and nothing has changed. -/
def RefusedForShape (kind : OperationKind) (checkout : Checkout) (current : Location)
    (tree : FileTree) (source : SourceTree) (file targetFile : Text) : Prop :=
  ∃ path ∈ [file, targetFile],
    attempt kind checkout current tree source file .core targetFile =
      (tree, .error (.pathShape path))

/-- Both paths have a group, and one of them has nothing behind it. -/
def SlipsThrough (file targetFile : Text) : Prop :=
  (HasGroup file ∧ HasGroup targetFile) ∧ (LacksEntry file ∨ LacksEntry targetFile)

/-! ## What the paths decide -/

/-- The operation needs the other variant of a tree that is none. -/
def LacksCounterpart (kind : OperationKind) (source : SourceTree) : Prop :=
  kind = .unify ∧ source = .core

theorem not_lacksCounterpart_of_mem_variants (kind : OperationKind)
    (hsource : source ∈ SourceTree.variants) : ¬ LacksCounterpart kind source :=
  fun hlacks => SourceTree.ne_core_of_mem_variants hsource hlacks.2

/-- For a file that is to go to the core tree, the two paths decide whether there are steps, unless
the other variant is missing. -/
theorem stepsOf_eq_of_not_lacksCounterpart (hsource : ¬ LacksCounterpart kind source) :
    ∃ others, stepsOf kind source file .core targetFile = do
      let old ← ofText file
      let new ← ofText targetFile
      return stepsWith others source file .core targetFile old new := by
  cases kind with
  | unify =>
    cases source with
    | generals => exact ⟨[.zeroHour], rfl⟩
    | zeroHour => exact ⟨[.generals], rfl⟩
    | core => exact absurd ⟨rfl, rfl⟩ hsource
  | move => exact ⟨[], rfl⟩

/-- Paths with groups give steps. -/
theorem stepsOf_of_splits (kind : OperationKind) (hsource : source ∈ SourceTree.variants)
    (hold : old.Splits file) (hnew : new.Splits targetFile) :
    ∃ others, stepsOf kind source file .core targetFile =
      .ok (stepsWith others source file .core targetFile old new) := by
  obtain ⟨others, hsteps⟩ :=
    stepsOf_eq_of_not_lacksCounterpart (not_lacksCounterpart_of_mem_variants kind hsource)
  refine ⟨others, ?_⟩
  rw [hsteps, ofText_eq_ok_iff.2 hold, ofText_eq_ok_iff.2 hnew]
  rfl

/-- Without a group in one of them, the operation is refused for the first path that has none. -/
theorem stepsOf_of_not_hasGroup (kind : OperationKind) (hsource : source ∈ SourceTree.variants)
    (h : ¬ (HasGroup file ∧ HasGroup targetFile)) :
    ∃ path ∈ [file, targetFile],
      stepsOf kind source file .core targetFile = .error (.pathShape path) := by
  obtain ⟨others, hsteps⟩ :=
    stepsOf_eq_of_not_lacksCounterpart (not_lacksCounterpart_of_mem_variants kind hsource)
  rw [hsteps]
  by_cases hfile : HasGroup file
  · obtain ⟨old, hold⟩ := hfile
    have hother : ofText targetFile = .error (.pathShape targetFile) :=
      ofText_eq_error_iff.2 ⟨rfl, fun htarget => h ⟨⟨old, hold⟩, htarget⟩⟩
    exact ⟨targetFile, by simp, by rw [ofText_eq_ok_iff.2 hold, hother]; rfl⟩
  · exact ⟨file, by simp, by rw [ofText_eq_error_iff.2 ⟨rfl, hfile⟩]; rfl⟩

/-- A step that cannot be done fails for a fault of the file tree. -/
theorem exists_fault_of_perform {step : UnifyStep}
    (h : perform checkout current tree step = (after, .error failure)) :
    ∃ fault, failure = .io fault := by
  have hresult : ∀ result, stepResult result = .error failure → ∃ fault, failure = .io fault := by
    rintro (fault | ⟨⟨⟩⟩) hfailed <;> cases hfailed
    exact ⟨fault, rfl⟩
  cases step with
  | toggle source group entry edit => exact (perform_toggle_eq_error h).2
  | delete source file =>
    rw [perform] at h
    rcases hdelete : tree.delete current (checkout.pathIn source file) with fault | changed
    · rw [hdelete] at h
      cases h
      exact ⟨fault, rfl⟩
    · simp [hdelete] at h
  | prepare target file =>
    rw [perform] at h
    split at h
    · cases h
    · exact hresult _ (Prod.mk.inj h).2
  | move source file target targetFile =>
    exact hresult _ (Prod.mk.inj h).2

/-- So do steps. -/
theorem exists_fault_of_performAll
    (h : performAll checkout current tree steps = (after, .error failure)) :
    ∃ fault, failure = .io fault := by
  obtain ⟨_, _, _, _, -, -, hnext⟩ := exists_first_of_performAll_error h
  exact exists_fault_of_perform hnext

/-- An operation that has steps is not refused for the shape of a path. -/
theorem not_refusedForShape_of_steps (h : stepsOf kind source file .core targetFile = .ok steps) :
    ¬ RefusedForShape kind checkout current tree source file targetFile := by
  rintro ⟨path, -, hrefused⟩
  rw [attempt_eq, h] at hrefused
  obtain ⟨fault, hfault⟩ := exists_fault_of_performAll hrefused
  cases hfault

/-- The steps look for the entries of both paths, and for nothing else. -/
theorem exists_findsEveryLine_iff (others : List SourceTree) :
    (∃ step ∈ stepsWith others source file .core targetFile old new, step.FindsEveryLine) ↔
      old.entry = [] ∨ new.entry = [] := by
  constructor
  · rintro ⟨step, hmem, hfinds⟩
    obtain ⟨variant, -, rfl⟩ | rfl | ⟨other, -, rfl⟩ | rfl | rfl := mem_stepsWith.1 hmem
    · exact .inl (UnifyStep.findsEveryLine_toggle.1 hfinds)
    · exact .inr (UnifyStep.findsEveryLine_toggle.1 hfinds)
    · exact hfinds.elim
    · exact hfinds.elim
    · exact hfinds.elim
  · rintro (hentry | hentry)
    · exact ⟨.toggle source old.group old.entry .comment,
        mem_stepsWith.2 (.inl ⟨source, by simp, rfl⟩), UnifyStep.findsEveryLine_toggle.2 hentry⟩
    · exact ⟨.toggle .core new.group new.entry .uncomment, mem_stepsWith.2 (.inr (.inl rfl)),
        UnifyStep.findsEveryLine_toggle.2 hentry⟩

/-! ## What is refused -/

/-- An operation on a file of a variant is refused for the shape of its paths, with nothing changed,
exactly if one of them has no group. So paths that are not of the form to be had are refused unless
both have groups and one has no entry, and then, and only then, a build list is to be edited at
every line. -/
theorem refusedForShape_iff (hsource : source ∈ SourceTree.variants) :
    (RefusedForShape kind checkout current tree source file targetFile ↔
      ¬ (HasGroup file ∧ HasGroup targetFile)) ∧
    ((¬ (IsListed file ∧ IsListed targetFile) →
        RefusedForShape kind checkout current tree source file targetFile) ↔
      ¬ SlipsThrough file targetFile) ∧
    ((∃ steps, stepsOf kind source file .core targetFile = .ok steps ∧
        ∃ step ∈ steps, step.FindsEveryLine) ↔ SlipsThrough file targetFile) := by
  by_cases hgroups : HasGroup file ∧ HasGroup targetFile
  · obtain ⟨⟨old, hold⟩, ⟨new, hnew⟩⟩ := id hgroups
    obtain ⟨others, hsteps⟩ := stepsOf_of_splits kind hsource hold hnew
    -- Steps fail for faults of the file tree and for nothing else.
    have hrefused : ¬ RefusedForShape kind checkout current tree source file targetFile :=
      not_refusedForShape_of_steps hsteps
    have hslips : SlipsThrough file targetFile ↔ old.entry = [] ∨ new.entry = [] := by
      rw [SlipsThrough, hold.lacksEntry_iff, hnew.lacksEntry_iff]
      exact and_iff_right hgroups
    refine ⟨iff_of_false hrefused (not_not_intro hgroups), ?_, ?_⟩
    · rw [hslips, hold.isListed_iff, hnew.isListed_iff, not_or]
      exact ⟨fun h => by_contra fun hlisted => hrefused (h hlisted),
        fun hlisted hnot => absurd hlisted hnot⟩
    · rw [hslips, ← exists_findsEveryLine_iff others, hsteps]
      exact ⟨fun ⟨_, heq, hfinds⟩ => Except.ok.inj heq ▸ hfinds, fun hfinds => ⟨_, rfl, hfinds⟩⟩
  · -- There are no steps then, so nothing can have been changed.
    obtain ⟨path, hpath, hsteps⟩ := stepsOf_of_not_hasGroup kind hsource hgroups
    have hrefused : RefusedForShape kind checkout current tree source file targetFile :=
      ⟨path, hpath, by rw [attempt_eq, hsteps]; rfl⟩
    have hslips : ¬ SlipsThrough file targetFile := fun h => hgroups h.1
    refine ⟨iff_of_true hrefused hgroups, iff_of_true (fun _ => hrefused) hslips,
      iff_of_false ?_ hslips⟩
    rintro ⟨steps, hok, -⟩
    rw [hsteps] at hok
    cases hok

/-- A path that begins with a slash is refused, and nothing changes. -/
theorem refusedForShape_leading_slash :
    SourceTree.generals ∈ SourceTree.variants ∧ ¬ HasGroup "/a" ∧
      RefusedForShape .unify sideBySide ["p"] bothCopies .generals "/a" "G/a" ∧
      RefusedForShape .move sideBySide ["p"] bothCopies .generals "G/a" "/a" := by
  have hsource : SourceTree.generals ∈ SourceTree.variants := by decide
  have hgroup : ¬ HasGroup "/a" := by decide
  exact ⟨hsource, hgroup, (refusedForShape_iff hsource).1.2 fun h => hgroup h.1,
    (refusedForShape_iff hsource).1.2 fun h => hgroup h.2⟩

/-- The group with two lines in the build lists of the variants. -/
def twoLines : FileTree :=
  withGroup [(["p", "Generals", "G", "list"], .file (.text "a\nb\n") false),
    (["p", "ZeroHour", "G", "list"], .file (.text "a\nb\n") false)]

/-- A path that ends behind its group is not refused. Every line of the lists of both variants is
switched off before the operation fails, and a move takes the whole group away. -/
theorem not_refusedForShape_without_entry :
    ¬ IsListed "G/" ∧
      (¬ RefusedForShape .unify sideBySide ["p"] twoLines .generals "G/" "G/c" ∧
        (attempt .unify sideBySide ["p"] twoLines .generals "G/" .core "G/c").2 =
          .error (.io .refused) ∧
        ∀ variant ∈ SourceTree.variants,
          twoLines.entryAt? (groupLists variant) = some (.file (.text "a\nb\n") false) ∧
          (attempt .unify sideBySide ["p"] twoLines .generals "G/" .core "G/c").1.entryAt?
            (groupLists variant) = some (.file (.text "#a\n#b\n") false)) ∧
      ¬ RefusedForShape .move sideBySide ["p"] twoLines .generals "G/" "G/c" ∧
        (attempt .move sideBySide ["p"] twoLines .generals "G/" .core "G/c").2 = .ok () ∧
        (attempt .move sideBySide ["p"] twoLines .generals "G/" .core "G/c").1.entryAt?
          ["p", "Generals", "G"] = none :=
  ⟨by decide, ⟨not_refusedForShape_of_steps rfl, by decide +kernel, by decide +kernel⟩,
    not_refusedForShape_of_steps rfl, by decide +kernel, by decide +kernel⟩

end Unify

end EngineUpkeep
