import EngineUpkeep.Proofs.Unify.Refusal

/-!
# What an operation is refused for

An operation is looked at before its first step: its destination has to be the core tree, a file
that is unified has to come from a variant, and both paths need a group. This module says which
failure comes of which fault of what is asked for.

* `Refused` lists the failures with what calls for each. A fault that is looked at later counts only
  if none of those before it is there.
* `stepsOf_eq_error_iff`: an operation has no steps for exactly these failures.
* `attempt_refused_iff`: it reports each of them exactly where it is called for, whatever is in the
  file tree, and then the file tree stays as it is. Every other failure is one of the file tree.
-/

namespace EngineUpkeep

namespace ListedPath

/-- A path has no group: there is no slash in it, or there is nothing in front of the first. -/
def LacksGroup (path : Text) : Prop :=
  '/' ∉ path ∨ path.head? = some '/'

theorem lacksGroup_iff {path : Text} : LacksGroup path ↔ ¬ HasGroup path := by
  constructor
  · rintro hlacks ⟨⟨group, entry⟩, hgroup, hslash, rfl⟩
    obtain ⟨c, group, rfl⟩ := List.exists_cons_of_ne_nil hgroup
    rcases hlacks with hnone | hfirst
    · exact hnone (by simp)
    · -- The group would begin with the slash that ends it.
      apply hslash
      simpa using Or.inl (Option.some.inj hfirst).symm
  · intro hgroup
    rcases hsplit : Text.splitOnce path '/' with _ | ⟨before, after⟩
    · exact .inl (Text.splitOnce_eq_none_iff.1 hsplit)
    · obtain rfl := Text.eq_append_of_splitOnce hsplit
      have hbefore : before = [] := by
        by_contra hne
        exact hgroup ⟨⟨before, after⟩, hne, Text.notMem_of_splitOnce hsplit, rfl⟩
      exact .inr (by simp [hbefore])

end ListedPath

namespace Unify

open ListedPath

variable {checkout : Checkout} {current : Location} {tree after : FileTree}
  {kind : OperationKind} {source target : SourceTree} {file targetFile : Text}
  {steps : List UnifyStep} {failure : Failure}

/-- What an operation is refused for, in the order in which it is looked at. -/
inductive Refused (kind : OperationKind) (source : SourceTree) (file : Text) (target : SourceTree)
    (targetFile : Text) : Failure → Prop
  /-- The destination is a variant. -/
  | destination (htarget : target ≠ .core) :
    Refused kind source file target targetFile (.destinationNotCore target.name)
  /-- There is no other variant. -/
  | counterpart (htarget : target = .core) (hsource : LacksCounterpart kind source) :
    Refused kind source file target targetFile (.noCounterpart source.name)
  /-- The path of the file has no group. -/
  | sourcePath (htarget : target = .core) (hsource : ¬ LacksCounterpart kind source)
      (hfile : LacksGroup file) :
    Refused kind source file target targetFile (.pathShape file)
  /-- The path of the destination has no group. -/
  | targetPath (htarget : target = .core) (hsource : ¬ LacksCounterpart kind source)
      (hfile : ¬ LacksGroup file) (htargetFile : LacksGroup targetFile) :
    Refused kind source file target targetFile (.pathShape targetFile)

/-- Something is wrong with what is asked for. -/
def IsWrong (kind : OperationKind) (source : SourceTree) (file : Text) (target : SourceTree)
    (targetFile : Text) : Prop :=
  target ≠ .core ∨ LacksCounterpart kind source ∨ LacksGroup file ∨ LacksGroup targetFile

/-- Whatever is wrong calls for a refusal, and nothing else does. -/
theorem exists_refused_iff :
    (∃ failure, Refused kind source file target targetFile failure) ↔
      IsWrong kind source file target targetFile := by
  constructor
  · rintro ⟨_, htarget | ⟨_, hsource⟩ | ⟨_, _, hfile⟩ | ⟨_, _, _, htargetFile⟩⟩
    · exact .inl htarget
    · exact .inr (.inl hsource)
    · exact .inr (.inr (.inl hfile))
    · exact .inr (.inr (.inr htargetFile))
  · intro hwrong
    -- The refusal is for the first thing that is wrong.
    by_cases htarget : target = .core
    · by_cases hsource : LacksCounterpart kind source
      · exact ⟨_, .counterpart htarget hsource⟩
      · by_cases hfile : LacksGroup file
        · exact ⟨_, .sourcePath htarget hsource hfile⟩
        · have htargetFile : LacksGroup targetFile := by
            simpa [IsWrong, htarget, hsource, hfile] using hwrong
          exact ⟨_, .targetPath htarget hsource hfile htargetFile⟩
    · exact ⟨_, .destination htarget⟩

/-! ## What is looked at -/

/-- Two paths are split one after the other, so the first that has no group is the one that is
refused. -/
theorem ofText_bind_ofText_eq_error_iff {use : ListedPath → ListedPath → List UnifyStep} :
    (do let old ← ofText file
        let new ← ofText targetFile
        return use old new) = .error failure ↔
      (LacksGroup file ∧ failure = .pathShape file) ∨
        (¬ LacksGroup file ∧ LacksGroup targetFile ∧ failure = .pathShape targetFile) := by
  simp only [bind_eq_error_iff, ofText_eq_error_iff, ofText_eq_ok_iff, lacksGroup_iff, not_not]
  constructor
  · rintro (⟨hfailure, hfile⟩ | ⟨old, hold, ⟨hfailure, htarget⟩ | ⟨new, -, hreturn⟩⟩)
    · exact .inl ⟨hfile, hfailure⟩
    · exact .inr ⟨⟨old, hold⟩, htarget, hfailure⟩
    · cases hreturn
  · rintro (⟨hfile, hfailure⟩ | ⟨⟨old, hold⟩, htarget, hfailure⟩)
    · exact .inl ⟨hfailure, hfile⟩
    · exact .inr ⟨old, hold, .inl ⟨hfailure, htarget⟩⟩

/-- A destination that is a variant comes before all else. -/
theorem stepsOf_of_ne_core (htarget : target ≠ .core) :
    stepsOf kind source file target targetFile = .error (.destinationNotCore target.name) := by
  have hcore : ensureCore target = .error (.destinationNotCore target.name) := if_neg htarget
  cases kind with
  | unify =>
    show unifySteps source file target targetFile = _
    rw [unifySteps, hcore]
    rfl
  | move =>
    show moveSteps source file target targetFile = _
    rw [moveSteps, hcore]
    rfl

/-- A variant that is missing comes before the paths. -/
theorem stepsOf_of_lacksCounterpart (hsource : LacksCounterpart kind source) :
    stepsOf kind source file .core targetFile = .error (.noCounterpart source.name) := by
  obtain ⟨rfl, rfl⟩ := hsource
  rfl

/-- An operation has no steps exactly where something calls for a refusal. -/
theorem stepsOf_eq_error_iff :
    stepsOf kind source file target targetFile = .error failure ↔
      Refused kind source file target targetFile failure := by
  by_cases htarget : target = .core
  · subst htarget
    by_cases hsource : LacksCounterpart kind source
    · rw [stepsOf_of_lacksCounterpart hsource]
      constructor
      · rintro ⟨⟩
        exact .counterpart rfl hsource
      · rintro (htarget | _ | ⟨_, hvariant⟩ | ⟨_, hvariant⟩)
        · exact absurd rfl htarget
        · rfl
        · exact absurd hsource hvariant
        · exact absurd hsource hvariant
    · obtain ⟨others, hsteps⟩ := stepsOf_eq_of_not_lacksCounterpart hsource
      rw [hsteps, ofText_bind_ofText_eq_error_iff]
      constructor
      · rintro (⟨hfile, rfl⟩ | ⟨hfile, htargetFile, rfl⟩)
        · exact .sourcePath rfl hsource hfile
        · exact .targetPath rfl hsource hfile htargetFile
      · rintro (htarget | ⟨_, hlacks⟩ | ⟨_, _, hfile⟩ | ⟨_, _, hfile, htargetFile⟩)
        · exact absurd rfl htarget
        · exact absurd hlacks hsource
        · exact .inl ⟨hfile, rfl⟩
        · exact .inr ⟨hfile, htargetFile, rfl⟩
  · rw [stepsOf_of_ne_core htarget]
    constructor
    · rintro ⟨⟩
      exact .destination htarget
    · rintro (_ | ⟨hcore⟩ | ⟨hcore⟩ | ⟨hcore⟩)
      · rfl
      all_goals exact absurd hcore htarget

/-! ## What is reported -/

/-- A refusal leaves everything as it is. -/
theorem Refused.attempt_eq (h : Refused kind source file target targetFile failure) :
    attempt kind checkout current tree source file target targetFile = (tree, .error failure) := by
  rw [Unify.attempt_eq, stepsOf_eq_error_iff.2 h]
  rfl

/-- An operation fails because it is refused, or else for a fault of the file tree. -/
theorem refused_or_fault_of_attempt
    (h : (attempt kind checkout current tree source file target targetFile).2 = .error failure) :
    Refused kind source file target targetFile failure ∨ ∃ fault, failure = .io fault := by
  rw [Unify.attempt_eq] at h
  rcases hsteps : stepsOf kind source file target targetFile with refusal | steps
  · rw [hsteps] at h
    obtain rfl := Except.error.inj h
    exact .inl (stepsOf_eq_error_iff.1 hsteps)
  · rw [hsteps] at h
    exact .inr (exists_fault_of_performAll (Prod.ext rfl h))

/-- A failure that is no fault of the file tree is reported exactly where it is called for. -/
theorem attempt_eq_error_iff_refused (hfailure : ∀ fault, failure ≠ .io fault) :
    (attempt kind checkout current tree source file target targetFile).2 = .error failure ↔
      Refused kind source file target targetFile failure := by
  constructor
  · intro h
    exact (refused_or_fault_of_attempt h).resolve_right fun ⟨fault, hfault⟩ => hfailure fault hfault
  · intro h
    rw [h.attempt_eq]

/-- An operation is refused exactly for what is wrong with what is asked for: first for a
destination that is a variant, then for a variant that is missing, then for the path of the file,
and last for the path of the destination. Whatever is wrong, the file tree stays as it is. Where
nothing is wrong, a failure is one of the file tree. -/
theorem attempt_refused_iff :
    (∀ name, (attempt kind checkout current tree source file target targetFile).2 =
        .error (.destinationNotCore name) ↔
      target ≠ .core ∧ name = target.name) ∧
    (∀ name, (attempt kind checkout current tree source file target targetFile).2 =
        .error (.noCounterpart name) ↔
      target = .core ∧ LacksCounterpart kind source ∧ name = source.name) ∧
    (∀ path, (attempt kind checkout current tree source file target targetFile).2 =
        .error (.pathShape path) ↔
      target = .core ∧ ¬ LacksCounterpart kind source ∧
        (LacksGroup file ∧ path = file ∨
          ¬ LacksGroup file ∧ LacksGroup targetFile ∧ path = targetFile)) ∧
    (IsWrong kind source file target targetFile →
      (attempt kind checkout current tree source file target targetFile).1 = tree) ∧
    (¬ IsWrong kind source file target targetFile → ∀ failure,
      (attempt kind checkout current tree source file target targetFile).2 = .error failure →
        ∃ fault, failure = .io fault) := by
  refine ⟨fun name => ?_, fun name => ?_, fun path => ?_, fun hwrong => ?_, ?_⟩
  · rw [attempt_eq_error_iff_refused (by simp)]
    constructor
    · rintro ⟨htarget⟩
      exact ⟨htarget, rfl⟩
    · rintro ⟨htarget, rfl⟩
      exact .destination htarget
  · rw [attempt_eq_error_iff_refused (by simp)]
    constructor
    · rintro (_ | ⟨htarget, hsource⟩)
      exact ⟨htarget, hsource, rfl⟩
    · rintro ⟨htarget, hsource, rfl⟩
      exact .counterpart htarget hsource
  · rw [attempt_eq_error_iff_refused (by simp)]
    constructor
    · rintro (_ | _ | ⟨htarget, hsource, hfile⟩ | ⟨htarget, hsource, hfile, htargetFile⟩)
      · exact ⟨htarget, hsource, .inl ⟨hfile, rfl⟩⟩
      · exact ⟨htarget, hsource, .inr ⟨hfile, htargetFile, rfl⟩⟩
    · rintro ⟨htarget, hsource, ⟨hfile, rfl⟩ | ⟨hfile, htargetFile, rfl⟩⟩
      · exact .sourcePath htarget hsource hfile
      · exact .targetPath htarget hsource hfile htargetFile
  · obtain ⟨failure, hrefused⟩ := exists_refused_iff.2 hwrong
    rw [hrefused.attempt_eq]
  · intro hright failure hfailed
    refine (refused_or_fault_of_attempt hfailed).resolve_left fun hrefused => hright ?_
    exact exists_refused_iff.1 ⟨failure, hrefused⟩

end Unify

end EngineUpkeep
