import Mathlib.Data.List.Basic
import EngineUpkeep.Proofs.Unify.Steps
import EngineUpkeep.Unify.Plan

/-!
# The last copy of a file

An operation that fails is not undone. What is left of the copies that the variants had of its file
depends on what had been deleted or written over before: a failure spares a copy, unless a copy is
itself a build list that is edited, or the only copy is the one to be deleted, or the copy that is
kept is reached over the one that is deleted, or it is where the file is copied to because a seal
keeps it from being renamed (`Spares`). Each of the four can lose the last copy. The last two cannot
happen in trees that are apart, with paths that lead straight down (`TreesApart.spares`).
-/

namespace EngineUpkeep

open FileTree

namespace Unify

variable {checkout : Checkout} {current : Location} {tree after : FileTree}
  {kind : OperationKind} {source target : SourceTree} {file targetFile : Text} {failure : Failure}

/-- The steps of an operation. -/
def stepsOf : OperationKind → SourceTree → Text → SourceTree → Text →
    Except Failure (List UnifyStep)
  | .unify => unifySteps
  | .move => moveSteps

/-- Carries out an operation on a file. -/
def attempt : OperationKind → Checkout → Location → FileTree → SourceTree → Text → SourceTree →
    Text → FileTree × Except Failure Unit
  | .unify => unifyIntoCore
  | .move => moveIntoCore

/-- All build lists of the steps can be edited. -/
def CanEdit (checkout : Checkout) (current : Location) (tree : FileTree)
    (steps : List UnifyStep) : Prop :=
  (performAll checkout current tree (steps.filter (·.isEdit))).2 = .ok ()

/-- What the steps must find for a failure of them to spare a copy of the file. -/
structure Spares (checkout : Checkout) (current : Location) (tree : FileTree)
    (source : SourceTree) (file : Text) (steps : List UnifyStep) : Prop where
  /-- No build list that is edited is a copy of the file. -/
  no_list : ∀ list ∈ steps.filterMap (·.list? checkout), ∀ variant ∈ SourceTree.variants,
    (checkout.copy? current tree variant file).isSome →
      tree.find current list ≠ tree.find current (checkout.pathIn variant file)
  /-- Where a copy is deleted, there is one to be kept. -/
  kept : ∀ other, .delete other file ∈ steps → CanEdit checkout current tree steps →
    (checkout.copy? current tree source file).isSome
  /-- The copy to be kept is not reached over the entry that is deleted. -/
  apart : ∀ other, .delete other file ∈ steps → CanEdit checkout current tree steps →
    ∀ changed, tree.delete current (checkout.pathIn other file) = .ok changed →
      changed.entryOf current (checkout.pathIn source file) =
        tree.entryOf current (checkout.pathIn source file)
  /-- Where the file can be copied though it cannot be renamed, the destination does not lead to
  each of the copies that are not deleted. -/
  beside : ∀ target targetFile, .move source file target targetFile ∈ steps → ∀ middle,
    performAll checkout current tree steps.dropLast = (middle, .ok ()) →
    (∃ fault, middle.rename current (checkout.pathIn source file)
      (checkout.pathIn target targetFile) = .error fault) →
    (∃ copied, middle.copy current (checkout.pathIn source file)
      (checkout.pathIn target targetFile) = .ok copied) →
    ∃ variant ∈ SourceTree.variants, .delete variant file ∉ steps ∧
      (checkout.copy? current tree variant file).isSome ∧
      ∀ location, middle.find current (checkout.pathIn target targetFile) = .ok location →
        middle.find current (checkout.pathIn variant file) ≠ .ok location

theorem attempt_eq (kind : OperationKind) :
    attempt kind checkout current tree source file target targetFile =
      performIf checkout current tree (stepsOf kind source file target targetFile) := by
  cases kind <;> rfl

/-- The steps edit, then delete at most one copy, then place the other. -/
theorem stepsOf_eq_ok {steps : List UnifyStep}
    (h : stepsOf kind source file target targetFile = .ok steps) :
    ∃ edits deletions, steps = edits ++ (deletions ++ placing source file target targetFile) ∧
      (∀ step ∈ edits, step.isEdit = true) ∧
      (deletions = [] ∨ ∃ other, source.counterpart = .ok other ∧
        deletions = [.delete other file]) := by
  cases kind with
  | unify =>
    obtain ⟨_, -, h⟩ := bind_eq_ok_iff.1 h
    obtain ⟨other, hother, h⟩ := bind_eq_ok_iff.1 h
    obtain ⟨old, -, h⟩ := bind_eq_ok_iff.1 h
    obtain ⟨new, -, h⟩ := bind_eq_ok_iff.1 h
    cases h
    exact ⟨[_, _, _], [_], rfl, by simp [UnifyStep.isEdit], .inr ⟨other, hother, rfl⟩⟩
  | move =>
    obtain ⟨_, -, h⟩ := bind_eq_ok_iff.1 h
    obtain ⟨old, -, h⟩ := bind_eq_ok_iff.1 h
    obtain ⟨new, -, h⟩ := bind_eq_ok_iff.1 h
    cases h
    exact ⟨[_, _], [], rfl, by simp [UnifyStep.isEdit], .inl rfl⟩

/-- What comes after the edits of an operation edits nothing. -/
theorem isEdit_of_mem_rest {deletions : List UnifyStep}
    (h : deletions = [] ∨ ∃ other, source.counterpart = .ok other ∧
      deletions = [.delete other file]) :
    ∀ step ∈ deletions ++ placing source file target targetFile, step.isEdit = false := by
  obtain rfl | ⟨other, -, rfl⟩ := h <;> simp [placing, UnifyStep.isEdit]

/-- The edits among the steps of an operation come first. -/
theorem edits_of_append (checkout : Checkout) {edits rest : List UnifyStep}
    (hedits : ∀ step ∈ edits, step.isEdit = true) (hrest : ∀ step ∈ rest, step.isEdit = false) :
    (edits ++ rest).filter (·.isEdit) = edits ∧
      (edits ++ rest).filterMap (·.list? checkout) = edits.filterMap (·.list? checkout) := by
  constructor
  · rw [List.filter_append, List.filter_eq_self.2 hedits,
      List.filter_eq_nil_iff.2 fun step hstep => by simp [hrest step hstep], List.append_nil]
  · have hnone : ∀ step ∈ rest, step.list? checkout = none := by
      intro step hstep
      have hedit := hrest step hstep
      cases step with
      | toggle tree group entry edit => cases hedit
      | delete tree file => rfl
      | prepare tree file => rfl
      | move source sourceFile target targetFile => rfl
    rw [List.filterMap_append, List.filterMap_eq_nil_iff.2 hnone, List.append_nil]

/-- Before the move, the place is prepared. -/
theorem dropLast_append_placing (front : List UnifyStep) :
    (front ++ placing source file target targetFile).dropLast =
      front ++ [.prepare target targetFile] := by
  rw [placing, List.dropLast_append_of_ne_nil (by simp)]
  rfl

/-- If all steps before the move can be done, so can the edits. -/
theorem canEdit_of_dropLast {steps : List UnifyStep} {middle : FileTree}
    (hsteps : stepsOf kind source file target targetFile = .ok steps)
    (h : performAll checkout current tree steps.dropLast = (middle, .ok ())) :
    CanEdit checkout current tree steps := by
  obtain ⟨edits, deletions, rfl, hedits, hdeletions⟩ := stepsOf_eq_ok hsteps
  rw [← List.append_assoc, dropLast_append_placing, List.append_assoc, performAll_append] at h
  rw [CanEdit, (edits_of_append checkout hedits (isEdit_of_mem_rest hdeletions)).1]
  rcases hresult : performAll checkout current tree edits with ⟨edited, failure' | ⟨⟨⟩⟩⟩
  · simp [hresult] at h
  · rfl

/-- Where the kept copy cannot be placed, no more than directories have been made, unless the copy
could not be renamed and has been copied. -/
theorem placing_error_cases
    (h : performAll checkout current tree (placing source file target targetFile) =
      (after, .error failure)) :
    Extends tree after ∨ ∃ middle,
      perform checkout current tree (.prepare target targetFile) = (middle, .ok ()) ∧
      Extends tree middle ∧
      (∃ fault, middle.rename current (checkout.pathIn source file)
        (checkout.pathIn target targetFile) = .error fault) ∧
      middle.copy current (checkout.pathIn source file) (checkout.pathIn target targetFile) =
        .ok after := by
  have hprepare : Extends tree (perform checkout current tree (.prepare target targetFile)).1 := by
    rw [perform]
    rcases (checkout.pathIn target targetFile).parent? with _ | parent
    · exact Extends.refl tree
    · exact extends_makeDirectories tree current parent
  rw [placing, performAll] at h
  rcases hresult : perform checkout current tree (.prepare target targetFile) with
    ⟨middle, failure' | ⟨⟨⟩⟩⟩
  · rw [hresult] at h hprepare
    cases h
    exact .inl hprepare
  · rw [hresult] at h hprepare
    simp only [performAll, perform] at h
    rcases hmove : middle.moveEntry current (checkout.pathIn source file)
      (checkout.pathIn target targetFile) with ⟨moved, fault | ⟨⟨⟩⟩⟩
    · rw [hmove] at h
      cases h
      obtain rfl | ⟨hrename, hcopy, -⟩ := moveEntry_eq_error hmove
      · exact .inl hprepare
      · exact .inr ⟨middle, rfl, hprepare, hrename, hcopy⟩
    · rw [hmove] at h
      cases h

/-- Copying to a place leaves every copy that this place does not lead to. -/
theorem copy?_of_copy {variant : SourceTree} {path path' : Path} {content : Content}
    (h : tree.copy current path path' = .ok after)
    (hbeside : ∀ location, tree.find current path' = .ok location →
      tree.find current (checkout.pathIn variant file) ≠ .ok location)
    (hcopy : checkout.copy? current tree variant file = some content) :
    checkout.copy? current after variant file = some content := by
  obtain ⟨-, new, written, runnable, -, -, hnew, rfl⟩ := copy_eq_ok h
  obtain ⟨runnable', hread⟩ := copy?_eq_some_iff.1 hcopy
  obtain ⟨location, hfind, hentry⟩ := readFile_eq_ok_iff.1 hread
  have hne : location ≠ new := by
    rintro rfl
    obtain ⟨hthere, -⟩ | ⟨directory, name, hwalk, rfl⟩ := hnew
    · exact hbeside location hthere hfind
    · rw [entryAt?_of_walkUpTo (walk_eq_ok_iff.1 hwalk).2.2] at hentry
      cases hentry
  exact copy?_eq_some_iff.2
    ⟨runnable', readFile_put_file hnew.vacant_or_file hne hfind hentry⟩

/-- The edits leave every copy, however far they get. -/
theorem Spares.copy_of_edits {edits rest : List UnifyStep}
    (h : Spares checkout current tree source file (edits ++ rest))
    (hedits : ∀ step ∈ edits, step.isEdit = true) (hrest : ∀ step ∈ rest, step.isEdit = false)
    {variant : SourceTree} (hvariant : variant ∈ SourceTree.variants) {content : Content}
    (hcopy : checkout.copy? current tree variant file = some content) :
    checkout.copy? current (performAll checkout current tree edits).1 variant file =
      some content := by
  have hedited : EditedAt current (edits.filterMap (·.list? checkout)) tree
      (performAll checkout current tree edits).1 := editedAt_performAll hedits
  obtain ⟨runnable, hread⟩ := copy?_eq_some_iff.1 hcopy
  refine copy?_eq_some_iff.2 ⟨runnable, hedited.readFile_eq hread fun list hlist => ?_⟩
  rw [← (edits_of_append checkout hedits hrest).2] at hlist
  exact h.no_list list hlist variant hvariant (by rw [hcopy]; rfl)

/-- A copy that is not reached over an entry is still read when this is gone, in every tree of the
same shape that has the copy. -/
theorem copy?_erase_of_sameShape {middle : FileTree} {location : Location} {content : Content}
    (hshape : SameShape tree middle) (hne : location ≠ [])
    (happart : (tree.erase location).entryOf current (checkout.pathIn source file) =
      tree.entryOf current (checkout.pathIn source file))
    (hcopy : checkout.copy? current tree source file = some content)
    (hmiddle : checkout.copy? current middle source file = some content) :
    checkout.copy? current (middle.erase location) source file = some content := by
  obtain ⟨runnable, hread⟩ := copy?_eq_some_iff.1 hcopy
  obtain ⟨place, hfind, hentry⟩ := readFile_eq_ok_iff.1 hread
  -- The walk without the entry ends where the walk with it does.
  obtain ⟨place', hfind', hentry'⟩ := entryOf_eq_ok_iff.1
    (happart.trans (entryOf_eq_ok_iff.2 ⟨place, hfind, hentry⟩))
  have hmore : Extends (tree.erase location) tree := extends_erase hne
  obtain rfl : place' = place := Except.ok.inj
    ((hmore.keepsWays.find_eq (hmore.keepsFileAt place') hfind').symm.trans hfind)
  have hother : place' ≠ location := by
    rintro rfl
    rw [entryAt?_erase _ _ _ hne, if_pos rfl] at hentry'
    cases hentry'
  obtain ⟨runnable', hread'⟩ := copy?_eq_some_iff.1 hmiddle
  obtain ⟨last, hlast, hfile⟩ := readFile_eq_ok_iff.1 hread'
  obtain rfl : last = place' := Except.ok.inj
    (hlast.symm.trans ((hshape.find_eq _ _).trans hfind))
  refine copy?_eq_some_iff.2 ⟨runnable', readFile_eq_ok_iff.2 ⟨last, ?_, ?_⟩⟩
  · exact ((hshape.erase hne).find_eq _ _).trans hfind'
  · rw [entryAt?_erase _ _ _ hne, if_neg hother]
    exact hfile

/-- Where the kept copy cannot be placed, a failure leaves a copy that had been there before the
steps, if these have left every copy that they do not delete. -/
theorem Spares.exists_copy_of_failed_placing {front : List UnifyStep} {middle : FileTree}
    (h : Spares checkout current tree source file
      (front ++ placing source file target targetFile))
    (hfront : performAll checkout current tree front = (middle, .ok ()))
    (hfailed : performAll checkout current middle (placing source file target targetFile) =
      (after, .error failure))
    (hkeeps : ∀ variant ∈ SourceTree.variants, .delete variant file ∉ front → ∀ content,
      checkout.copy? current tree variant file = some content →
      checkout.copy? current middle variant file = some content)
    (hcopies : ∃ variant ∈ SourceTree.variants, .delete variant file ∉ front ∧
      (checkout.copy? current tree variant file).isSome) :
    ∃ variant ∈ SourceTree.variants, ∃ content,
      checkout.copy? current tree variant file = some content ∧
      checkout.copy? current after variant file = some content := by
  obtain hmore | ⟨prepared, hprepare, hmore, hrename, hcopied⟩ := placing_error_cases hfailed
  · obtain ⟨variant, hvariant, hdelete, hcopy⟩ := hcopies
    obtain ⟨content, hcontent⟩ := Option.isSome_iff_exists.1 hcopy
    exact ⟨variant, hvariant, content, hcontent,
      copy?_of_extends hmore (hkeeps variant hvariant hdelete content hcontent)⟩
  · have hbefore : performAll checkout current tree
        (front ++ placing source file target targetFile).dropLast = (prepared, .ok ()) := by
      rw [dropLast_append_placing, performAll_append, hfront]
      simp only [performAll, hprepare]
    -- The file has been copied, but not over a certain copy.
    obtain ⟨variant, hvariant, hdelete, hcopy, hplace⟩ := h.beside target targetFile
      (by simp [placing]) prepared hbefore hrename ⟨after, hcopied⟩
    obtain ⟨content, hcontent⟩ := Option.isSome_iff_exists.1 hcopy
    refine ⟨variant, hvariant, content, hcontent, copy?_of_copy hcopied hplace ?_⟩
    exact copy?_of_extends hmore (hkeeps variant hvariant
      (fun hmem => hdelete (List.mem_append_left _ hmem)) content hcontent)

/-- When all lists have been edited, deleting the other copy leaves that of the source. -/
theorem Spares.copy_of_deletion {edits rest : List UnifyStep} {other : SourceTree}
    {middle changed : FileTree}
    (h : Spares checkout current tree source file (edits ++ .delete other file :: rest))
    (hedits : ∀ step ∈ edits, step.isEdit = true)
    (hrest : ∀ step ∈ .delete other file :: rest, step.isEdit = false)
    (hmiddle : performAll checkout current tree edits = (middle, .ok ()))
    (hdelete : middle.delete current (checkout.pathIn other file) = .ok changed)
    (hsource : source ∈ SourceTree.variants) {content : Content}
    (hcontent : checkout.copy? current tree source file = some content) :
    checkout.copy? current changed source file = some content := by
  have hedited : EditedAt current (edits.filterMap (·.list? checkout)) tree
      (performAll checkout current tree edits).1 := editedAt_performAll hedits
  have hkept := h.copy_of_edits hedits hrest hsource hcontent
  have hedit : CanEdit checkout current tree (edits ++ .delete other file :: rest) := by
    rw [CanEdit, (edits_of_append checkout hedits hrest).1, hmiddle]
  rw [hmiddle] at hedited hkept
  -- The deletion would leave the copy before the edits, so it does after them.
  obtain ⟨location, hnil, rfl, hbefore⟩ :=
    hedited.sameShape.delete_eq_ok hedited.isSealed_eq hdelete
  exact copy?_erase_of_sameShape hedited.sameShape hnil (h.apart other (by simp) hedit _ hbefore)
    hcontent hkept

/-- When all lists have been edited, a failure leaves a copy that had been there before the
edits. -/
theorem Spares.exists_copy_of_failed_rest {edits deletions : List UnifyStep} {middle : FileTree}
    (h : Spares checkout current tree source file
      (edits ++ (deletions ++ placing source file target targetFile)))
    (hedits : ∀ step ∈ edits, step.isEdit = true)
    (hdeletions : deletions = [] ∨ ∃ other, source.counterpart = .ok other ∧
      deletions = [.delete other file])
    (hmiddle : performAll checkout current tree edits = (middle, .ok ()))
    (hfailed : performAll checkout current middle
      (deletions ++ placing source file target targetFile) = (after, .error failure))
    {variant : SourceTree} (hvariant : variant ∈ SourceTree.variants) {content : Content}
    (hcopy : checkout.copy? current tree variant file = some content) :
    ∃ variant ∈ SourceTree.variants, ∃ content,
      checkout.copy? current tree variant file = some content ∧
      checkout.copy? current after variant file = some content := by
  have hrest : ∀ step ∈ deletions ++ placing source file target targetFile,
      step.isEdit = false := isEdit_of_mem_rest hdeletions
  have hkeeps : ∀ variant ∈ SourceTree.variants, ∀ content,
      checkout.copy? current tree variant file = some content →
      checkout.copy? current (performAll checkout current tree edits).1 variant file =
        some content := fun _ hvariant _ => h.copy_of_edits hedits hrest hvariant
  rw [hmiddle] at hkeeps
  have hnone : ∀ variant, .delete variant file ∉ edits := fun variant hmem => by
    cases hedits _ hmem
  obtain rfl | ⟨other, hcounterpart, rfl⟩ := hdeletions
  · exact h.exists_copy_of_failed_placing hmiddle hfailed
      (fun variant hvariant _ => hkeeps variant hvariant)
      ⟨variant, hvariant, hnone variant, by rw [hcopy]; rfl⟩
  · rw [performAll_append] at hfailed
    rcases hdelete : middle.delete current (checkout.pathIn other file) with fault | changed
    · -- Nothing has been deleted.
      simp only [performAll, perform, hdelete] at hfailed
      cases hfailed
      exact ⟨variant, hvariant, content, hcopy, hkeeps variant hvariant content hcopy⟩
    have hdeleted : performAll checkout current middle [.delete other file] =
        (changed, .ok ()) := by
      simp only [performAll, perform, hdelete]
    rw [hdeleted] at hfailed
    have hfront : performAll checkout current tree (edits ++ [.delete other file]) =
        (changed, .ok ()) := by
      rw [performAll_append, hmiddle]
      exact hdeleted
    obtain ⟨hne, hsource, -⟩ := SourceTree.counterpart_cases hcounterpart
    have hkept : (checkout.copy? current tree source file).isSome := by
      refine h.kept other (by simp) ?_
      rw [CanEdit, (edits_of_append checkout hedits hrest).1, hmiddle]
    have happend := h
    rw [← List.append_assoc] at happend
    refine happend.exists_copy_of_failed_placing hfront hfailed ?_
      ⟨source, hsource, by simpa [hnone] using hne, hkept⟩
    intro variant hvariant hmem content hcontent
    -- The copy that is not deleted is that of the source.
    obtain rfl : variant = source := by
      refine SourceTree.eq_of_ne_counterpart hcounterpart hvariant ?_
      rintro rfl
      exact hmem (by simp)
    exact h.copy_of_deletion hedits hrest hmiddle hdelete hvariant hcontent

/-- A failing operation leaves one of the copies that the variants had, if it finds what spares
one. -/
theorem exists_copy_of_failed_attempt
    (hfailed : attempt kind checkout current tree source file target targetFile =
      (after, .error failure))
    (hcopies : ∃ variant ∈ SourceTree.variants,
      (checkout.copy? current tree variant file).isSome)
    (hspares : ∀ steps, stepsOf kind source file target targetFile = .ok steps →
      Spares checkout current tree source file steps) :
    ∃ variant ∈ SourceTree.variants, ∃ content,
      checkout.copy? current tree variant file = some content ∧
      checkout.copy? current after variant file = some content := by
  obtain ⟨variant, hvariant, hcopy⟩ := hcopies
  obtain ⟨content, hcontent⟩ := Option.isSome_iff_exists.1 hcopy
  rw [attempt_eq] at hfailed
  rcases hsteps : stepsOf kind source file target targetFile with failure' | steps
  · -- What is asked for cannot be split into steps, so nothing is done.
    rw [hsteps] at hfailed
    cases hfailed
    exact ⟨variant, hvariant, content, hcontent, hcontent⟩
  have hspares := hspares steps hsteps
  rw [hsteps, performIf] at hfailed
  obtain ⟨edits, deletions, rfl, hedits, hdeletions⟩ := stepsOf_eq_ok hsteps
  rw [performAll_append] at hfailed
  rcases hmiddle : performAll checkout current tree edits with ⟨middle, failure' | ⟨⟨⟩⟩⟩
  · have hkept := hspares.copy_of_edits hedits (isEdit_of_mem_rest hdeletions) hvariant hcontent
    rw [hmiddle] at hfailed hkept
    cases hfailed
    exact ⟨variant, hvariant, content, hcontent, hkept⟩
  · rw [hmiddle] at hfailed
    exact hspares.exists_copy_of_failed_rest hedits hdeletions hmiddle hfailed hvariant hcontent

/-! ## A spared copy and lost ones -/

/-- Both variants have the file, and at the destination there is a directory that holds a file. -/
def blocked : FileTree :=
  withGroup [(["p", "Generals", "G", "a"], .file (.text "1") false),
    (["p", "ZeroHour", "G", "a"], .file (.text "2") false), (["p", "Core", "G", "a"], .directory),
    (["p", "Core", "G", "a", "b"], .file (.text "3") false)]

/-- With the destination blocked, the other copy is deleted before the failure, and the one to be
kept stays. -/
theorem exists_copy_blocked_destination :
    (attempt .unify sideBySide ["p"] blocked .generals "G/a" .core "G/a").2 =
      .error (.io .refused) ∧
    sideBySide.copy? ["p"] (attempt .unify sideBySide ["p"] blocked .generals "G/a" .core "G/a").1
      .zeroHour "G/a" = none ∧
    ∃ variant ∈ SourceTree.variants, ∃ content,
      sideBySide.copy? ["p"] blocked variant "G/a" = some content ∧
      sideBySide.copy? ["p"]
        (attempt .unify sideBySide ["p"] blocked .generals "G/a" .core "G/a").1 variant "G/a" =
          some content := by
  have hfailed : (attempt .unify sideBySide ["p"] blocked .generals "G/a" .core "G/a").2 =
      .error (.io .refused) := by decide +kernel
  have hcopies : ∃ variant ∈ SourceTree.variants,
      (sideBySide.copy? ["p"] blocked variant "G/a").isSome := by decide +kernel
  have hafter : attempt .unify sideBySide ["p"] blocked .generals "G/a" .core "G/a" =
      ((attempt .unify sideBySide ["p"] blocked .generals "G/a" .core "G/a").1,
        .error (.io .refused)) := by rw [← hfailed]
  refine ⟨hfailed, by decide +kernel,
    exists_copy_of_failed_attempt hafter hcopies ?_⟩
  intro steps hsteps
  -- The destination is a directory, so nothing can be copied there either.
  have hrefused : (stepsOf .unify .generals "G/a" .core "G/a").toOption.map (fun steps =>
      ((performAll sideBySide ["p"] blocked steps.dropLast).1.copy ["p"]
        (sideBySide.pathIn .generals "G/a") (sideBySide.pathIn .core "G/a")).toBool) =
      some false := by decide +kernel
  obtain rfl : _ = steps := Except.ok.inj hsteps
  refine ⟨by decide +kernel, fun _ _ _ => by decide +kernel, fun other hother _ => ?_, ?_⟩
  · obtain rfl : other = .zeroHour := by simpa [placing] using hother
    intro changed hdelete
    obtain ⟨directory, name, _, hslot, -, -, -, -, rfl⟩ := delete_eq_ok_iff.1 hdelete
    have hplace : blocked.slot ["p"] (sideBySide.pathIn .zeroHour "G/a") =
        .ok (["p", "ZeroHour", "G"], "a") := by decide +kernel
    cases hplace.symm.trans hslot
    decide +kernel
  · rintro target targetFile hmem middle hmiddle - ⟨copied, hcopied⟩
    obtain ⟨rfl, rfl⟩ : target = .core ∧ targetFile = "G/a" := by simpa [placing] using hmem
    rw [hsteps, Except.toOption, Option.map_some, hmiddle, hcopied] at hrefused
    cases hrefused

/-- The operation fails, and what the variants had of the file is neither at its place nor at the
destination. -/
def LosesCopies (kind : OperationKind) (checkout : Checkout) (current : Location)
    (tree : FileTree) (source : SourceTree) (file targetFile : Text) : Prop :=
  (attempt kind checkout current tree source file .core targetFile).2 ≠ .ok () ∧
  (∃ variant ∈ SourceTree.variants, (checkout.copy? current tree variant file).isSome) ∧
  ∀ variant ∈ SourceTree.variants, ∀ content ∈ checkout.copy? current tree variant file,
    let after := (attempt kind checkout current tree source file .core targetFile).1
    content ∉ checkout.copy? current after .core targetFile ∧
    ∀ other ∈ SourceTree.variants, content ∉ checkout.copy? current after other file

instance (kind : OperationKind) (checkout : Checkout) (current : Location) (tree : FileTree)
    (source : SourceTree) (file targetFile : Text) :
    Decidable (LosesCopies kind checkout current tree source file targetFile) := by
  unfold LosesCopies
  infer_instance

/-- The last copy is lost where only the other variant has one, where the file is a build list of
the variants and the core tree has none, where the copy to be kept is the one to be deleted or a
link to it, and where a link at the destination leads to a copy that is kept by a seal. -/
theorem losesCopies_where_not_spared :
    LosesCopies .unify sideBySide ["p"]
      (withGroup [(["p", "Generals", "G", "a"], .file (.text "1") false)])
      .zeroHour "G/a" "G/a" ∧
    LosesCopies .unify sideBySide ["p"]
      (withGroup [(["p", "Generals", "G", "list"], .file (.text "see list") false),
        (["p", "ZeroHour", "G", "list"], .file (.text "see list") false)])
      .zeroHour "G/list" "H/list" ∧
    LosesCopies .unify sideBySide ["p"] (withGroup [(["p", "a"], .file (.text "1") false)])
      .zeroHour "G/../../a" "G/a" ∧
    LosesCopies .unify sideBySide ["p"]
      (withGroup [(["p", "Generals", "G", "a"], .link ⟨"../../ZeroHour/G/a"⟩),
        (["p", "ZeroHour", "G", "a"], .file (.text "1") false),
        (["p", "Core", "G", "a"], .directory),
        (["p", "Core", "G", "a", "b"], .file (.text "2") false)])
      .generals "G/a" "G/a" ∧
    LosesCopies .move sideBySide ["p"]
      { withGroup [(["p", "Generals", "G", "a"], .file (.text "1") false),
          (["p", "Core", "G", "a"], .link ⟨"../../Generals/G/a"⟩)] with
        sealed := [["p", "Generals", "G"]] }
      .generals "G/a" "G/a" := by
  decide +kernel

end Unify

end EngineUpkeep
