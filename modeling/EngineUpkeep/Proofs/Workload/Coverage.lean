import EngineUpkeep.Proofs.Workload.Sequential

/-!
# Which batches a run calls

A run that completes has called every batch once, and in order if there is one worker
(`calls_of_completed`), whatever the analyzer does and whenever the flag is looked at. A run whose
flag is up from the start calls none (`calls_of_isUp`).

Files are cut into batches that are full but for the last one, so each file is in one of them
(`Batch.isCut_batches`).
-/

namespace EngineUpkeep

namespace Batch

/-! ## Cuts -/

/-- Batches of a size into which files are cut. -/
structure IsCut (size : Nat) (files : List Text) (batches : List Batch) : Prop where
  /-- The batches one after the other are the files. -/
  flatten_eq : batches.flatten = files
  /-- A file is in one batch. -/
  countP_eq : ∀ file ∈ files, batches.countP (file ∈ ·) = 1
  /-- All batches but the last are full, and the last one is not empty. -/
  full : ∃ front last, batches = front ++ [last] ∧ (∀ batch ∈ front, batch.length = size) ∧
    1 ≤ last.length ∧ last.length ≤ size

theorem IsCut.mem {size : Nat} {files : List Text} {batches : List Batch} {batch : Batch}
    {file : Text} (h : IsCut size files batches) (hbatch : batch ∈ batches) (hfile : file ∈ batch) :
    file ∈ files := by
  rw [← h.flatten_eq]
  exact List.mem_flatten.2 ⟨batch, hbatch, hfile⟩

theorem cutUpTo_nil (extra fuel : Nat) : cutUpTo extra fuel [] = [] := by
  cases fuel <;> rfl

theorem cutUpTo_eq_concat {extra fuel : Nat} {files : List Text} (hfiles : files ≠ [])
    (hfuel : files.length ≤ fuel) :
    ∃ front last, cutUpTo extra fuel files = front ++ [last] ∧
      (∀ batch ∈ front, batch.length = extra + 1) ∧ 1 ≤ last.length ∧ last.length ≤ extra + 1 := by
  induction fuel generalizing files with
  | zero => exact absurd (List.length_eq_zero_iff.1 (Nat.le_zero.1 hfuel)) hfiles
  | succ fuel ih =>
    obtain ⟨file, files, rfl⟩ := List.exists_cons_of_ne_nil hfiles
    rw [List.length_cons] at hfuel
    rw [cutUpTo]
    by_cases hrest : files.drop extra = []
    · refine ⟨[], file :: files.take extra, ?_, by simp, by simp, ?_⟩
      · rw [hrest, cutUpTo_nil]
        rfl
      · rw [List.length_cons, List.length_take]
        omega
    · obtain ⟨front, last, heq, hfull, hlast⟩ := ih hrest (by rw [List.length_drop]; omega)
      refine ⟨(file :: files.take extra) :: front, last, by rw [heq]; rfl, ?_, hlast⟩
      -- Files are left, so the first batch is full.
      have hlength : extra < files.length :=
        Nat.lt_of_not_le fun hle => hrest (List.drop_eq_nil_of_le hle)
      intro batch hbatch
      obtain rfl | hbatch := List.mem_cons.1 hbatch
      · rw [List.length_cons, List.length_take, Nat.min_eq_left (Nat.le_of_lt hlength)]
      · exact hfull batch hbatch

/-- Where no file comes twice, a file is in one batch. -/
theorem countP_mem_of_nodup_flatten {batches : List Batch} (hnodup : batches.flatten.Nodup)
    {file : Text} (hmem : file ∈ batches.flatten) : batches.countP (file ∈ ·) = 1 := by
  induction batches with
  | nil => cases hmem
  | cons batch batches ih =>
    rw [List.flatten_cons, List.nodup_append] at hnodup
    obtain ⟨-, hrest, hdisjoint⟩ := hnodup
    by_cases hbatch : file ∈ batch
    · have hnone : batches.countP (file ∈ ·) = 0 := by
        rw [List.countP_eq_zero]
        intro other hother hfile
        exact hdisjoint file hbatch file
          (List.mem_flatten.2 ⟨other, hother, of_decide_eq_true hfile⟩) rfl
      rw [List.countP_cons, hnone, if_pos (decide_eq_true hbatch)]
    · rw [List.flatten_cons, List.mem_append] at hmem
      rw [List.countP_cons, if_neg (by simpa using hbatch)]
      exact ih hrest (hmem.resolve_left hbatch)

/-- Files without repetition are cut into batches of the size that is allowed. -/
theorem isCut_batches (size : Nat) {files : List Text} (hfiles : files ≠ [])
    (hnodup : files.Nodup) : IsCut (clampBatchSize size) files (batches size files) where
  flatten_eq := flatten_batches size files
  countP_eq file hfile :=
    countP_mem_of_nodup_flatten ((flatten_batches size files).symm ▸ hnodup)
      ((flatten_batches size files).symm ▸ hfile)
  full := by
    have hcut : ∃ front last, batches size files = front ++ [last] ∧ _ :=
      cutUpTo_eq_concat hfiles (Nat.le_refl _)
    rwa [Nat.sub_add_cancel (clampBatchSize_bounds size).1] at hcut

end Batch

/-! ## Runs that complete -/

namespace Pool

variable {State : Type}

/-- There are results only if the analyzer has run on every batch. -/
theorem isFinished_of_results? {pool : Pool State} {results : List Findings}
    (h : pool.results? = some results) : ∀ entry ∈ pool.stages, isFinished entry = true := by
  rw [results?] at h
  generalize pool.stages = stages at h ⊢
  induction stages generalizing results with
  | nil => simp
  | cons entry stages ih =>
    rw [List.mapM_cons] at h
    obtain ⟨result, hresult, h⟩ := Option.bind_eq_some_iff.1 h
    obtain ⟨others, hothers, -⟩ := Option.bind_eq_some_iff.1 h
    intro other hother
    obtain rfl | hother := List.mem_cons.1 hother
    · rw [isFinished, hresult]
      rfl
    · exact ih hothers other hother

/-- A pool completes only if the analyzer has run on every batch. -/
theorem isFinished_of_completed {pool : Pool State} {interruption : Interruption} {code : Int}
    {report : Report} (h : pool.outcome interruption = .completed code report) :
    ∀ entry ∈ pool.stages, isFinished entry = true := by
  rw [outcome] at h
  split at h
  · cases h
  · rcases hresults : pool.results? with - | results
    · simp [hresults] at h
    · exact isFinished_of_results? hresults

/-- No batch is cleared while the flag is up, so the analyzer is not called. -/
theorem calls_follow_of_isUp {workload : Workload} {analyzer : Analyzer State}
    {interruption : Interruption} (hup : ∀ looks calls, interruption.isUp looks calls = true)
    {pool : Pool State} (hcalls : pool.calls = [])
    (hcleared : ∀ entry ∈ pool.stages, entry.2 ≠ .cleared) (schedule : List Step) :
    (pool.follow workload analyzer interruption schedule).calls = [] := by
  induction schedule generalizing pool with
  | nil => exact hcalls
  | cons step schedule ih =>
    obtain heq | ⟨before, batch, after, hstages, heq⟩ | ⟨before, batch, after, hstages, -⟩ :=
      step_cases workload analyzer interruption pool step
    · rw [follow, List.foldl_cons, heq]
      exact ih hcalls hcleared
    · rw [follow, List.foldl_cons, heq, hup, if_pos rfl]
      refine ih hcalls fun entry hentry => ?_
      -- The batch that is looked at is skipped.
      rw [hstages] at hcleared
      obtain hentry | hentry := List.mem_append.1 hentry
      · exact hcleared entry (List.mem_append_left _ hentry)
      · obtain rfl | hentry := List.mem_cons.1 hentry
        · exact Stage.noConfusion
        · exact hcleared entry (List.mem_append_right _ (List.mem_cons_of_mem _ hentry))
    · exact absurd rfl (hcleared (batch, .cleared) (by rw [hstages]; simp))

end Pool

namespace Workload

variable {State : Type} {analyzer : Analyzer State} {interruption : Interruption} {code : Int}
  {report : Report}

/-- A sequential run that completes has called the batches in order. -/
theorem calls_sequentialFrom (workload : Workload) {count passed : Nat} {tally : Tally}
    {state : State} {rest : List Batch}
    (h : (workload.sequentialFrom analyzer interruption count passed tally state rest).outcome =
      .completed code report) :
    (workload.sequentialFrom analyzer interruption count passed tally state rest).calls = rest := by
  induction rest generalizing passed tally state with
  | nil => rfl
  | cons batch rest ih =>
    rw [sequentialFrom_cons] at h ⊢
    by_cases hbefore : interruption.isUp (2 * passed) passed = true
    · rw [if_pos hbefore] at h
      cases h
    · by_cases hafter : interruption.isUp (2 * passed + 1) (passed + 1) = true
      · rw [if_neg hbefore, if_pos hafter] at h
        cases h
      · rw [if_neg hbefore, if_neg hafter] at h ⊢
        exact congrArg (batch :: ·) (ih h)

/-- A run that completes has called every batch once, and in order if there is one worker. -/
theorem calls_of_completed (workload : Workload) {schedule : List Step} {files : List Text}
    {state : State}
    (h : (workload.runUnder analyzer interruption schedule files state).outcome =
      .completed code report) :
    (workload.runUnder analyzer interruption schedule files state).calls.Perm
        (workload.batches files) ∧
      (workload.jobs ≤ 1 →
        (workload.runUnder analyzer interruption schedule files state).calls =
          workload.batches files) := by
  rw [runUnder] at h ⊢
  by_cases hfiles : files = []
  · rw [if_pos hfiles] at h
    cases h
  rw [if_neg hfiles] at h ⊢
  by_cases hworkers : 1 < workload.workers
  · rw [if_pos hworkers] at h ⊢
    refine ⟨?_, fun hjobs => absurd hworkers (by rw [workers]; omega)⟩
    have hconsistent : Pool.Consistent interruption (workload.batches files)
        ((Pool.start (workload.batches files) state).follow workload analyzer interruption
          schedule) := (Pool.consistent_start _ _ _).follow schedule
    exact hconsistent.calls_perm_batches (Pool.isFinished_of_completed h)
  · rw [if_neg hworkers] at h ⊢
    have hcalls := workload.calls_sequentialFrom h
    exact ⟨.of_eq hcalls, fun _ => hcalls⟩

/-- A run whose flag is up from the start calls nothing. -/
theorem calls_of_isUp (workload : Workload)
    (hup : ∀ looks calls, interruption.isUp looks calls = true) (schedule : List Step)
    (files : List Text) (state : State) :
    (workload.runUnder analyzer interruption schedule files state).calls = [] := by
  rw [runUnder]
  split
  · rfl
  split
  · refine Pool.calls_follow_of_isUp hup rfl (fun entry hentry => ?_) schedule
    obtain ⟨batch, -, rfl⟩ := List.mem_map.1 hentry
    exact Stage.noConfusion
  · rw [runInTurn, Run.after]
    cases workload.batches files with
    | nil => rfl
    | cons batch rest =>
      rw [sequentialFrom_cons, hup, if_pos rfl]
      rfl

end Workload

end EngineUpkeep
