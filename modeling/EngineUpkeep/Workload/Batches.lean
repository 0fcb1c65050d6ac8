import EngineUpkeep.Settings

/-!
# Batches

Files are cut into batches of one size, in order; the last batch has the rest. A batch is never
empty, and the batches one after the other are the files (`flatten_batches`).
-/

namespace EngineUpkeep

/-- The files of one run of the analyzer. -/
abbrev Batch := List Text

namespace Batch

/-- Cuts files into batches of `extra + 1`. Each step makes a batch. -/
def cutUpTo (extra : Nat) : Nat → List Text → List Batch
  | 0, _ => []
  | _ + 1, [] => []
  | fuel + 1, file :: files =>
    (file :: files.take extra) :: cutUpTo extra fuel (files.drop extra)

/-- The batches of some files. The size is brought into the range that is allowed. -/
def batches (size : Nat) (files : List Text) : List Batch :=
  cutUpTo (clampBatchSize size - 1) files.length files

theorem flatten_cutUpTo (extra fuel : Nat) (files : List Text) (h : files.length ≤ fuel) :
    (cutUpTo extra fuel files).flatten = files := by
  induction fuel generalizing files with
  | zero =>
    have : files = [] := by simpa using h
    simp [cutUpTo, this]
  | succ fuel ih =>
    cases files with
    | nil => rfl
    | cons file files =>
      have hlen : (files.drop extra).length ≤ fuel := by
        simp only [List.length_cons, List.length_drop] at h ⊢
        omega
      simp [cutUpTo, ih _ hlen]

/-- The batches, one after the other, are the files. -/
theorem flatten_batches (size : Nat) (files : List Text) : (batches size files).flatten = files :=
  flatten_cutUpTo _ _ _ (Nat.le_refl _)

theorem length_of_mem_cutUpTo {extra fuel : Nat} {files : List Text} {batch : Batch}
    (h : batch ∈ cutUpTo extra fuel files) : 1 ≤ batch.length ∧ batch.length ≤ extra + 1 := by
  induction fuel generalizing files with
  | zero => simp [cutUpTo] at h
  | succ fuel ih =>
    cases files with
    | nil => simp [cutUpTo] at h
    | cons file files =>
      rcases List.mem_cons.1 h with rfl | h
      · simp only [List.length_cons, List.length_take]
        omega
      · exact ih h

/-- A batch has at least one file and at most the effective batch size. -/
theorem length_of_mem_batches {size : Nat} {files : List Text} {batch : Batch}
    (h : batch ∈ batches size files) :
    1 ≤ batch.length ∧ batch.length ≤ clampBatchSize size := by
  have hmem := length_of_mem_cutUpTo h
  have hpos := (clampBatchSize_bounds size).1
  omega

end Batch

end EngineUpkeep
