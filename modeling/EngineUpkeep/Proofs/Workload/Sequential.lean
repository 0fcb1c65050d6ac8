import EngineUpkeep.Proofs.Workload.Pool

/-!
# What sequential runs come to

A sequential run looks at the flag twice for each batch. Where the flag depends on the calls alone,
only the last of these looks matters, since the flag never goes down (`outcome_sequentialFrom`).
-/

namespace EngineUpkeep

namespace Interruption

/-- The flag has a value from the start, and a call may raise it. -/
def fromStart (up : Bool) (call? : Option Nat) : Interruption :=
  { ofStart up with inCall? := call? }

/-- Such a flag depends on the calls alone. -/
theorem isUp_fromStart (up : Bool) (call? : Option Nat) (looks calls : Nat) :
    (fromStart up call?).isUp looks calls = (up || call?.any fun call => max call 1 ≤ calls) := by
  cases up <;> simp [fromStart, ofStart, isUp]

end Interruption

namespace Workload

variable {State : Type} {analyzer : Analyzer State} {answer : Batch → Reply}

/-- One batch of a sequential run: a look, a call, a look, and then the batches after it. -/
theorem sequentialFrom_cons (workload : Workload) (analyzer : Analyzer State)
    (interruption : Interruption) (count passed : Nat) (tally : Tally) (state : State)
    (batch : Batch) (rest : List Batch) :
    workload.sequentialFrom analyzer interruption count passed tally state (batch :: rest) =
      if interruption.isUp (2 * passed) passed = true then ⟨.interrupted, [], [], state⟩
      else if interruption.isUp (2 * passed + 1) (passed + 1) = true then
        ⟨.interrupted, [batch], workload.batchLine (passed + 1) count batch.length,
          (analyzer batch state).2⟩
      else
        Run.after [batch] (workload.batchLine (passed + 1) count batch.length ++
            if rest = [] then [] else workload.short ".")
          (workload.sequentialFrom analyzer interruption count (passed + 1)
            (tally.add (workload.findings (analyzer batch state).1)) (analyzer batch state).2
            rest) := rfl

/-- The tally of batches after another tally, when the replies depend on the batch alone. -/
def tallyFrom (workload : Workload) (answer : Batch → Reply) (tally : Tally)
    (batches : List Batch) : Tally :=
  batches.foldl (fun tally batch => tally.add (workload.findings (answer batch))) tally

theorem tallyFrom_empty (workload : Workload) (answer : Batch → Reply) (batches : List Batch) :
    workload.tallyFrom answer {} batches =
      Tally.ofResults (batches.map fun batch => workload.findings (answer batch)) := by
  rw [tallyFrom, Tally.ofResults, List.foldl_map]

/-- A sequential run over the batches that are left is interrupted if there are any and the flag is
up after the call on the last of them. Else it has the tally of all batches. -/
theorem outcome_sequentialFrom (hanswer : analyzer.Answers answer) (workload : Workload)
    {interruption : Interruption} {up : Nat → Bool}
    (hup : ∀ looks calls, interruption.isUp looks calls = up calls) (count passed : Nat)
    (tally : Tally) (state : State) (rest : List Batch) :
    (workload.sequentialFrom analyzer interruption count passed tally state rest).outcome =
      if rest ≠ [] ∧ up (passed + rest.length) = true then .interrupted
      else (workload.tallyFrom answer tally rest).outcome := by
  have hmono : ∀ calls calls', calls ≤ calls' → up calls = true → up calls' = true := by
    intro calls calls' hle h
    rw [← hup 0] at h ⊢
    exact Interruption.isUp_of_le (Nat.le_refl 0) hle h
  induction rest generalizing passed tally state with
  | nil => rfl
  | cons batch rest ih =>
    rw [sequentialFrom_cons, hup, hup, List.length_cons]
    by_cases hbefore : up passed = true
    · have hlast := hmono _ (passed + (rest.length + 1)) (Nat.le_add_right _ _) hbefore
      rw [if_pos hbefore, if_pos ⟨List.cons_ne_nil _ _, hlast⟩]
    · rw [if_neg hbefore]
      by_cases hafter : up (passed + 1) = true
      · have hlast := hmono _ (passed + (rest.length + 1)) (by omega) hafter
        rw [if_pos hafter, if_pos ⟨List.cons_ne_nil _ _, hlast⟩]
      · -- The call did not raise the flag: the rest decides.
        have hadd : passed + 1 + rest.length = passed + (rest.length + 1) := by omega
        rw [if_neg hafter, Run.after, ih, hadd, hanswer]
        cases rest with
        | nil => simp [hafter, tallyFrom]
        | cons next rest => simp [tallyFrom]

end Workload

end EngineUpkeep
