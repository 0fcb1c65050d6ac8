import EngineUpkeep.Proofs.Workload.Account
import Mathlib.Algebra.GroupWithZero.Nat

/-!
# The calls and the progress of sequential runs

Where the interrupt flag depends on the calls alone, a sequential run has called the batches in
order up to the call that raises the flag, and what it has printed tells how far it has come
(`Workload.calls_and_progress_in_turn`). In short there is a dot for each batch that counts, but for
the last of all batches, which is followed by the end of the line; in full there is a line for each
call.

The flag is described by the number of calls after which it is up (`Interruption.RisesAfter`). A
batch then falls into one of three cases: the flag was up before it, its own call raises the flag, or
the run goes on behind it (`Workload.sequentialFrom_cases`). All that is said of a run follows from
them by induction on the batches that are left.
-/

namespace EngineUpkeep

namespace Interruption

/-- The flag is up once there were `limit` calls, and not before. This is known for up to `count`
calls, and however often the flag is looked at. -/
def RisesAfter (interruption : Interruption) (limit count : Nat) : Prop :=
  ∀ looks calls, calls ≤ count → (interruption.isUp looks calls = true ↔ limit ≤ calls)

/-- The number of calls after which the flag is up. If it never goes up, this is one more than the
calls that there can be. -/
def limitOf (up : Bool) (call? : Option Nat) (count : Nat) : Nat :=
  if up then 0 else call?.elim (count + 1) (max · 1)

theorem risesAfter_fromStart (up : Bool) (call? : Option Nat) (count : Nat) :
    (fromStart up call?).RisesAfter (limitOf up call? count) count := by
  intro looks calls hle
  rw [isUp_fromStart, limitOf]
  cases up with
  | true => simp
  | false =>
    cases call? with
    -- So many calls are not made, so a flag that never goes up looks like one that goes up then.
    | none => simpa using Nat.lt_succ_of_le hle
    | some call => simp

/-- The flag is up after calls on all batches if it is up from the start, or a call that is made
raises it. -/
theorem limitOf_le_iff {up : Bool} {call? : Option Nat} {count : Nat} (hcount : count ≠ 0) :
    limitOf up call? count ≤ count ↔ up = true ∨ ∃ call, call? = some call ∧ call ≤ count := by
  rw [limitOf]
  cases up with
  | true => simp
  | false =>
    cases call? with
    | none => simp
    | some call =>
      have hfirst : max call 1 ≤ count ↔ call ≤ count := by omega
      refine hfirst.trans ?_
      simp

/-- The calls of a run: none if the flag is up from the start, and else those up to the one that
raises the flag. -/
theorem min_limitOf (up : Bool) (call? : Option Nat) (count : Nat) :
    min (limitOf up call? count) count =
      if up then 0 else call?.elim count fun call => min count (max call 1) := by
  rw [limitOf]
  cases up with
  | true => simp
  | false =>
    cases call? with
    | none => simp
    | some call => simp [Nat.min_comm]

end Interruption

namespace Workload

variable {State : Type} {analyzer : Analyzer State} {interruption : Interruption}
  {workload : Workload} {limit count passed : Nat} {tally : Tally} {state : State}
  {batch : Batch} {rest : List Batch}

/-! ## What a run comes to, batch by batch -/

/-- A sequential run at its next batch: it stops in front of the batch, or after the call that
raises the flag, or it goes on with the batches behind it. -/
theorem sequentialFrom_cases (hrises : interruption.RisesAfter limit (passed + (rest.length + 1))) :
    (limit ≤ passed ∧
      workload.sequentialFrom analyzer interruption count passed tally state (batch :: rest) =
        ⟨.interrupted, [], [], state⟩) ∨
    (limit = passed + 1 ∧
      workload.sequentialFrom analyzer interruption count passed tally state (batch :: rest) =
        ⟨.interrupted, [batch], workload.batchLine (passed + 1) count batch.length,
          (analyzer batch state).2⟩) ∨
    (passed + 1 < limit ∧ interruption.RisesAfter limit (passed + 1 + rest.length) ∧
      workload.sequentialFrom analyzer interruption count passed tally state (batch :: rest) =
        Run.after [batch] (workload.batchLine (passed + 1) count batch.length ++
            if rest = [] then [] else workload.short ".")
          (workload.sequentialFrom analyzer interruption count (passed + 1)
            (tally.add (workload.findings (analyzer batch state).1)) (analyzer batch state).2
            rest)) := by
  have hbefore := hrises (2 * passed) passed (by omega)
  have hafter := hrises (2 * passed + 1) (passed + 1) (by omega)
  rw [sequentialFrom_cons]
  by_cases hpassed : limit ≤ passed
  · exact .inl ⟨hpassed, if_pos (hbefore.2 hpassed)⟩
  rw [if_neg fun hup => hpassed (hbefore.1 hup)]
  right
  by_cases hcall : limit ≤ passed + 1
  · exact .inl ⟨by omega, if_pos (hafter.2 hcall)⟩
  · right
    have hrest : interruption.RisesAfter limit (passed + 1 + rest.length) :=
      fun looks calls hle => hrises looks calls (by omega)
    exact ⟨by omega, hrest, if_neg fun hup => hcall (hafter.1 hup)⟩

/-- The batches are called in order, up to the call that raises the flag. -/
theorem calls_sequentialFrom_eq_take (hrises : interruption.RisesAfter limit (passed + rest.length)) :
    (workload.sequentialFrom analyzer interruption count passed tally state rest).calls =
      rest.take (limit - passed) := by
  induction rest generalizing passed tally state with
  | nil => exact List.take_nil.symm
  | cons batch rest ih =>
    obtain ⟨hlimit, heq⟩ | ⟨rfl, heq⟩ | ⟨hlimit, hrest, heq⟩ := sequentialFrom_cases hrises
    · rw [heq, Nat.sub_eq_zero_of_le hlimit, List.take_zero]
    · rw [heq, Nat.add_sub_cancel_left, List.take_succ_cons, List.take_zero]
    · have hnext : limit - passed = limit - (passed + 1) + 1 := by omega
      rw [heq, hnext, List.take_succ_cons]
      exact congrArg (batch :: ·) (ih hrest)

/-- The run is interrupted if the flag would be up after calls on all batches, and there are any. -/
theorem outcome_sequentialFrom_eq_interrupted_iff
    (hrises : interruption.RisesAfter limit (passed + rest.length)) :
    (workload.sequentialFrom analyzer interruption count passed tally state rest).outcome =
        .interrupted ↔ rest ≠ [] ∧ limit ≤ passed + rest.length := by
  induction rest generalizing passed tally state with
  | nil =>
    constructor
    · intro h
      cases h
    · exact fun h => absurd rfl h.1
  | cons batch rest ih =>
    rw [List.length_cons]
    obtain ⟨hlimit, heq⟩ | ⟨rfl, heq⟩ | ⟨hlimit, hrest, heq⟩ := sequentialFrom_cases hrises
    · rw [heq]
      exact iff_of_true rfl ⟨List.cons_ne_nil _ _, by omega⟩
    · rw [heq]
      exact iff_of_true rfl ⟨List.cons_ne_nil _ _, by omega⟩
    · rw [heq]
      refine (ih hrest).trans ⟨fun h => ⟨List.cons_ne_nil _ _, by omega⟩, fun h => ⟨?_, by omega⟩⟩
      -- The flag goes up after more calls than this one, so there is a batch for the next.
      rintro rfl
      rw [List.length_nil] at h
      omega

/-! ## Progress -/

/-- The line that announces a call, with the number of the batch and of its files. -/
def announcement (count number size : Nat) : Text :=
  "Batch " ++ Text.ofNat number ++ "/" ++ Text.ofNat count ++ ": " ++ Text.ofNat size ++
    " file(s)...\n"

theorem full_of_short (hverbose : workload.verbose = false) (text : Text) :
    workload.full text = [] := by
  rw [full, hverbose, Bool.and_false]
  rfl

theorem short_of_full (hverbose : workload.verbose = true) (text : Text) :
    workload.short text = [] := by
  rw [short, hverbose, Bool.not_true, Bool.and_false]
  rfl

section Progress

variable (hprogress : workload.progress = true)
include hprogress

theorem short_eq (hverbose : workload.verbose = false) (text : Text) :
    workload.short text = text := by
  rw [short, hprogress, hverbose]
  rfl

theorem full_eq (hverbose : workload.verbose = true) (text : Text) :
    workload.full text = text := by
  rw [full, hprogress, hverbose]
  rfl

/-- In short, all calls but the last one are followed by a dot, whether the last one is that on the
last batch or that which has raised the flag. -/
theorem printed_sequentialFrom_short (hverbose : workload.verbose = false) (hrest : rest ≠ [])
    (hrises : interruption.RisesAfter limit (passed + rest.length)) :
    (workload.sequentialFrom analyzer interruption count passed tally state rest).printed =
      List.replicate (min (limit - passed) rest.length - 1) '.' ++
        if limit ≤ passed + rest.length then [] else " done.\n" := by
  induction rest generalizing passed tally state with
  | nil => exact absurd rfl hrest
  | cons batch rest ih =>
    have hline : workload.batchLine (passed + 1) count batch.length = [] :=
      full_of_short hverbose _
    rw [List.length_cons]
    obtain ⟨hlimit, heq⟩ | ⟨rfl, heq⟩ | ⟨hlimit, hnext, heq⟩ := sequentialFrom_cases hrises
    · rw [heq, if_pos (by omega), Nat.sub_eq_zero_of_le hlimit, Nat.zero_min]
      rfl
    · rw [heq, if_pos (by omega), hline, Nat.add_sub_cancel_left, Nat.min_eq_left (by omega)]
      rfl
    · rw [heq, Run.after, hline]
      by_cases hlast : rest = []
      · -- The last batch has no dot behind it, but the end of the line.
        subst hlast
        have hdone : workload.doneLine = " done.\n".toList := short_eq hprogress hverbose _
        rw [List.length_nil, Nat.zero_add, if_neg (Nat.not_le.2 hlimit),
          Nat.min_eq_right (by omega)]
        exact hdone
      · have hpos : 0 < rest.length := List.length_pos_iff.2 hlast
        have hdots : min (limit - passed) (rest.length + 1) - 1 =
            min (limit - (passed + 1)) rest.length - 1 + 1 := by omega
        have hsum : passed + 1 + rest.length = passed + (rest.length + 1) := by omega
        rw [if_neg hlast, ih hlast hnext, short_eq hprogress hverbose, hdots, hsum,
          List.replicate_succ]
        rfl

/-- In full, each call is announced by a line with its number and the size of its batch. -/
theorem printed_sequentialFrom_full (hverbose : workload.verbose = true)
    (hrises : interruption.RisesAfter limit (passed + rest.length)) :
    (workload.sequentialFrom analyzer interruption count passed tally state rest).printed =
      ((rest.take (limit - passed)).zipIdx (passed + 1)).flatMap
        fun entry => announcement count entry.2 entry.1.length := by
  induction rest generalizing passed tally state with
  | nil =>
    rw [List.take_nil]
    exact short_of_full hverbose _
  | cons batch rest ih =>
    have hline : workload.batchLine (passed + 1) count batch.length =
        announcement count (passed + 1) batch.length := full_eq hprogress hverbose _
    obtain ⟨hlimit, heq⟩ | ⟨rfl, heq⟩ | ⟨hlimit, hnext, heq⟩ := sequentialFrom_cases hrises
    · rw [heq, Nat.sub_eq_zero_of_le hlimit, List.take_zero]
      rfl
    · rw [heq, hline, Nat.add_sub_cancel_left, List.take_succ_cons, List.take_zero]
      exact (List.append_nil _).symm
    · have htake : limit - passed = limit - (passed + 1) + 1 := by omega
      rw [heq, Run.after, hline, short_of_full hverbose, ite_self, List.append_nil, ih hnext, htake,
        List.take_succ_cons, List.zipIdx_cons, List.flatMap_cons]

end Progress

/-! ## Sequential runs over files -/

/-- The batches have as many files as there are. -/
theorem sum_length_batches (workload : Workload) (files : List Text) :
    ((workload.batches files).map List.length).sum = files.length := by
  rw [← List.length_flatten, batches, Batch.flatten_batches]

/-- A run with one worker, whose flag is up from the start or raised by a call, or never. If it is up
from the start nothing is called, and else the batches are called in order up to the call that raises
the flag, which is the first one if it is asked for earlier. The run is interrupted exactly if the
flag has gone up by the last call, even on the last batch, and completes otherwise.

In short, a dot is printed for each batch that counts, but for the last of all batches; a batch whose
call has raised the flag does not count. In full, a line is printed for each call. If the run
completes, all batches were called, and the sizes add up to the number of files. -/
theorem calls_and_progress_in_turn (workload : Workload) (hjobs : workload.jobs ≤ 1)
    (hprogress : workload.progress = true) (analyzer : Analyzer State) (up : Bool)
    (call? : Option Nat) (schedule : List Step) {files : List Text} (hfiles : files ≠ [])
    (state : State) :
    let batches := workload.batches files
    let count := batches.length
    let run := workload.runUnder analyzer (.fromStart up call?) schedule files state
    let called := if up then 0 else call?.elim count fun call => min count (max call 1)
    let merged := if run.outcome = .interrupted then called - 1 else called
    let dots := min merged (count - 1)
    let ending : Text := if run.outcome = .interrupted then [] else " done.\n"
    let line : Batch × Nat → Text := fun (batch, number) =>
      "Batch " ++ Text.ofNat number ++ "/" ++ Text.ofNat count ++ ": " ++ Text.ofNat batch.length ++
        " file(s)...\n"
    run.calls = batches.take called ∧
    (run.outcome = .interrupted ↔ up = true ∨ ∃ call, call? = some call ∧ call ≤ count) ∧
    (run.outcome = .interrupted → dots = called - 1) ∧
    (run.outcome ≠ .interrupted →
      (∃ code report, run.outcome = .completed code report) ∧ called = count ∧ dots = count - 1 ∧
        (batches.map List.length).sum = files.length) ∧
    (workload.verbose = false → run.printed =
      ("Analyzing " ++ Text.ofNat files.length ++ " file(s)..." : Text) ++
        List.replicate dots '.' ++ ending) ∧
    (workload.verbose = true → run.printed =
      ("Running clang-tidy on " ++ Text.ofNat files.length ++ " file(s) in " ++ Text.ofNat count ++
        " batch(es)...\n\n" : Text) ++ ((batches.take called).zipIdx 1).flatMap line) := by
  intro batches count run called merged dots ending line
  have hbatches : batches ≠ [] := workload.batches_ne_nil hfiles
  have hcount : count ≠ 0 := fun h => hbatches (List.length_eq_zero_iff.1 h)
  let limit := Interruption.limitOf up call? count
  have hrises : (Interruption.fromStart up call?).RisesAfter limit (0 + batches.length) := by
    rw [Nat.zero_add]
    exact Interruption.risesAfter_fromStart up call? count
  have hcalled : called = min limit count := (Interruption.min_limitOf up call? count).symm
  have hrun : run = Run.after [] (workload.sequentialHeading files.length count)
      (workload.sequentialFrom analyzer (.fromStart up call?) count 0 {} state batches) := by
    have hworkers : ¬ 1 < workload.workers := by
      rw [workers]
      omega
    show workload.runUnder _ _ _ _ _ = _
    rw [runUnder, if_neg hfiles, if_neg hworkers]
    rfl
  have hinterrupted : run.outcome = .interrupted ↔ limit ≤ count := by
    rw [hrun]
    refine (outcome_sequentialFrom_eq_interrupted_iff hrises).trans ?_
    rw [Nat.zero_add]
    exact and_iff_right hbatches
  -- In both cases, the number of dots is one less than that of the calls.
  have hdots : dots = min limit count - 1 := by
    show min (if run.outcome = .interrupted then called - 1 else called) (count - 1) = _
    rw [hcalled]
    split
    · omega
    · next hgo =>
      have hlimit : ¬ limit ≤ count := fun h => hgo (hinterrupted.2 h)
      omega
  refine ⟨?_, hinterrupted.trans (Interruption.limitOf_le_iff hcount), fun _ => by omega,
    fun hgo => ?_, ?_, ?_⟩
  · rw [hrun, hcalled, ← List.take_eq_take_min]
    exact calls_sequentialFrom_eq_take hrises
  · have hlimit : ¬ limit ≤ count := fun h => hgo (hinterrupted.2 h)
    refine ⟨?_, by omega, by omega, workload.sum_length_batches files⟩
    rw [hrun] at hgo ⊢
    exact (outcome_sequentialFrom_cases _ _ _ _ _ _ _ _).resolve_right hgo
  · intro hverbose
    have hending : ending = if limit ≤ count then [] else " done.\n".toList :=
      if_congr hinterrupted rfl rfl
    rw [hrun, hdots, hending]
    show workload.sequentialHeading _ _ ++ (sequentialFrom ..).printed = _
    rw [printed_sequentialFrom_short hprogress hverbose hbatches hrises, sequentialHeading,
      full_of_short hverbose, short_eq hprogress hverbose, Nat.zero_add, List.append_assoc _ _ (ite ..)]
    rfl
  · intro hverbose
    rw [hrun, hcalled, ← List.take_eq_take_min]
    show workload.sequentialHeading _ _ ++ (sequentialFrom ..).printed = _
    rw [printed_sequentialFrom_full hprogress hverbose hrises, sequentialHeading,
      short_of_full hverbose, full_eq hprogress hverbose, List.append_nil]
    rfl

/-- The second of three calls raises the flag. It is the last one, and only the first is followed by a
dot, whether the analyzer keeps count of its calls or not. -/
theorem calls_and_progress_in_turn_second_call :
    let workload : Workload := { root := ⟨"/p"⟩, batchSize := 1 }
    let analyzer : Analyzer Nat := fun _ calls => (⟨0, Text.ofNat calls⟩, calls + 1)
    let files : List Text := ["a.cpp", "b.cpp", "c.cpp"]
    let run := workload.runUnder analyzer (.fromStart false (some 2)) [] files 0
    workload.jobs ≤ 1 ∧ workload.progress = true ∧ files ≠ [] ∧
      run.calls = ([["a.cpp"], ["b.cpp"]] : List (List Text)) ∧ run.outcome = .interrupted ∧
      run.printed = "Analyzing 3 file(s)....".toList := by
  intro workload analyzer files run
  have hjobs : workload.jobs ≤ 1 := by decide
  have hfiles : files ≠ [] := List.cons_ne_nil _ _
  obtain ⟨hcalls, hinterrupted, hdots, -, hprinted, -⟩ :=
    workload.calls_and_progress_in_turn hjobs rfl analyzer false (some 2) [] hfiles 0
  have houtcome : run.outcome = .interrupted := hinterrupted.2 (.inr ⟨2, rfl, by decide⟩)
  refine ⟨hjobs, rfl, hfiles, hcalls, houtcome, ?_⟩
  rw [hprinted rfl, hdots houtcome, if_pos houtcome]
  decide

end Workload

end EngineUpkeep
