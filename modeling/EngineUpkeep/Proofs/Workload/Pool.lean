import EngineUpkeep.Workload.Pool

/-!
# Invariants of pooled runs

What a step of a worker can do is said once, by `step_cases` for the pool and by `stageAt?_step` for
the batch at one place. From these follow what every schedule keeps (`Consistent`,
`HasResultsOf`) and that a schedule which takes up every batch settles every batch
(`settledAt_follow`).

The moment at which the flag goes up is arbitrary throughout. The main result, `outcome_follow`,
says what comes of a schedule that takes up every batch, when the replies depend on the batch alone.
-/

namespace EngineUpkeep

namespace Interruption

/-- A flag that is up stays up. -/
theorem isUp_of_le {interruption : Interruption} {looks looks' calls calls' : Nat}
    (hlooks : looks ≤ looks') (hcalls : calls ≤ calls')
    (h : interruption.isUp looks calls = true) : interruption.isUp looks' calls' = true := by
  rw [isUp, Bool.or_eq_true, Option.any_eq_true, Option.any_eq_true] at h ⊢
  rcases h with ⟨look, hsome, hle⟩ | ⟨call, hsome, hle⟩
  · exact Or.inl ⟨look, hsome, decide_eq_true (Nat.le_trans (of_decide_eq_true hle) hlooks)⟩
  · exact Or.inr ⟨call, hsome, decide_eq_true (Nat.le_trans (of_decide_eq_true hle) hcalls)⟩

end Interruption

/-- The replies of an analyzer are those of a function of the batch. Its state may change as it
likes. -/
def Analyzer.Answers {State : Type} (analyzer : Analyzer State) (answer : Batch → Reply) : Prop :=
  ∀ batch state, (analyzer batch state).1 = answer batch

namespace Pool

variable {State : Type} {workload : Workload} {analyzer : Analyzer State}
  {interruption : Interruption}

/-- A schedule takes up every one of `count` batches: for each there is a look and, later, a call.
The steps of different batches may come in any order. -/
def Covers (count : Nat) (schedule : List Step) : Prop :=
  ∀ place < count, [Step.look place, Step.call place].Sublist schedule

/-- Whether a schedule takes up every batch is decidable. -/
instance (count : Nat) (schedule : List Step) : Decidable (Covers count schedule) := by
  unfold Covers
  infer_instance

/-- The analyzer has run on the batch. -/
def isFinished (entry : Batch × Stage) : Bool :=
  (resultOf? entry).isSome

/-- The stage of the batch at a place. -/
def stageAt? (pool : Pool State) (place : Nat) : Option Stage :=
  pool.stages[place]?.map (·.2)

/-! ## What one step does -/

private theorem set_of_getElem? {entries : List (Batch × Stage)} {place : Nat}
    {entry : Batch × Stage} (h : entries[place]? = some entry) :
    ∃ before after, entries = before ++ entry :: after ∧
      ∀ new, entries.set place new = before ++ new :: after := by
  obtain ⟨hlt, hget⟩ := List.getElem?_eq_some_iff.1 h
  refine ⟨entries.take place, entries.drop (place + 1), ?_, fun new => ?_⟩
  · rw [← hget, ← List.drop_eq_getElem_cons hlt, List.take_append_drop]
  · rw [List.set_eq_take_append_cons_drop, if_pos hlt]

/-- A step does nothing, or it looks at the flag for a batch that waits, or it runs the analyzer on
a batch that is cleared. -/
theorem step_cases (workload : Workload) (analyzer : Analyzer State)
    (interruption : Interruption) (pool : Pool State) (step : Step) :
    pool.step workload analyzer interruption step = pool ∨
      (∃ before batch after, pool.stages = before ++ (batch, .waiting) :: after ∧
        pool.step workload analyzer interruption step =
          { pool with
            stages := before ++ (batch, if interruption.isUp pool.looks pool.calls.length
              then .skipped else .cleared) :: after
            looks := pool.looks + 1 }) ∨
      (∃ before batch after, pool.stages = before ++ (batch, .cleared) :: after ∧
        pool.step workload analyzer interruption step =
          { pool with
            stages := before ++ (batch, .finished
              (workload.findings (analyzer batch pool.state).1)) :: after
            calls := pool.calls ++ [batch]
            state := (analyzer batch pool.state).2 }) := by
  cases step with
  | look place =>
    rw [Pool.step]
    split
    · next batch hget =>
      obtain ⟨before, after, hstages, hset⟩ := set_of_getElem? hget
      refine Or.inr (Or.inl ⟨before, batch, after, hstages, ?_⟩)
      simp only [setStage, hset]
    · exact Or.inl rfl
  | call place =>
    rw [Pool.step]
    split
    · next batch hget =>
      obtain ⟨before, after, hstages, hset⟩ := set_of_getElem? hget
      refine Or.inr (Or.inr ⟨before, batch, after, hstages, ?_⟩)
      simp only [setStage, hset]
    · exact Or.inl rfl

/-! ## What every schedule keeps -/

/-- What is true of a pool at any moment. -/
structure Consistent (interruption : Interruption) (batches : List Batch) (pool : Pool State) :
    Prop where
  /-- The batches keep their order. -/
  batches_eq : pool.stages.map (·.1) = batches
  /-- The analyzer was called once on each finished batch and on no other. -/
  calls_perm : pool.calls.Perm ((pool.stages.filter isFinished).map (·.1))
  /-- A batch is skipped only if the flag is up. -/
  isUp_of_skipped : ∀ entry ∈ pool.stages, entry.2 = .skipped →
    interruption.isUp pool.looks pool.calls.length = true

theorem consistent_start (interruption : Interruption) (batches : List Batch) (state : State) :
    Consistent interruption batches (start batches state) where
  batches_eq := by simp [start, Function.comp_def]
  calls_perm := by
    have hnone : (start batches state).stages.filter isFinished = [] := by
      simp [start, isFinished, resultOf?]
    rw [hnone]
    exact List.Perm.refl []
  isUp_of_skipped := by
    intro entry hmem hskipped
    obtain ⟨batch, -, rfl⟩ := List.mem_map.1 hmem
    cases hskipped

/-- A property of all entries survives the replacement of one of them. -/
private theorem forall_mem_replace {before after : List (Batch × Stage)} {old new : Batch × Stage}
    {p q : Batch × Stage → Prop} (h : ∀ entry ∈ before ++ old :: after, p entry)
    (hlater : ∀ entry, p entry → q entry) (hnew : q new) :
    ∀ entry ∈ before ++ new :: after, q entry := by
  intro entry hmem
  rcases List.mem_append.1 hmem with hmem | hmem
  · exact hlater entry (h entry (List.mem_append_left _ hmem))
  · rcases List.mem_cons.1 hmem with rfl | hmem
    · exact hnew
    · exact hlater entry (h entry (List.mem_append_right _ (List.mem_cons_of_mem _ hmem)))

theorem Consistent.step {batches : List Batch} {pool : Pool State}
    (h : Consistent interruption batches pool) (step : Step) :
    Consistent interruption batches (pool.step workload analyzer interruption step) := by
  rcases step_cases workload analyzer interruption pool step with
    heq | ⟨before, batch, after, hstages, heq⟩ | ⟨before, batch, after, hstages, heq⟩
  · rw [heq]
    exact h
  · -- A look: no batch is finished by it, and if it skips, then because the flag is up.
    have hbatches := h.batches_eq
    have hcalls := h.calls_perm
    have hup := h.isUp_of_skipped
    rw [hstages] at hbatches hcalls hup
    rw [heq]
    refine ⟨by simpa using hbatches, ?_, ?_⟩
    · have hstage : isFinished (batch, if interruption.isUp pool.looks pool.calls.length
          then Stage.skipped else Stage.cleared) = false := by
        split <;> rfl
      have hwaiting : isFinished (batch, Stage.waiting) = false := rfl
      simpa [List.filter_cons, hstage, hwaiting] using hcalls
    · have hlater : interruption.isUp pool.looks pool.calls.length = true →
          interruption.isUp (pool.looks + 1) pool.calls.length = true :=
        Interruption.isUp_of_le (Nat.le_succ _) (Nat.le_refl _)
      refine forall_mem_replace hup (fun _ h hskipped => hlater (h hskipped)) fun hskipped => ?_
      by_cases hflag : interruption.isUp pool.looks pool.calls.length = true
      · exact hlater hflag
      · simp [hflag] at hskipped
  · -- A call: one batch more is finished, and it is the one that was called.
    have hbatches := h.batches_eq
    have hcalls := h.calls_perm
    have hup := h.isUp_of_skipped
    rw [hstages] at hbatches hcalls hup
    rw [heq]
    refine ⟨by simpa using hbatches, ?_, ?_⟩
    · have hcleared : isFinished (batch, Stage.cleared) = false := rfl
      have hfinished : isFinished (batch, Stage.finished
          (workload.findings (analyzer batch pool.state).1)) = true := rfl
      simp only [List.filter_append, List.filter_cons, hcleared, Bool.false_eq_true, if_false,
        List.map_append] at hcalls
      simp only [List.filter_append, List.filter_cons, hfinished, if_true, List.map_append,
        List.map_cons]
      exact (List.perm_append_singleton batch pool.calls).trans
        ((hcalls.cons batch).trans List.perm_middle.symm)
    · refine forall_mem_replace hup (fun _ h hskipped => ?_) (by simp)
      exact Interruption.isUp_of_le (Nat.le_refl _) (by simp) (h hskipped)

/-- Every schedule keeps what is true of a pool at any moment. -/
theorem Consistent.follow {batches : List Batch} {pool : Pool State}
    (h : Consistent interruption batches pool) (schedule : List Step) :
    Consistent interruption batches (pool.follow workload analyzer interruption schedule) := by
  induction schedule generalizing pool with
  | nil => exact h
  | cons step schedule ih => exact ih (h.step step)

/-- The results of an analyzer whose replies depend on the batch alone are those of its replies. -/
def HasResultsOf (workload : Workload) (answer : Batch → Reply) (pool : Pool State) : Prop :=
  ∀ entry ∈ pool.stages, ∀ result, entry.2 = .finished result →
    result = workload.findings (answer entry.1)

theorem HasResultsOf.step {answer : Batch → Reply} {pool : Pool State}
    (h : pool.HasResultsOf workload answer) (hanswer : analyzer.Answers answer) (step : Step) :
    (pool.step workload analyzer interruption step).HasResultsOf workload answer := by
  rcases step_cases workload analyzer interruption pool step with
    heq | ⟨before, batch, after, hstages, heq⟩ | ⟨before, batch, after, hstages, heq⟩
  · rw [heq]
    exact h
  · rw [HasResultsOf, hstages] at h
    rw [heq]
    refine forall_mem_replace h (fun _ hold => hold) fun result hresult => ?_
    split at hresult <;> cases hresult
  · rw [HasResultsOf, hstages] at h
    rw [heq]
    refine forall_mem_replace h (fun _ hold => hold) fun result hresult => ?_
    cases hresult
    rw [hanswer]

theorem HasResultsOf.follow {answer : Batch → Reply} {pool : Pool State}
    (h : pool.HasResultsOf workload answer) (hanswer : analyzer.Answers answer)
    (schedule : List Step) :
    (pool.follow workload analyzer interruption schedule).HasResultsOf workload answer := by
  induction schedule generalizing pool with
  | nil => exact h
  | cons step schedule ih => exact ih (h.step hanswer step)

theorem hasResultsOf_start (workload : Workload) (answer : Batch → Reply) (batches : List Batch)
    (state : State) : (start batches state).HasResultsOf workload answer := by
  intro entry hmem result hresult
  obtain ⟨batch, -, rfl⟩ := List.mem_map.1 hmem
  cases hresult

/-- No more batches were called than there are. -/
theorem Consistent.length_calls_le {batches : List Batch} {pool : Pool State}
    (h : Consistent interruption batches pool) : pool.calls.length ≤ batches.length := by
  rw [h.calls_perm.length_eq, ← h.batches_eq, List.length_map, List.length_map]
  exact List.length_filter_le _ _

/-! ## Schedules that take up every batch -/

/-- The place of the batch that a step is about. -/
def placeOf : Step → Nat
  | .look place => place
  | .call place => place

/-- The stage of a batch after a step at its place, where `up` says whether a look finds the flag up
and `result` is what a call leaves. -/
def stageAfter (up : Bool) (result : Findings) : Step → Stage → Stage
  | .look _, .waiting => if up then .skipped else .cleared
  | .call _, .cleared => .finished result
  | _, stage => stage

/-- What stands at a place after a step for which `up` and `result` are found. -/
def stageAfter? (pool : Pool State) (up : Bool) (result : Findings) (step : Step) (place : Nat) :
    Option Stage :=
  if placeOf step = place then (pool.stageAt? place).map (stageAfter up result step)
  else pool.stageAt? place

private theorem stageAt?_setStage (pool : Pool State) (step : Step) {batch : Batch}
    {old new : Stage} {up : Bool} {result : Findings}
    (hold : pool.stages[placeOf step]? = some (batch, old))
    (hnew : stageAfter up result step old = new) (place : Nat) :
    (pool.setStage (placeOf step) batch new).stageAt? place =
      pool.stageAfter? up result step place := by
  rw [stageAt?, setStage, List.getElem?_set, stageAfter?, stageAt?]
  by_cases hplace : placeOf step = place
  · subst hplace
    obtain ⟨hlt, -⟩ := List.getElem?_eq_some_iff.1 hold
    rw [if_pos rfl, if_pos rfl, if_pos hlt, hold]
    exact congrArg some hnew.symm
  · rw [if_neg hplace, if_neg hplace]

/-- A step that would leave the stage at its place may count as taken. -/
private theorem stageAt?_of_idle {pool : Pool State} {step : Step}
    (h : ∀ batch stage, pool.stages[placeOf step]? = some (batch, stage) →
      stageAfter false ⟨0, .empty⟩ step stage = stage) (place : Nat) :
    pool.stageAt? place = pool.stageAfter? false ⟨0, .empty⟩ step place := by
  rw [stageAfter?]
  split
  · next hplace =>
    subst hplace
    rw [stageAt?]
    rcases hget : pool.stages[placeOf step]? with - | ⟨batch, stage⟩
    · rfl
    · exact congrArg some (h batch stage hget).symm
  · rfl

/-- A step changes at most the stage at its place. -/
theorem stageAt?_step (workload : Workload) (analyzer : Analyzer State)
    (interruption : Interruption) (pool : Pool State) (step : Step) (place : Nat) :
    ∃ up result, (pool.step workload analyzer interruption step).stageAt? place =
      pool.stageAfter? up result step place := by
  -- A step that does not fit the stage of its batch does nothing, so any flag and result will do.
  cases step with
  | look spot =>
    rw [Pool.step]
    split
    · next batch hget =>
      refine ⟨interruption.isUp pool.looks pool.calls.length, ⟨0, .empty⟩, ?_⟩
      exact stageAt?_setStage pool (.look spot) hget rfl place
    · next hidle =>
      refine ⟨false, ⟨0, .empty⟩, stageAt?_of_idle (fun batch stage hget => ?_) place⟩
      cases stage with
      | waiting => exact absurd hget (hidle batch)
      | cleared => rfl
      | skipped => rfl
      | finished result => rfl
  | call spot =>
    rw [Pool.step]
    split
    · next batch hget =>
      refine ⟨false, workload.findings (analyzer batch pool.state).1, ?_⟩
      exact stageAt?_setStage pool (.call spot) hget rfl place
    · next hidle =>
      refine ⟨false, ⟨0, .empty⟩, stageAt?_of_idle (fun batch stage hget => ?_) place⟩
      cases stage with
      | waiting => rfl
      | cleared => exact absurd hget (hidle batch)
      | skipped => rfl
      | finished result => rfl

/-- The flag has been looked at for the batch at a place. -/
def LookedAt (pool : Pool State) (place : Nat) : Prop :=
  pool.stageAt? place ≠ some .waiting

/-- The batch at a place needs no more steps. -/
def SettledAt (pool : Pool State) (place : Nat) : Prop :=
  pool.LookedAt place ∧ pool.stageAt? place ≠ some .cleared

theorem LookedAt.step {pool : Pool State} {place : Nat} (h : pool.LookedAt place) (step : Step) :
    (pool.step workload analyzer interruption step).LookedAt place := by
  obtain ⟨up, result, heq⟩ := stageAt?_step workload analyzer interruption pool step place
  rw [LookedAt] at h ⊢
  rw [heq, stageAfter?]
  split
  · intro hwaiting
    obtain ⟨stage, hstage, hafter⟩ := Option.map_eq_some_iff.1 hwaiting
    cases step <;> cases stage <;> cases up <;> simp_all [stageAfter]
  · exact h

/-- After a look at the flag for a batch, the flag has been looked at for it. -/
theorem lookedAt_step_look (pool : Pool State) (place : Nat) :
    (pool.step workload analyzer interruption (.look place)).LookedAt place := by
  obtain ⟨up, result, heq⟩ := stageAt?_step workload analyzer interruption pool (.look place) place
  rw [LookedAt, heq, stageAfter?, placeOf, if_pos rfl]
  intro hwaiting
  obtain ⟨stage, -, hafter⟩ := Option.map_eq_some_iff.1 hwaiting
  cases stage <;> cases up <;> simp_all [stageAfter]

theorem SettledAt.step {pool : Pool State} {place : Nat} (h : pool.SettledAt place)
    (step : Step) : (pool.step workload analyzer interruption step).SettledAt place := by
  refine ⟨h.1.step step, ?_⟩
  obtain ⟨up, result, heq⟩ := stageAt?_step workload analyzer interruption pool step place
  obtain ⟨hlooked, hcleared⟩ := h
  rw [heq, stageAfter?]
  split
  · intro hafter
    obtain ⟨stage, hstage, hafter⟩ := Option.map_eq_some_iff.1 hafter
    cases step <;> cases stage <;> simp_all [stageAfter, LookedAt]
  · exact hcleared

/-- A call settles a batch for which the flag has been looked at. -/
theorem LookedAt.settledAt_step_call {pool : Pool State} {place : Nat} (h : pool.LookedAt place) :
    (pool.step workload analyzer interruption (.call place)).SettledAt place := by
  refine ⟨h.step _, ?_⟩
  obtain ⟨up, result, heq⟩ := stageAt?_step workload analyzer interruption pool (.call place) place
  rw [heq, stageAfter?, placeOf, if_pos rfl]
  intro hafter
  obtain ⟨stage, -, hafter⟩ := Option.map_eq_some_iff.1 hafter
  cases stage <;> simp_all [stageAfter]

theorem SettledAt.follow {pool : Pool State} {place : Nat} (h : pool.SettledAt place)
    (schedule : List Step) :
    (pool.follow workload analyzer interruption schedule).SettledAt place := by
  induction schedule generalizing pool with
  | nil => exact h
  | cons step schedule ih => exact ih (h.step step)

/-- From a look on, a call settles the batch, whatever happens in between. -/
theorem LookedAt.settledAt_follow {pool : Pool State} {place : Nat} (h : pool.LookedAt place)
    {schedule : List Step} (hcall : Step.call place ∈ schedule) :
    (pool.follow workload analyzer interruption schedule).SettledAt place := by
  induction schedule generalizing pool with
  | nil => cases hcall
  | cons step schedule ih =>
    rcases List.mem_cons.1 hcall with rfl | hcall
    · exact h.settledAt_step_call.follow schedule
    · exact ih (h.step step) hcall

/-- A schedule with a look and a later call for a batch settles it. -/
theorem settledAt_follow {pool : Pool State} {place : Nat} {schedule : List Step}
    (h : [Step.look place, Step.call place].Sublist schedule) :
    (pool.follow workload analyzer interruption schedule).SettledAt place := by
  induction schedule generalizing pool with
  | nil => cases h
  | cons step schedule ih =>
    cases h with
    | cons _ h => exact ih h
    | cons_cons _ h =>
      exact (lookedAt_step_look pool place).settledAt_follow (List.singleton_sublist.1 h)

/-! ## Pools without unsettled batches -/

/-- Every batch is finished, if all are settled and the flag is down. -/
theorem Consistent.isFinished {batches : List Batch} {pool : Pool State}
    (h : Consistent interruption batches pool)
    (hsettled : ∀ place < batches.length, pool.SettledAt place)
    (hdown : interruption.isUp pool.looks pool.calls.length = false) :
    ∀ entry ∈ pool.stages, isFinished entry = true := by
  intro entry hmem
  obtain ⟨place, hlt, hget⟩ := List.getElem_of_mem hmem
  have hstage : pool.stageAt? place = some entry.2 := by
    rw [stageAt?, List.getElem?_eq_getElem hlt, hget]
    rfl
  have hplace : place < batches.length := by
    rw [← h.batches_eq, List.length_map]
    exact hlt
  obtain ⟨hlooked, hcleared⟩ := hsettled place hplace
  obtain ⟨batch, stage⟩ := entry
  cases stage with
  | waiting => exact absurd hstage hlooked
  | cleared => exact absurd hstage hcleared
  | skipped =>
    have hup := h.isUp_of_skipped _ hmem rfl
    rw [hdown] at hup
    cases hup
  | finished result => rfl

/-- If every batch is finished, every batch was called once. -/
theorem Consistent.calls_perm_batches {batches : List Batch} {pool : Pool State}
    (h : Consistent interruption batches pool)
    (hfinished : ∀ entry ∈ pool.stages, Pool.isFinished entry = true) :
    pool.calls.Perm batches := by
  have hcalls := h.calls_perm
  rwa [List.filter_eq_self.2 hfinished, h.batches_eq] at hcalls

/-- If every batch is finished, the results are those of the replies, in the order of the
batches. -/
theorem Consistent.results?_eq {batches : List Batch} {pool : Pool State} {answer : Batch → Reply}
    (h : Consistent interruption batches pool) (hresults : pool.HasResultsOf workload answer)
    (hfinished : ∀ entry ∈ pool.stages, Pool.isFinished entry = true) :
    pool.results? = some (batches.map fun batch => workload.findings (answer batch)) := by
  have hmapM : ∀ entries : List (Batch × Stage),
      (∀ entry ∈ entries, resultOf? entry = some (workload.findings (answer entry.1))) →
      entries.mapM resultOf? =
        some (entries.map fun entry => workload.findings (answer entry.1)) := by
    intro entries
    induction entries with
    | nil => exact fun _ => rfl
    | cons entry entries ih =>
      intro hall
      have hrest := ih fun other hmem => hall other (List.mem_cons_of_mem _ hmem)
      rw [List.mapM_cons, hall entry List.mem_cons_self, hrest]
      rfl
  rw [results?, hmapM pool.stages, ← h.batches_eq, List.map_map]
  · rfl
  · rintro ⟨batch, stage⟩ hmem
    have hfin := hfinished _ hmem
    cases stage with
    | waiting => cases hfin
    | cleared => cases hfin
    | skipped => cases hfin
    | finished result => rw [resultOf?, hresults _ hmem result rfl]

/-- What comes of a schedule that takes up every batch: if the flag is up at the last look, the run
is interrupted; if it is down, every batch was called once and all results count. -/
theorem outcome_follow {answer : Batch → Reply} (hanswer : analyzer.Answers answer)
    (interruption : Interruption) (batches : List Batch) {schedule : List Step}
    (hcovers : Covers batches.length schedule) (state : State) :
    let pool := (start batches state).follow workload analyzer interruption schedule
    (interruption.isUp pool.looks pool.calls.length = true ∧
        pool.outcome interruption = .interrupted) ∨
      (interruption.isUp pool.looks pool.calls.length = false ∧ pool.calls.Perm batches ∧
        pool.outcome interruption = (Tally.ofResults (batches.map fun batch =>
          workload.findings (answer batch))).outcome) := by
  intro pool
  have hconsistent : Consistent interruption batches pool :=
    (consistent_start interruption batches state).follow schedule
  have hresults : pool.HasResultsOf workload answer :=
    (hasResultsOf_start workload answer batches state).follow hanswer schedule
  cases hflag : interruption.isUp pool.looks pool.calls.length with
  | true =>
    refine Or.inl ⟨rfl, ?_⟩
    rw [outcome, if_pos hflag]
  | false =>
    have hfinished := hconsistent.isFinished
      (fun place hlt => settledAt_follow (hcovers place hlt)) hflag
    refine Or.inr ⟨rfl, hconsistent.calls_perm_batches hfinished, ?_⟩
    rw [outcome, if_neg (by rw [hflag]; exact Bool.false_ne_true),
      hconsistent.results?_eq hresults hfinished]

end Pool

end EngineUpkeep
