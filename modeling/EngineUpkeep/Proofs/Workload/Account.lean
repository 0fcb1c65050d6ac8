import EngineUpkeep.Proofs.Workload.Agreement
import EngineUpkeep.Proofs.Workload.History
import Mathlib.Data.List.Nodup

/-!
# What a run comes to, whenever it is interrupted

A run is told from its events (`account_runUnder`): no batch is called more than once, and none for
which the flag is looked at when it is already up. A run that completes has called every batch, and
has found the flag down at its last look; its exit code and its report are those of the replies in
the order of the batches. A run over files that does not complete is interrupted.

Nothing is assumed here about the analyzer, about the moment at which the flag goes up, or about the
order of the workers' steps.
-/

namespace EngineUpkeep

/-! ## Tallies -/

namespace Tally

/-- The exit code of a tally is the first one that is not zero. -/
theorem exitCode_foldl_add (results : List Findings) (tally : Tally) :
    (results.foldl add tally).exitCode =
      if tally.exitCode = 0 then ((results.map (·.exitCode)).find? (· ≠ 0)).getD 0
      else tally.exitCode := by
  induction results generalizing tally with
  | nil =>
    split
    · assumption
    · rfl
  | cons result results ih =>
    rw [List.foldl_cons, ih, List.map_cons, add]
    by_cases htally : tally.exitCode = 0
    · by_cases hresult : result.exitCode = 0 <;> simp [htally, hresult]
    · simp [htally]

/-- The report of a tally has the issues of all results, in order. -/
theorem report_foldl_add (results : List Findings) (tally : Tally) :
    (results.foldl add tally).report =
      (results.map (·.issues)).foldl Report.merge tally.report := by
  induction results generalizing tally with
  | nil => rfl
  | cons result results ih => exact ih _

end Tally

/-! ## Events of a run -/

variable {State : Type} {analyzer : Analyzer State} {interruption : Interruption}

/-- The events of a run over `count` batches that completes with an exit code and a report. -/
structure Workload.IsComplete (workload : Workload) (count : Nat) (events : List Event)
    (replies : List Reply) (code : Int) (report : Report) : Prop where
  /-- There is a reply for each batch. -/
  length_eq : replies.length = count
  /-- The replies are what the analyzer has answered. -/
  getElem?_iff : ∀ place reply, replies[place]? = some reply ↔ .call place reply ∈ events
  /-- Each batch was called once. -/
  called_perm : (Event.called events).Perm (List.range count)
  /-- At the end the flag was found down. -/
  getLast?_eq : events.getLast? = some (.check false)
  /-- The exit code is the first one that is not zero, or zero. -/
  code_eq : code = ((replies.map (·.exitCode)).find? (· ≠ 0)).getD 0
  /-- The report has the issues of all batches, merged in their order. -/
  report_eq : report =
    (replies.map fun reply => (workload.findings reply).issues).foldl Report.merge .empty

/-- A run over files, told from its events. -/
structure Run.Account (workload : Workload) (analyzer : Analyzer State)
    (interruption : Interruption) (schedule : List Step) (files : List Text) (start : State)
    (events : List Event) (run : Run State) : Prop where
  /-- The events fit together and lead to the state in which the run leaves the analyzer. -/
  occurs : Occurs analyzer interruption (workload.batches files) start events run.final
  /-- The batches that are called are those of the calls among the events. -/
  calls_eq : run.calls.map some = (Event.called events).map ((workload.batches files)[·]?)
  /-- No batch is called twice. -/
  nodup_called : (Event.called events).Nodup
  /-- Each batch is looked at before it is called. -/
  exists_course : ∀ place, ∃ stage, Course workload place (Event.about place events) stage
  /-- From the moment at which the flag is up, no batch is started that was not looked at before. -/
  notMem_called : ∀ earlier later place, events = earlier ++ later →
    interruption.isUpAfter earlier = true → (∀ up, .look place up ∉ earlier) →
      place ∉ Event.called events
  /-- A run that completes has analyzed all batches. -/
  completed : ∀ code report, run.outcome = .completed code report →
    ∃ replies, workload.IsComplete (workload.batches files).length events replies code report
  /-- A run that does not complete is interrupted, if there are files. -/
  outcome_eq : (∀ code report, run.outcome ≠ .completed code report) →
    run.outcome = if files = [] then .noFiles else .interrupted
  /-- A run is interrupted only if it has found the flag up, if each batch is taken up. -/
  found_of_interrupted : run.outcome = .interrupted →
    Pool.Covers (workload.batches files).length schedule →
      events.getLast?.bind Event.found? = some true

section Events

variable {workload : Workload} {batches : List Batch} {start state : State} {events : List Event}

/-- No batch is called twice, if each takes its course. -/
theorem Event.nodup_called
    (hcourse : ∀ place, ∃ stage, Course workload place (about place events) stage) :
    (called events).Nodup := by
  rw [List.nodup_iff_count_le_one]
  intro place
  obtain ⟨stage, hcourse⟩ := hcourse place
  rw [count_called]
  exact hcourse.length_called_le

/-- A batch is called only if it was looked at while the flag was down. -/
theorem Occurs.notMem_called (h : Occurs analyzer interruption batches start events state)
    (hcourse : ∀ place, ∃ stage, Course workload place (Event.about place events) stage)
    {earlier later : List Event} {place : Nat} (hevents : events = earlier ++ later)
    (hup : interruption.isUpAfter earlier = true) (hlook : ∀ up, .look place up ∉ earlier) :
    place ∉ Event.called events := by
  intro hcalled
  obtain ⟨reply, hcall⟩ := Event.mem_called.1 hcalled
  obtain ⟨stage, hcourse⟩ := hcourse place
  have hdown := (Event.mem_about.1 (hcourse.look_mem (Event.mem_about.2 ⟨hcall, rfl⟩))).1
  rw [hevents] at hdown
  -- The look comes after the flag has gone up, so it cannot have found it down.
  obtain ⟨middle, rest, rfl⟩ :=
    List.append_of_mem ((List.mem_append.1 hdown).resolve_left (hlook false))
  rw [hevents, ← List.append_assoc] at h
  have hfound : false = interruption.isUpAfter (earlier ++ middle) := h.found_eq rfl
  rw [Interruption.isUpAfter_append hup] at hfound
  cases hfound

/-- The replies to all batches make a run complete. -/
theorem Occurs.isComplete (h : Occurs analyzer interruption batches start events state)
    (hcourse : ∀ place, ∃ stage, Course workload place (Event.about place events) stage)
    {replies : List Reply} {code : Int} {report : Report}
    (hlength : replies.length = batches.length)
    (hcalls : ∀ place reply, replies[place]? = some reply → .call place reply ∈ events)
    (hlast : events.getLast? = some (.check false))
    (htally : (Tally.ofResults (replies.map workload.findings)).outcome = .completed code report) :
    workload.IsComplete batches.length events replies code report := by
  have hlt : ∀ {place}, place ∈ Event.called events → place < batches.length :=
    fun hcalled => h.lt_of_mem_called hcalled
  -- A tally always completes, so the code and the report are its own.
  obtain ⟨hcode, hreport⟩ := Outcome.completed.inj htally
  refine ⟨hlength, fun place reply => ⟨hcalls place reply, fun hcall => ?_⟩, ?_, hlast, ?_, ?_⟩
  · -- The batch has a reply, and it was called only once.
    have hplace := hlt (Event.mem_called.2 ⟨reply, hcall⟩)
    rw [← hlength] at hplace
    have hget := List.getElem?_eq_getElem hplace
    obtain ⟨stage, hcourse⟩ := hcourse place
    rw [hget, hcourse.reply_unique (Event.mem_about.2 ⟨hcalls _ _ hget, rfl⟩)
      (Event.mem_about.2 ⟨hcall, rfl⟩)]
  · refine (List.perm_ext_iff_of_nodup (Event.nodup_called hcourse) List.nodup_range).2
      fun place => ⟨fun hcalled => List.mem_range.2 (hlt hcalled), fun hrange => ?_⟩
    rw [List.mem_range, ← hlength] at hrange
    exact Event.mem_called.2 ⟨_, hcalls _ _ (List.getElem?_eq_getElem hrange)⟩
  · rw [← hcode, Tally.ofResults, Tally.exitCode_foldl_add, if_pos rfl, List.map_map]
    rfl
  · rw [← hreport, Tally.ofResults, Tally.report_foldl_add, List.map_map]
    rfl

end Events

/-! ## Pooled runs -/

namespace Pool

variable {workload : Workload} {batches : List Batch} {start : State} {past : List Event}
  {pool : Pool State}

/-- The result at a place is that of the batch that is finished there. -/
theorem stageAt?_of_results? {results : List Findings} (h : pool.results? = some results) :
    results.length = pool.stages.length ∧
      ∀ place result, results[place]? = some result →
        pool.stageAt? place = some (.finished result) := by
  simp only [results?, stageAt?] at h ⊢
  generalize pool.stages = stages at h ⊢
  induction stages generalizing results with
  | nil =>
    obtain rfl : [] = results := Option.some.inj h
    exact ⟨rfl, by simp⟩
  | cons entry stages ih =>
    rw [List.mapM_cons] at h
    obtain ⟨result, hresult, h⟩ := Option.bind_eq_some_iff.1 h
    obtain ⟨others, hothers, h⟩ := Option.bind_eq_some_iff.1 h
    obtain rfl : result :: others = results := Option.some.inj h
    obtain ⟨hlength, hstages⟩ := ih hothers
    refine ⟨congrArg (· + 1) hlength, ?_⟩
    rintro (_ | place) other hother
    · obtain rfl := Option.some.inj hother
      obtain ⟨batch, stage⟩ := entry
      cases stage <;> cases hresult
      rfl
    · exact hstages place other hother

/-- There are results if the analyzer has run on every batch. -/
theorem exists_results?_of_isFinished (h : ∀ entry ∈ pool.stages, isFinished entry = true) :
    ∃ results, pool.results? = some results := by
  rw [results?]
  generalize pool.stages = stages at h ⊢
  induction stages with
  | nil => exact ⟨[], rfl⟩
  | cons entry stages ih =>
    obtain ⟨results, hresults⟩ := ih fun other hother => h other (List.mem_cons_of_mem _ hother)
    obtain ⟨result, hresult⟩ := Option.isSome_iff_exists.1 (h entry List.mem_cons_self)
    exact ⟨result :: results, by rw [List.mapM_cons, hresult, hresults]; rfl⟩

/-- The results are those of the replies that have happened. -/
theorem Recorded.exists_replies
    (h : Recorded workload analyzer interruption batches start past pool)
    {results : List Findings} (hresults : pool.results? = some results) :
    ∃ replies : List Reply, replies.length = batches.length ∧
      (∀ place reply, replies[place]? = some reply → .call place reply ∈ past) ∧
      replies.map workload.findings = results := by
  obtain ⟨hlength, hstages⟩ := stageAt?_of_results? hresults
  -- A finished stage is only reached by a call, which has given the reply.
  have hcall : ∀ place : Fin results.length, ∃ reply,
      .call place.val reply ∈ past ∧ results[place] = workload.findings reply := by
    intro place
    have hstage := hstages place results[place] (List.getElem?_eq_getElem place.isLt)
    have hcourse := h.course place
    rw [hstage] at hcourse
    obtain ⟨reply, hmem, heq⟩ := hcourse.exists_call
    exact ⟨reply, (Event.mem_about.1 hmem).1, heq⟩
  -- The reply of each batch is the one that its call has given.
  choose reply hreply using hcall
  refine ⟨List.ofFn reply, ?_, fun place other hother => ?_, ?_⟩
  · rw [List.length_ofFn, hlength, ← h.batches_eq, List.length_map]
  · obtain ⟨hlt, rfl⟩ := List.getElem?_eq_some_iff.1 hother
    rw [List.length_ofFn] at hlt
    rw [List.getElem_ofFn]
    exact (hreply ⟨place, hlt⟩).1
  · refine List.ext_getElem (by simp) fun place hlt hlt' => ?_
    rw [List.getElem_map, List.getElem_ofFn]
    exact (hreply ⟨place, hlt'⟩).2.symm

/-- A pool completes with the tally of all results if the flag is down. Else it is interrupted. -/
theorem outcome_cases (interruption : Interruption) (pool : Pool State) :
    (interruption.isUp pool.looks pool.calls.length = false ∧
        ∃ results, pool.results? = some results ∧
          pool.outcome interruption = (Tally.ofResults results).outcome) ∨
      ((interruption.isUp pool.looks pool.calls.length = true ∨ pool.results? = none) ∧
        pool.outcome interruption = .interrupted) := by
  rw [outcome]
  cases interruption.isUp pool.looks pool.calls.length with
  | true => exact Or.inr ⟨Or.inl rfl, rfl⟩
  | false =>
    cases pool.results? with
    | none => exact Or.inr ⟨Or.inr rfl, rfl⟩
    | some results => exact Or.inl ⟨rfl, results, rfl, rfl⟩

theorem Recorded.occurs_lastCheck
    (h : Recorded workload analyzer interruption batches start past pool) :
    Occurs analyzer interruption batches start (past ++ [pool.lastCheck interruption])
      pool.state := by
  rw [lastCheck, h.isUp_eq]
  exact h.occurs.check

theorem Recorded.exists_course
    (h : Recorded workload analyzer interruption batches start past pool) (place : Nat) :
    ∃ stage, Course workload place (Event.about place (past ++ [pool.lastCheck interruption]))
      stage :=
  ⟨_, by simpa [lastCheck] using h.course place⟩

/-- A pool that completes has called every batch. -/
theorem Recorded.exists_isComplete
    (h : Recorded workload analyzer interruption batches start past pool) {code : Int}
    {report : Report} (houtcome : pool.outcome interruption = .completed code report) :
    ∃ replies, workload.IsComplete batches.length (past ++ [pool.lastCheck interruption]) replies
      code report := by
  rcases outcome_cases interruption pool with ⟨hdown, results, hresults, heq⟩ | ⟨-, heq⟩
  · obtain ⟨replies, hlength, hcalls, rfl⟩ := h.exists_replies hresults
    refine ⟨replies, h.occurs_lastCheck.isComplete h.exists_course hlength
      (fun place reply hreply => List.mem_append_left _ (hcalls place reply hreply)) ?_
      (heq.symm.trans houtcome)⟩
    rw [List.getLast?_concat, lastCheck, hdown]
  · rw [heq] at houtcome
    cases houtcome

/-- A pool in which all batches are settled is interrupted only if the flag is up. -/
theorem Consistent.isUp_of_interrupted (h : Consistent interruption batches pool)
    (hsettled : ∀ place < batches.length, pool.SettledAt place)
    (houtcome : pool.outcome interruption = .interrupted) :
    interruption.isUp pool.looks pool.calls.length = true := by
  rcases outcome_cases interruption pool with ⟨-, results, -, heq⟩ | ⟨hup | hnone, -⟩
  · rw [heq] at houtcome
    cases houtcome
  · exact hup
  · -- If the flag is down, every settled batch is finished, so no result is missing.
    by_contra hdown
    obtain ⟨results, hresults⟩ :=
      exists_results?_of_isFinished (h.isFinished hsettled (eq_false_of_ne_true hdown))
    rw [hnone] at hresults
    cases hresults

end Pool

/-! ## Runs -/

namespace Workload

/-- A pooled run, told from its events. -/
theorem account_runPooled (workload : Workload) (analyzer : Analyzer State)
    (interruption : Interruption) (schedule : List Step) {files : List Text} (hfiles : files ≠ [])
    (state : State) :
    Run.Account workload analyzer interruption schedule files state
      (workload.pooledHistory analyzer interruption schedule files state)
      (workload.runPooled analyzer interruption schedule files state) := by
  -- Both invariants hold at the start and are kept by each step.
  have hrecorded := (Pool.recorded_start workload analyzer interruption (workload.batches files)
    state).follow schedule
  have hconsistent : Pool.Consistent interruption (workload.batches files)
      ((Pool.start (workload.batches files) state).follow workload analyzer interruption
        schedule) := (Pool.consistent_start _ _ _).follow schedule
  have hoccurs := hrecorded.occurs_lastCheck
  have hcourse := hrecorded.exists_course
  refine ⟨hoccurs, ?_, Event.nodup_called hcourse, hcourse,
    fun _ _ _ => hoccurs.notMem_called hcourse, fun _ _ => hrecorded.exists_isComplete, ?_, ?_⟩
  · simpa [pooledHistory, runPooled, Pool.lastCheck] using hrecorded.calls_eq
  · intro hnot
    rw [if_neg hfiles]
    exact (Pool.outcome_cases interruption _).elim
      (fun ⟨_, _, _, heq⟩ => absurd heq (hnot _ _)) (·.2)
  · intro houtcome hcovers
    have hup := hconsistent.isUp_of_interrupted
      (fun place hlt => Pool.settledAt_follow (hcovers place hlt)) houtcome
    rw [pooledHistory, List.getLast?_concat]
    exact congrArg some hup

/-- A sequential run is completed or interrupted. -/
theorem outcome_sequentialFrom_cases (workload : Workload) (analyzer : Analyzer State)
    (interruption : Interruption) (count passed : Nat) (tally : Tally) (state : State)
    (rest : List Batch) :
    (∃ code report, (workload.sequentialFrom analyzer interruption count passed tally state
        rest).outcome = .completed code report) ∨
      (workload.sequentialFrom analyzer interruption count passed tally state rest).outcome =
        .interrupted := by
  induction rest generalizing passed tally state with
  | nil => exact Or.inl ⟨_, _, rfl⟩
  | cons batch rest ih =>
    rw [sequentialFrom_cons]
    split
    · exact Or.inr rfl
    · split
      · exact Or.inr rfl
      · exact ih ..

/-- A sequential run, told from its events. -/
theorem account_runInTurn (workload : Workload) (analyzer : Analyzer State)
    (interruption : Interruption) (schedule : List Step) {files : List Text} (hfiles : files ≠ [])
    (state : State) :
    Run.Account workload analyzer interruption schedule files state
      (sequentialHistory analyzer interruption 0 state (workload.batches files))
      (workload.runInTurn analyzer interruption files state) := by
  have hoccurs : Occurs analyzer interruption (workload.batches files) state
      (sequentialHistory analyzer interruption 0 state (workload.batches files))
      (workload.runInTurn analyzer interruption files state).final :=
    workload.occurs_sequentialHistory [] rfl .nil rfl rfl _ {}
  have hcourse := fun place => workload.course_sequentialHistory analyzer interruption place 0 state
    (workload.batches files)
  refine ⟨hoccurs, workload.calls_sequentialFrom_eq [] rfl _ {} state,
    Event.nodup_called hcourse, hcourse, fun _ _ _ => hoccurs.notMem_called hcourse, ?_, ?_, ?_⟩
  · intro code report houtcome
    obtain ⟨replies, hlength, hcalls, htally, hlast⟩ :=
      exists_replies_sequentialFrom workload houtcome
    refine ⟨replies, hoccurs.isComplete hcourse hlength (fun place reply hreply => ?_)
      (hlast (workload.batches_ne_nil hfiles)) htally⟩
    simpa using hcalls place reply hreply
  · intro hnot
    rw [if_neg hfiles]
    obtain ⟨code, report, houtcome⟩ | houtcome := workload.outcome_sequentialFrom_cases analyzer
      interruption (workload.batches files).length 0 {} state (workload.batches files)
    · exact absurd houtcome (hnot code report)
    · exact houtcome
  · exact fun houtcome _ => found_of_interrupted workload houtcome

/-- Only batches are called. -/
theorem calls_runUnder_subset (workload : Workload) (analyzer : Analyzer State)
    (interruption : Interruption) (schedule : List Step) (files : List Text) (state : State) :
    (workload.runUnder analyzer interruption schedule files state).calls ⊆
      workload.batches files := by
  have hsubset {calls : List Batch} {places : List Nat}
      (h : calls.map some = places.map ((workload.batches files)[·]?)) :
      calls ⊆ workload.batches files := by
    intro batch hbatch
    have hmem : some batch ∈ calls.map some := List.mem_map_of_mem hbatch
    rw [h] at hmem
    obtain ⟨place, -, hplace⟩ := List.mem_map.1 hmem
    exact List.mem_of_getElem? hplace
  rw [runUnder]
  split
  · exact List.nil_subset _
  · next hfiles =>
    split
    · have haccount := workload.account_runPooled analyzer interruption schedule hfiles state
      exact hsubset haccount.calls_eq
    · have haccount := workload.account_runInTurn analyzer interruption schedule hfiles state
      exact hsubset haccount.calls_eq

/-- A run over files, told from its events: whatever the analyzer does, in whatever order the
workers take their steps and whenever the flag goes up. -/
theorem account_runUnder (workload : Workload) (analyzer : Analyzer State)
    (interruption : Interruption) (schedule : List Step) (files : List Text) (state : State) :
    Run.Account workload analyzer interruption schedule files state
      (workload.history analyzer interruption schedule files state)
      (workload.runUnder analyzer interruption schedule files state) := by
  rw [history, runUnder]
  split
  · next hfiles =>
    have hcourse : ∀ place, ∃ stage, Course workload place (Event.about place []) stage :=
      fun _ => ⟨.waiting, .waiting⟩
    refine ⟨.nil, rfl, .nil, hcourse, fun _ _ _ _ _ _ => List.not_mem_nil, ?_, ?_, ?_⟩
    · intro code report houtcome
      cases houtcome
    · exact fun _ => (if_pos hfiles).symm
    · intro houtcome
      cases houtcome
  · next hfiles =>
    split
    · exact workload.account_runPooled analyzer interruption schedule hfiles state
    · exact workload.account_runInTurn analyzer interruption schedule hfiles state

/-- A run over no files does not complete, and yet it is not interrupted, even if the flag is up. -/
theorem not_interrupted_of_no_files :
    let run := ({ root := ⟨"/p"⟩ } : Workload).runUnder (.ofAnswers fun _ => ⟨0, []⟩)
      (.ofStart true) [] [] ()
    (∀ code report, run.outcome ≠ .completed code report) ∧ run.outcome ≠ .interrupted :=
  ⟨(fun _ _ houtcome => nomatch houtcome), (fun houtcome => nomatch houtcome)⟩

end Workload

end EngineUpkeep
