import EngineUpkeep.Proofs.Workload.Sequential
import Mathlib.Data.List.Induction

/-!
# What happens in a run, event by event

The events of a run are the looks at the interrupt flag and the calls of the analyzer, in the order
in which they happen. `Workload.history` reads them off the steps of a run.

`Occurs` says that events fit together: a look finds the flag as it is at that moment, and a call is
answered by the analyzer in the state that the calls before it have left. What happens to one batch
is a `Course`: it is looked at once, and called at most once, after a look that has found the flag
down. Both are kept by each step of a worker (`Pool.Recorded.step`) and by each batch of a
sequential run (`Workload.occurs_sequentialHistory`, `Workload.course_sequentialHistory`).
-/

namespace EngineUpkeep

/-- What happens in a run. -/
inductive Event where
  /-- The flag is looked at for the batch at a place, and found up or down. -/
  | look (place : Nat) (up : Bool)
  /-- The analyzer runs on the batch at a place and gives a reply. -/
  | call (place : Nat) (reply : Reply)
  /-- The flag is looked at after a batch or after all of them, and found up or down. -/
  | check (up : Bool)

namespace Event

/-- The place of the batch that the event is about. -/
@[simp]
def place? : Event → Option Nat
  | look place _ => some place
  | call place _ => some place
  | check _ => none

/-- The place of the batch that the analyzer is called on. -/
@[simp]
def called? : Event → Option Nat
  | call place _ => some place
  | _ => none

/-- What is found when the flag is looked at. -/
@[simp]
def found? : Event → Option Bool
  | look _ up => some up
  | check up => some up
  | call _ _ => none

/-- The events that are about the batch at a place. -/
def about (place : Nat) (events : List Event) : List Event :=
  events.filter fun event => event.place? = some place

/-- The places of the batches that the analyzer is called on, in the order of the calls. -/
def called (events : List Event) : List Nat :=
  events.filterMap called?

/-- How often the flag is looked at. -/
def looks (events : List Event) : Nat :=
  (events.filterMap found?).length

@[simp]
theorem about_nil (place : Nat) : about place [] = [] := rfl

@[simp]
theorem about_cons (place : Nat) (event : Event) (events : List Event) :
    about place (event :: events) =
      if event.place? = some place then event :: about place events else about place events := by
  rw [about, List.filter_cons]
  simp only [decide_eq_true_eq]
  rfl

@[simp]
theorem about_append (place : Nat) (earlier later : List Event) :
    about place (earlier ++ later) = about place earlier ++ about place later :=
  List.filter_append ..

@[simp]
theorem called_nil : called [] = [] := rfl

@[simp]
theorem called_cons (event : Event) (events : List Event) :
    called (event :: events) = event.called?.toList ++ called events := by
  cases event <;> rfl

@[simp]
theorem called_append (earlier later : List Event) :
    called (earlier ++ later) = called earlier ++ called later :=
  List.filterMap_append ..

@[simp]
theorem looks_nil : looks [] = 0 := rfl

@[simp]
theorem looks_cons (event : Event) (events : List Event) :
    looks (event :: events) = looks events + event.found?.toList.length := by
  cases event <;> rfl

@[simp]
theorem looks_append (earlier later : List Event) :
    looks (earlier ++ later) = looks earlier + looks later := by
  rw [looks, List.filterMap_append, List.length_append]
  rfl

/-- A batch is called if one of the events is a call for it. -/
theorem mem_called {place : Nat} {events : List Event} :
    place ∈ called events ↔ ∃ reply, call place reply ∈ events := by
  rw [called, List.mem_filterMap]
  constructor
  · rintro ⟨event, hmem, hcalled⟩
    cases event with
    | call spot reply =>
      obtain rfl : spot = place := Option.some.inj hcalled
      exact ⟨reply, hmem⟩
    | _ => cases hcalled
  · rintro ⟨reply, hmem⟩
    exact ⟨_, hmem, rfl⟩

theorem mem_about {place : Nat} {event : Event} {events : List Event} :
    event ∈ about place events ↔ event ∈ events ∧ event.place? = some place := by
  rw [about, List.mem_filter, decide_eq_true_iff]

/-- How often a batch is called can be seen from its own events. -/
theorem count_called (place : Nat) (events : List Event) :
    (called events).count place = (called (about place events)).length := by
  induction events with
  | nil => rfl
  | cons event events ih =>
    cases event with
    | look spot up => by_cases hspot : spot = place <;> simpa [hspot] using ih
    | call spot reply => by_cases hspot : spot = place <;> simpa [hspot] using ih
    | check up => simpa using ih

end Event

/-- Whether the flag is up after some events. -/
def Interruption.isUpAfter (interruption : Interruption) (events : List Event) : Bool :=
  interruption.isUp (Event.looks events) (Event.called events).length

/-- A flag that is up stays up. -/
theorem Interruption.isUpAfter_append {interruption : Interruption} {earlier : List Event}
    (h : interruption.isUpAfter earlier = true) (later : List Event) :
    interruption.isUpAfter (earlier ++ later) = true := by
  rw [isUpAfter, Event.looks_append, Event.called_append, List.length_append]
  exact isUp_of_le (Nat.le_add_right _ _) (Nat.le_add_right _ _) h

/-! ## Events that fit together -/

/-- Events that can happen one after the other, with the state of the analyzer at the start and at
the end. -/
inductive Occurs {State : Type} (analyzer : Analyzer State) (interruption : Interruption)
    (batches : List Batch) (start : State) : List Event → State → Prop where
  /-- Nothing has happened yet. -/
  | nil : Occurs analyzer interruption batches start [] start
  /-- A worker looks at the flag for a batch and finds it as it is. -/
  | look {past : List Event} {state : State} (place : Nat)
      (h : Occurs analyzer interruption batches start past state) :
      Occurs analyzer interruption batches start
        (past ++ [.look place (interruption.isUpAfter past)]) state
  /-- The analyzer answers a batch, and may change its state. -/
  | call {past : List Event} {state : State} {place : Nat} {batch : Batch}
      (h : Occurs analyzer interruption batches start past state)
      (hbatch : batches[place]? = some batch) :
      Occurs analyzer interruption batches start (past ++ [.call place (analyzer batch state).1])
        (analyzer batch state).2
  /-- The flag is looked at for no batch, and found as it is. -/
  | check {past : List Event} {state : State}
      (h : Occurs analyzer interruption batches start past state) :
      Occurs analyzer interruption batches start (past ++ [.check (interruption.isUpAfter past)])
        state

namespace Occurs

variable {State : Type} {analyzer : Analyzer State} {interruption : Interruption}
  {batches : List Batch} {start state : State} {earlier later past events : List Event}
  {event : Event}

/-- The last event: what came before it fits together, a look has found the flag as it was, and a
call was about one of the batches. -/
theorem of_concat
    (h : Occurs analyzer interruption batches start (past ++ [event]) state) :
    (∃ before, Occurs analyzer interruption batches start past before) ∧
      (∀ up, event.found? = some up → up = interruption.isUpAfter past) ∧
      ∀ place, event.called? = some place → place < batches.length := by
  -- Each way to go on has put one event at the end, so it is this one.
  generalize hevents : past ++ [event] = events at h
  cases h with
  | nil => simp at hevents
  | look place h =>
    obtain ⟨rfl, hevent⟩ := List.append_inj' hevents rfl
    obtain rfl := List.singleton_inj.1 hevent
    exact ⟨⟨_, h⟩, fun up hup => (Option.some.inj hup).symm, by rintro place ⟨⟩⟩
  | call h hbatch =>
    obtain ⟨rfl, hevent⟩ := List.append_inj' hevents rfl
    obtain rfl := List.singleton_inj.1 hevent
    refine ⟨⟨_, h⟩, ?_, ?_⟩
    · rintro up ⟨⟩
    · rintro place ⟨⟩
      exact (List.getElem?_eq_some_iff.1 hbatch).1
  | check h =>
    obtain ⟨rfl, hevent⟩ := List.append_inj' hevents rfl
    obtain rfl := List.singleton_inj.1 hevent
    exact ⟨⟨_, h⟩, fun up hup => (Option.some.inj hup).symm, by rintro place ⟨⟩⟩

/-- At every moment, what has happened fits together. -/
theorem before (h : Occurs analyzer interruption batches start (earlier ++ later) state) :
    ∃ state, Occurs analyzer interruption batches start earlier state := by
  -- Events are put at the end, so those that come later are taken away from there.
  induction later using List.reverseRecOn generalizing state with
  | nil => exact ⟨state, by rwa [List.append_nil] at h⟩
  | append_singleton later event ih =>
    rw [← List.append_assoc] at h
    obtain ⟨state, h⟩ := h.of_concat.1
    exact ih h

/-- Every look finds the flag as it is at that moment. -/
theorem found_eq (h : Occurs analyzer interruption batches start (earlier ++ event :: later) state)
    {up : Bool} (hfound : event.found? = some up) : up = interruption.isUpAfter earlier := by
  rw [List.append_cons] at h
  obtain ⟨state, h⟩ := h.before
  exact h.of_concat.2.1 up hfound

/-- Every call is about one of the batches. -/
theorem lt_of_mem_called (h : Occurs analyzer interruption batches start events state) {place : Nat}
    (hplace : place ∈ Event.called events) : place < batches.length := by
  obtain ⟨reply, hmem⟩ := Event.mem_called.1 hplace
  obtain ⟨earlier, later, rfl⟩ := List.append_of_mem hmem
  rw [List.append_cons] at h
  obtain ⟨state, h⟩ := h.before
  exact h.of_concat.2.2 place rfl

end Occurs

/-! ## What happens to one batch -/

/-- The events about the batch at a place, up to the stage that it has reached. -/
inductive Course (workload : Workload) (place : Nat) : List Event → Stage → Prop where
  /-- The flag was not looked at for the batch. -/
  | waiting : Course workload place [] .waiting
  /-- The flag was found up. -/
  | skipped : Course workload place [.look place true] .skipped
  /-- The flag was found down. -/
  | cleared : Course workload place [.look place false] .cleared
  /-- The flag was found down, and then the analyzer has run. -/
  | finished (reply : Reply) :
      Course workload place [.look place false, .call place reply]
        (.finished (workload.findings reply))

namespace Course

variable {workload : Workload} {place : Nat} {events : List Event} {stage : Stage} {reply : Reply}

theorem length_called_le (h : Course workload place events stage) :
    (Event.called events).length ≤ 1 := by
  cases h <;> simp

/-- Before a call, the flag was found down. -/
theorem look_mem (h : Course workload place events stage) (hcall : .call place reply ∈ events) :
    .look place false ∈ events := by
  cases h <;> simp at hcall ⊢

/-- The analyzer has run on the batch once. -/
theorem reply_unique (h : Course workload place events stage) {reply' : Reply}
    (hcall : .call place reply ∈ events) (hcall' : .call place reply' ∈ events) :
    reply = reply' := by
  cases h <;> simp at hcall hcall'
  rw [hcall, hcall']

/-- A batch is finished by a call. -/
theorem exists_call {result : Findings} (h : Course workload place events (.finished result)) :
    ∃ reply, .call place reply ∈ events ∧ result = workload.findings reply := by
  cases h with
  | finished reply => exact ⟨reply, by simp, rfl⟩

end Course

/-! ## Pooled runs -/

namespace Pool

variable {State : Type} {workload : Workload} {analyzer : Analyzer State}
  {interruption : Interruption} {batches : List Batch} {start : State} {past : List Event}
  {pool : Pool State} {place : Nat} {batch : Batch}

/-- What happens in a step of a worker, if the step fits the stage of its batch. -/
def event? (analyzer : Analyzer State) (interruption : Interruption) (pool : Pool State) :
    Step → Option Event
  | .look place =>
    match pool.stages[place]? with
    | some (_, .waiting) => some (.look place (interruption.isUp pool.looks pool.calls.length))
    | _ => none
  | .call place =>
    match pool.stages[place]? with
    | some (batch, .cleared) => some (.call place (analyzer batch pool.state).1)
    | _ => none

/-- What happens in the steps of a schedule. -/
def events (workload : Workload) (analyzer : Analyzer State) (interruption : Interruption) :
    Pool State → List Step → List Event
  | _, [] => []
  | pool, step :: schedule =>
    (pool.event? analyzer interruption step).toList ++
      events workload analyzer interruption (pool.step workload analyzer interruption step) schedule

/-- The look at the flag after the last step. -/
def lastCheck (interruption : Interruption) (pool : Pool State) : Event :=
  .check (interruption.isUp pool.looks pool.calls.length)

/-- A pool is as the events that have happened have left it. -/
structure Recorded (workload : Workload) (analyzer : Analyzer State) (interruption : Interruption)
    (batches : List Batch) (start : State) (past : List Event) (pool : Pool State) : Prop where
  /-- The events fit together and have left the state of the analyzer. -/
  occurs : Occurs analyzer interruption batches start past pool.state
  /-- The looks are those that have happened. -/
  looks_eq : Event.looks past = pool.looks
  /-- The calls are those that have happened. -/
  calls_eq : pool.calls.map some = (Event.called past).map (batches[·]?)
  /-- The batches keep their places. -/
  batches_eq : pool.stages.map (·.1) = batches
  /-- The stage of each batch is that to which its events lead. -/
  course : ∀ place, Course workload place (Event.about place past)
    ((pool.stageAt? place).getD .waiting)

theorem recorded_start (workload : Workload) (analyzer : Analyzer State)
    (interruption : Interruption) (batches : List Batch) (state : State) :
    Recorded workload analyzer interruption batches state [] (Pool.start batches state) where
  occurs := .nil
  looks_eq := rfl
  calls_eq := rfl
  batches_eq := by simp [Pool.start, Function.comp_def]
  course place := by
    have hstage : ((Pool.start batches state).stageAt? place).getD .waiting = .waiting := by
      rw [stageAt?, Pool.start, List.getElem?_map]
      cases batches[place]? <;> rfl
    rw [hstage]
    exact .waiting

theorem Recorded.length_calls
    (h : Recorded workload analyzer interruption batches start past pool) :
    pool.calls.length = (Event.called past).length := by
  have hlength := congrArg List.length h.calls_eq
  rwa [List.length_map, List.length_map] at hlength

/-- The flag is looked at as the events say. -/
theorem Recorded.isUp_eq (h : Recorded workload analyzer interruption batches start past pool) :
    interruption.isUp pool.looks pool.calls.length = interruption.isUpAfter past := by
  rw [Interruption.isUpAfter, h.looks_eq, h.length_calls]

theorem Recorded.getElem?_batches
    (h : Recorded workload analyzer interruption batches start past pool) {stage : Stage}
    (hget : pool.stages[place]? = some (batch, stage)) : batches[place]? = some batch := by
  rw [← h.batches_eq, List.getElem?_map, hget]
  rfl

theorem stageAt?_of_getElem? {stage : Stage} (hget : pool.stages[place]? = some (batch, stage)) :
    pool.stageAt? place = some stage := by
  rw [stageAt?, hget]
  rfl

theorem map_fst_setStage {old new : Stage} (hget : pool.stages[place]? = some (batch, old)) :
    (pool.setStage place batch new).stages.map (·.1) = pool.stages.map (·.1) := by
  obtain ⟨hlt, hget⟩ := List.getElem?_eq_some_iff.1 hget
  refine List.ext_getElem (by simp [setStage]) fun spot hspot hspot' => ?_
  by_cases heq : place = spot
  · subst heq
    simp [setStage, hget]
  · simp [setStage, List.getElem_set_ne heq]

/-- One more event about a batch leads to a new stage of this batch, and changes no other batch. -/
theorem Recorded.course_setStage
    (h : Recorded workload analyzer interruption batches start past pool) {old new : Stage}
    {event : Event} (hget : pool.stages[place]? = some (batch, old))
    (hplace : event.place? = some place)
    (hnew : Course workload place (Event.about place past) old →
      Course workload place (Event.about place past ++ [event]) new) (spot : Nat) :
    Course workload spot (Event.about spot (past ++ [event]))
      (((pool.setStage place batch new).stageAt? spot).getD .waiting) := by
  have hcourse := h.course spot
  rw [Event.about_append]
  -- The batch itself reaches the new stage. All others keep their stage and their events.
  by_cases hspot : place = spot
  · subst hspot
    have hevent : Event.about place [event] = [event] := by
      rw [Event.about_cons, if_pos hplace, Event.about_nil]
    have hlt := (List.getElem?_eq_some_iff.1 hget).1
    have hstage : (pool.setStage place batch new).stageAt? place = some new := by
      rw [stageAt?, setStage, List.getElem?_set_self hlt]
      rfl
    rw [stageAt?_of_getElem? hget] at hcourse
    rw [hevent, hstage]
    exact hnew hcourse
  · have hevent : Event.about spot [event] = [] := by
      rw [Event.about_cons, hplace, if_neg (mt Option.some.inj hspot), Event.about_nil]
    have hstage : (pool.setStage place batch new).stageAt? spot = pool.stageAt? spot := by
      rw [stageAt?, setStage, List.getElem?_set_ne hspot]
      rfl
    rw [hevent, hstage, List.append_nil]
    exact hcourse

/-- A step does nothing, or it is a look for a batch that waits, or it is a call for a batch that is
cleared. -/
theorem event?_cases (workload : Workload) (analyzer : Analyzer State)
    (interruption : Interruption) (pool : Pool State) (step : Step) :
    (pool.event? analyzer interruption step = none ∧
        pool.step workload analyzer interruption step = pool) ∨
      (∃ place batch, pool.stages[place]? = some (batch, .waiting) ∧
        pool.event? analyzer interruption step =
          some (.look place (interruption.isUp pool.looks pool.calls.length)) ∧
        pool.step workload analyzer interruption step =
          { pool.setStage place batch (if interruption.isUp pool.looks pool.calls.length
              then .skipped else .cleared) with looks := pool.looks + 1 }) ∨
      (∃ place batch, pool.stages[place]? = some (batch, .cleared) ∧
        pool.event? analyzer interruption step =
          some (.call place (analyzer batch pool.state).1) ∧
        pool.step workload analyzer interruption step =
          { pool.setStage place batch (.finished (workload.findings (analyzer batch pool.state).1))
            with calls := pool.calls ++ [batch], state := (analyzer batch pool.state).2 }) := by
  cases step with
  | look place =>
    rw [event?, Pool.step]
    rcases hget : pool.stages[place]? with _ | ⟨batch, stage⟩
    · exact .inl ⟨rfl, rfl⟩
    · cases stage with
      | waiting => exact .inr (.inl ⟨place, batch, hget, rfl, rfl⟩)
      | _ => exact .inl ⟨rfl, rfl⟩
  | call place =>
    rw [event?, Pool.step]
    rcases hget : pool.stages[place]? with _ | ⟨batch, stage⟩
    · exact .inl ⟨rfl, rfl⟩
    · cases stage with
      | cleared => exact .inr (.inr ⟨place, batch, hget, rfl, rfl⟩)
      | _ => exact .inl ⟨rfl, rfl⟩

/-- A step keeps the record, with what happens in it. -/
theorem Recorded.step (h : Recorded workload analyzer interruption batches start past pool)
    (step : Step) :
    Recorded workload analyzer interruption batches start
      (past ++ (pool.event? analyzer interruption step).toList)
      (pool.step workload analyzer interruption step) := by
  rcases event?_cases workload analyzer interruption pool step with
    ⟨hevent, hstep⟩ | ⟨place, batch, hget, hevent, hstep⟩ | ⟨place, batch, hget, hevent, hstep⟩
  · rw [hevent, hstep]
    exact (List.append_nil past).symm ▸ h
  · rw [hevent, hstep, h.isUp_eq]
    refine ⟨h.occurs.look place, ?_, ?_, (map_fst_setStage hget).trans h.batches_eq, ?_⟩
    · exact (Event.looks_append _ _).trans (congrArg (· + 1) h.looks_eq)
    · rw [Event.called_append, List.map_append, ← h.calls_eq]
      exact (List.append_nil _).symm
    · refine h.course_setStage hget rfl fun hcourse => ?_
      -- The batch was waiting, so nothing has happened to it before.
      generalize Event.about place past = events at hcourse ⊢
      cases hcourse
      cases interruption.isUpAfter past with
      | true => exact .skipped
      | false => exact .cleared
  · rw [hevent, hstep]
    have hbatch := h.getElem?_batches hget
    refine ⟨h.occurs.call hbatch, ?_, ?_, (map_fst_setStage hget).trans h.batches_eq, ?_⟩
    · exact (Event.looks_append _ _).trans h.looks_eq
    · rw [Event.called_append, List.map_append, List.map_append, ← h.calls_eq]
      exact congrArg (pool.calls.map some ++ [·]) hbatch.symm
    · refine h.course_setStage hget rfl fun hcourse => ?_
      -- The batch was cleared, so it was looked at and not called.
      generalize Event.about place past = events at hcourse ⊢
      cases hcourse
      exact .finished _

/-- A schedule keeps the record, with what happens in its steps. -/
theorem Recorded.follow (h : Recorded workload analyzer interruption batches start past pool)
    (schedule : List Step) :
    Recorded workload analyzer interruption batches start
      (past ++ pool.events workload analyzer interruption schedule)
      (pool.follow workload analyzer interruption schedule) := by
  induction schedule generalizing past pool with
  | nil => exact (List.append_nil past).symm ▸ h
  | cons step schedule ih =>
    rw [events, ← List.append_assoc]
    exact ih (h.step step)

end Pool

/-! ## Sequential runs -/

namespace Workload

variable {State : Type} {analyzer : Analyzer State} {interruption : Interruption}

/-- What happens to the batches that are left in a sequential run. -/
def sequentialHistory (analyzer : Analyzer State) (interruption : Interruption) :
    Nat → State → List Batch → List Event
  | _, _, [] => []
  | passed, state, batch :: rest =>
    if interruption.isUp (2 * passed) passed then [.look passed true]
    else
      let (reply, state) := analyzer batch state
      .look passed false :: .call passed reply ::
        if interruption.isUp (2 * passed + 1) (passed + 1) then [.check true]
        else .check false :: sequentialHistory analyzer interruption (passed + 1) state rest

/-- What happens to the batches of a sequential run, one by one. -/
theorem sequentialHistory_cons (analyzer : Analyzer State) (interruption : Interruption)
    (passed : Nat) (state : State) (batch : Batch) (rest : List Batch) :
    sequentialHistory analyzer interruption passed state (batch :: rest) =
      if interruption.isUp (2 * passed) passed = true then [.look passed true]
      else .look passed false :: .call passed (analyzer batch state).1 ::
        if interruption.isUp (2 * passed + 1) (passed + 1) = true then [.check true]
        else .check false ::
          sequentialHistory analyzer interruption (passed + 1) (analyzer batch state).2 rest := rfl

section Sequential

variable {batches rest : List Batch} {start state : State} {past : List Event}

/-- What happens to the batches that are left fits to what has happened before, if each batch before
was looked at twice and called once. -/
theorem occurs_sequentialHistory (workload : Workload) (front : List Batch)
    (hbatches : front ++ rest = batches) (h : Occurs analyzer interruption batches start past state)
    (hlooks : Event.looks past = 2 * front.length)
    (hcalls : (Event.called past).length = front.length) (count : Nat) (tally : Tally) :
    Occurs analyzer interruption batches start
      (past ++ sequentialHistory analyzer interruption front.length state rest)
      (workload.sequentialFrom analyzer interruption count front.length tally state
        rest).final := by
  -- The batches move from the rest to the front, which says how often the flag was looked at.
  induction rest generalizing front past state tally with
  | nil => exact (List.append_nil past).symm ▸ h
  | cons batch rest ih =>
    have hbefore : interruption.isUp (2 * front.length) front.length =
        interruption.isUpAfter past := by
      rw [Interruption.isUpAfter, hlooks, hcalls]
    have hlook := h.look front.length
    rw [sequentialHistory_cons, sequentialFrom_cons, hbefore]
    split
    · next hup => rwa [hup] at hlook
    · next hdown =>
      rw [Bool.not_eq_true] at hdown
      rw [hdown] at hlook
      have hbatch : batches[front.length]? = some batch := by simp [← hbatches]
      have hcall := hlook.call hbatch
      -- The call may have raised the flag, so the second look is one look and one call later.
      have hafter : interruption.isUp (2 * front.length + 1) (front.length + 1) =
          interruption.isUpAfter (past ++ [.look front.length false] ++
            [.call front.length (analyzer batch state).1]) := by
        simp [Interruption.isUpAfter, hlooks, hcalls]
      have hcheck := hcall.check
      rw [← hafter] at hcheck
      split
      · next hup => simpa [hup] using hcheck
      · next hdown =>
        rw [Bool.not_eq_true] at hdown
        rw [hdown] at hcheck
        have hrest := ih (front ++ [batch]) (by simpa using hbatches) hcheck
          (by simp [hlooks, Nat.mul_add]) (by simp [hcalls])
          (tally.add (workload.findings (analyzer batch state).1))
        simpa [Run.after] using hrest

/-- Nothing happens to the batches that are behind. -/
theorem about_sequentialHistory_of_lt (analyzer : Analyzer State) (interruption : Interruption)
    {place passed : Nat} (hplace : place < passed) (state : State) (rest : List Batch) :
    Event.about place (sequentialHistory analyzer interruption passed state rest) = [] := by
  induction rest generalizing passed state with
  | nil => rfl
  | cons batch rest ih =>
    have hrest := ih (Nat.lt_succ_of_lt hplace) (analyzer batch state).2
    have hne : passed ≠ place := Nat.ne_of_gt hplace
    rw [sequentialHistory_cons]
    split
    · simp [hne]
    · split <;> simp [hne, hrest]

/-- Each batch that is left takes its course. -/
theorem course_sequentialHistory (workload : Workload) (analyzer : Analyzer State)
    (interruption : Interruption) (place passed : Nat) (state : State) (rest : List Batch) :
    ∃ stage, Course workload place
      (Event.about place (sequentialHistory analyzer interruption passed state rest)) stage := by
  induction rest generalizing passed state with
  | nil => exact ⟨_, .waiting⟩
  | cons batch rest ih =>
    rw [sequentialHistory_cons]
    by_cases hplace : passed = place
    -- The batch is the next one, or what happens to the next one is not about it.
    · subst hplace
      have hrest := about_sequentialHistory_of_lt analyzer interruption
        (Nat.lt_succ_self passed) (analyzer batch state).2 rest
      split
      · exact ⟨.skipped, by simpa using .skipped⟩
      · refine ⟨.finished (workload.findings (analyzer batch state).1), ?_⟩
        split <;> simpa [hrest] using .finished (analyzer batch state).1
    · obtain ⟨stage, hrest⟩ := ih (passed + 1) (analyzer batch state).2
      split
      · exact ⟨.waiting, by simpa [hplace] using .waiting⟩
      · split
        · exact ⟨.waiting, by simpa [hplace] using .waiting⟩
        · exact ⟨stage, by simpa [hplace] using hrest⟩

/-- The calls of a sequential run are those that happen. -/
theorem calls_sequentialFrom_eq (workload : Workload) (front : List Batch)
    (hbatches : front ++ rest = batches) (count : Nat) (tally : Tally) (state : State) :
    (workload.sequentialFrom analyzer interruption count front.length tally state rest).calls.map
        some =
      (Event.called (sequentialHistory analyzer interruption front.length state rest)).map
        (batches[·]?) := by
  induction rest generalizing front tally state with
  | nil => rfl
  | cons batch rest ih =>
    have hbatch : batches[front.length]? = some batch := by simp [← hbatches]
    rw [sequentialFrom_cons, sequentialHistory_cons]
    split
    · rfl
    · split
      · exact congrArg ([·]) hbatch.symm
      · have hrest := ih (front ++ [batch]) (by simpa using hbatches)
          (tally.add (workload.findings (analyzer batch state).1)) (analyzer batch state).2
        rw [List.length_append] at hrest
        exact congrArg₂ (· :: ·) hbatch.symm hrest

/-- A sequential run that is interrupted has found the flag up. -/
theorem found_of_interrupted (workload : Workload) {count passed : Nat} {tally : Tally}
    (h : (workload.sequentialFrom analyzer interruption count passed tally state rest).outcome =
      .interrupted) :
    (sequentialHistory analyzer interruption passed state rest).getLast?.bind Event.found? =
      some true := by
  induction rest generalizing passed tally state with
  | nil => cases h
  | cons batch rest ih =>
    rw [sequentialFrom_cons] at h
    rw [sequentialHistory_cons]
    split
    · rfl
    · next hbefore =>
      rw [if_neg hbefore] at h
      split
      · rfl
      · next hafter =>
        rw [if_neg hafter] at h
        have hrest := ih h
        obtain ⟨event, hlast, hfound⟩ := Option.bind_eq_some_iff.1 hrest
        rw [List.getLast?_cons_cons, List.getLast?_cons_cons, List.getLast?_cons, hlast]
        exact hfound

/-- A sequential run that completes has the tally of the replies to all batches, and has found the
flag down after the last of them. -/
theorem exists_replies_sequentialFrom (workload : Workload) {count passed : Nat} {tally : Tally}
    {code : Int} {report : Report}
    (h : (workload.sequentialFrom analyzer interruption count passed tally state rest).outcome =
      .completed code report) :
    ∃ replies : List Reply, replies.length = rest.length ∧
      (∀ place reply, replies[place]? = some reply →
        .call (passed + place) reply ∈
          sequentialHistory analyzer interruption passed state rest) ∧
      ((replies.map workload.findings).foldl Tally.add tally).outcome = .completed code report ∧
      (rest ≠ [] → (sequentialHistory analyzer interruption passed state rest).getLast? =
        some (.check false)) := by
  induction rest generalizing passed tally state with
  | nil => exact ⟨[], rfl, by simp, h, by simp⟩
  | cons batch rest ih =>
    rw [sequentialFrom_cons] at h
    rw [sequentialHistory_cons]
    split at h
    · cases h
    · next hbefore =>
      split at h
      · cases h
      · next hafter =>
        rw [if_neg hbefore, if_neg hafter]
        obtain ⟨replies, hlength, hcalls, htally, hlast⟩ := ih h
        refine ⟨(analyzer batch state).1 :: replies, congrArg (· + 1) hlength, ?_, htally, ?_⟩
        · rintro (_ | place) reply hreply
          · obtain rfl := Option.some.inj hreply
            simp
          · have hcall := hcalls place reply hreply
            rw [Nat.add_right_comm] at hcall
            simp [← Nat.add_assoc, hcall]
        · intro _
          by_cases hrest : rest = []
          · subst hrest
            rfl
          · simp [List.getLast?_cons, hlast hrest]

end Sequential

/-- What happens in a run with several workers. -/
def pooledHistory (workload : Workload) (analyzer : Analyzer State) (interruption : Interruption)
    (schedule : List Step) (files : List Text) (state : State) : List Event :=
  let start := Pool.start (workload.batches files) state
  start.events workload analyzer interruption schedule ++
    [(start.follow workload analyzer interruption schedule).lastCheck interruption]

/-- What happens in a run over files. -/
def history (workload : Workload) (analyzer : Analyzer State) (interruption : Interruption)
    (schedule : List Step) (files : List Text) (state : State) : List Event :=
  if files = [] then []
  else if 1 < workload.workers then
    workload.pooledHistory analyzer interruption schedule files state
  else sequentialHistory analyzer interruption 0 state (workload.batches files)

end Workload

end EngineUpkeep
