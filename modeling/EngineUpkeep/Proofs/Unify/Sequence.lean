import EngineUpkeep.Unify.Plan
import Mathlib.Data.List.Basic
import Mathlib.Logic.ExistsUnique

/-!
# Plans as sequences

A plan succeeds if its operations do, each on the tree that those before it leave
(`run_eq_ok_iff`). A plan that fails does so at its first operation that fails, and leaves what that
operation leaves (`run_eq_error_iff`), which need not be what it has found: an operation may stop
between two of its steps.

So a plan that is followed by another one is their sequence, and of a plan that fails the operations
after one place make no difference (`run_append_and_first_failure`).
-/

namespace EngineUpkeep

variable {checkout : Checkout} {current : Location} {tree changed last left : FileTree}

/-- The operation with its destination written out. -/
def Operation.spelledOut (operation : Operation) : Operation :=
  { operation with targetFile? := some (operation.targetFile?.getD operation.file) }

/-- Writing out the destination makes no difference. -/
theorem Operation.run_spelledOut (operation : Operation) :
    operation.spelledOut.run checkout current tree = operation.run checkout current tree :=
  rfl

/-- Operations that all succeed, each on the tree that those before it leave, lead from one tree to
another. -/
inductive Operation.Lead (checkout : Checkout) (current : Location) :
    FileTree → List Operation → FileTree → Prop
  /-- No operation leaves the tree as it is. -/
  | none (tree : FileTree) : Lead checkout current tree [] tree
  /-- An operation that succeeds comes before the others. -/
  | next {tree changed last : FileTree} {operation : Operation} {rest : List Operation} :
      operation.run checkout current tree = (changed, .ok ()) →
        Lead checkout current changed rest last →
          Lead checkout current tree (operation :: rest) last

namespace Plan

open Operation (Lead)

/-! ## One operation and the plan after it -/

theorem run_cons_of_ok {operation : Operation} (plan : Plan)
    (h : operation.run checkout current tree = (changed, .ok ())) :
    run checkout current tree (operation :: plan) =
      ((run checkout current changed plan).1,
        (run checkout current changed plan).2.map (· + 1)) := by
  rw [run, h]
  dsimp only
  rcases run checkout current changed plan with ⟨last, failure | count⟩
  · rfl
  · rfl

theorem run_cons_of_error {operation : Operation} {failure : Failure} (plan : Plan)
    (h : operation.run checkout current tree = (left, .error failure)) :
    run checkout current tree (operation :: plan) = (left, .error failure) := by
  rw [run, h]

/-! ## Plans that succeed -/

/-- After operations that succeed, a plan goes on from the tree that they leave. -/
theorem run_append_of_lead {before : List Operation}
    (h : Lead checkout current tree before changed) (plan : Plan) :
    run checkout current tree (before ++ plan) =
      ((run checkout current changed plan).1,
        (run checkout current changed plan).2.map (before.length + ·)) := by
  induction h with
  | none tree =>
    rw [List.nil_append, List.length_nil]
    rcases run checkout current tree plan with ⟨last, failure | count⟩
    · rfl
    · rw [Except.map, Nat.zero_add]
  | next hfirst _ ih =>
    rw [List.cons_append, run_cons_of_ok _ hfirst, ih]
    rcases run checkout current _ plan with ⟨last, failure | count⟩
    · rfl
    · rw [Except.map, Except.map, Except.map, List.length_cons, Nat.add_right_comm]

/-- A plan that succeeds has carried out each of its operations with success, and counts them. -/
theorem lead_of_run {plan : Plan} {count : Nat}
    (h : run checkout current tree plan = (last, .ok count)) :
    Lead checkout current tree plan last ∧ count = plan.length := by
  -- Each operation starts on the tree that the one before it leaves, so the tree is general.
  induction plan generalizing tree count with
  | nil =>
    cases h
    exact ⟨.none _, rfl⟩
  | cons operation plan ih =>
    rcases hfirst : operation.run checkout current tree with ⟨changed, failure | ⟨⟨⟩⟩⟩
    · rw [run_cons_of_error plan hfirst] at h
      cases h
    rw [run_cons_of_ok plan hfirst] at h
    rcases hrest : run checkout current changed plan with ⟨left, failure | more⟩
    · rw [hrest] at h
      cases h
    · rw [hrest] at h
      cases h
      obtain ⟨hlead, rfl⟩ := ih hrest
      exact ⟨.next hfirst hlead, rfl⟩

theorem run_eq_ok_iff {plan : Plan} {count : Nat} :
    run checkout current tree plan = (last, .ok count) ↔
      Lead checkout current tree plan last ∧ count = plan.length := by
  refine ⟨lead_of_run, ?_⟩
  rintro ⟨hlead, rfl⟩
  have hrun := run_append_of_lead hlead []
  rwa [List.append_nil] at hrun

/-- Operations one after the other lead to a tree through the one that the first of them leave. -/
theorem lead_append_iff {before after : List Operation} :
    Lead checkout current tree (before ++ after) last ↔
      ∃ between, Lead checkout current tree before between ∧
        Lead checkout current between after last := by
  induction before generalizing tree with
  | nil =>
    refine ⟨fun h => ⟨tree, .none tree, h⟩, ?_⟩
    rintro ⟨between, hbefore, hafter⟩
    cases hbefore
    exact hafter
  | cons operation before ih =>
    constructor
    · intro h
      cases h with
      | next hfirst hrest =>
        obtain ⟨between, hbefore, hafter⟩ := ih.1 hrest
        exact ⟨between, .next hfirst hbefore, hafter⟩
    · rintro ⟨between, hbefore, hafter⟩
      cases hbefore with
      | next hfirst hrest => exact .next hfirst (ih.2 ⟨between, hrest, hafter⟩)

/-- Two plans one after the other succeed if the first does and the second does on the tree that the
first leaves. -/
theorem run_append_eq_ok_iff {plan plan' : Plan} {count : Nat} :
    run checkout current tree (plan ++ plan') = (last, .ok count) ↔
      ∃ between first second, run checkout current tree plan = (between, .ok first) ∧
        run checkout current between plan' = (last, .ok second) ∧ count = first + second := by
  simp only [run_eq_ok_iff, lead_append_iff, List.length_append]
  constructor
  · rintro ⟨⟨between, hfirst, hsecond⟩, rfl⟩
    exact ⟨between, _, _, ⟨hfirst, rfl⟩, ⟨hsecond, rfl⟩, rfl⟩
  · rintro ⟨between, _, _, ⟨hfirst, rfl⟩, ⟨hsecond, rfl⟩, rfl⟩
    exact ⟨⟨between, hfirst, hsecond⟩, rfl⟩

/-! ## Plans that fail -/

/-- A plan fails with what its first operation that fails leaves. -/
theorem run_eq_error_iff {plan : Plan} {failure : Failure} :
    run checkout current tree plan = (left, .error failure) ↔
      ∃ before operation after changed, plan = before ++ operation :: after ∧
        Lead checkout current tree before changed ∧
        operation.run checkout current changed = (left, .error failure) := by
  constructor
  · intro h
    induction plan generalizing tree with
    | nil => cases h
    | cons operation plan ih =>
      rcases hfirst : operation.run checkout current tree with ⟨changed, failure' | ⟨⟨⟩⟩⟩
      · rw [run_cons_of_error plan hfirst] at h
        cases h
        exact ⟨[], operation, plan, tree, rfl, .none tree, hfirst⟩
      -- The first operation succeeds, so the one that fails is among the others.
      rw [run_cons_of_ok plan hfirst] at h
      rcases hrest : run checkout current changed plan with ⟨left', failure' | count⟩
      · rw [hrest] at h
        cases h
        obtain ⟨before, operation', after, changed', rfl, hlead, hfailed⟩ := ih hrest
        exact ⟨operation :: before, operation', after, changed', rfl, .next hfirst hlead, hfailed⟩
      · rw [hrest] at h
        cases h
  · rintro ⟨before, operation, after, changed, rfl, hlead, hfailed⟩
    rw [run_append_of_lead hlead, run_cons_of_error after hfailed]
    rfl

/-- The operation at a place fails, after all operations before it have succeeded. -/
def FailsAt (checkout : Checkout) (current : Location) (tree : FileTree) (plan : Plan)
    (left : FileTree) (failure : Failure) (place : Nat) : Prop :=
  ∃ operation changed, plan[place]? = some operation ∧
    Lead checkout current tree (plan.take place) changed ∧
    operation.run checkout current changed = (left, .error failure)

/-- Where an operation fails, the operations after it make no difference. -/
theorem FailsAt.run_append {plan : Plan} {failure : Failure} {place : Nat}
    (h : FailsAt checkout current tree plan left failure place) (rest : Plan) :
    run checkout current tree (plan.take (place + 1) ++ rest) = (left, .error failure) := by
  obtain ⟨operation, changed, hplace, hlead, hfailed⟩ := h
  refine run_eq_error_iff.2 ⟨plan.take place, operation, rest, changed, ?_, hlead, hfailed⟩
  rw [List.take_add_one, hplace, Option.toList_some, List.append_assoc, List.singleton_append]

/-- No operation fails before the one at which a plan fails. -/
theorem FailsAt.le {plan : Plan} {failure failure' : Failure} {left' : FileTree}
    {place place' : Nat} (h : FailsAt checkout current tree plan left failure place)
    (h' : FailsAt checkout current tree plan left' failure' place') : place' ≤ place := by
  obtain ⟨-, changed, -, hlead, -⟩ := h'
  by_contra hlt
  -- The operations before the later place begin with those up to the earlier one.
  have htake : plan.take place' =
      plan.take (place + 1) ++ (plan.drop (place + 1)).take (place' - (place + 1)) := by
    rw [← List.take_add, Nat.add_sub_cancel' (Nat.lt_of_not_le hlt)]
  have hsucceeds := run_eq_ok_iff.2 ⟨hlead, rfl⟩
  rw [htake, h.run_append] at hsucceeds
  cases hsucceeds

/-- A plan fails if and only if there is one place at which an operation fails after all before it
have succeeded. -/
theorem run_eq_error_iff_existsUnique {plan : Plan} {failure : Failure} :
    run checkout current tree plan = (left, .error failure) ↔
      ∃! place, FailsAt checkout current tree plan left failure place := by
  constructor
  · intro h
    obtain ⟨before, operation, after, changed, rfl, hlead, hfailed⟩ := run_eq_error_iff.1 h
    have hfails : FailsAt checkout current tree (before ++ operation :: after) left failure
        before.length := ⟨operation, changed, by simp, by rwa [List.take_left], hfailed⟩
    exact ⟨before.length, hfails, fun place hplace =>
      Nat.le_antisymm (hfails.le hplace) (hplace.le hfails)⟩
  · rintro ⟨place, hfails, -⟩
    -- The plan itself is one way to go on after the place.
    have hrun := hfails.run_append (plan.drop (place + 1))
    rwa [List.take_append_drop] at hrun

/-- A plan is the sequence of its operations up to the first that fails. It succeeds if each of them
does on the tree that those before it leave, and counts them; so two plans one after the other
succeed if both do, each on the tree that it finds, and then count the operations of both. It fails
at one place, with the failure of the operation there and the tree that this operation leaves, and
whatever comes after this place makes no difference. An operation without destination keeps the path
of its file. -/
theorem run_append_and_first_failure (checkout : Checkout) (current : Location) (tree : FileTree) :
    (∀ plan last count, run checkout current tree plan = (last, .ok count) ↔
      Lead checkout current tree plan last ∧ count = plan.length) ∧
    (∀ plan plan' last count, run checkout current tree (plan ++ plan') = (last, .ok count) ↔
      ∃ between first second, run checkout current tree plan = (between, .ok first) ∧
        run checkout current between plan' = (last, .ok second) ∧ count = first + second) ∧
    (∀ plan left failure, run checkout current tree plan = (left, .error failure) ↔
      ∃! place, FailsAt checkout current tree plan left failure place) ∧
    (∀ plan left failure place, FailsAt checkout current tree plan left failure place →
      ∀ rest, run checkout current tree (plan.take (place + 1) ++ rest) =
        (left, .error failure)) ∧
    ∀ plan, run checkout current tree (plan.map Operation.spelledOut) =
      run checkout current tree plan := by
  refine ⟨fun plan last count => run_eq_ok_iff,
    fun plan plan' last count => run_append_eq_ok_iff,
    fun plan left failure => run_eq_error_iff_existsUnique,
    fun plan left failure place hfails => hfails.run_append, fun plan => ?_⟩
  induction plan generalizing tree with
  | nil => rfl
  | cons operation plan ih =>
    rw [List.map_cons, run, run, Operation.run_spelledOut]
    rcases operation.run checkout current tree with ⟨changed, failure | ⟨⟨⟩⟩⟩
    · rfl
    · dsimp only
      rw [ih]

end Plan

end EngineUpkeep
