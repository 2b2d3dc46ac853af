import Neltrik.Shared.Saga
import Mathlib.Data.Nat.Notation

/-! # The law of compensations

What a saga is for: the steps run in order up to the one that throws, the compensations of the steps
before it are all attempted, the last one first, and the error of the step is thrown. The calls are those
that a run makes with steps that record them (`traced`), which is the same run (`execute_traced`).

The orchestrator stops at the first compensation that throws and throws its error instead, so a saga
meets the law exactly when no compensation that is due throws (`lawful_iff_undoable`). -/

namespace Neltrik.Shared.SagaOrchestrator

open Neltrik.Lib

variable {τ ε : Type}

/-! ## The calls of a run -/

/-- The orchestrator calls the step of the index. -/
inductive Call where
  | execute (i : ℕ)
  | compensate (i : ℕ)
  deriving DecidableEq, Repr

/-- The operation, behind a record that it was called. -/
def record {α : Type} (call : Call) (m : Effect τ ε α) : Effect (τ × List Call) ε α := fun s =>
  ((m s.1).1, (m s.1).2, s.2 ++ [call])

/-- The step, which records the calls made to it. -/
def trace (p : SagaStep τ ε × ℕ) : SagaStep (τ × List Call) ε :=
  { execute := record (.execute p.2) p.1.execute
    compensate := p.1.compensate.map (record (.compensate p.2)) }

def traced (steps : List (SagaStep τ ε)) : List (SagaStep (τ × List Call) ε) := steps.zipIdx.map trace

/-- The result and the calls of a saga. -/
def outcome (steps : List (SagaStep τ ε)) (s : τ) : Except ε Unit × List Call :=
  ((execute (traced steps) (s, [])).1, (execute (traced steps) (s, [])).2.2)

/-! ## The law -/

/-- The step whose `execute` throws, its error and the state it leaves. -/
def failure : List (SagaStep τ ε) → τ → Option (ℕ × ε × τ)
  | [], _ => none
  | step :: steps, s =>
    match step.execute s with
    | (.error e, s') => some (0, e, s')
    | (.ok _, s') => (failure steps s').map fun (k, e, s'') => (k + 1, e, s'')

/-- The steps with a compensation, by their places. -/
def due (ps : List (SagaStep τ ε × ℕ)) : List ℕ := (ps.filter (·.1.compensate.isSome)).map (·.2)

/-- Their compensations. -/
def compensations (ps : List (SagaStep τ ε × ℕ)) : List (Effect τ ε Unit) := ps.filterMap (·.1.compensate)

/-- The first `k` steps and their places, the last one first. -/
def executed (steps : List (SagaStep τ ε)) (k : ℕ) : List (SagaStep τ ε × ℕ) := (steps.take k).zipIdx.reverse

/-- The calls and the result are those of the law. -/
structure Lawful (steps : List (SagaStep τ ε)) (s : τ) : Prop where
  fails : ∀ k e s', failure steps s = some (k, e, s') → outcome steps s =
    (.error e, (List.range (k + 1)).map .execute ++ (due (executed steps k)).map .compensate)
  succeeds : failure steps s = none → outcome steps s = (.ok (), (List.range steps.length).map .execute)

/-- The compensations, run in turn, do not throw; the last one may throw `e`. -/
def Quiet (e : ε) : List (Effect τ ε Unit) → τ → Prop
  | [], _ => True
  | m :: ms, s => ((m s).1 = .ok () ∧ Quiet e ms (m s).2) ∨ (ms = [] ∧ (m s).1 = .error e)

/-- No compensation throws that is due after a step has thrown. -/
def Undoable (steps : List (SagaStep τ ε)) (s : τ) : Prop :=
  ∀ k e s', failure steps s = some (k, e, s') → Quiet e (compensations (executed steps k)) s'

/-! ## The compensations -/

section CompensateAll
variable {p : SagaStep τ ε × ℕ} {ps : List (SagaStep τ ε × ℕ)} {m : Effect τ ε Unit} {s s' : τ} {e : ε}
  {calls : List Call}

theorem due_cons_of_none (h : p.1.compensate = none) : due (p :: ps) = due ps := by
  unfold due
  rw [List.filter_cons_of_neg (by rw [h]; exact Bool.false_ne_true)]

theorem due_cons_of_some (h : p.1.compensate = some m) : due (p :: ps) = p.2 :: due ps := by
  unfold due
  rw [List.filter_cons_of_pos (by rw [h]; rfl), List.map_cons]

theorem compensations_cons_of_none (h : p.1.compensate = none) :
    compensations (p :: ps) = compensations ps := List.filterMap_cons_none h

theorem compensations_cons_of_some (h : p.1.compensate = some m) :
    compensations (p :: ps) = m :: compensations ps := List.filterMap_cons_some h

theorem due_eq_nil_iff : due ps = [] ↔ compensations ps = [] := by
  unfold due compensations
  rw [List.map_eq_nil_iff, List.filter_eq_nil_iff, List.filterMap_eq_nil_iff]
  simp only [Bool.not_eq_true, Option.isSome_eq_false_iff, Option.isNone_iff_eq_none]

theorem record_of_eq {r : Except ε Unit} (h : m s = (r, s')) (call : Call) :
    record call m (s, calls) = (r, s', calls ++ [call]) := by
  unfold record
  rw [h]

theorem compensateAll_of_none (h : p.1.compensate = none) :
    compensateAll ((p :: ps).map trace) (s, calls) = compensateAll (ps.map trace) (s, calls) := by
  rw [List.map_cons, compensateAll, trace, h]
  rfl

theorem compensateAll_of_ok (h : p.1.compensate = some m) (hm : m s = (.ok (), s')) :
    compensateAll ((p :: ps).map trace) (s, calls) =
      compensateAll (ps.map trace) (s', calls ++ [.compensate p.2]) := by
  rw [List.map_cons, compensateAll, trace, h]
  exact Effect.bind_of_ok (record_of_eq hm (.compensate p.2))

theorem compensateAll_of_error (h : p.1.compensate = some m) (hm : m s = (.error e, s')) :
    compensateAll ((p :: ps).map trace) (s, calls) = (.error e, s', calls ++ [.compensate p.2]) := by
  rw [List.map_cons, compensateAll, trace, h]
  exact Effect.bind_of_error (record_of_eq hm (.compensate p.2))

/-- The recorded run, without the record. -/
def forget (r : Except ε Unit × τ × List Call) : Except ε Unit × τ := (r.1, r.2.1)

theorem forget_compensateAll (ps : List (SagaStep τ ε × ℕ)) (s : τ) (calls : List Call) :
    forget (compensateAll (ps.map trace) (s, calls)) = compensateAll (ps.map Prod.fst) s := by
  induction ps generalizing s calls with
  | nil => rfl
  | cons p ps ih =>
    rw [List.map_cons (f := Prod.fst), compensateAll]
    rcases h : p.1.compensate with _ | m
    · rw [compensateAll_of_none h, ih]
      rfl
    · rcases hm : m s with ⟨e | _, s'⟩
      · rw [compensateAll_of_error h hm]
        exact (Effect.bind_of_error hm).symm
      · rw [compensateAll_of_ok h hm, ih]
        exact (Effect.bind_of_ok (f := fun _ => compensateAll (ps.map Prod.fst)) hm).symm

/-- What is thrown after the compensations: the error of one of them, or else that of the step. -/
def rethrown (e : ε) (r : Except ε Unit × τ × List Call) : Except ε Unit × List Call :=
  (r.1.bind fun _ => .error e, r.2.2)

/-- **All compensations are attempted** and the error of the step is thrown, exactly when they are quiet. -/
theorem rethrown_compensateAll_iff (e : ε) (ps : List (SagaStep τ ε × ℕ)) (s : τ) (calls : List Call) :
    rethrown e (compensateAll (ps.map trace) (s, calls)) =
        (.error e, calls ++ (due ps).map .compensate) ↔
      Quiet e (compensations ps) s := by
  induction ps generalizing s calls with
  | nil =>
    refine iff_of_true ?_ trivial
    show (Except.error e, calls) = (.error e, calls ++ [])
    rw [List.append_nil]
  | cons p ps ih =>
    rcases h : p.1.compensate with _ | m
    · rw [compensateAll_of_none h, due_cons_of_none h, compensations_cons_of_none h]
      exact ih s calls
    · rw [due_cons_of_some h, compensations_cons_of_some h]
      rcases hm : m s with ⟨e' | _, s'⟩
      · rw [compensateAll_of_error h hm]
        show (Except.error e', calls ++ [Call.compensate p.2]) = _ ↔ _
        rw [Quiet, hm, List.map_cons, Prod.mk.injEq, List.append_cancel_left_eq, List.cons.injEq, Except.error.injEq,
          eq_comm (a := []), List.map_eq_nil_iff, due_eq_nil_iff]
        simp [and_comm]
      · have hcalls : calls ++ Call.compensate p.2 :: (due ps).map .compensate =
            calls ++ [Call.compensate p.2] ++ (due ps).map .compensate := List.append_cons _ _ _
        rw [compensateAll_of_ok h hm, List.map_cons, hcalls, ih, Quiet, hm]
        simp
end CompensateAll

/-! ## The run -/

section Run
variable {steps : List (SagaStep τ ε)} {s s' : τ} {k : ℕ} {e : ε} {step : SagaStep τ ε}

theorem failure_of_error (h : step.execute s = (.error e, s')) (steps : List (SagaStep τ ε)) :
    failure (step :: steps) s = some (0, e, s') := by
  rw [failure, h]

theorem failure_of_ok (h : step.execute s = (.ok (), s')) (steps : List (SagaStep τ ε)) :
    failure (step :: steps) s = (failure steps s').map fun (k, e, s'') => (k + 1, e, s'') := by
  rw [failure, h]

theorem executeFrom_traced_of_ok (h : step.execute s = (.ok (), s')) (ps : List (SagaStep τ ε × ℕ)) (n : ℕ)
    (calls : List Call) :
    executeFrom (ps.map trace) (((step :: steps).zipIdx n).map trace) (s, calls) =
      executeFrom (((step, n) :: ps).map trace) ((steps.zipIdx (n + 1)).map trace)
        (s', calls ++ [.execute n]) := by
  rw [List.zipIdx_cons, List.map_cons]
  exact executeFrom_of_ok (record_of_eq h (.execute n))

theorem executeFrom_traced_of_error (h : step.execute s = (.error e, s')) (ps : List (SagaStep τ ε × ℕ))
    (n : ℕ) (calls : List Call) :
    (fun r => (r.1, r.2.2)) (executeFrom (ps.map trace) (((step :: steps).zipIdx n).map trace) (s, calls)) =
      rethrown e (compensateAll (ps.map trace) (s', calls ++ [.execute n])) := by
  have hrecord : (trace (step, n)).execute (s, calls) = (.error e, s', calls ++ [.execute n]) :=
    record_of_eq h (.execute n)
  rw [List.zipIdx_cons, List.map_cons, executeFrom_cons, hrecord]
  dsimp only
  rcases hundone : compensateAll (ps.map trace) (s', calls ++ [.execute n]) with ⟨_ | _, s''⟩
  · simp only [rethrown, hundone]
    rfl
  · simp only [rethrown, hundone]
    rfl

theorem forget_executeFrom (ps : List (SagaStep τ ε × ℕ)) (steps : List (SagaStep τ ε)) (n : ℕ) (s : τ)
    (calls : List Call) :
    forget (executeFrom (ps.map trace) ((steps.zipIdx n).map trace) (s, calls)) =
      executeFrom (ps.map Prod.fst) steps s := by
  induction steps generalizing ps n s calls with
  | nil => rfl
  | cons step steps ih =>
    rcases h : step.execute s with ⟨e | _, s'⟩
    · have hrecord : (trace (step, n)).execute (s, calls) = (.error e, s', calls ++ [.execute n]) :=
        record_of_eq h (.execute n)
      rw [List.zipIdx_cons, List.map_cons, executeFrom_cons, executeFrom_cons, hrecord, h]
      dsimp only
      rw [← forget_compensateAll ps s' (calls ++ [.execute n])]
      rcases hundone : compensateAll (ps.map trace) (s', calls ++ [.execute n]) with ⟨_ | _, s''⟩
      · simp only [forget, hundone]
      · simp only [forget, hundone]
    · rw [executeFrom_traced_of_ok h, ih, executeFrom_of_ok h]
      rfl

/-- **Recording the calls** changes neither the result of a saga nor the state it leaves. -/
theorem execute_traced (steps : List (SagaStep τ ε)) (s : τ) :
    forget (execute (traced steps) (s, [])) = execute steps s := forget_executeFrom [] steps 0 s []

/-- A saga of which no step throws. -/
theorem executeFrom_of_failure_eq_none (h : failure steps s = none) (ps : List (SagaStep τ ε × ℕ)) (n : ℕ)
    (calls : List Call) :
    (fun r => (r.1, r.2.2)) (executeFrom (ps.map trace) ((steps.zipIdx n).map trace) (s, calls)) =
      (.ok (), calls ++ (List.range' n steps.length).map .execute) := by
  induction steps generalizing s ps n calls with
  | nil =>
    show (Except.ok (), calls) = (Except.ok (), calls ++ [])
    rw [List.append_nil]
  | cons step steps ih =>
    rcases hstep : step.execute s with ⟨e | _, s'⟩
    · rw [failure_of_error hstep] at h
      cases h
    · rw [failure_of_ok hstep, Option.map_eq_none_iff] at h
      rw [executeFrom_traced_of_ok hstep, ih h, List.length_cons, List.range'_succ, List.map_cons,
        List.append_assoc, List.singleton_append]

/-- A saga of which a step throws: the compensations of the steps before it are run. -/
theorem executeFrom_of_failure (h : failure steps s = some (k, e, s')) (ps : List (SagaStep τ ε × ℕ)) (n : ℕ)
    (calls : List Call) :
    (fun r => (r.1, r.2.2)) (executeFrom (ps.map trace) ((steps.zipIdx n).map trace) (s, calls)) =
      rethrown e (compensateAll ((((steps.take k).zipIdx n).reverse ++ ps).map trace)
        (s', calls ++ (List.range' n (k + 1)).map .execute)) := by
  induction steps generalizing s k ps n calls with
  | nil => cases h
  | cons step steps ih =>
    rcases hstep : step.execute s with ⟨e' | _, s₁⟩
    · rw [failure_of_error hstep] at h
      cases h
      exact executeFrom_traced_of_error hstep ps n calls
    · rw [failure_of_ok hstep] at h
      obtain ⟨⟨k', e', s₂⟩, hrest, heq⟩ := Option.map_eq_some_iff.mp h
      cases heq
      have hcalls : calls ++ [Call.execute n] ++ (List.range' (n + 1) (k' + 1)).map .execute =
          calls ++ (List.range' n (k' + 1 + 1)).map .execute := by
        rw [List.range'_succ (n := k' + 1), List.map_cons, List.append_assoc, List.singleton_append]
      rw [executeFrom_traced_of_ok hstep, ih hrest, hcalls, List.take_succ_cons, List.zipIdx_cons,
        List.reverse_cons, List.append_assoc, List.singleton_append]

end Run

/-- **The law of compensations** holds of a saga exactly when no compensation that is due throws, except
for the last one with the error of the step. -/
theorem lawful_iff_undoable (steps : List (SagaStep τ ε)) (s : τ) : Lawful steps s ↔ Undoable steps s := by
  have hfails : ∀ k e s', failure steps s = some (k, e, s') →
      (outcome steps s =
          (.error e, (List.range (k + 1)).map .execute ++ (due (executed steps k)).map .compensate) ↔
        Quiet e (compensations (executed steps k)) s') := by
    intro k e s' h
    rw [← rethrown_compensateAll_iff e (executed steps k) s' ((List.range (k + 1)).map .execute)]
    refine iff_of_eq (congrArg (· = _) ?_)
    have hrun := executeFrom_of_failure h [] 0 []
    rw [List.append_nil, List.nil_append, ← List.range_eq_range'] at hrun
    exact hrun
  constructor
  · intro h k e s' hk
    exact (hfails k e s' hk).mp (h.fails k e s' hk)
  · intro h
    refine ⟨fun k e s' hk => (hfails k e s' hk).mpr (h k e s' hk), fun hnone => ?_⟩
    have hrun := executeFrom_of_failure_eq_none hnone [] 0 []
    rw [List.nil_append, ← List.range_eq_range'] at hrun
    exact hrun

/-! ### A compensation that throws -/

section Example

/-- The third step throws, and so does the compensation of the second one. -/
def brokenSaga : List (SagaStep Unit String) :=
  [ { execute := pure (), compensate := some (pure ()) },
    { execute := pure (), compensate := some (Effect.throw "compensation") },
    { execute := Effect.throw "step", compensate := none } ]

/-- The first step is not compensated, and the error of the third one is lost. -/
theorem brokenSaga_stops :
    outcome brokenSaga () =
        (.error "compensation", [.execute 0, .execute 1, .execute 2, .compensate 1]) ∧
      ¬ Lawful brokenSaga () := by
  refine ⟨rfl, fun h => ?_⟩
  have hlaw : Except.error "compensation" = (Except.error "step" : Except String Unit) :=
    congrArg Prod.fst (h.fails 2 "step" () rfl)
  exact absurd (Except.error.inj hlaw) (by decide)

end Example

end Neltrik.Shared.SagaOrchestrator
