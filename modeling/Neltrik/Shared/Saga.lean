import Neltrik.Lib.Effect

/-! # Sagas

`SagaOrchestrator.execute` on a state that holds the context of the saga, which the steps change in
place. A step that throws is not compensated itself; a compensation that throws ends the saga with
its own error. -/

namespace Neltrik.Shared

open Neltrik.Lib

variable {τ ε : Type}

/-- A step, with what takes it back. -/
structure SagaStep (τ ε : Type) where
  execute : Effect τ ε Unit
  compensate : Option (Effect τ ε Unit)

namespace SagaOrchestrator

/-- The compensations of the steps, in the order of the list. -/
def compensateAll : List (SagaStep τ ε) → Effect τ ε Unit
  | [] => pure ()
  | step :: steps => do
    step.compensate.getD (pure ())
    compensateAll steps

/-- `executedSteps` has the last executed step first. -/
def executeFrom (executedSteps : List (SagaStep τ ε)) : List (SagaStep τ ε) → Effect τ ε Unit
  | [] => pure ()
  | step :: steps => fun s =>
    match step.execute s with
    | (.ok _, s') => executeFrom (step :: executedSteps) steps s'
    | (.error e, s') =>
      match compensateAll executedSteps s' with
      | (.ok _, s'') => (.error e, s'')
      | (.error e', s'') => (.error e', s'')

/-- `SagaOrchestrator.execute`. -/
def execute (steps : List (SagaStep τ ε)) : Effect τ ε Unit := executeFrom [] steps

section Run
variable {step : SagaStep τ ε} {executedSteps steps : List (SagaStep τ ε)} {s s' s'' : τ} {e : ε}

theorem executeFrom_cons : executeFrom executedSteps (step :: steps) s =
    match step.execute s with
    | (.ok _, s') => executeFrom (step :: executedSteps) steps s'
    | (.error e, s') =>
      match compensateAll executedSteps s' with
      | (.ok _, s'') => (.error e, s'')
      | (.error e', s'') => (.error e', s'') := rfl

theorem executeFrom_of_ok (h : step.execute s = (.ok (), s')) :
    executeFrom executedSteps (step :: steps) s = executeFrom (step :: executedSteps) steps s' := by
  rw [executeFrom_cons, h]

/-- A step throws, and no compensation does. -/
theorem executeFrom_of_error (h : step.execute s = (.error e, s'))
    (hc : compensateAll executedSteps s' = (.ok (), s'')) :
    executeFrom executedSteps (step :: steps) s = (.error e, s'') := by
  rw [executeFrom_cons, h]
  dsimp only
  rw [hc]

end Run

/-- A step that keeps `P`, also when it throws and when it is compensated. -/
structure KeptBy (P : τ → Prop) (step : SagaStep τ ε) : Prop where
  execute : Effect.Triple P step.execute (fun _ => P) (fun _ => P)
  compensate : ∀ m, step.compensate = some m → Effect.Triple P m (fun _ => P) (fun _ => P)

variable {P : τ → Prop}

theorem triple_compensateAll {steps : List (SagaStep τ ε)} (h : ∀ step ∈ steps, KeptBy P step) :
    Effect.Triple P (compensateAll steps) (fun _ => P) (fun _ => P) := by
  induction steps with
  | nil => exact Effect.Triple.pure fun _ hs => hs
  | cons step steps ih =>
    refine Effect.Triple.bind (R := fun _ => P) ?_ fun _ => ih fun s hs => h s (by simp [hs])
    cases hc : step.compensate with
    | none => exact Effect.Triple.pure fun _ hs => hs
    | some m => exact (h step (by simp)).compensate m hc

theorem triple_executeFrom {executed steps : List (SagaStep τ ε)} (he : ∀ step ∈ executed, KeptBy P step)
    (h : ∀ step ∈ steps, KeptBy P step) :
    Effect.Triple P (executeFrom executed steps) (fun _ => P) (fun _ => P) := by
  induction steps generalizing executed with
  | nil => exact Effect.Triple.pure fun _ hs => hs
  | cons step steps ih =>
    intro s hs
    have hstep := h step (by simp)
    obtain ⟨hok, herr⟩ := hstep.execute s hs
    have hrest : ∀ t ∈ step :: executed, KeptBy P t := List.forall_mem_cons.mpr ⟨hstep, he⟩
    unfold executeFrom
    rcases hr : step.execute s with ⟨e | _, s'⟩
    · have hs' := (triple_compensateAll he).snd (herr e s' hr)
      dsimp only
      rcases hc : compensateAll executed s' with ⟨_ | _, s''⟩
      all_goals
        rw [hc] at hs'
        refine ⟨fun _ _ h' => ?_, fun _ _ h' => ?_⟩ <;> cases h'
        exact hs'
    · exact ih hrest (fun t ht => h t (by simp [ht])) s' (hok _ s' hr)

/-- **What every step and every compensation keeps**, the saga keeps. -/
theorem triple_execute {steps : List (SagaStep τ ε)} (h : ∀ step ∈ steps, KeptBy P step) :
    Effect.Triple P (execute steps) (fun _ => P) (fun _ => P) :=
  triple_executeFrom (fun _ hs => absurd hs List.not_mem_nil) h

end SagaOrchestrator

end Neltrik.Shared
