import Neltrik.Lib.Machine
import Neltrik.Lib.Pool

/-! # Interleavings: processes over a shared world

A system is a world all processes share and the pool of their local states. A process is started by
`start`, and `act` is one atomic action of one process: it may read the world and the pool (for the
locks the others hold), and it changes the world and the local state of that process. A label starts
a process or names the one that acts, so the runs of `step` are all interleavings.

`Inv.step` is the proof rule. An invariant consists of what holds of the world, what holds of each
process in the world (`Φ`) and what holds of any two processes (`R`); an action has to keep the first,
to establish the second for the process that acts, and not to interfere with the others. `Inv.of_step`
is the same for one step whose invariant speaks of what the run has shown so far. `Leads` is the case
of a process that runs alone.
-/

namespace Neltrik.Lib.Interleaving

open Neltrik.Lib.Pool

variable {W P S A : Type*}

/-- The world and the local states of the processes. -/
structure State (W P : Type*) where
  world : W
  procs : List P

/-- A label starts a process, or lets the process of an index act. -/
inductive Label (S A : Type*) where
  | start (s : S)
  | act (i : ℕ) (a : A)
  deriving DecidableEq

section Step
variable (start : W → S → Option (W × P)) (act : List P → W → P → A → Option (W × P))

/-- The state after a label, if the label is enabled. -/
def step (st : State W P) : Label S A → Option (State W P)
  | .start s => (start st.world s).map fun r => ⟨r.1, st.procs ++ [r.2]⟩
  | .act i a => st.procs[i]?.bind fun p =>
      (act st.procs st.world p a).map fun r => ⟨r.1, st.procs.set i r.2⟩

variable {start act}

theorem step_start {st st' : State W P} {s : S} : step start act st (.start s) = some st' ↔
    ∃ w p, start st.world s = some (w, p) ∧ st' = ⟨w, st.procs ++ [p]⟩ := by
  simp only [step, Option.map_eq_some_iff, Prod.exists]
  constructor
  · rintro ⟨w, p, h, rfl⟩
    exact ⟨w, p, h, rfl⟩
  · rintro ⟨w, p, h, rfl⟩
    exact ⟨w, p, h, rfl⟩

theorem step_act {st st' : State W P} {i : ℕ} {a : A} : step start act st (.act i a) = some st' ↔
    ∃ p w p', st.procs[i]? = some p ∧ act st.procs st.world p a = some (w, p') ∧
      st' = ⟨w, st.procs.set i p'⟩ := by
  simp only [step, Option.bind_eq_some_iff, Option.map_eq_some_iff, Prod.exists]
  constructor
  · rintro ⟨p, hp, w, p', h, rfl⟩
    exact ⟨p, w, p', hp, h, rfl⟩
  · rintro ⟨p, w, p', hp, h, rfl⟩
    exact ⟨p, hp, w, p', h, rfl⟩

/-! ### The invariant rule -/

/-- An invariant in three parts. -/
structure Inv (I : W → Prop) (Φ : W → P → Prop) (R : P → P → Prop) (st : State W P) : Prop where
  world : I st.world
  procs : ∀ p ∈ st.procs, Φ st.world p
  apart : Apart R st.procs

variable {I : W → Prop} {Φ : W → P → Prop} {R : P → P → Prop}

theorem Inv.proc {st : State W P} (h : Inv I Φ R st) {i : ℕ} {p : P} (hp : st.procs[i]? = some p) :
    Φ st.world p :=
  h.procs p (mem_of_getElem? hp)

/-- Without processes only the world matters. -/
theorem Inv.of_nil {st : State W P} (h : I st.world) (hp : st.procs = []) : Inv I Φ R st := by
  refine ⟨h, ?_, ?_⟩
  · rw [hp]; exact fun p hp => absurd hp List.not_mem_nil
  · rw [hp]; exact apart_nil

/-- What holds after a step, from what the step does: it need not be what held before. -/
theorem Inv.of_step {st st' : State W P} {l : Label S A} (hR : ∀ p q, R p q → R q p)
    (ha : Apart R st.procs)
    (hstart : ∀ s w p, l = .start s → start st.world s = some (w, p) →
      I w ∧ Φ w p ∧ ∀ q ∈ st.procs, Φ w q ∧ R p q)
    (hact : ∀ i a p w p', l = .act i a → st.procs[i]? = some p →
      act st.procs st.world p a = some (w, p') →
      I w ∧ Φ w p' ∧ ∀ (j : ℕ) q, j ≠ i → st.procs[j]? = some q → Φ w q ∧ R p' q)
    (hs : step start act st l = some st') : Inv I Φ R st' := by
  cases l with
  | start s =>
    obtain ⟨w, p, hw, rfl⟩ := step_start.mp hs
    obtain ⟨hI, hp, hq⟩ := hstart s w p rfl hw
    exact ⟨hI, forall_mem_concat (fun q hm => (hq q hm).1) hp, ha.concat hR fun q hm => (hq q hm).2⟩
  | act i a =>
    obtain ⟨p, w, p', hp, hw, rfl⟩ := step_act.mp hs
    obtain ⟨hI, hp', hq⟩ := hact i a p w p' rfl hp hw
    refine ⟨hI, fun q hm => ?_, ha.set hR fun j q hj hm => (hq j q hj hm).2⟩
    obtain ⟨j, hj⟩ := List.getElem?_of_mem hm
    rcases getElem?_set_cases hj with ⟨-, rfl⟩ | ⟨hne, hj₁⟩
    · exact hp'
    · exact (hq j q hne hj₁).1

/-- **The rule of interference freedom.** -/
theorem Inv.step {G : State W P → Label S A → Prop} (hR : ∀ p q, R p q → R q p)
    (hstart : ∀ st s w p, Inv I Φ R st → G st (.start s) → start st.world s = some (w, p) →
      I w ∧ Φ w p ∧ ∀ q ∈ st.procs, Φ w q ∧ R p q)
    (hact : ∀ st i a p w p', Inv I Φ R st → G st (.act i a) → st.procs[i]? = some p →
      act st.procs st.world p a = some (w, p') →
      I w ∧ Φ w p' ∧ ∀ (j : ℕ) q, j ≠ i → st.procs[j]? = some q → Φ w q ∧ R p' q)
    {st st' : State W P} {l : Label S A} (h : Inv I Φ R st) (hG : G st l)
    (hs : step start act st l = some st') : Inv I Φ R st' := by
  refine Inv.of_step hR h.apart ?_ ?_ hs
  · rintro s w p rfl hw
    exact hstart st s w p h hG hw
  · rintro i a p w p' rfl hp hw
    exact hact st i a p w p' h hG hp hw

/-! ### One process alone -/

/-- The last process gets from `p` to `p'` while no other acts. -/
def Leads (start : W → S → Option (W × P)) (act : List P → W → P → A → Option (W × P)) (procs : List P)
    (w : W) (p : P) (w' : W) (p' : P) : Prop :=
  ∃ actions : List A,
    Machine.run (step start act) ⟨w, procs ++ [p]⟩ (actions.map (.act procs.length)) =
      some ⟨w', procs ++ [p']⟩

section Leads
variable {procs : List P} {w w' w'' : W} {p p' p'' : P}

theorem Leads.refl : Leads start act procs w p w p := ⟨[], rfl⟩

theorem Leads.cons {a : A} (h : act (procs ++ [p]) w p a = some (w', p'))
    (h' : Leads start act procs w' p' w'' p'') : Leads start act procs w p w'' p'' := by
  obtain ⟨actions, hrun⟩ := h'
  have hstep : step start act ⟨w, procs ++ [p]⟩ (.act procs.length a) = some ⟨w', procs ++ [p']⟩ := by
    refine step_act.mpr ⟨p, w', p', by simp, h, ?_⟩
    rw [List.set_append_right _ _ le_rfl, Nat.sub_self]
    rfl
  exact ⟨a :: actions, (Machine.run_cons_of_step hstep _).trans hrun⟩

theorem Leads.single {a : A} (h : act (procs ++ [p]) w p a = some (w', p')) :
    Leads start act procs w p w' p' :=
  .cons h .refl

theorem Leads.of_start {l : S} (h : start w l = some (w', p)) (hl : Leads start act procs w' p w'' p') :
    ∃ ls, Machine.run (step start act) ⟨w, procs⟩ ls = some ⟨w'', procs ++ [p']⟩ := by
  obtain ⟨actions, hrun⟩ := hl
  have hstep : step start act ⟨w, procs⟩ (.start l) = some ⟨w', procs ++ [p]⟩ :=
    step_start.mpr ⟨w', p, h, rfl⟩
  exact ⟨_, (Machine.run_cons_of_step hstep _).trans hrun⟩

end Leads

end Step

end Neltrik.Lib.Interleaving
