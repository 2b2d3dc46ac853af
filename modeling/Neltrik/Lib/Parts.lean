import Neltrik.Lib.Interleaving
import Neltrik.Lib.Trace

/-! # Systems in parts

Each process of a system has an owner, and works on what is its owner's; `part` cuts out of a world what is
of one owner `k`. `ownedStep` is the system whose processes remember their owners, `run_forget` says that it
has the runs of the system.

`Separate` says of one step that the owner of the part takes it there as in the whole world, and that the
others leave the part as it is. Then the part runs as if it were alone:

* `step_part`: a step of `k` is enabled in the whole system exactly if it is in the part of `k`, and does
  there the same;
* `run_part`: what a run leaves of the part of `k` is what the labels of `k` make of it alone.
-/

namespace Neltrik.Lib.Parts

open Machine Interleaving

variable {W P S A κ : Type*}

/-! ### Processes that remember their owners -/

section Owned
variable (start : W → S → Option (W × P)) (act : List P → W → P → A → Option (W × P)) (owner : W → S → κ)

/-- A start, with the owner of the process it makes. -/
def ownedStart (w : W) (s : S) : Option (W × (κ × P)) := (start w s).map fun x => (x.1, owner w s, x.2)

/-- An action of a process, which keeps its owner. -/
def ownedAct (procs : List (κ × P)) (w : W) (p : κ × P) (a : A) : Option (W × (κ × P)) :=
  (act (procs.map Prod.snd) w p.2 a).map fun x => (x.1, p.1, x.2)

/-- The machine with owners. -/
abbrev ownedStep : State W (κ × P) → Label S A → Option (State W (κ × P)) :=
  step (ownedStart start owner) (ownedAct act)

/-- The state without the owners. -/
def forget (st : State W (κ × P)) : State W P := ⟨st.world, st.procs.map Prod.snd⟩

variable {start act owner}

theorem ownedStart_eq_some {w w' : W} {s : S} {p : κ × P} :
    ownedStart start owner w s = some (w', p) ↔ start w s = some (w', p.2) ∧ p.1 = owner w s := by
  unfold ownedStart
  rw [Option.map_eq_some_iff]
  constructor
  · rintro ⟨x, hx, h⟩
    cases h
    exact ⟨hx, rfl⟩
  · rintro ⟨hx, hp⟩
    exact ⟨_, hx, by rw [← hp]⟩

theorem ownedAct_eq_some {procs : List (κ × P)} {w w' : W} {p p' : κ × P} {a : A} :
    ownedAct act procs w p a = some (w', p') ↔
      act (procs.map Prod.snd) w p.2 a = some (w', p'.2) ∧ p'.1 = p.1 := by
  unfold ownedAct
  rw [Option.map_eq_some_iff]
  constructor
  · rintro ⟨x, hx, h⟩
    cases h
    exact ⟨hx, rfl⟩
  · rintro ⟨hx, hp⟩
    exact ⟨_, hx, by rw [← hp]⟩

variable (start act owner)

theorem step_forget (st : State W (κ × P)) (l : Label S A) :
    step start act (forget st) l = (ownedStep start act owner st l).map forget := by
  cases l with
  | start s =>
    simp only [step, ownedStart, forget, Option.map_map]
    refine congrArg (fun f => (start st.world s).map f) (funext fun x => ?_)
    simp [forget]
  | act i a =>
    simp only [step, forget, List.getElem?_map]
    cases hp : st.procs[i]? with
    | none => rfl
    | some p =>
      simp only [Option.map_some, Option.bind_some, ownedAct, Option.map_map]
      refine congrArg (fun f => (act (st.procs.map Prod.snd) st.world p.2 a).map f) (funext fun x => ?_)
      simp [forget, List.map_set]

/-- **The runs are the same.** -/
theorem run_forget (st : State W (κ × P)) (ls : List (Label S A)) :
    run (step start act) (forget st) ls = (run (ownedStep start act owner) st ls).map forget := by
  induction ls generalizing st with
  | nil => rfl
  | cons l ls ih =>
    rw [run_cons, run_cons, step_forget start act owner]
    cases ownedStep start act owner st l with
    | none => rfl
    | some st' => exact ih st'

end Owned

/-! ### The processes of one owner -/

section Procs
variable [DecidableEq κ] (k : κ)

/-- The processes of `k`, in their order. -/
def procsOf (procs : List (κ × P)) : List P := (procs.filter (·.1 == k)).map Prod.snd

/-- The index among the processes of `k`. -/
def place (procs : List (κ × P)) (i : ℕ) : ℕ := (procs.take i).countP (·.1 == k)

variable {k} {procs : List (κ × P)} {i : ℕ} {p p' : κ × P}

theorem procsOf_concat (procs : List (κ × P)) (p : κ × P) :
    procsOf k (procs ++ [p]) = procsOf k procs ++ if p.1 = k then [p.2] else [] := by
  unfold procsOf
  rw [List.filter_append, List.map_append]
  congr 1
  by_cases hp : p.1 = k
  · rw [if_pos hp, List.filter_cons_of_pos (by simpa using hp)]
    rfl
  · rw [if_neg hp, List.filter_cons_of_neg (by simpa using hp)]
    rfl

theorem procsOf_cons (p : κ × P) (procs : List (κ × P)) :
    procsOf k (p :: procs) = if p.1 = k then p.2 :: procsOf k procs else procsOf k procs := by
  unfold procsOf
  rw [List.filter_cons]
  by_cases hp : p.1 = k
  · rw [if_pos hp, if_pos (by simpa using hp)]
    rfl
  · rw [if_neg hp, if_neg (by simpa using hp)]

theorem place_succ (p : κ × P) (procs : List (κ × P)) (i : ℕ) :
    place k (p :: procs) (i + 1) = place k procs i + if p.1 = k then 1 else 0 := by
  unfold place
  rw [List.take_succ_cons, List.countP_cons]
  simp only [beq_iff_eq]

theorem getElem?_procsOf (hp : procs[i]? = some p) (hk : p.1 = k) :
    (procsOf k procs)[place k procs i]? = some p.2 := by
  induction procs generalizing i with
  | nil => simp at hp
  | cons q procs ih =>
    rw [procsOf_cons]
    cases i with
    | zero =>
      cases hp
      rw [if_pos hk]
      rfl
    | succ i =>
      have hi := ih (by simpa using hp)
      rw [place_succ]
      by_cases hq : q.1 = k
      · rw [if_pos hq, if_pos hq, List.getElem?_cons_succ]
        exact hi
      · rw [if_neg hq, if_neg hq, Nat.add_zero]
        exact hi

theorem procsOf_set (hp : procs[i]? = some p) (hk : p.1 = k) (hk' : p'.1 = k) :
    procsOf k (procs.set i p') = (procsOf k procs).set (place k procs i) p'.2 := by
  induction procs generalizing i with
  | nil => simp at hp
  | cons q procs ih =>
    cases i with
    | zero =>
      cases hp
      rw [List.set_cons_zero, procsOf_cons, procsOf_cons, if_pos hk, if_pos hk']
      rfl
    | succ i =>
      have hi := ih (by simpa using hp)
      rw [List.set_cons_succ, procsOf_cons, procsOf_cons, place_succ, hi]
      by_cases hq : q.1 = k
      · rw [if_pos hq, if_pos hq, if_pos hq, List.set_cons_succ]
      · rw [if_neg hq, if_neg hq, if_neg hq, Nat.add_zero]

theorem procsOf_set_of_ne (hp : procs[i]? = some p) (hk : p.1 ≠ k) (hk' : p'.1 ≠ k) :
    procsOf k (procs.set i p') = procsOf k procs := by
  induction procs generalizing i with
  | nil => rfl
  | cons q procs ih =>
    cases i with
    | zero =>
      cases hp
      rw [List.set_cons_zero, procsOf_cons, procsOf_cons, if_neg hk, if_neg hk']
    | succ i =>
      rw [List.set_cons_succ, procsOf_cons, procsOf_cons, ih (by simpa using hp)]

end Procs

/-! ### Parts that run alone -/

variable [DecidableEq κ]

/-- The label of a step of `k`, as it is in the part of `k`. -/
def labelOf (owner : W → S → κ) (k : κ) (st : State W (κ × P)) : Label S A → Option (Label S A)
  | .start s => if owner st.world s = k then some (.start s) else none
  | .act i a => st.procs[i]?.bind fun p => if p.1 = k then some (.act (place k st.procs i) a) else none

/-- What of a state is an owner's. -/
def partState (part : W → W) (k : κ) (st : State W (κ × P)) : State W P := ⟨part st.world, procsOf k st.procs⟩

section Separate
variable (start : W → S → Option (W × P)) (act : List P → W → P → A → Option (W × P)) (owner : W → S → κ)
  (k : κ) (part : W → W) (I : State W (κ × P) → Prop) (G : Label S A → Prop)

/-- The part of `k` meets no other: a step of `k` works on it and sees nothing else, the other steps leave it
as it is. -/
structure Separate : Prop where
  inv : ∀ st l st', I st → G l → ownedStep start act owner st l = some st' → I st'
  starts : ∀ st s, I st → G (.start s) → owner st.world s = k →
    start (part st.world) s = (start st.world s).map fun x => (part x.1, x.2)
  startsOther : ∀ st s w p, I st → G (.start s) → owner st.world s ≠ k → start st.world s = some (w, p) →
    part w = part st.world
  acts : ∀ st (i : ℕ) (p : P) a, I st → st.procs[i]? = some (k, p) →
    act (procsOf k st.procs) (part st.world) p a =
      (act (st.procs.map Prod.snd) st.world p a).map fun x => (part x.1, x.2)
  actsOther : ∀ st (i : ℕ) (p : κ × P) a w p', I st → st.procs[i]? = some p → p.1 ≠ k →
    act (st.procs.map Prod.snd) st.world p.2 a = some (w, p') → part w = part st.world

variable {start act owner k part I G} (h : Separate start act owner k part I G)
include h

theorem step_part {st : State W (κ × P)} {l l' : Label S A} (hI : I st) (hG : G l)
    (hl : labelOf owner k st l = some l') :
    step start act (partState part k st) l' = (ownedStep start act owner st l).map (partState part k) := by
  cases l with
  | start s =>
    simp only [labelOf] at hl
    split_ifs at hl with hk
    cases hl
    simp only [step, ownedStart, partState, h.starts st s hI hG hk, Option.map_map]
    refine congrArg (fun f => (start st.world s).map f) (funext fun x => ?_)
    simp only [Function.comp_apply, partState, procsOf_concat, hk, if_true]
  | act i a =>
    obtain ⟨⟨s, p⟩, hp, hl⟩ := Option.bind_eq_some_iff.mp hl
    dsimp only at hl
    split_ifs at hl with hk
    cases hl
    subst hk
    simp only [step, partState, getElem?_procsOf hp rfl, hp, Option.bind_some, h.acts st i p a hI hp, ownedAct,
      Option.map_map]
    refine congrArg (fun f => (act (st.procs.map Prod.snd) st.world p a).map f) (funext fun x => ?_)
    have hset : procsOf s (st.procs.set i (s, x.2)) = (procsOf s st.procs).set (place s st.procs i) x.2 :=
      procsOf_set hp rfl rfl
    simp only [Function.comp_apply, partState, hset]

theorem step_other {st st' : State W (κ × P)} {l : Label S A} (hI : I st) (hG : G l)
    (hl : labelOf owner k st l = none) (hs : ownedStep start act owner st l = some st') :
    partState part k st' = partState part k st := by
  cases l with
  | start s =>
    have hk : owner st.world s ≠ k := by
      intro hk
      simp only [labelOf, if_pos hk] at hl
      cases hl
    obtain ⟨w, p, hw, rfl⟩ := step_start.mp hs
    obtain ⟨hw, hp⟩ := ownedStart_eq_some.mp hw
    unfold partState
    rw [h.startsOther st s w p.2 hI hG hk hw, procsOf_concat, if_neg (by rw [hp]; exact hk), List.append_nil]
  | act i a =>
    obtain ⟨p, w, p', hp, hw, rfl⟩ := step_act.mp hs
    obtain ⟨hw, hp'⟩ := ownedAct_eq_some.mp hw
    have hk : p.1 ≠ k := by
      intro hk
      simp only [labelOf, hp, Option.bind_some, if_pos hk] at hl
      cases hl
    unfold partState
    rw [h.actsOther st i p a w p'.2 hI hp hk hw, procsOf_set_of_ne hp hk (by rw [hp']; exact hk)]

/-- **The part runs as if it were alone.** -/
theorem run_part {st st' : State W (κ × P)} {ls : List (Label S A)} (hI : I st) (hG : ∀ l ∈ ls, G l)
    (hr : run (ownedStep start act owner) st ls = some st') :
    run (step start act) (partState part k st) (trace (ownedStep start act owner) (labelOf owner k) st ls) =
      some (partState part k st') ∧ I st' := by
  induction ls generalizing st with
  | nil =>
    cases hr
    exact ⟨rfl, hI⟩
  | cons l ls ih =>
    obtain ⟨st₁, h₁, hr₁⟩ := run_cons_eq_some.mp hr
    have hl : G l := hG l List.mem_cons_self
    have hrest := ih (h.inv st l st₁ hI hl h₁) (fun l' hl' => hG l' (List.mem_cons_of_mem _ hl')) hr₁
    refine ⟨?_, hrest.2⟩
    rw [trace_cons_of_step h₁]
    cases hlabel : labelOf owner k st l with
    | none =>
      rw [step_other h hI hl hlabel h₁] at hrest
      exact hrest.1
    | some l' =>
      have hstep := step_part h hI hl hlabel
      rw [h₁] at hstep
      exact (run_cons_of_step hstep _).trans hrest.1

end Separate

end Neltrik.Lib.Parts
