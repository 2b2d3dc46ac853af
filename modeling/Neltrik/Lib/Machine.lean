import Mathlib.Data.List.Basic
import Mathlib.Data.List.Infix

/-! # Labelled machines and their runs

A machine is a partial step function: `step s l` is the state after the label `l`, if `l` is enabled
in `s`. A run is a list of labels, each enabled in its turn, so an interleaving of any number of
processes is one list.

* `run_inv`, `run_inv_of_allSteps`: the induction along a run, once for all invariants; the second
  one for invariants that hold only while every step meets a condition `G`.
* `AllStates P`, `AllSteps G`: a property of every state reached, a condition met by every step;
  `checkSteps` decides the second on a given run.
* `AllPairs R`, `allPairs_iff_allSteps`: the same for a relation of each state to the later ones, with
  `allPairs_iff_allSteps_of_inv` for a relation that rests on an invariant.
* `allStates_iff_allSteps`: if one step from a good state stays good exactly when the step meets
  `G`, then every state of the run is good exactly when every step of it meets `G`.
-/

namespace Neltrik.Lib.Machine

variable {σ L : Type*} (step : σ → L → Option σ)

/-- The state after the labels, if each is enabled in its turn. -/
def run : σ → List L → Option σ
  | s, [] => some s
  | s, l :: ls => (step s l).bind fun s' => run s' ls

/-- Each label of the run meets `G` in the state it is taken in. -/
def AllSteps (G : σ → L → Prop) : σ → List L → Prop
  | _, [] => True
  | s, l :: ls => G s l ∧ ∀ s', step s l = some s' → AllSteps G s' ls

/-- `AllSteps` by evaluation. -/
def checkSteps (g : σ → L → Bool) : σ → List L → Bool
  | _, [] => true
  | s, l :: ls => g s l && (step s l).all fun s' => checkSteps g s' ls

/-- Each state of the run meets `P`, the first and the last one included. -/
def AllStates (P : σ → Prop) (s : σ) (ls : List L) : Prop :=
  ∀ pre, pre <+: ls → ∀ s', run step s pre = some s' → P s'

/-- Each state of the run is related to each later one. -/
def AllPairs (R : σ → σ → Prop) (s : σ) (ls : List L) : Prop :=
  ∀ l₁ l₂, l₁ ++ l₂ <+: ls → ∀ s₁ s₂, run step s l₁ = some s₁ → run step s₁ l₂ = some s₂ → R s₁ s₂

variable {step}

@[simp] theorem run_nil (s : σ) : run step s [] = some s := rfl

theorem run_cons (s : σ) (l : L) (ls : List L) :
    run step s (l :: ls) = (step s l).bind fun s' => run step s' ls := rfl

theorem run_cons_of_step {s s' : σ} {l : L} (h : step s l = some s') (ls : List L) :
    run step s (l :: ls) = run step s' ls := by rw [run_cons, h]; rfl

theorem run_cons_eq_some {s s'' : σ} {l : L} {ls : List L} :
    run step s (l :: ls) = some s'' ↔ ∃ s', step s l = some s' ∧ run step s' ls = some s'' := by
  rw [run_cons, Option.bind_eq_some_iff]

theorem run_append_eq_some {s s'' : σ} {ls ls' : List L} :
    run step s (ls ++ ls') = some s'' ↔ ∃ s', run step s ls = some s' ∧ run step s' ls' = some s'' := by
  induction ls generalizing s with
  | nil => simp only [List.nil_append, run_nil, Option.some.injEq, exists_eq_left']
  | cons l ls ih =>
    simp only [List.cons_append, run_cons_eq_some, ih]
    constructor
    · rintro ⟨s₁, h₁, s', hr, hr'⟩
      exact ⟨s', ⟨s₁, h₁, hr⟩, hr'⟩
    · rintro ⟨s', ⟨s₁, h₁, hr⟩, hr'⟩
      exact ⟨s₁, h₁, s', hr, hr'⟩

/-- A machine that takes every label in every state takes every run. -/
theorem exists_run (h : ∀ s l, ∃ s', step s l = some s') (s : σ) (ls : List L) :
    ∃ s', run step s ls = some s' := by
  induction ls generalizing s with
  | nil => exact ⟨s, rfl⟩
  | cons l ls ih =>
    obtain ⟨s₁, h₁⟩ := h s l
    obtain ⟨s', hr⟩ := ih s₁
    exact ⟨s', (run_cons_of_step h₁ ls).trans hr⟩

/-! ### Conditions on the steps of a run -/

theorem allSteps_cons_of_step {G : σ → L → Prop} {s s' : σ} {l : L} {ls : List L}
    (h : step s l = some s') : AllSteps step G s (l :: ls) ↔ G s l ∧ AllSteps step G s' ls := by
  constructor
  · rintro ⟨hg, hs⟩
    exact ⟨hg, hs s' h⟩
  · rintro ⟨hg, hs⟩
    refine ⟨hg, fun s'' h'' => ?_⟩
    rw [h] at h''; cases h''; exact hs

theorem AllSteps.mono {G G' : σ → L → Prop} (hG : ∀ s l, G s l → G' s l) {s : σ} {ls : List L}
    (h : AllSteps step G s ls) : AllSteps step G' s ls := by
  induction ls generalizing s with
  | nil => trivial
  | cons l ls ih => exact ⟨hG s l h.1, fun s' hs => ih (h.2 s' hs)⟩

/-- A condition on the labels alone is one on the steps. -/
theorem allSteps_of_forall {G : σ → L → Prop} {ls : List L} (h : ∀ l ∈ ls, ∀ s, G s l) (s : σ) :
    AllSteps step G s ls := by
  induction ls generalizing s with
  | nil => trivial
  | cons l ls ih =>
    exact ⟨h l (by simp) s, fun s' _ => ih (fun l' hl' => h l' (by simp [hl'])) s'⟩

theorem AllSteps.and {G G' : σ → L → Prop} {s : σ} {ls : List L} (h : AllSteps step G s ls)
    (h' : AllSteps step G' s ls) : AllSteps step (fun s l => G s l ∧ G' s l) s ls := by
  induction ls generalizing s with
  | nil => trivial
  | cons l ls ih => exact ⟨⟨h.1, h'.1⟩, fun s' hs => ih (h.2 s' hs) (h'.2 s' hs)⟩

theorem allSteps_of_checkSteps {G : σ → L → Prop} {g : σ → L → Bool} (hg : ∀ s l, g s l = true → G s l)
    {s : σ} {ls : List L} (h : checkSteps step g s ls = true) : AllSteps step G s ls := by
  induction ls generalizing s with
  | nil => trivial
  | cons l ls ih =>
    rw [checkSteps, Bool.and_eq_true] at h
    refine ⟨hg s l h.1, fun s' hs => ih ?_⟩
    have h' := h.2
    rw [hs] at h'
    exact h'

theorem AllSteps.of_append {G : σ → L → Prop} {s s' : σ} {ls ls' : List L}
    (h : AllSteps step G s (ls ++ ls')) (hr : run step s ls = some s') :
    AllSteps step G s ls ∧ AllSteps step G s' ls' := by
  induction ls generalizing s with
  | nil => cases hr; exact ⟨trivial, h⟩
  | cons l ls ih =>
    obtain ⟨s₁, h₁, hr₁⟩ := run_cons_eq_some.mp hr
    obtain ⟨ha, hb⟩ := ih (h.2 s₁ h₁) hr₁
    exact ⟨(allSteps_cons_of_step h₁).mpr ⟨h.1, ha⟩, hb⟩

theorem AllSteps.of_isPrefix {G : σ → L → Prop} {s : σ} {pre ls : List L} (hp : pre <+: ls)
    (h : AllSteps step G s ls) : AllSteps step G s pre := by
  induction ls generalizing s pre with
  | nil => rw [List.prefix_nil.mp hp]; trivial
  | cons l ls ih =>
    cases pre with
    | nil => trivial
    | cons l' pre =>
      obtain ⟨rfl, hp'⟩ := List.cons_prefix_cons.mp hp
      exact ⟨h.1, fun s' hs => ih hp' (h.2 s' hs)⟩

/-! ### Properties of the states of a run -/

theorem AllStates.head {P : σ → Prop} {s : σ} {ls : List L} (h : AllStates step P s ls) : P s :=
  h [] (List.nil_prefix) s rfl

theorem AllStates.last {P : σ → Prop} {s s' : σ} {ls : List L} (h : AllStates step P s ls)
    (hr : run step s ls = some s') : P s' :=
  h ls (List.prefix_refl ls) s' hr

theorem allStates_nil {P : σ → Prop} {s : σ} : AllStates step P s [] ↔ P s := by
  refine ⟨AllStates.head, fun h pre hp s' hr => ?_⟩
  rw [List.prefix_nil.mp hp] at hr
  cases hr; exact h

theorem allStates_cons_of_step {P : σ → Prop} {s s' : σ} {l : L} {ls : List L}
    (h : step s l = some s') : AllStates step P s (l :: ls) ↔ P s ∧ AllStates step P s' ls := by
  constructor
  · intro ha
    refine ⟨ha.head, fun pre hp s'' hr => ?_⟩
    exact ha (l :: pre) (List.cons_prefix_cons.mpr ⟨rfl, hp⟩) s'' (by rw [run_cons_of_step h, hr])
  · rintro ⟨hs, ha⟩ pre hp s'' hr
    cases pre with
    | nil => cases hr; exact hs
    | cons l' pre =>
      obtain ⟨rfl, hp'⟩ := List.cons_prefix_cons.mp hp
      rw [run_cons_of_step h] at hr
      exact ha pre hp' s'' hr

theorem AllStates.mono {P P' : σ → Prop} (hP : ∀ s, P s → P' s) {s : σ} {ls : List L}
    (h : AllStates step P s ls) : AllStates step P' s ls :=
  fun pre hp s' hr => hP s' (h pre hp s' hr)

/-! ### The induction along a run -/

/-- **An invariant of the steps that meet `G` is one of the runs whose steps all meet `G`.** -/
theorem run_inv_of_allSteps {G : σ → L → Prop} {I : σ → Prop}
    (hstep : ∀ s l s', I s → G s l → step s l = some s' → I s') {s s' : σ} {ls : List L}
    (hs : I s) (hg : AllSteps step G s ls) (hr : run step s ls = some s') : I s' := by
  induction ls generalizing s with
  | nil => cases hr; exact hs
  | cons l ls ih =>
    obtain ⟨s₁, h₁, hr₁⟩ := run_cons_eq_some.mp hr
    exact ih (hstep s l s₁ hs hg.1 h₁) (hg.2 s₁ h₁) hr₁

/-- Such an invariant holds where each of the steps is taken. -/
theorem allSteps_of_inv {G : σ → L → Prop} {I : σ → Prop}
    (hstep : ∀ s l s', I s → G s l → step s l = some s' → I s') {s : σ} {ls : List L}
    (hs : I s) (hg : AllSteps step G s ls) : AllSteps step (fun s _ => I s) s ls := by
  induction ls generalizing s with
  | nil => trivial
  | cons l ls ih => exact ⟨hs, fun s₁ h₁ => ih (hstep s l s₁ hs hg.1 h₁) (hg.2 s₁ h₁)⟩

theorem allStates_of_allSteps {G : σ → L → Prop} {I : σ → Prop}
    (hstep : ∀ s l s', I s → G s l → step s l = some s' → I s') {s : σ} {ls : List L}
    (hs : I s) (hg : AllSteps step G s ls) : AllStates step I s ls :=
  fun _ hp _ hr => run_inv_of_allSteps hstep hs (hg.of_isPrefix hp) hr

/-- **An invariant of the steps is one of the runs.** -/
theorem run_inv {I : σ → Prop} (hstep : ∀ s l s', I s → step s l = some s' → I s') {s s' : σ}
    {ls : List L} (hs : I s) (hr : run step s ls = some s') : I s' :=
  run_inv_of_allSteps (G := fun _ _ => True) (fun s l s' hi _ => hstep s l s' hi) hs
    (allSteps_of_forall (fun _ _ _ => trivial) s) hr

/-- Two conditions that an invariant makes equivalent on enabled steps are so on runs. -/
theorem allSteps_congr {C G G' : σ → L → Prop} {I : σ → Prop}
    (hinv : ∀ s l s', I s → C s l → step s l = some s' → I s')
    (hiff : ∀ s l s', I s → step s l = some s' → (G s l ↔ G' s l)) {s s' : σ} {ls : List L}
    (hs : I s) (hc : AllSteps step C s ls) (hr : run step s ls = some s') :
    AllSteps step G s ls ↔ AllSteps step G' s ls := by
  induction ls generalizing s with
  | nil => exact Iff.rfl
  | cons l ls ih =>
    obtain ⟨s₁, h₁, hr₁⟩ := run_cons_eq_some.mp hr
    rw [allSteps_cons_of_step h₁, allSteps_cons_of_step h₁, hiff s l s₁ hs h₁,
      ih (hinv s l s₁ hs hc.1 h₁) (hc.2 s₁ h₁) hr₁]

/-- **A property that one step keeps exactly when the step meets `G`** holds in every state of a run
exactly when every step of the run meets `G`. The invariant `I` need only hold along steps that
meet `G`, and all steps meet `C`. -/
theorem allStates_iff_allSteps {C G : σ → L → Prop} {I P : σ → Prop}
    (hinv : ∀ s l s', I s → P s → C s l → G s l → step s l = some s' → I s')
    (hiff : ∀ s l s', I s → P s → C s l → step s l = some s' → (P s' ↔ G s l)) {s s' : σ}
    {ls : List L} (hI : I s) (hP : P s) (hC : AllSteps step C s ls) (hr : run step s ls = some s') :
    AllStates step P s ls ↔ AllSteps step G s ls := by
  induction ls generalizing s with
  | nil => exact ⟨fun _ => trivial, fun _ => allStates_nil.mpr hP⟩
  | cons l ls ih =>
    obtain ⟨s₁, h₁, hr₁⟩ := run_cons_eq_some.mp hr
    rw [allStates_cons_of_step h₁, allSteps_cons_of_step h₁]
    have hC₁ := hC.2 s₁ h₁
    constructor
    · rintro ⟨-, ha⟩
      have hG := (hiff s l s₁ hI hP hC.1 h₁).mp ha.head
      exact ⟨hG, (ih (hinv s l s₁ hI hP hC.1 hG h₁) ha.head hC₁ hr₁).mp ha⟩
    · rintro ⟨hG, hg⟩
      have hP₁ := (hiff s l s₁ hI hP hC.1 h₁).mpr hG
      exact ⟨hP, (ih (hinv s l s₁ hI hP hC.1 hG h₁) hP₁ hC₁ hr₁).mpr hg⟩

/-! ### Earlier and later states -/

theorem AllPairs.of_step {R : σ → σ → Prop} {s s' : σ} {l : L} {ls : List L}
    (h : AllPairs step R s (l :: ls)) (hs : step s l = some s') : R s s' ∧ AllPairs step R s' ls := by
  constructor
  · refine h [] [l] (List.cons_prefix_cons.mpr ⟨rfl, List.nil_prefix⟩) s s' rfl ?_
    rw [run_cons_of_step hs]; rfl
  · intro l₁ l₂ hp s₁ s₂ h₁ h₂
    refine h (l :: l₁) l₂ (List.cons_prefix_cons.mpr ⟨rfl, hp⟩) s₁ s₂ ?_ h₂
    rw [run_cons_of_step hs]; exact h₁

/-- **What lasts along the steps that meet `G` and is broken by any other step** lasts in a run exactly
when every step of the run meets `G`. `J s₀` is what each step has to keep for the sake of the state
`s₀` it came after, and the invariant `I` holds along any run. -/
theorem allPairs_iff_allSteps_of_inv {G : σ → L → Prop} {I : σ → Prop} {R J : σ → σ → Prop}
    (hI : ∀ s l s', I s → step s l = some s' → I s') (hrefl : ∀ s, J s s)
    (hJ : ∀ s₀ s l s', I s → J s₀ s → G s l → step s l = some s' → J s₀ s')
    (hR : ∀ s₀ s, J s₀ s → R s₀ s) (hG : ∀ s l s', I s → step s l = some s' → R s s' → G s l) {s s' : σ}
    {ls : List L} (hs : I s) (hr : run step s ls = some s') :
    AllPairs step R s ls ↔ AllSteps step G s ls := by
  constructor
  · intro h
    induction ls generalizing s with
    | nil => trivial
    | cons l ls ih =>
      obtain ⟨s₁, h₁, hr₁⟩ := run_cons_eq_some.mp hr
      obtain ⟨hs₁, hrest⟩ := h.of_step h₁
      exact (allSteps_cons_of_step h₁).mpr ⟨hG s l s₁ hs h₁ hs₁, ih (hI s l s₁ hs h₁) hr₁ hrest⟩
  · intro hg l₁ l₂ hp s₁ s₂ h₁ h₂
    have hg₂ := ((hg.of_isPrefix hp).of_append h₁).2
    have hstep : ∀ s l s', I s ∧ J s₁ s → G s l → step s l = some s' → I s' ∧ J s₁ s' :=
      fun s l s' hij hg hs' => ⟨hI s l s' hij.1 hs', hJ s₁ s l s' hij.1 hij.2 hg hs'⟩
    exact hR s₁ s₂ (run_inv_of_allSteps hstep ⟨run_inv hI hs h₁, hrefl s₁⟩ hg₂ h₂).2

theorem allPairs_iff_allSteps {G : σ → L → Prop} {R J : σ → σ → Prop} (hrefl : ∀ s, J s s)
    (hJ : ∀ s₀ s l s', J s₀ s → G s l → step s l = some s' → J s₀ s') (hR : ∀ s₀ s, J s₀ s → R s₀ s)
    (hG : ∀ s l s', step s l = some s' → R s s' → G s l) {s s' : σ} {ls : List L}
    (hr : run step s ls = some s') : AllPairs step R s ls ↔ AllSteps step G s ls :=
  allPairs_iff_allSteps_of_inv (I := fun _ => True) (fun _ _ _ _ _ => trivial) hrefl
    (fun s₀ s l s' _ => hJ s₀ s l s') hR (fun s l s' _ => hG s l s') trivial hr

end Neltrik.Lib.Machine
