import Neltrik.Lib.Machine

/-! # What a run shows

A step may be observable: `obs s l` is what taking `l` in `s` shows to the outside, if anything. The
trace of a run is the list of what its steps show.

* `trace_inv`: an invariant may speak of what has been shown so far;
* `trace_refines`: a machine whose observable steps are the operations of a sequential object, and
  whose other steps leave that object alone, ends where the operations of the trace take the object,
  one after the other;
* `trace_once`: what closes a state and cannot be shown by a closed state is shown at most once;
  `trace_once_of_key` is this for each key of what is shown;
* `run_past`: an invariant may speak of the states the run has come through.
-/

namespace Neltrik.Lib.Machine

variable {σ L β : Type*} (step : σ → L → Option σ) (obs : σ → L → Option β)

/-- What the steps of the run show, in their order. -/
def trace : σ → List L → List β
  | _, [] => []
  | s, l :: ls => (obs s l).toList ++ (step s l).elim [] fun s' => trace s' ls

variable {step obs}

@[simp] theorem trace_nil (s : σ) : trace step obs s [] = [] := rfl

theorem trace_cons_of_step {s s' : σ} {l : L} (h : step s l = some s') (ls : List L) :
    trace step obs s (l :: ls) = (obs s l).toList ++ trace step obs s' ls := by
  rw [trace, h]; rfl

/-- An invariant of the state and of what has been shown so far. -/
theorem trace_inv {J : σ → List β → Prop} {G : σ → L → Prop}
    (hstep : ∀ s l s' h, J s h → G s l → step s l = some s' → J s' (h ++ (obs s l).toList)) {s s' : σ}
    {ls : List L} {h : List β} (hs : J s h) (hG : AllSteps step G s ls) (hr : run step s ls = some s') :
    J s' (h ++ trace step obs s ls) := by
  induction ls generalizing s h with
  | nil => cases hr; rw [trace_nil, List.append_nil]; exact hs
  | cons l ls ih =>
    obtain ⟨s₁, h₁, hr₁⟩ := run_cons_eq_some.mp hr
    rw [trace_cons_of_step h₁, ← List.append_assoc]
    exact ih (hstep s l s₁ h hs hG.1 h₁) (hG.2 s₁ h₁) hr₁

/-- What each step shows, the run shows. -/
theorem trace_forall {I : σ → Prop} {G : σ → L → Prop} {P : β → Prop}
    (hI : ∀ s l s', I s → G s l → step s l = some s' → I s')
    (hP : ∀ s l s' b, I s → G s l → step s l = some s' → obs s l = some b → P b) {s s' : σ} {ls : List L}
    (hs : I s) (hG : AllSteps step G s ls) (hr : run step s ls = some s') :
    ∀ b ∈ trace step obs s ls, P b := by
  refine (trace_inv (J := fun s h => I s ∧ ∀ b ∈ h, P b) ?_ ⟨hs, fun b hb => absurd hb List.not_mem_nil⟩
    hG hr).2
  rintro s l s' h ⟨hs, hh⟩ hg hl
  refine ⟨hI s l s' hs hg hl, fun b hb => ?_⟩
  rcases List.mem_append.mp hb with hb | hb
  · exact hh b hb
  · exact hP s l s' b hs hg hl (Option.mem_toList.mp hb)

/-- **A run refines the sequential object** that its observable steps operate on. `V s a` says that
`s` shows the object as `a`; the invariant `I` need only hold along steps that meet `G`. -/
theorem trace_refines {α ε : Type*} {I : σ → Prop} {G : σ → L → Prop} {V : σ → α → Prop}
    {f : α → β → Except ε α} (hI : ∀ s l s', I s → G s l → step s l = some s' → I s')
    (hsilent : ∀ s l s' a, I s → G s l → step s l = some s' → V s a → obs s l = none → V s' a)
    (hshown : ∀ s l s' a b, I s → G s l → step s l = some s' → V s a → obs s l = some b →
      ∃ a', f a b = .ok a' ∧ V s' a') {s s' : σ} {ls : List L} {a : α} (hs : I s) (hV : V s a)
    (hG : AllSteps step G s ls) (hr : run step s ls = some s') :
    ∃ a', (trace step obs s ls).foldlM f a = .ok a' ∧ V s' a' := by
  induction ls generalizing s a with
  | nil => cases hr; exact ⟨a, rfl, hV⟩
  | cons l ls ih =>
    obtain ⟨s₁, h₁, hr₁⟩ := run_cons_eq_some.mp hr
    have hs₁ := hI s l s₁ hs hG.1 h₁
    have hG₁ := hG.2 s₁ h₁
    rw [trace_cons_of_step h₁]
    cases ho : obs s l with
    | none => exact ih hs₁ (hsilent s l s₁ a hs hG.1 h₁ hV ho) hG₁ hr₁
    | some b =>
      obtain ⟨a₁, ha, hV₁⟩ := hshown s l s₁ a b hs hG.1 h₁ hV ho
      obtain ⟨a', hfold, hV'⟩ := ih hs₁ hV₁ hG₁ hr₁
      refine ⟨a', ?_, hV'⟩
      show (f a b >>= fun a => (trace step obs s₁ ls).foldlM f a) = .ok a'
      rw [ha]
      exact hfold

section Once
variable {I C : σ → Prop} {G : σ → L → Prop} {p : β → Bool}
  (hI : ∀ s l s', I s → G s l → step s l = some s' → I s')
  (hkeep : ∀ s l s', I s → G s l → step s l = some s' → C s → C s')
  (hno : ∀ s l s' b, I s → G s l → step s l = some s' → C s → obs s l = some b → p b = false)
include hI hkeep hno

/-- A closed state shows nothing any more. -/
theorem trace_of_closed {s s' : σ} {ls : List L} (hs : I s) (hc : C s) (hG : AllSteps step G s ls)
    (hr : run step s ls = some s') : (trace step obs s ls).countP p = 0 := by
  induction ls generalizing s with
  | nil => rfl
  | cons l ls ih =>
    obtain ⟨s₁, h₁, hr₁⟩ := run_cons_eq_some.mp hr
    have hrest := ih (hI s l s₁ hs hG.1 h₁) (hkeep s l s₁ hs hG.1 h₁ hc) (hG.2 s₁ h₁) hr₁
    rw [trace_cons_of_step h₁, List.countP_append, hrest]
    cases ho : obs s l with
    | none => rfl
    | some b => simp [hno s l s₁ b hs hG.1 h₁ hc ho]

/-- **What closes the state is shown at most once.** -/
theorem trace_once (hclose : ∀ s l s' b, I s → G s l → step s l = some s' → obs s l = some b →
      p b = true → C s') {s s' : σ} {ls : List L} (hs : I s) (hG : AllSteps step G s ls)
    (hr : run step s ls = some s') : (trace step obs s ls).countP p ≤ 1 := by
  induction ls generalizing s with
  | nil => exact Nat.zero_le 1
  | cons l ls ih =>
    obtain ⟨s₁, h₁, hr₁⟩ := run_cons_eq_some.mp hr
    have hs₁ := hI s l s₁ hs hG.1 h₁
    have hG₁ := hG.2 s₁ h₁
    have hrest := ih hs₁ hG₁ hr₁
    rw [trace_cons_of_step h₁, List.countP_append]
    cases ho : obs s l with
    | none => simpa using hrest
    | some b =>
      cases hb : p b with
      | false => simpa [hb] using hrest
      | true =>
        have hz := trace_of_closed hI hkeep hno hs₁ (hclose s l s₁ b hs hG.1 h₁ ho hb) hG₁ hr₁
        simp [hb, hz]

end Once

/-- The same with a key: what is shown closes its key, which must not be closed yet. -/
theorem trace_once_of_key {κ : Type*} [BEq κ] [LawfulBEq κ] {I : σ → Prop} {G : σ → L → Prop}
    {C : κ → σ → Prop} (key : β → κ) (hI : ∀ s l s', I s → G s l → step s l = some s' → I s')
    (hkeep : ∀ k s l s', I s → G s l → step s l = some s' → C k s → C k s')
    (hclose : ∀ s l s' b, I s → G s l → step s l = some s' → obs s l = some b →
      ¬ C (key b) s ∧ C (key b) s') {s s' : σ} {ls : List L} (hs : I s) (hG : AllSteps step G s ls)
    (hr : run step s ls = some s') (k : κ) : (trace step obs s ls).countP (fun b => key b == k) ≤ 1 := by
  refine trace_once (C := C k) hI (hkeep k) ?_ ?_ hs hG hr
  · intro s l s' b hi hg hl hc hb
    refine beq_eq_false_iff_ne.mpr fun hk => ?_
    exact (hclose s l s' b hi hg hl hb).1 (hk ▸ hc)
  · intro s l s' b hi hg hl hb hk
    exact eq_of_beq hk ▸ (hclose s l s' b hi hg hl hb).2

/-! ### The past -/

/-- The run has come through the state. -/
def Visited (step : σ → L → Option σ) (s₀ : σ) (ls : List L) (s : σ) : Prop :=
  ∃ pre, pre <+: ls ∧ run step s₀ pre = some s

/-- An invariant of the state and of the states there have been. -/
theorem run_past {J : (σ → Prop) → σ → Prop} {s₀ s : σ} {ls : List L} (hinit : ∀ {V : σ → Prop}, V s₀ → J V s₀)
    (hstep : ∀ {V V' : σ → Prop} {s l s'}, (∀ x, V x → V' x) → V s → V' s' → J V s → step s l = some s' → J V' s')
    (hr : run step s₀ ls = some s) : J (Visited step s₀ ls) s := by
  induction ls using List.reverseRecOn generalizing s with
  | nil =>
    cases hr
    exact hinit ⟨[], List.prefix_refl _, rfl⟩
  | append_singleton ls l ih =>
    obtain ⟨s₁, hr₁, hl⟩ := run_append_eq_some.mp hr
    obtain ⟨s', hs, hs'⟩ := run_cons_eq_some.mp hl
    cases hs'
    refine hstep ?_ ⟨ls, List.prefix_refl _, hr₁⟩ ⟨ls ++ [l], List.prefix_refl _, hr⟩ (ih hr₁) hs
    rintro x ⟨pre, hpre, hx⟩
    exact ⟨pre, hpre.trans (List.prefix_append _ _), hx⟩

end Neltrik.Lib.Machine
