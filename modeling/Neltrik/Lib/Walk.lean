import Mathlib.Data.List.Basic
import Mathlib.Data.Nat.Notation
import Mathlib.Logic.Relation

/-! # Walking a graph with a stack

A walk goes depth first through the children of a node, in their order, and stops at the first bad node. It
marks nothing, so it goes round a cycle until the stack is used up; `walk k` is the walk with a stack of `k`
frames. Once it ends in another way a deeper stack changes nothing (`walk_mono`).

* `Clean`, `walk_done_iff`: it gets through exactly when no path is endless and no node below is bad;
* `Meets`, `walk_found_iff`: it comes to a bad node exactly when there is one such that no path is endless
  below the nodes that come before it on the way.
-/

namespace Neltrik.Lib.Walk

variable {V : Type*}

/-- How a walk ends. -/
inductive Outcome where
  | done
  | found
  | overflow
  deriving DecidableEq

/-- One after the other, up to the first that does not get through. -/
def walkAll (f : V → Outcome) : List V → Outcome
  | [] => .done
  | v :: vs =>
    match f v with
    | .done => walkAll f vs
    | o => o

variable (bad : V → Bool) (children : V → List V)

/-- Depth first, with so much stack. -/
def walk : ℕ → V → Outcome
  | 0, _ => .overflow
  | k + 1, v => if bad v then .found else walkAll (walk k) (children v)

/-- `w` is a child of `v`. -/
def Below (w v : V) : Prop := w ∈ children v

/-- Nothing bad is below, and no path is endless. -/
inductive Clean : V → Prop
  | intro {v : V} (hv : bad v = false) (h : ∀ w ∈ children v, Clean w) : Clean v

/-- A bad node is met before the walk gets lost. -/
inductive Meets : V → Prop
  | here {v : V} (hv : bad v = true) : Meets v
  | under {v w : V} {before after : List V} (hv : children v = before ++ w :: after)
      (hbefore : ∀ u ∈ before, Acc (Below children) u) (hw : Meets w) : Meets v

variable {bad children}

section All
variable {f g : V → Outcome} {vs : List V}

theorem walkAll_done_iff : walkAll f vs = .done ↔ ∀ v ∈ vs, f v = .done := by
  induction vs with
  | nil => simp [walkAll]
  | cons v vs ih =>
    rw [walkAll, List.forall_mem_cons, ← ih]
    cases hv : f v <;> simp

/-- Who stops the walk has all before it done. -/
theorem walkAll_eq_iff {o : Outcome} (ho : o ≠ .done) : walkAll f vs = o ↔
    ∃ before v after, vs = before ++ v :: after ∧ (∀ u ∈ before, f u = .done) ∧ f v = o := by
  induction vs with
  | nil =>
    refine ⟨fun h => absurd h.symm ho, ?_⟩
    rintro ⟨before, v, after, h, -⟩
    cases before <;> cases h
  | cons v vs ih =>
    constructor
    · intro h
      by_cases hv : f v = .done
      · rw [walkAll, hv] at h
        obtain ⟨before, w, after, rfl, hbefore, hw⟩ := ih.mp h
        exact ⟨v :: before, w, after, rfl, List.forall_mem_cons.mpr ⟨hv, hbefore⟩, hw⟩
      · refine ⟨[], v, vs, rfl, nofun, ?_⟩
        rw [← h, walkAll]
        cases hfv : f v with
        | done => exact absurd hfv hv
        | found | overflow => rfl
    · rintro ⟨before, w, after, heq, hbefore, hw⟩
      cases before with
      | nil =>
        obtain ⟨rfl, -⟩ := List.cons.inj heq
        rw [walkAll, hw]
        cases o with
        | done => exact absurd rfl ho
        | found | overflow => rfl
      | cons u before =>
        obtain ⟨rfl, rfl⟩ := List.cons.inj heq
        obtain ⟨hu, hbefore⟩ := List.forall_mem_cons.mp hbefore
        rw [walkAll, hu]
        exact ih.mpr ⟨before, w, after, rfl, hbefore, hw⟩

/-- The walk stops at the latest where something is found. -/
theorem walkAll_of_found {before after : List V} {v : V} (hbefore : ∀ u ∈ before, f u ≠ .overflow)
    (hv : f v = .found) : walkAll f (before ++ v :: after) = .found := by
  induction before with
  | nil => rw [List.nil_append, walkAll, hv]
  | cons u before ih =>
    obtain ⟨hu, hbefore⟩ := List.forall_mem_cons.mp hbefore
    rw [List.cons_append, walkAll]
    cases hfu : f u with
    | done => exact ih hbefore
    | found => rfl
    | overflow => exact absurd hfu hu

theorem walkAll_ne_overflow (h : ∀ v ∈ vs, f v ≠ .overflow) : walkAll f vs ≠ .overflow := by
  intro ho
  obtain ⟨before, v, after, rfl, -, hv⟩ := (walkAll_eq_iff (o := .overflow) nofun).mp ho
  exact h v (List.mem_append_right _ List.mem_cons_self) hv

/-- What is settled for `f` is the same for `g`. -/
theorem walkAll_mono (hfg : ∀ v ∈ vs, f v ≠ .overflow → g v = f v) (h : walkAll f vs ≠ .overflow) :
    walkAll g vs = walkAll f vs := by
  induction vs with
  | nil => rfl
  | cons v vs ih =>
    obtain ⟨hv, hvs⟩ := List.forall_mem_cons.mp hfg
    rw [walkAll] at h ⊢
    rw [walkAll]
    cases hfv : f v with
    | done =>
      rw [hfv] at h
      rw [hv (by rw [hfv]; exact nofun), hfv]
      exact ih hvs h
    | found => rw [hv (by rw [hfv]; exact nofun), hfv]
    | overflow =>
      rw [hfv] at h
      exact absurd rfl h

end All

theorem walk_succ (k : ℕ) (v : V) :
    walk bad children (k + 1) v = if bad v then .found else walkAll (walk bad children k) (children v) := rfl

theorem walk_mono_succ {k : ℕ} {v : V} (h : walk bad children k v ≠ .overflow) :
    walk bad children (k + 1) v = walk bad children k v := by
  induction k generalizing v with
  | zero => exact absurd rfl h
  | succ k ih =>
    rw [walk_succ] at h
    rw [walk_succ, walk_succ]
    by_cases hv : bad v = true
    · rw [if_pos hv, if_pos hv]
    · rw [if_neg hv] at h
      rw [if_neg hv, if_neg hv]
      exact walkAll_mono (fun w _ hw => ih hw) h

/-- **A deeper stack does not change an end.** -/
theorem walk_mono {k k' : ℕ} {v : V} (hk : k ≤ k') (h : walk bad children k v ≠ .overflow) :
    walk bad children k' v = walk bad children k v := by
  induction hk with
  | refl => rfl
  | step _ ih => rw [walk_mono_succ (by rw [ih]; exact h), ih]

/-- Two walks that end end alike. -/
theorem walk_unique {k k' : ℕ} {v : V} (h : walk bad children k v ≠ .overflow)
    (h' : walk bad children k' v ≠ .overflow) : walk bad children k v = walk bad children k' v := by
  rw [← walk_mono (Nat.le_max_left k k') h, walk_mono (Nat.le_max_right k k') h']

/-- A stack for all of them. -/
theorem exists_stack {vs : List V} (h : ∀ v ∈ vs, ∃ k, walk bad children k v ≠ .overflow) :
    ∃ k, ∀ v ∈ vs, walk bad children k v ≠ .overflow := by
  induction vs with
  | nil => exact ⟨0, nofun⟩
  | cons v vs ih =>
    obtain ⟨⟨k, hk⟩, hrest⟩ := List.forall_mem_cons.mp h
    obtain ⟨k', hk'⟩ := ih hrest
    refine ⟨max k k', List.forall_mem_cons.mpr ⟨?_, fun u hu => ?_⟩⟩
    · rw [walk_mono (Nat.le_max_left k k') hk]
      exact hk
    · rw [walk_mono (Nat.le_max_right k k') (hk' u hu)]
      exact hk' u hu

theorem Clean.acc {v : V} (h : Clean bad children v) : Acc (Below children) v := by
  induction h with
  | intro _ _ ih => exact ⟨_, ih⟩

theorem Clean.of_walk {k : ℕ} {v : V} (h : walk bad children k v = .done) : Clean bad children v := by
  induction k generalizing v with
  | zero => cases h
  | succ k ih =>
    rw [walk_succ] at h
    by_cases hv : bad v = true
    · rw [if_pos hv] at h
      cases h
    · rw [if_neg hv] at h
      exact .intro (Bool.eq_false_iff.mpr hv) fun w hw => ih (walkAll_done_iff.mp h w hw)

/-- Where no path is endless the walk ends. -/
theorem exists_walk_ne_overflow {v : V} (h : Acc (Below children) v) :
    ∃ k, walk bad children k v ≠ .overflow := by
  induction h with
  | intro v _ ih =>
    obtain ⟨k, hk⟩ := exists_stack ih
    refine ⟨k + 1, ?_⟩
    rw [walk_succ]
    by_cases hv : bad v = true
    · rw [if_pos hv]
      exact nofun
    · rw [if_neg hv]
      exact walkAll_ne_overflow hk

/-- Where no path is endless none comes back. -/
theorem not_below_self {v : V} (h : Acc (Below children) v) : ¬ Relation.TransGen (Below children) v v := by
  have h' := h.transGen
  induction h' with
  | intro v _ ih => exact fun hv => ih v hv h hv

/-- **When the walk gets through.** -/
theorem walk_done_iff {v : V} : (∃ k, walk bad children k v = .done) ↔ Clean bad children v := by
  refine ⟨fun ⟨_, h⟩ => .of_walk h, fun h => ?_⟩
  induction h with
  | @intro v hv _ ih =>
    have hne : ∀ w ∈ children v, ∃ k, walk bad children k w ≠ .overflow := by
      intro w hw
      obtain ⟨k, hk⟩ := ih w hw
      exact ⟨k, by rw [hk]; exact nofun⟩
    obtain ⟨k, hall⟩ := exists_stack hne
    refine ⟨k + 1, ?_⟩
    rw [walk_succ, hv]
    refine walkAll_done_iff.mpr fun w hw => ?_
    obtain ⟨k', hk'⟩ := ih w hw
    rw [walk_unique (hall w hw) (by rw [hk']; exact nofun), hk']

theorem Meets.of_walk {k : ℕ} {v : V} (h : walk bad children k v = .found) : Meets bad children v := by
  induction k generalizing v with
  | zero => cases h
  | succ k ih =>
    rw [walk_succ] at h
    by_cases hv : bad v = true
    · exact .here hv
    · rw [if_neg hv] at h
      obtain ⟨before, w, after, hchildren, hbefore, hw⟩ :=
        (walkAll_eq_iff (o := .found) nofun).mp h
      exact .under hchildren (fun u hu => (Clean.of_walk (hbefore u hu)).acc) (ih hw)

/-- **When the walk comes to a bad node.** -/
theorem walk_found_iff {v : V} : (∃ k, walk bad children k v = .found) ↔ Meets bad children v := by
  refine ⟨fun ⟨_, h⟩ => .of_walk h, fun h => ?_⟩
  induction h with
  | here hv => exact ⟨1, if_pos hv⟩
  | @under v w before after hchildren hbefore _ ih =>
    obtain ⟨k, hk⟩ := ih
    obtain ⟨k', hk'⟩ := exists_stack fun u hu => exists_walk_ne_overflow (hbefore u hu)
    refine ⟨max k k' + 1, ?_⟩
    rw [walk_succ]
    by_cases hv : bad v = true
    · exact if_pos hv
    · rw [if_neg hv, hchildren]
      refine walkAll_of_found (fun u hu => ?_) ?_
      · rw [walk_mono (Nat.le_max_right k k') (hk' u hu)]
        exact hk' u hu
      · rw [walk_mono (Nat.le_max_left k k') (by rw [hk]; exact nofun), hk]

end Neltrik.Lib.Walk
