import Mathlib.Data.List.Basic

/-! # Pools: interleaved processes

The processes of a system are the list of their local states, a process is known by its index: a new
one is appended, a step replaces one. What holds of each process alone is a statement about the
members of the list; what holds of any two of them is `Apart`. Its rules: the empty pool, a new
process, a step of one process.
-/

namespace Neltrik.Lib.Pool

variable {P : Type*}

/-- Any two processes of the pool are related by `R`. -/
def Apart (R : P → P → Prop) (procs : List P) : Prop :=
  ∀ (i j : ℕ) p q, i ≠ j → procs[i]? = some p → procs[j]? = some q → R p q

/-! ### Each process alone -/

theorem forall_mem_concat {Φ : P → Prop} {procs : List P} {p' : P}
    (h : ∀ p ∈ procs, Φ p) (hp' : Φ p') : ∀ p ∈ procs ++ [p'], Φ p := by
  intro p hp
  rcases List.mem_append.mp hp with hp | hp
  · exact h p hp
  · rw [List.mem_singleton] at hp; exact hp ▸ hp'

/-! ### Two processes -/

theorem getElem?_set_cases {procs : List P} {i j : ℕ} {p' q : P}
    (h : (procs.set i p')[j]? = some q) : (j = i ∧ q = p') ∨ (j ≠ i ∧ procs[j]? = some q) := by
  by_cases hj : j = i
  · left
    subst hj
    rw [List.getElem?_set_self'] at h
    cases hq : procs[j]? with
    | none => rw [hq] at h; cases h
    | some p => rw [hq] at h; cases h; exact ⟨rfl, rfl⟩
  · right
    rw [List.getElem?_set_ne (Ne.symm hj)] at h
    exact ⟨hj, h⟩

theorem getElem?_concat_cases {procs : List P} {j : ℕ} {p' q : P}
    (h : (procs ++ [p'])[j]? = some q) :
    (j = procs.length ∧ q = p') ∨ (j ≠ procs.length ∧ procs[j]? = some q) := by
  rw [List.getElem?_append] at h
  split_ifs at h with hj
  · exact Or.inr ⟨by omega, h⟩
  · left
    obtain ⟨hlt, hq⟩ := List.getElem?_eq_some_iff.mp h
    have hj' : j - procs.length = 0 := by simpa using hlt
    refine ⟨by omega, ?_⟩
    simpa [hj'] using hq.symm

theorem mem_of_getElem? {procs : List P} {i : ℕ} {p : P} (h : procs[i]? = some p) : p ∈ procs :=
  List.mem_of_getElem? h

/-- The other processes stay. -/
theorem mem_set_of_ne {procs : List P} {i : ℕ} {p p' q : P} (hp : procs[i]? = some p) (hq : q ∈ procs)
    (hne : q ≠ p) : q ∈ procs.set i p' := by
  obtain ⟨j, hj⟩ := List.getElem?_of_mem hq
  have hij : i ≠ j := by
    rintro rfl
    rw [hp] at hj
    exact hne (Option.some.inj hj).symm
  exact mem_of_getElem? (by rw [List.getElem?_set_ne hij]; exact hj)

section Apart
variable {R : P → P → Prop} {procs : List P}

@[simp] theorem apart_nil : Apart R ([] : List P) := by
  intro i j p q _ hp
  simp at hp

/-- **A step of one process.** The new state needs to be related to the other processes only. -/
theorem Apart.set {i : ℕ} {p' : P} (h : Apart R procs) (hR : ∀ p q, R p q → R q p)
    (hp' : ∀ j q, j ≠ i → procs[j]? = some q → R p' q) : Apart R (procs.set i p') := by
  intro j k p q hjk hp hq
  rcases getElem?_set_cases hp with ⟨rfl, rfl⟩ | ⟨hj, hp₁⟩
  · rcases getElem?_set_cases hq with ⟨hk, -⟩ | ⟨hk, hq₁⟩
    · exact absurd hk.symm hjk
    · exact hp' k q hk hq₁
  · rcases getElem?_set_cases hq with ⟨-, rfl⟩ | ⟨hk, hq₁⟩
    · exact hR _ _ (hp' j p hj hp₁)
    · exact h j k p q hjk hp₁ hq₁

/-- **A new process** needs to be related to those that are there. -/
theorem Apart.concat {p' : P} (h : Apart R procs) (hR : ∀ p q, R p q → R q p)
    (hp' : ∀ q ∈ procs, R p' q) : Apart R (procs ++ [p']) := by
  intro j k p q hjk hp hq
  rcases getElem?_concat_cases hp with ⟨rfl, rfl⟩ | ⟨hj, hp₁⟩
  · rcases getElem?_concat_cases hq with ⟨hk, -⟩ | ⟨hk, hq₁⟩
    · exact absurd hk.symm hjk
    · exact hp' q (mem_of_getElem? hq₁)
  · rcases getElem?_concat_cases hq with ⟨-, rfl⟩ | ⟨hk, hq₁⟩
    · exact hR _ _ (hp' p (mem_of_getElem? hp₁))
    · exact h j k p q hjk hp₁ hq₁

end Apart

end Neltrik.Lib.Pool
