import Neltrik.Lib.Pool
import Neltrik.Lib.Table
import Mathlib.Data.List.Perm.Basic

/-! # Rows that processes own

A process that adds a row and may take it back owns the row until then. `Accounted`: the rows of a
table are those it began with and those the processes own, each as often as it occurs there. An action
keeps it if what it does to the table is what it does to the rows of the process that acts
(`Accounted.set`), so a process that owns nothing has left nothing.
-/

namespace Neltrik.Lib.Pool

open Neltrik.Lib.Table

variable {P α κ : Type*} {owned : P → List α} {rows₀ rows rows' : List α} {procs : List P}

/-- The rows are those of `rows₀` and those the processes own. -/
def Accounted (owned : P → List α) (rows₀ rows : List α) (procs : List P) : Prop :=
  List.Perm rows (rows₀ ++ procs.flatMap owned)

theorem flatMap_set_perm {i : ℕ} {p p' : P} (hp : procs[i]? = some p) (f : P → List α) :
    List.Perm ((procs.set i p').flatMap f ++ f p) (procs.flatMap f ++ f p') := by
  induction procs generalizing i with
  | nil => simp at hp
  | cons q procs ih =>
    cases i with
    | zero =>
      obtain rfl : q = p := by simpa using hp
      simp only [List.set_cons_zero, List.flatMap_cons, List.append_assoc]
      refine List.perm_append_comm.trans ?_
      rw [List.append_assoc]
      exact List.perm_append_comm_assoc _ _ _
    | succ i =>
      have hi : procs[i]? = some p := by simpa using hp
      simp only [List.set_cons_succ, List.flatMap_cons, List.append_assoc]
      exact (ih hi).append_left (f q)

theorem accounted_nil : Accounted owned rows₀ rows₀ ([] : List P) := by
  simp [Accounted]

/-- A process owns nothing when it is started. -/
theorem Accounted.concat {p : P} (h : Accounted owned rows₀ rows procs) (hp : owned p = []) :
    Accounted owned rows₀ rows (procs ++ [p]) := by
  simpa [Accounted, hp] using h

/-- **An action** changes the table as it changes the rows of the process. -/
theorem Accounted.set {i : ℕ} {p p' : P} (h : Accounted owned rows₀ rows procs)
    (hp : procs[i]? = some p) (hrows : List.Perm (rows' ++ owned p) (rows ++ owned p')) :
    Accounted owned rows₀ rows' (procs.set i p') := by
  unfold Accounted at h ⊢
  refine (List.perm_append_right_iff (owned p)).mp ?_
  calc List.Perm (rows' ++ owned p) (rows ++ owned p') := hrows
    List.Perm _ (rows₀ ++ procs.flatMap owned ++ owned p') := h.append_right _
    List.Perm _ (rows₀ ++ (procs.set i p').flatMap owned ++ owned p) := by
      rw [List.append_assoc, List.append_assoc]
      exact ((flatMap_set_perm hp owned).symm).append_left rows₀

theorem Accounted.mem {p : P} {a : α} (h : Accounted owned rows₀ rows procs) (hp : p ∈ procs)
    (ha : a ∈ owned p) : a ∈ rows :=
  h.mem_iff.mpr (List.mem_append_right _ (List.mem_flatMap.mpr ⟨p, hp, ha⟩))

/-- Two processes own rows with different keys. -/
theorem Accounted.key_ne {key : α → κ} {i j : ℕ} {p q : P} {a b : α}
    (h : Accounted owned rows₀ rows procs) (hk : Keyed key rows) (hij : i ≠ j)
    (hp : procs[i]? = some p) (hq : procs[j]? = some q) (ha : a ∈ owned p) (hb : b ∈ owned q) :
    key a ≠ key b := by
  have hall : (((procs.flatMap owned).map key)).Nodup := by
    have hnodup := (h.map key).nodup_iff.mp hk
    rw [List.map_append] at hnodup
    exact hnodup.of_append_right
  rw [List.map_flatMap, List.nodup_flatMap, List.pairwise_iff_getElem] at hall
  obtain ⟨hi, hpi⟩ := List.getElem?_eq_some_iff.mp hp
  obtain ⟨hj, hqj⟩ := List.getElem?_eq_some_iff.mp hq
  have hak : key a ∈ (owned procs[i]).map key := by rw [hpi]; exact List.mem_map_of_mem ha
  have hbk : key b ∈ (owned procs[j]).map key := by rw [hqj]; exact List.mem_map_of_mem hb
  intro he
  rcases Nat.lt_or_gt_of_ne hij with hlt | hlt
  · exact hall.2 i j hi hj hlt hak (he ▸ hbk)
  · exact hall.2 j i hj hi hlt hbk (he ▸ hak)

end Neltrik.Lib.Pool
