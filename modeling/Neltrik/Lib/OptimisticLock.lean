import Neltrik.Lib.Table

/-! # Optimistic locking

Rows have a key and a version. A process reads a row, changes its copy in memory and writes the
changed copy back where the key and the version are still those it read. `write` is that conditional
update.

A copy is *behind* the table if the row of its key is the copy itself or a later state of it, by a
relation `R` that every write of the system goes along. `Behind.write` keeps this for every copy any
process holds, and `Behind.eq_of_matching` is what the lock is for: a write that finds its row
finds the row the copy was read from.
-/

namespace Neltrik.Lib.OptimisticLock

open Neltrik.Lib.Table

variable {α κ : Type*} (key : α → κ) (ver : α → ℕ)

/-- The row of the key of `c` is `c` or came after it. -/
def Behind (R : α → α → Prop) (rows : List α) (c : α) : Prop :=
  ∃ r ∈ rows, key r = key c ∧ (r = c ∨ R c r)

section Behind
variable {key ver} {R : α → α → Prop} {rows : List α} {c : α}

theorem behind_of_mem (h : c ∈ rows) : Behind key R rows c := ⟨c, h, rfl, Or.inl rfl⟩

theorem Behind.of_subset {rows' : List α} (h : Behind key R rows c) (hs : rows ⊆ rows') :
    Behind key R rows' c := by
  obtain ⟨r, hr, h⟩ := h
  exact ⟨r, hs hr, h⟩

/-- **A write that finds its row finds the row that was read.** -/
theorem Behind.eq_of_matching (hR : ∀ c r, R c r → ver c < ver r) (hu : Keyed key rows)
    (h : Behind key R rows c) {r : α} (hr : r ∈ rows) (hm : key r = key c ∧ ver r = ver c) : r = c := by
  obtain ⟨r', hr', hk, h⟩ := h
  have he : r' = r := hu.eq_of_key_eq hr' hr (hk.trans hm.1.symm)
  subst he
  rcases h with h | h
  · exact h
  · have := hR c r' h
    omega

end Behind

/-! ### The conditional update -/

variable [DecidableEq κ]

/-- The row has the key and the version of the copy. -/
def matching (c r : α) : Bool := key r == key c && ver r == ver c

/-- The rows that match the copy become `new`. -/
def write (rows : List α) (c new : α) : List α := updateWhere (matching key ver c) (fun _ => new) rows

variable {key ver}

theorem matching_iff {c r : α} : matching key ver c r = true ↔ key r = key c ∧ ver r = ver c := by
  simp [matching]

theorem mem_write {rows : List α} {c new r : α} (hm : ∃ r ∈ rows, matching key ver c r = true) :
    r ∈ write key ver rows c new ↔ r = new ∨ (r ∈ rows ∧ matching key ver c r = false) := by
  rw [write, mem_updateWhere]
  constructor
  · rintro (⟨-, -, -, rfl⟩ | h)
    · exact Or.inl rfl
    · exact Or.inr h
  · rintro (rfl | h)
    · obtain ⟨r, hr, hc⟩ := hm
      exact Or.inl ⟨r, hr, hc, rfl⟩
    · exact Or.inr h

theorem keyed_write {rows : List α} {c new : α} (h : Keyed key rows) (hk : key new = key c) :
    Keyed key (write key ver rows c new) :=
  h.updateWhere fun _ _ hc => hk.trans (matching_iff.mp hc).1.symm

theorem write_congr {rows : List α} {c c' new : α} (hk : key c = key c') (hv : ver c = ver c') :
    write key ver rows c new = write key ver rows c' new := by
  unfold write matching
  rw [hk, hv]

/-- A write of the row itself replaces that row. -/
theorem write_of_mem [DecidableEq α] {rows : List α} {c new : α} (h : Keyed key rows) (hc : c ∈ rows) :
    write key ver rows c new = rows.map fun r => if r = c then new else r := by
  refine List.map_congr_left fun r hr => ?_
  by_cases he : r = c
  · rw [if_pos he, if_pos (matching_iff.mpr (he ▸ ⟨rfl, rfl⟩))]
  · rw [if_neg he, if_neg fun hm => he (h.eq_of_key_eq hr hc (matching_iff.mp hm).1)]

/-- The rows of other keys are still there after a write. -/
theorem subset_write {rows cs : List α} {c new : α} (hcs : ∀ r ∈ cs, key r ≠ key c) (hsub : cs ⊆ rows) :
    cs ⊆ write key ver rows c new := fun r hr =>
  mem_updateWhere.mpr (Or.inr ⟨hsub hr, by
    rw [← Bool.not_eq_true, matching_iff]
    exact fun hm => hcs r hr hm.1⟩)

/-- **Rows that are written one after the other** are each replaced once, the others stay. -/
theorem foldl_write [DecidableEq α] {rows : List α} {g : α → α} (h : Keyed key rows)
    (hg : ∀ r, key (g r) = key r) {cs : List α} (hcs : Keyed key cs) (hsub : cs ⊆ rows) :
    cs.foldl (fun rows c => write key ver rows c (g c)) rows = rows.map fun r => if r ∈ cs then g r else r := by
  induction cs generalizing rows with
  | nil => simp
  | cons c cs ih =>
    obtain ⟨hc, hcs'⟩ := List.nodup_cons.mp (show ((c :: cs).map key).Nodup from hcs)
    have hnot : ∀ r ∈ cs, key r ≠ key c := fun r hr hk => hc (hk ▸ List.mem_map_of_mem hr)
    have hmem : c ∈ rows := hsub List.mem_cons_self
    have hsub' : cs ⊆ write key ver rows c (g c) :=
      subset_write hnot (List.Subset.trans (List.subset_cons_self c cs) hsub)
    rw [List.foldl_cons, ih (keyed_write h (hg c)) hcs' hsub', write_of_mem h hmem, List.map_map]
    refine List.map_congr_left fun r _ => ?_
    rw [Function.comp_apply]
    by_cases he : r = c
    · rw [if_pos he, if_neg (fun hr => hnot (g c) hr (hg c)), he, if_pos List.mem_cons_self]
    · rw [if_neg he]
      simp only [List.mem_cons, he, false_or]

/-- **Writes keep every copy behind**, when they go along `R`. -/
theorem Behind.write {R : α → α → Prop} {rows : List α} {c new c' : α}
    (hR : ∀ a b c, R a b → R b c → R a c) (hk : key new = key c)
    (hnew : ∀ r ∈ rows, matching key ver c r = true → R r new) (h : Behind key R rows c') :
    Behind key R (write key ver rows c new) c' := by
  obtain ⟨r, hr, hkr, h⟩ := h
  by_cases hm : matching key ver c r = true
  · refine ⟨new, mem_updateWhere.mpr (Or.inl ⟨r, hr, hm, rfl⟩), ?_, Or.inr ?_⟩
    · exact hk.trans ((matching_iff.mp hm).1.symm.trans hkr)
    · rcases h with rfl | h
      · exact hnew _ hr hm
      · exact hR _ _ _ h (hnew r hr hm)
  · exact ⟨r, mem_updateWhere.mpr (Or.inr ⟨hr, by simpa using hm⟩), hkr, h⟩

end Neltrik.Lib.OptimisticLock
