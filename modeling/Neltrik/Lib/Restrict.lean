import Neltrik.Lib.Table
import Mathlib.Data.List.AList
import Mathlib.Logic.Function.Basic

/-! # Restricting tables, functions and maps

What is left when only the rows, the arguments or the keys are kept that meet a condition. A change of a
kept entry is the same change of the restriction, a change of another one leaves the restriction as it is. -/

namespace Neltrik.Lib.Restrict

open Table

variable {α κ β : Type*}

/-! ### Rows -/

section Rows
variable {p q : α → Bool} {g : α → α} {rows : List α}

/-- Rows that stay on their side when they are written. -/
theorem filter_updateWhere_of_same (h : ∀ r ∈ rows, p r = true → q (g r) = q r) :
    (updateWhere p g rows).filter q = updateWhere p g (rows.filter q) := by
  induction rows with
  | nil => rfl
  | cons r rows ih =>
    have hrows := ih fun r' hr' => h r' (List.mem_cons_of_mem r hr')
    have hr : q (if p r then g r else r) = q r := by
      split_ifs with hp
      · exact h r List.mem_cons_self hp
      · rfl
    have hcons : updateWhere p g (r :: rows) = (if p r then g r else r) :: updateWhere p g rows := rfl
    rw [hcons, List.filter_cons, List.filter_cons, hr, hrows]
    by_cases hq : q r = true
    · rw [if_pos hq, if_pos hq]
      rfl
    · rw [if_neg hq, if_neg hq]

theorem find?_filter_of_imp (h : ∀ r ∈ rows, p r = true → q r = true) :
    (rows.filter q).find? p = rows.find? p := by
  induction rows with
  | nil => rfl
  | cons r rows ih =>
    have hrows := ih fun r' hr' => h r' (List.mem_cons_of_mem r hr')
    by_cases hp : p r = true
    · rw [List.filter_cons_of_pos (h r List.mem_cons_self hp), List.find?_cons_of_pos hp, List.find?_cons_of_pos hp]
    · rw [List.find?_cons_of_neg hp, List.filter_cons]
      split_ifs with hq
      · rw [List.find?_cons_of_neg hp, hrows]
      · exact hrows

theorem any_filter_of_imp (h : ∀ r ∈ rows, p r = true → q r = true) : (rows.filter q).any p = rows.any p := by
  rw [Bool.eq_iff_iff, List.any_eq_true, List.any_eq_true]
  constructor
  · rintro ⟨r, hr, hp⟩
    exact ⟨r, (List.mem_filter.mp hr).1, hp⟩
  · rintro ⟨r, hr, hp⟩
    exact ⟨r, List.mem_filter.mpr ⟨hr, h r hr hp⟩, hp⟩

end Rows

/-! ### Arguments -/

/-- `d` where `p` does not hold. -/
def keep (p : κ → Prop) [DecidablePred p] (d : β) (f : κ → β) : κ → β := fun k => if p k then f k else d

section Keep
variable {p : κ → Prop} [DecidablePred p] {d : β} {f : κ → β} {k : κ}

theorem keep_of_pos (hk : p k) : keep p d f k = f k := if_pos hk

theorem keep_update [DecidableEq κ] (hk : p k) (x : β) :
    keep p d (Function.update f k x) = Function.update (keep p d f) k x := by
  funext k'
  by_cases he : k' = k
  · rw [he, keep_of_pos hk, Function.update_self, Function.update_self]
  · unfold keep
    rw [Function.update_of_ne he, Function.update_of_ne he]

theorem keep_update_of_not [DecidableEq κ] (hk : ¬ p k) (x : β) :
    keep p d (Function.update f k x) = keep p d f := by
  funext k'
  unfold keep
  split_ifs with hk'
  · have hne : k' ≠ k := by
      rintro rfl
      exact hk hk'
    rw [Function.update_of_ne hne]
  · rfl

end Keep

/-! ### Keys -/

section Keys
variable {p : κ → Bool} {k : κ}

/-- The entries whose keys meet a condition. -/
def restrict (p : κ → Bool) (m : AList fun _ : κ => β) : AList fun _ : κ => β where
  entries := m.entries.filter fun e => p e.1
  nodupKeys := List.NodupKeys.sublist List.filter_sublist m.nodupKeys

theorem keys_restrict (m : AList fun _ : κ => β) : (restrict p m).keys = m.keys.filter p := by
  unfold restrict AList.keys List.keys
  rw [List.filter_map]
  rfl

variable [DecidableEq κ]

theorem dlookup_filter (hk : p k = true) (l : List (Sigma fun _ : κ => β)) :
    (l.filter fun e => p e.1).dlookup k = l.dlookup k := by
  induction l with
  | nil => rfl
  | cons e l ih =>
    by_cases he : k = e.1
    · obtain ⟨k', b⟩ := e
      cases he
      rw [List.filter_cons, if_pos hk, List.dlookup_cons_eq, List.dlookup_cons_eq]
    · rw [List.dlookup_cons_ne _ _ he, List.filter_cons]
      split_ifs
      · rw [List.dlookup_cons_ne _ _ he, ih]
      · exact ih

theorem kerase_filter (l : List (Sigma fun _ : κ => β)) :
    (l.kerase k).filter (fun e => p e.1) = (l.filter fun e => p e.1).kerase k := by
  induction l with
  | nil => rfl
  | cons e l ih =>
    by_cases he : k = e.1
    · rw [List.kerase_cons_eq he, List.filter_cons]
      split_ifs with hp
      · rw [List.kerase_cons_eq he]
      · refine (List.kerase_of_notMem_keys fun hm => ?_).symm
        obtain ⟨b, hb⟩ := List.exists_of_mem_keys hm
        have hpk : p k = true := (List.mem_filter.mp hb).2
        exact hp (he ▸ hpk)
    · rw [List.kerase_cons_ne he, List.filter_cons, List.filter_cons]
      split_ifs
      · rw [List.kerase_cons_ne he, ih]
      · exact ih

theorem lookup_restrict (hk : p k = true) (m : AList fun _ : κ => β) : (restrict p m).lookup k = m.lookup k :=
  dlookup_filter hk m.entries

theorem restrict_erase (m : AList fun _ : κ => β) : restrict p (m.erase k) = (restrict p m).erase k :=
  AList.ext (kerase_filter m.entries)

theorem restrict_insert (hk : p k = true) (b : β) (m : AList fun _ : κ => β) :
    restrict p (m.insert k b) = (restrict p m).insert k b := by
  refine AList.ext ?_
  rw [AList.entries_insert]
  unfold restrict
  dsimp only
  rw [AList.entries_insert, List.filter_cons, if_pos hk, kerase_filter]

theorem restrict_erase_of_not (hk : p k = false) (m : AList fun _ : κ => β) :
    restrict p (m.erase k) = restrict p m := by
  rw [restrict_erase]
  refine AList.ext (List.kerase_of_notMem_keys fun hm => ?_)
  obtain ⟨b, hb⟩ := List.exists_of_mem_keys hm
  have hpk : p k = true := (List.mem_filter.mp hb).2
  rw [hk] at hpk
  cases hpk

theorem restrict_insert_of_not (hk : p k = false) (b : β) (m : AList fun _ : κ => β) :
    restrict p (m.insert k b) = restrict p m := by
  refine AList.ext ?_
  have herase := congrArg AList.entries (restrict_erase_of_not hk m)
  have hfilter : (restrict p (m.insert k b)).entries = (restrict p (m.erase k)).entries := by
    unfold restrict
    dsimp only
    rw [AList.entries_insert, List.filter_cons, if_neg (by simp [hk])]
    rfl
  rw [hfilter, herase]

end Keys

end Neltrik.Lib.Restrict
