import Neltrik.Lib.Paging

/-! # The same page of two tables

Two tables that have the same selected rows may differ in the others, and a cursor may be the id of one
of those: it stands for the place of its row then, and the rows of the page depend on that place.
`remaining` counts the selected rows from the place of a cursor on. `window_eq_iff`: what is read behind
a cursor is the same in both tables exactly when as many rows remain in both, or none but the one that
is skipped. -/

namespace Neltrik.Lib.Paging

open Table

variable {α ι κ : Type*} [LinearOrder κ]

namespace Listing

/-- The number of selected rows from the place of the cursor on. -/
def remaining [DecidableEq ι] (L : Listing α ι κ) (rows : List α) (cursor : ι) : ℕ :=
  match rows.find? (L.id · == cursor) with
  | none => 0
  | some row => rows.countP fun r => L.selects r && decide (L.key r ≤ L.key row)

end Listing

variable {L : Listing α ι κ} {rows rows' : List α}

/-! ## Windows of a list -/

/-- Windows of a list without repetitions are the same when they start at the same place, or behind
the end. -/
theorem take_drop_eq_iff {items : List α} (h : items.Nodup) {n i j : ℕ} (hn : 1 ≤ n) :
    (items.drop i).take n = (items.drop j).take n ↔ i = j ∨ (items.length ≤ i ∧ items.length ≤ j) := by
  have hhead : ∀ k, ((items.drop k).take n).head? = items[k]? := by
    intro k
    rw [List.head?_take, if_neg (by omega), List.head?_drop]
  constructor
  · intro heq
    have hget : items[i]? = items[j]? := by rw [← hhead, ← hhead, heq]
    by_cases hi : i < items.length
    · exact Or.inl ((List.getElem?_inj hi h).mp hget)
    · rw [List.getElem?_eq_none (by omega)] at hget
      have hj : items.length ≤ j := List.getElem?_eq_none_iff.mp hget.symm
      exact Or.inr ⟨by omega, hj⟩
  · rintro (rfl | ⟨hi, hj⟩)
    · rfl
    · rw [List.drop_eq_nil_of_le hi, List.drop_eq_nil_of_le hj]

/-- In descending order, the rows that are not above a key are the last ones. -/
theorem filter_le_eq_drop {items : List α} (h : items.Pairwise fun a b => L.key b < L.key a) (k : κ) :
    (items.filter fun a => decide (L.key a ≤ k)) =
      items.drop (items.length - items.countP fun a => decide (L.key a ≤ k)) := by
  induction items with
  | nil => rfl
  | cons a items ih =>
    obtain ⟨ha, hitems⟩ := List.pairwise_cons.mp h
    by_cases hk : L.key a ≤ k
    · have hall : ∀ b ∈ a :: items, decide (L.key b ≤ k) = true := by
        intro b hb
        rcases List.mem_cons.mp hb with rfl | hb
        · exact decide_eq_true hk
        · exact decide_eq_true ((ha b hb).le.trans hk)
      rw [List.filter_eq_self.mpr hall, List.countP_eq_length.mpr hall, Nat.sub_self, List.drop_zero]
    · have hle : items.countP (fun a => decide (L.key a ≤ k)) ≤ items.length := List.countP_le_length
      have hlen : (a :: items).length - items.countP (fun a => decide (L.key a ≤ k)) =
          items.length - items.countP (fun a => decide (L.key a ≤ k)) + 1 := by
        rw [List.length_cons]
        omega
      rw [List.filter_cons_of_neg (by simpa using hk), List.countP_cons_of_neg (by simpa using hk), hlen,
        List.drop_succ_cons, ih hitems]

/-! ## The order of the selected rows -/

theorem nodup_sorted (hkeys : Keyed L.key rows) : (L.sorted rows).Nodup :=
  (pairwise_sorted hkeys).imp fun h he => absurd (he ▸ h) (lt_irrefl _)

/-- The order of the selected rows does not depend on the others. -/
theorem sorted_eq (hkeys : Keyed L.key rows) (hkeys' : Keyed L.key rows')
    (hsame : ∀ r, L.selects r = true → (r ∈ rows ↔ r ∈ rows')) : L.sorted rows = L.sorted rows' := by
  have hmem : ∀ r, r ∈ L.sorted rows ↔ r ∈ L.sorted rows' := by
    intro r
    rw [mem_sorted, mem_sorted]
    exact and_congr_left fun hr => hsame r hr
  have hperm : List.Perm (L.sorted rows) (L.sorted rows') :=
    (List.perm_ext_iff_of_nodup (nodup_sorted hkeys) (nodup_sorted hkeys')).mpr hmem
  refine hperm.eq_of_pairwise (fun a b _ _ hab hba => ?_) (pairwise_sorted hkeys) (pairwise_sorted hkeys')
  exact absurd hab hba.asymm

section
variable [DecidableEq ι]

theorem remaining_eq_countP {cursor : ι} {row : α} (hrow : rows.find? (L.id · == cursor) = some row) :
    L.remaining rows cursor = (L.sorted rows).countP fun r => decide (L.key r ≤ L.key row) := by
  have hperm : List.Perm (L.sorted rows) (rows.filter L.selects) := List.perm_insertionSort _ _
  unfold Listing.remaining
  rw [hrow, hperm.countP_eq, List.countP_filter]
  refine List.countP_congr fun r _ => ?_
  rw [Bool.and_comm]

theorem remaining_le (L : Listing α ι κ) (rows : List α) (cursor : ι) :
    L.remaining rows cursor ≤ (L.sorted rows).length := by
  rcases hrow : rows.find? (L.id · == cursor) with _ | row
  · unfold Listing.remaining
    rw [hrow]
    exact Nat.zero_le _
  · rw [remaining_eq_countP hrow]
    exact List.countP_le_length

/-- Where the reading starts, counted from the end. -/
theorem startingAt_eq_drop (hkeys : Keyed L.key rows) (cursor : ι) :
    L.startingAt rows (some cursor) =
      (L.sorted rows).drop ((L.sorted rows).length - L.remaining rows cursor) := by
  rcases hrow : rows.find? (L.id · == cursor) with _ | row
  · unfold Listing.startingAt Listing.remaining
    dsimp only
    rw [hrow, Nat.sub_zero, List.drop_length]
  · rw [remaining_eq_countP hrow, ← filter_le_eq_drop (pairwise_sorted hkeys)]
    unfold Listing.startingAt
    dsimp only
    rw [hrow]

/-- **The same window behind a cursor.** -/
theorem window_eq_iff (hkeys : Keyed L.key rows) (hkeys' : Keyed L.key rows')
    (hsame : ∀ r, L.selects r = true → (r ∈ rows ↔ r ∈ rows')) (cursor : ι) {n : ℕ} (hn : 1 ≤ n) :
    ((L.startingAt rows (some cursor)).drop 1).take n = ((L.startingAt rows' (some cursor)).drop 1).take n ↔
      L.remaining rows cursor = L.remaining rows' cursor ∨
        (L.remaining rows cursor ≤ 1 ∧ L.remaining rows' cursor ≤ 1) := by
  have hle := remaining_le L rows cursor
  have hle' := remaining_le L rows' cursor
  rw [startingAt_eq_drop hkeys, startingAt_eq_drop hkeys', ← sorted_eq hkeys hkeys' hsame, List.drop_drop,
    List.drop_drop, take_drop_eq_iff (nodup_sorted hkeys) hn]
  rw [← sorted_eq hkeys hkeys' hsame] at hle'
  constructor
  · rintro (h | ⟨h, h'⟩)
    · exact Or.inl (by omega)
    · exact Or.inr ⟨by omega, by omega⟩
  · rintro (h | ⟨h, h'⟩)
    · exact Or.inl (by omega)
    · exact Or.inr ⟨by omega, by omega⟩

end

end Neltrik.Lib.Paging
