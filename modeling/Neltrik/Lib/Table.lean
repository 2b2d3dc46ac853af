import Mathlib.Algebra.BigOperators.Group.List.Basic
import Mathlib.Data.List.Nodup
import Mathlib.Tactic.Abel
import Mathlib.Tactic.SplitIfs

/-! # Tables: lists of rows with a key

A table is the list of its rows, a key of a row is a function of it, and `Keyed` says that no two
rows have the same key; a `KeyedTable` cannot be built otherwise. `updateWhere` is the conditional
update of a database: the rows that meet the condition are replaced, the others stay. Its rules:
membership, the keys, the rows of one key and the sum of a measure over the table.
-/

namespace Neltrik.Lib.Table

variable {α κ : Type*}

/-- The rows that meet `p` become `g` of themselves, the others stay. -/
def updateWhere (p : α → Bool) (g : α → α) (rows : List α) : List α :=
  rows.map fun r => if p r then g r else r

/-- No two rows have the same key. -/
def Keyed (key : α → κ) (rows : List α) : Prop := (rows.map key).Nodup

instance [DecidableEq κ] (key : α → κ) (rows : List α) : Decidable (Keyed key rows) :=
  inferInstanceAs (Decidable (rows.map key).Nodup)

theorem mem_updateWhere {p : α → Bool} {g : α → α} {rows : List α} {r : α} :
    r ∈ updateWhere p g rows ↔ (∃ r₀ ∈ rows, p r₀ = true ∧ r = g r₀) ∨ (r ∈ rows ∧ p r = false) := by
  simp only [updateWhere, List.mem_map]
  constructor
  · rintro ⟨r₀, h₀, rfl⟩
    cases hp : p r₀ with
    | true => exact Or.inl ⟨r₀, h₀, hp, by simp⟩
    | false => exact Or.inr ⟨by simpa using h₀, by simpa using hp⟩
  · rintro (⟨r₀, h₀, hp, rfl⟩ | ⟨hr, hp⟩)
    · exact ⟨r₀, h₀, by simp [hp]⟩
    · exact ⟨r, hr, by simp [hp]⟩

theorem updateWhere_of_forall_false {p : α → Bool} {g : α → α} {rows : List α}
    (h : ∀ r ∈ rows, p r = false) : updateWhere p g rows = rows := by
  refine (List.map_congr_left fun r hr => ?_).trans (List.map_id rows)
  simp [h r hr]

theorem countP_updateWhere {p q : α → Bool} {g : α → α} {rows : List α} :
    (updateWhere p g rows).countP q = rows.countP fun r => q (if p r then g r else r) :=
  List.countP_map

/-- Rows that are not listed, before or after, are written unseen. -/
theorem filter_updateWhere {p q : α → Bool} {g : α → α} {rows : List α}
    (h : ∀ r ∈ rows, p r = true → q r = false ∧ q (g r) = false) :
    (updateWhere p g rows).filter q = rows.filter q := by
  induction rows with
  | nil => rfl
  | cons r rows ih =>
    have hcons : updateWhere p g (r :: rows) = (if p r then g r else r) :: updateWhere p g rows := rfl
    have hrows := ih fun r' hr' => h r' (List.mem_cons_of_mem r hr')
    rw [hcons]
    by_cases hp : p r = true
    · obtain ⟨hq, hq'⟩ := h r List.mem_cons_self hp
      rw [if_pos hp, List.filter_cons_of_neg (by simp [hq']), List.filter_cons_of_neg (by simp [hq]), hrows]
    · rw [if_neg hp, List.filter_cons, List.filter_cons, hrows]

/-- After the rows that meet `p` have become one that meets it, that one is found. -/
theorem find?_updateWhere {p : α → Bool} {new : α} {rows : List α} (hnew : p new = true)
    (h : ∃ r ∈ rows, p r = true) : (updateWhere p (fun _ => new) rows).find? p = some new := by
  induction rows with
  | nil =>
    obtain ⟨r, hr, -⟩ := h
    exact absurd hr List.not_mem_nil
  | cons r rows ih =>
    have hcons : updateWhere p (fun _ => new) (r :: rows) =
        (if p r then new else r) :: updateWhere p (fun _ => new) rows := rfl
    rw [hcons]
    by_cases hr : p r = true
    · rw [if_pos hr, List.find?_cons_of_pos hnew]
    · rw [if_neg hr, List.find?_cons_of_neg hr]
      obtain ⟨r', hr', hp⟩ := h
      rcases List.mem_cons.mp hr' with rfl | hr'
      · exact absurd hp hr
      · exact ih ⟨r', hr', hp⟩

/-! ### Keys -/

section Keyed
variable {key : α → κ} {rows : List α}

theorem Keyed.eq_of_key_eq (h : Keyed key rows) {r r' : α} (hr : r ∈ rows) (hr' : r' ∈ rows)
    (he : key r = key r') : r = r' :=
  List.inj_on_of_nodup_map h hr hr' he

theorem map_key_updateWhere {p : α → Bool} {g : α → α} (hg : ∀ r ∈ rows, p r = true → key (g r) = key r) :
    (updateWhere p g rows).map key = rows.map key := by
  rw [updateWhere, List.map_map]
  refine List.map_congr_left fun r hr => ?_
  cases hp : p r with
  | true => simpa [hp] using hg r hr hp
  | false => simp [hp]

/-- **Updating the one row of a key** changes nothing that the new row has in common with it. -/
theorem Keyed.map_updateWhere {β : Type*} {f : α → β} {p : α → Bool} {r₀ new : α} (h : Keyed key rows)
    (h₀ : r₀ ∈ rows) (hp : ∀ r, p r = true → key r = key r₀) (hf : f new = f r₀) :
    (updateWhere p (fun _ => new) rows).map f = rows.map f := by
  refine map_key_updateWhere fun r hr hpr => ?_
  rw [hf, h.eq_of_key_eq hr h₀ (hp r hpr)]

theorem Keyed.updateWhere {p : α → Bool} {g : α → α} (h : Keyed key rows)
    (hg : ∀ r ∈ rows, p r = true → key (g r) = key r) : Keyed key (updateWhere p g rows) := by
  rw [Keyed, map_key_updateWhere hg]; exact h

theorem Keyed.sublist {rows' : List α} (h : Keyed key rows) (hs : List.Sublist rows' rows) :
    Keyed key rows' :=
  List.Nodup.sublist (hs.map key) h

/-- Deleting the row of a key takes away that row only. -/
theorem Keyed.filter_perm [DecidableEq κ] (h : Keyed key rows) {r : α} (hr : r ∈ rows) :
    List.Perm (rows.filter (fun r' => key r' != key r) ++ [r]) rows := by
  induction rows with
  | nil => exact absurd hr List.not_mem_nil
  | cons r' rows ih =>
    obtain ⟨hr', hrows⟩ := List.nodup_cons.mp (show ((r' :: rows).map key).Nodup from h)
    rcases List.mem_cons.mp hr with rfl | hr
    · have hrest : rows.filter (fun r' => key r' != key r) = rows := by
        refine List.filter_eq_self.mpr fun r' hm => ?_
        have hne : key r' ≠ key r := fun he => hr' (he ▸ List.mem_map_of_mem hm)
        simpa using hne
      rw [List.filter_cons_of_neg (by simp), hrest]
      exact List.perm_append_singleton r rows
    · have hne : key r' ≠ key r := fun he => hr' (he ▸ List.mem_map_of_mem hr)
      rw [List.filter_cons_of_pos (by simpa using hne), List.cons_append]
      exact (ih hrows hr).cons r'

/-- **Looking up a row by its key**: what holds of the row that is found holds of all that match. -/
theorem Keyed.all_find? {p f : α → Bool} (h : Keyed key rows)
    (hp : ∀ r r', p r = true → p r' = true → key r = key r') :
    (rows.find? p).all f = rows.all fun r => !p r || f r := by
  rw [Bool.eq_iff_iff, List.all_eq_true]
  cases hfind : rows.find? p with
  | none =>
    refine ⟨fun _ r hr => ?_, fun _ => rfl⟩
    rw [(Bool.not_eq_true _).mp (List.find?_eq_none.mp hfind r hr)]
    rfl
  | some r₀ =>
    have hr₀ := List.mem_of_find?_eq_some hfind
    have hp₀ := List.find?_some hfind
    rw [Option.all_some]
    constructor
    · intro hf r hr
      cases hpr : p r with
      | false => rfl
      | true => rw [h.eq_of_key_eq hr hr₀ (hp r r₀ hpr hp₀), hf]; rfl
    · intro hall
      simpa [hp₀] using hall r₀ hr₀

/-- **The same row is found** in two tables with the same rows of that kind. -/
theorem Keyed.find?_eq {rows' : List α} {p : α → Bool} (h : Keyed key rows)
    (hp : ∀ r r', p r = true → p r' = true → key r = key r')
    (hsame : ∀ r, p r = true → (r ∈ rows ↔ r ∈ rows')) :
    rows.find? p = rows'.find? p := by
  rcases hfind' : rows'.find? p with _ | r'
  · rw [List.find?_eq_none] at hfind' ⊢
    intro r hr hpr
    exact hfind' r ((hsame r hpr).mp hr) hpr
  · have hpr' : p r' = true := List.find?_some hfind'
    have hr' : r' ∈ rows := (hsame r' hpr').mpr (List.mem_of_find?_eq_some hfind')
    have hsome : (rows.find? p).isSome = true := List.find?_isSome.mpr ⟨r', hr', hpr'⟩
    obtain ⟨r, hfind⟩ := Option.isSome_iff_exists.mp hsome
    have hkey : key r = key r' := hp r r' (List.find?_some hfind) hpr'
    rw [hfind, h.eq_of_key_eq (List.mem_of_find?_eq_some hfind) hr' hkey]

/-- **A row is found by its key.** -/
theorem Keyed.find?_key [DecidableEq κ] (h : Keyed key rows) {r : α} (hr : r ∈ rows) :
    rows.find? (key · == key r) = some r := by
  have hsome : (rows.find? (key · == key r)).isSome = true :=
    List.find?_isSome.mpr ⟨r, hr, beq_self_eq_true _⟩
  obtain ⟨r', hr'⟩ := Option.isSome_iff_exists.mp hsome
  have hkey : key r' = key r := by
    have hfound := List.find?_some hr'
    exact beq_iff_eq.mp hfound
  rw [hr', h.eq_of_key_eq (List.mem_of_find?_eq_some hr') hr hkey]

theorem keyed_singleton (key : α → κ) (r : α) : Keyed key [r] := List.nodup_singleton _

theorem Keyed.cons {r : α} (h : Keyed key rows) (hr : ∀ r' ∈ rows, key r' ≠ key r) :
    Keyed key (r :: rows) := by
  rw [Keyed, List.map_cons, List.nodup_cons]
  refine ⟨fun hm => ?_, h⟩
  obtain ⟨r', hr', he⟩ := List.mem_map.mp hm
  exact hr r' hr' he

end Keyed

/-! ### Tables with a primary key -/

/-- A table that keeps its key. -/
structure KeyedTable (key : α → κ) where
  rows : List α
  keyed : Keyed key rows

namespace KeyedTable
variable {key : α → κ}

/-- No rows. -/
def empty : KeyedTable key := ⟨[], List.nodup_nil⟩

/-- A row is added unless its key is taken. -/
def insert [DecidableEq κ] (t : KeyedTable key) (r : α) : Option (KeyedTable key) :=
  if h : ∀ r' ∈ t.rows, key r' ≠ key r then some ⟨r :: t.rows, t.keyed.cons h⟩ else none

/-- The conditional update, for a `g` that leaves the key. -/
def update (t : KeyedTable key) (p : α → Bool) (g : α → α) (hg : ∀ r, p r = true → key (g r) = key r) :
    KeyedTable key :=
  ⟨updateWhere p g t.rows, t.keyed.updateWhere fun r _ => hg r⟩

theorem eq_of_key_eq (t : KeyedTable key) {r r' : α} (hr : r ∈ t.rows) (hr' : r' ∈ t.rows)
    (he : key r = key r') : r = r' :=
  t.keyed.eq_of_key_eq hr hr' he

theorem insert_eq_some [DecidableEq κ] {t t' : KeyedTable key} {r : α} (h : t.insert r = some t') :
    (∀ r' ∈ t.rows, key r' ≠ key r) ∧ t'.rows = r :: t.rows := by
  unfold insert at h
  split_ifs at h with hk
  cases h
  exact ⟨hk, rfl⟩

end KeyedTable

/-! ### Sums -/

/-- **Updating the one row of a key** changes the sum of a measure by the new value less the old. -/
theorem sum_updateWhere {M : Type*} [AddCommMonoid M] {key : α → κ} {p : α → Bool} {g : α → α}
    {rows : List α} (h : Keyed key rows) {r₀ : α} (h₀ : r₀ ∈ rows) (hp₀ : p r₀ = true)
    (hp : ∀ r, p r = true → key r = key r₀) (f : α → M) :
    ((updateWhere p g rows).map f).sum + f r₀ = (rows.map f).sum + f (g r₀) := by
  induction rows with
  | nil => simp at h₀
  | cons r rows ih =>
    obtain ⟨hr, h'⟩ := List.nodup_cons.mp (show ((r :: rows).map key).Nodup from h)
    have hcons : updateWhere p g (r :: rows) = (if p r then g r else r) :: updateWhere p g rows := rfl
    rw [hcons, List.map_cons, List.sum_cons, List.map_cons, List.sum_cons]
    rcases List.mem_cons.mp h₀ with rfl | h₀
    · have hrest : updateWhere p g rows = rows := updateWhere_of_forall_false fun r' hr' => by
        by_contra hne
        exact hr (List.mem_map.mpr ⟨r', hr', hp r' (by simpa using hne)⟩)
      rw [hrest, if_pos hp₀]
      abel
    · have hne : p r = false := by
        by_contra hne
        exact hr (List.mem_map.mpr ⟨r₀, h₀, (hp r (by simpa using hne)).symm⟩)
      have hif : (if p r = true then g r else r) = r := if_neg (by rw [hne]; exact Bool.false_ne_true)
      rw [hif, add_assoc, ih h' h₀, add_assoc]

end Neltrik.Lib.Table
