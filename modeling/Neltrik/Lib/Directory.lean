import Neltrik.Lib.Serial
import Mathlib.Logic.Function.Basic

/-! # Rows found by an index

An index gives some of the rows of a table an entry. If no two rows have the same entry, the table is a map
from the entries to what the rows have under them, its `view`. A machine whose steps put no row under the
entry of another (`Respects`) works on that map: a commit takes an entry out of it, puts one in, or both
(`Change`), and a run makes of the map what its changes make of it, one after the other (`run_view`). -/

namespace Neltrik.Lib.Directory

open Machine Table Serial

variable {α ι β : Type*}

/-! ## Maps -/

/-- The entry that goes and the entry that comes. -/
@[ext]
structure Change (ι β : Type*) where
  goes : Option ι
  comes : Option (ι × β)

section Change
variable [DecidableEq ι]

/-- The map without the entry. -/
def drop (m : ι → Option β) (goes : Option ι) : ι → Option β :=
  match goes with
  | some i => Function.update m i none
  | none => m

/-- Why a change cannot be made. -/
inductive Clash where
  | missing
  | taken

/-- An entry that goes has to be there, one that comes must not. -/
def Change.apply (m : ι → Option β) (c : Change ι β) : Except Clash (ι → Option β) :=
  if c.goes.all fun i => (m i).isSome then
    match c.comes with
    | none => .ok (drop m c.goes)
    | some (i, b) =>
      if (drop m c.goes i).isSome then .error .taken else .ok (Function.update (drop m c.goes) i (some b))
  else .error .missing

end Change

/-! ## Rows -/

variable (idx : α → Option ι) (val : α → β)

/-- No two rows have the same entry. -/
def Unique (rows : List α) : Prop := ∀ r ∈ rows, ∀ r' ∈ rows, ∀ i, idx r = some i → idx r' = some i → r = r'

/-- What a row says of its index. -/
def entry (r : α) : Option (ι × β) := (idx r).map fun i => (i, val r)

variable {idx} {rows rows' : List α}

/-- A row goes, a row comes, the others stay. -/
structure Replaces (idx : α → Option ι) (rows rows' : List α) (old new : Option α) : Prop where
  stored : ∀ r ∈ old, r ∈ rows
  mem : ∀ r, r ∈ rows' ↔ r ∈ new ∨ (r ∈ rows ∧ r ∉ old)
  free : ∀ n ∈ new, ∀ r ∈ rows, r ∉ old → ∀ i, idx n = some i → idx r ≠ some i

theorem Replaces.unique {old new : Option α} (h : Replaces idx rows rows' old new) (hu : Unique idx rows) :
    Unique idx rows' := by
  intro r hr r' hr' i hi hi'
  rcases (h.mem r).mp hr with hn | ⟨hr, hold⟩ <;> rcases (h.mem r').mp hr' with hn' | ⟨hr', hold'⟩
  · exact Option.some.inj (hn.symm.trans hn')
  · exact absurd hi' (h.free r hn r' hr' hold' i hi)
  · exact absurd hi (h.free r' hn' r hr hold i hi')
  · exact hu r hr r' hr' i hi hi'

section View
variable [DecidableEq ι]

variable (idx) in
/-- What the rows say of an index. -/
def view (rows : List α) (i : ι) : Option β := (rows.find? fun r => decide (idx r = some i)).map val

variable {val}

theorem view_eq_some (h : Unique idx rows) {i : ι} {b : β} :
    view idx val rows i = some b ↔ ∃ r ∈ rows, idx r = some i ∧ val r = b := by
  unfold view
  rw [Option.map_eq_some_iff]
  constructor
  · rintro ⟨r, hr, hb⟩
    exact ⟨r, List.mem_of_find?_eq_some hr, by simpa using List.find?_some hr, hb⟩
  · rintro ⟨r, hr, hi, hb⟩
    have hsome : (rows.find? fun r => decide (idx r = some i)).isSome = true :=
      List.find?_isSome.mpr ⟨r, hr, by simp [hi]⟩
    obtain ⟨r', hr'⟩ := Option.isSome_iff_exists.mp hsome
    have hi' : idx r' = some i := by simpa using List.find?_some hr'
    exact ⟨r', hr', by rw [h r' (List.mem_of_find?_eq_some hr') r hr i hi' hi, hb]⟩

theorem view_isSome {i : ι} : (view idx val rows i).isSome = true ↔ ∃ r ∈ rows, idx r = some i := by
  unfold view
  simp [List.find?_isSome]

/-- What is left without the row that goes. -/
theorem Replaces.drop_eq_some {old new : Option α} (h : Replaces idx rows rows' old new) (hu : Unique idx rows)
    {i : ι} {b : β} : drop (view idx val rows) (old.bind idx) i = some b ↔
      ∃ r ∈ rows, r ∉ old ∧ idx r = some i ∧ val r = b := by
  cases old with
  | none =>
    rw [Option.bind_none, drop, view_eq_some hu]
    exact exists_congr fun r => and_congr_right fun _ => by simp
  | some r₀ =>
    rw [Option.bind_some]
    have hr₀ := h.stored r₀ rfl
    have hother : ∀ r ∈ rows, r ∉ some r₀ ↔ r ≠ r₀ := fun r _ => by
      rw [Option.mem_some_iff, ne_comm]
    cases hi₀ : idx r₀ with
    | none =>
      rw [drop, view_eq_some hu]
      refine exists_congr fun r => and_congr_right fun hr => ?_
      rw [hother r hr]
      constructor
      · rintro ⟨hi, hb⟩
        refine ⟨?_, hi, hb⟩
        rintro rfl
        rw [hi₀] at hi
        cases hi
      · exact fun ⟨_, hi, hb⟩ => ⟨hi, hb⟩
    | some i₀ =>
      rw [drop]
      by_cases hi : i = i₀
      · subst hi
        rw [Function.update_self]
        refine ⟨fun hb => absurd hb.symm (Option.some_ne_none b), ?_⟩
        rintro ⟨r, hr, hne, hir, -⟩
        exact absurd (hu r hr r₀ hr₀ i hir hi₀) ((hother r hr).mp hne)
      · rw [Function.update_of_ne hi, view_eq_some hu]
        refine exists_congr fun r => and_congr_right fun hr => ?_
        rw [hother r hr]
        constructor
        · rintro ⟨hir, hb⟩
          refine ⟨?_, hir, hb⟩
          rintro rfl
          exact hi (Option.some.inj (hir.symm.trans hi₀))
        · exact fun ⟨_, hir, hb⟩ => ⟨hir, hb⟩

/-- **A row for a row is a change of the map.** -/
theorem Replaces.apply {old new : Option α} (h : Replaces idx rows rows' old new) (hu : Unique idx rows) :
    Change.apply (view idx val rows) ⟨old.bind idx, new.bind (entry idx val)⟩ = .ok (view idx val rows') := by
  have hu' := h.unique hu
  have hgoes : ((old.bind idx).all fun i => (view idx val rows i).isSome) = true := by
    rw [Option.all_eq_true]
    intro i hi
    obtain ⟨r, hr, hi⟩ := Option.bind_eq_some_iff.mp hi
    exact view_isSome.mpr ⟨r, h.stored r hr, hi⟩
  unfold Change.apply
  rw [if_pos hgoes]
  cases hnew : new.bind (entry idx val) with
  | none =>
    refine congrArg Except.ok (funext fun i => Option.ext fun b => ?_)
    have hentry : ∀ r ∈ new, idx r = none := fun r hr => by
      have hr : entry idx val r = none := Option.bind_eq_none_iff.mp hnew r hr
      simpa [entry] using hr
    rw [h.drop_eq_some hu, view_eq_some hu']
    refine exists_congr fun r => ?_
    rw [h.mem]
    constructor
    · exact fun ⟨hr, hold, hi, hb⟩ => ⟨Or.inr ⟨hr, hold⟩, hi, hb⟩
    · rintro ⟨hr | ⟨hr, hold⟩, hi, hb⟩
      · rw [hentry r hr] at hi
        cases hi
      · exact ⟨hr, hold, hi, hb⟩
  | some e =>
    obtain ⟨n, hn, he⟩ := Option.bind_eq_some_iff.mp hnew
    obtain ⟨i₀, hi₀, rfl⟩ := Option.map_eq_some_iff.mp he
    have hfree : (drop (view idx val rows) (old.bind idx) i₀).isSome = false := by
      rw [Bool.eq_false_iff]
      intro hsome
      obtain ⟨b, hb⟩ := Option.isSome_iff_exists.mp hsome
      obtain ⟨r, hr, hold, hi, -⟩ := (h.drop_eq_some hu).mp hb
      exact h.free n hn r hr hold i₀ hi₀ hi
    dsimp only
    rw [hfree, if_neg Bool.false_ne_true]
    refine congrArg Except.ok (funext fun i => Option.ext fun b => ?_)
    rw [view_eq_some hu']
    by_cases hi : i = i₀
    · subst hi
      rw [Function.update_self, Option.some_inj]
      constructor
      · exact fun hb => ⟨n, (h.mem n).mpr (Or.inl hn), hi₀, hb⟩
      · rintro ⟨r, hr, hi, hb⟩
        rw [← hb, hu' r hr n ((h.mem n).mpr (Or.inl hn)) i hi hi₀]
    · rw [Function.update_of_ne hi, h.drop_eq_some hu]
      refine exists_congr fun r => ?_
      rw [h.mem]
      constructor
      · exact fun ⟨hr, hold, hir, hb⟩ => ⟨Or.inr ⟨hr, hold⟩, hir, hb⟩
      · rintro ⟨hr | ⟨hr, hold⟩, hir, hb⟩
        · obtain rfl : n = r := Option.some.inj (hn.symm.trans hr)
          exact absurd (Option.some.inj (hir.symm.trans hi₀)) hi
        · exact ⟨hr, hold, hir, hb⟩

end View

/-! ## Machines -/

section Machine
variable {κ Op ε σ L : Type*} [DecidableEq κ] (V : Versioned α κ Op ε) (step : σ → L → Option σ) (rows copies : σ → List α)
  (used : σ → List κ) (commit : σ → L → Option (Commit α κ Op))

/-- The row that a commit takes away. -/
def before (rows : List α) : Commit α κ Op → Option α
  | .create _ => none
  | .remove k | .edit k _ => rowOf V rows k

/-- The row that it puts there. -/
def after (rows : List α) : Commit α κ Op → Option α
  | .create row => some row
  | .remove _ => none
  | .edit k op => (rowOf V rows k).bind fun r => (V.apply r op).toOption

/-- No step puts a row under the entry of another. -/
def Respects (idx : α → Option ι) : Prop :=
  ∀ s l s', Tidy V rows copies used s → Unique idx (rows s) → step s l = some s' → ∀ n ∈ rows s', n ∉ rows s →
    ∀ r ∈ rows s, V.key r ≠ V.key n → ∀ i, idx n = some i → idx r ≠ some i

/-- What a step does to the map. -/
def change (idx : α → Option ι) (val : α → β) (s : σ) (l : L) : Option (Change ι β) :=
  (commit s l).map fun c => ⟨(before V (rows s) c).bind idx, (after V (rows s) c).bind (entry idx val)⟩

variable {V step rows copies used commit} {idx : α → Option ι} {val : α → β}
  (hL : Locked V step rows copies used commit) (hR : Respects V step rows copies used idx)
include hL hR

theorem replaces_step {s s' : σ} {l : L} {c : Commit α κ Op} (h : Tidy V rows copies used s)
    (hu : Unique idx (rows s)) (hs : step s l = some s') (hc : commit s l = some c) :
    Replaces idx (rows s) (rows s') (before V (rows s) c) (after V (rows s) c) := by
  have ht := hL.touches hs
  rw [hc] at ht
  cases ht with
  | @create row hnew hrows =>
    have hne : ∀ r ∈ rows s, V.key r ≠ V.key row := fun r hr hk => hnew (hk ▸ h.rowsUsed r hr)
    refine ⟨fun r hr => (nomatch hr), fun r => ?_, fun n hn r hr _ i hi => ?_⟩
    · rw [hrows, List.mem_cons, after, Option.mem_some_iff, eq_comm]
      exact or_congr_right (by simp [before])
    · obtain rfl : row = n := Option.some.inj hn
      have hfresh : row ∉ rows s := fun hm => hne row hm rfl
      exact hR s l s' h hu hs row (hrows ▸ List.mem_cons_self) hfresh r hr (hne r hr) i hi
  | @remove k hstored hrows =>
    obtain ⟨r₀, hr₀, rfl⟩ := hstored
    have hrow : rowOf V (rows s) (V.key r₀) = some r₀ := (rowOf_eq_some h.keyed).mpr ⟨hr₀, rfl⟩
    refine ⟨fun r hr => ?_, fun r => ?_, fun n hn => (nomatch hn)⟩
    · rw [before, hrow, Option.mem_some_iff] at hr
      exact hr ▸ hr₀
    · have hother : r ∈ rows s → ((V.key r != V.key r₀) = true ↔ r ∉ some r₀) := by
        intro hr
        rw [bne_iff_ne, Option.mem_some_iff]
        exact ⟨fun hne he => hne (he ▸ rfl), fun hne hk => hne (h.keyed.eq_of_key_eq hr hr₀ hk).symm⟩
      rw [hrows h.keyed, List.mem_filter, before, hrow, after]
      simp only [Option.not_mem_none, false_or]
      exact and_congr_right hother
  | @edit copy new op hcopy happly hmatch hrows =>
    obtain ⟨r₀, hr₀, hm⟩ := hmatch
    obtain rfl := h.eq_of_matching hcopy hr₀ hm
    have hrow : rowOf V (rows s) (V.key r₀) = some r₀ := (rowOf_eq_some h.keyed).mpr ⟨hr₀, rfl⟩
    have hafter : after V (rows s) (.edit (V.key r₀) op) = some new := by
      rw [after, hrow, Option.bind_some, happly]
      rfl
    have hmem : ∀ r, r ∈ rows s' ↔ r = new ∨ (r ∈ rows s ∧ V.key r ≠ V.key r₀) := fun r => by
      rw [hrows h.keyed, h.mem_write hr₀]
    have hother : ∀ r ∈ rows s, (V.key r ≠ V.key r₀ ↔ r ∉ some r₀) := by
      intro r hr
      rw [Option.mem_some_iff]
      exact ⟨fun hne he => hne (he ▸ rfl), fun hne hk => hne (h.keyed.eq_of_key_eq hr hr₀ hk).symm⟩
    refine ⟨fun r hr => ?_, fun r => ?_, fun n hn r hr hold i hi => ?_⟩
    · rw [before, hrow, Option.mem_some_iff] at hr
      exact hr ▸ hr₀
    · rw [hmem, hafter, Option.mem_some_iff, before, hrow, eq_comm]
      exact or_congr_right (and_congr_right (hother r))
    · rw [hafter, Option.mem_some_iff] at hn
      subst hn
      rw [before, hrow] at hold
      have hne := (hother r hr).mpr hold
      have hkey := V.key_apply happly
      have hfresh : new ∉ rows s := by
        intro hm
        have hver := V.ver_apply happly
        rw [h.keyed.eq_of_key_eq hm hr₀ hkey] at hver
        exact absurd hver (lt_irrefl _)
      exact hR s l s' h hu hs new ((hmem new).mpr (Or.inl rfl)) hfresh r hr (hkey ▸ hne) i hi

/-- At any time the entries are unique. -/
theorem unique_step {s s' : σ} {l : L} (h : Tidy V rows copies used s) (hu : Unique idx (rows s))
    (hs : step s l = some s') : Unique idx (rows s') := by
  cases hc : commit s l with
  | none =>
    have ht := hL.touches hs
    rw [hc] at ht
    cases ht with
    | silent hrows => exact hrows ▸ hu
  | some c => exact (replaces_step hL hR h hu hs hc).unique hu

/-- **A run of the machine is a run of the map.** -/
theorem run_view [DecidableEq ι] {s s' : σ} {ls : List L} (h : Tidy V rows copies used s) (hu : Unique idx (rows s))
    (hr : run step s ls = some s') :
    (trace step (change V rows commit idx val) s ls).foldlM Change.apply (view idx val (rows s)) =
        .ok (view idx val (rows s')) ∧ Tidy V rows copies used s' ∧ Unique idx (rows s') := by
  have hinv : ∀ s l s', Tidy V rows copies used s ∧ Unique idx (rows s) → step s l = some s' →
      Tidy V rows copies used s' ∧ Unique idx (rows s') :=
    fun s l s' ⟨h, hu⟩ hs => ⟨h.after_step hL hs, unique_step hL hR h hu hs⟩
  have hsilent : ∀ s l s' m, Tidy V rows copies used s ∧ Unique idx (rows s) → step s l = some s' →
      m = view idx val (rows s) → change V rows commit idx val s l = none → m = view idx val (rows s') := by
    rintro s l s' m - hs rfl hobs
    have ht := hL.touches hs
    rw [Option.map_eq_none_iff.mp hobs] at ht
    cases ht with
    | silent hrows => rw [hrows]
  have hshown : ∀ s l s' m c, Tidy V rows copies used s ∧ Unique idx (rows s) → step s l = some s' →
      m = view idx val (rows s) → change V rows commit idx val s l = some c →
      ∃ m', Change.apply m c = .ok m' ∧ m' = view idx val (rows s') := by
    rintro s l s' m c ⟨h, hu⟩ hs rfl hobs
    obtain ⟨e, he, rfl⟩ := Option.map_eq_some_iff.mp hobs
    exact ⟨_, (replaces_step hL hR h hu hs he).apply hu, rfl⟩
  obtain ⟨m, hfold, rfl⟩ := trace_refines (G := fun _ _ => True) (fun s l s' h _ hs => hinv s l s' h hs)
    (fun s l s' m h _ hs => hsilent s l s' m h hs) (fun s l s' m c h _ hs => hshown s l s' m c h hs) ⟨h, hu⟩ rfl
    (allSteps_of_forall (fun _ _ _ => trivial) s) hr
  exact ⟨hfold, run_inv hinv ⟨h, hu⟩ hr⟩

end Machine

end Neltrik.Lib.Directory
