import Neltrik.Lib.Interleaving
import Neltrik.Lib.OptimisticLock
import Neltrik.Lib.Trace

/-! # Rows edited under a lock, one after the other

A process reads a row, edits its copy and saves it where the key and the version are still those of the
copy. `Touches` says what else may happen to a table: rows are created under keys that have not been used
yet, and removed. A machine is `Locked` if its steps do nothing but this to the table, and if all copies
that processes hold have been read from it.

* `Tidy` is the invariant: the keys are unique, and a copy is the row of its key or an earlier version of it;
* `commits_serialised`: each row is where its commits take it one after the other, each of them made on what
  the one before it has left. -/

namespace Neltrik.Lib.Serial

open Machine Table OptimisticLock

/-- Rows with a key and a version, and the edits of a row. -/
structure Versioned (α κ Op ε : Type*) where
  key : α → κ
  ver : α → ℕ
  apply : α → Op → Except ε α
  key_apply : ∀ {r o r'}, apply r o = .ok r' → key r' = key r
  ver_apply : ∀ {r o r'}, apply r o = .ok r' → ver r < ver r'

/-- What is committed to a table. -/
inductive Commit (α κ Op : Type*) where
  | create (row : α)
  | remove (k : κ)
  | edit (k : κ) (op : Op)

/-- Why a commit cannot be made on a row. -/
inductive Refusal (ε : Type*) where
  | present
  | missing
  | invalid (e : ε)

variable {α κ Op ε σ L : Type*} (V : Versioned α κ Op ε)

def Commit.key : Commit α κ Op → κ
  | .create row => V.key row
  | .remove k => k
  | .edit k _ => k

/-- The commit alone, on the row of its key. -/
def Commit.apply : Option α → Commit α κ Op → Except (Refusal ε) (Option α)
  | none, .create row => .ok (some row)
  | some _, .create _ => .error .present
  | none, .remove _ | none, .edit _ _ => .error .missing
  | some _, .remove _ => .ok none
  | some r, .edit _ op =>
    match V.apply r op with
    | .ok r' => .ok (some r')
    | .error e => .error (.invalid e)

section Rows
variable [DecidableEq κ]

/-- The row of a key. -/
def rowOf (rows : List α) (k : κ) : Option α := rows.find? fun r => V.key r == k

variable {V} {rows : List α} {k : κ}

theorem rowOf_eq_some (h : Keyed V.key rows) {r : α} : rowOf V rows k = some r ↔ r ∈ rows ∧ V.key r = k := by
  constructor
  · intro hr
    exact ⟨List.mem_of_find?_eq_some hr, by simpa using List.find?_some hr⟩
  · rintro ⟨hr, rfl⟩
    exact h.find?_key hr

theorem rowOf_eq_none : rowOf V rows k = none ↔ ∀ r ∈ rows, V.key r ≠ k := by
  simp [rowOf]

/-- Two tables with the same rows of a key. -/
theorem rowOf_congr {rows' : List α} (h : Keyed V.key rows) (h' : Keyed V.key rows')
    (hrows : ∀ r, V.key r = k → (r ∈ rows ↔ r ∈ rows')) : rowOf V rows k = rowOf V rows' k := by
  refine Option.ext fun r => ?_
  rw [rowOf_eq_some h, rowOf_eq_some h']
  exact ⟨fun hr => ⟨(hrows r hr.2).mp hr.1, hr.2⟩, fun hr => ⟨(hrows r hr.2).mpr hr.1, hr.2⟩⟩

end Rows

/-! ## The machine -/

section Machine
variable [DecidableEq κ]

/-- What a step that commits `c` makes of the rows and of the keys that have been used. -/
inductive Touches (rows : List α) (used : List κ) (copies rows' : List α) (used' : List κ) :
    Option (Commit α κ Op) → Prop
  | silent (hrows : rows' = rows) (hused : used' = used) : Touches rows used copies rows' used' none
  | create {row : α} (hnew : V.key row ∉ used) (hrows : rows' = row :: rows) (hused : used' = V.key row :: used) :
      Touches rows used copies rows' used' (some (.create row))
  | remove {k : κ} (hstored : ∃ r ∈ rows, V.key r = k)
      (hrows : Keyed V.key rows → rows' = rows.filter fun r => V.key r != k) (hused : used' = used) :
      Touches rows used copies rows' used' (some (.remove k))
  | edit {copy new : α} {op : Op} (hcopy : copy ∈ copies) (happly : V.apply copy op = .ok new)
      (hmatch : ∃ r ∈ rows, matching V.key V.ver copy r = true)
      (hrows : Keyed V.key rows → rows' = write V.key V.ver rows copy new) (hused : used' = used) :
      Touches rows used copies rows' used' (some (.edit (V.key copy) op))

variable (step : σ → L → Option σ) (rows copies : σ → List α) (used : σ → List κ)
  (commit : σ → L → Option (Commit α κ Op))

/-- Every step keeps to the lock. -/
structure Locked : Prop where
  touches : ∀ {s l s'}, step s l = some s' →
    Touches V (rows s) (used s) (copies s) (rows s') (used s') (commit s l)
  read : ∀ {s l s'}, step s l = some s' → ∀ c ∈ copies s', c ∈ copies s ∨ c ∈ rows s

/-- What the table and the copies are at any time. -/
structure Tidy (s : σ) : Prop where
  keyed : Keyed V.key (rows s)
  behind : ∀ c ∈ copies s, ∀ r ∈ rows s, V.key r = V.key c → r = c ∨ V.ver c < V.ver r
  rowsUsed : ∀ r ∈ rows s, V.key r ∈ used s
  copiesUsed : ∀ c ∈ copies s, V.key c ∈ used s

variable {V step rows copies used commit}

omit [DecidableEq κ] in
theorem Tidy.of_no_copies {s : σ} (hkeyed : Keyed V.key (rows s)) (hused : ∀ r ∈ rows s, V.key r ∈ used s)
    (hcopies : copies s = []) : Tidy V rows copies used s := by
  have hnone : ∀ c, c ∉ copies s := fun c hc => List.not_mem_nil (hcopies ▸ hc)
  exact ⟨hkeyed, fun c hc => absurd hc (hnone c), hused, fun c hc => absurd hc (hnone c)⟩

/-- **A save that goes through finds the row that was read.** -/
theorem Tidy.eq_of_matching {s : σ} (h : Tidy V rows copies used s) {c r : α} (hc : c ∈ copies s)
    (hr : r ∈ rows s) (hm : matching V.key V.ver c r = true) : r = c := by
  obtain ⟨hk, hv⟩ := matching_iff.mp hm
  rcases h.behind c hc r hr hk with he | hlt
  · exact he
  · omega

/-- After a save the rows are the new one and those of the other keys. -/
theorem Tidy.mem_write {s : σ} (h : Tidy V rows copies used s) {c new r : α} (hc : c ∈ rows s) :
    r ∈ write V.key V.ver (rows s) c new ↔ r = new ∨ (r ∈ rows s ∧ V.key r ≠ V.key c) := by
  rw [OptimisticLock.mem_write ⟨c, hc, matching_iff.mpr ⟨rfl, rfl⟩⟩]
  refine or_congr_right (and_congr_right fun hr => ?_)
  rw [← Bool.not_eq_true, matching_iff]
  constructor
  · intro hm hkey
    have he := h.keyed.eq_of_key_eq hr hc hkey
    exact hm ⟨hkey, congrArg V.ver he⟩
  · exact fun hne hm => hne hm.1

theorem Tidy.after_step (hL : Locked V step rows copies used commit) {s s' : σ} {l : L}
    (h : Tidy V rows copies used s) (hs : step s l = some s') : Tidy V rows copies used s' := by
  have hcopies : ∀ c ∈ copies s', V.key c ∈ used s ∧ ∀ r ∈ rows s, V.key r = V.key c → r = c ∨ V.ver c < V.ver r := by
    intro c hc
    rcases hL.read hs c hc with hc | hc
    · exact ⟨h.copiesUsed c hc, h.behind c hc⟩
    · exact ⟨h.rowsUsed c hc, fun r hr hk => Or.inl (h.keyed.eq_of_key_eq hr hc hk)⟩
  have ht := hL.touches hs
  generalize commit s l = e at ht
  cases ht with
  | silent hrows hused =>
    exact ⟨hrows ▸ h.keyed, fun c hc r hr => (hcopies c hc).2 r (hrows ▸ hr),
      fun r hr => hused ▸ h.rowsUsed r (hrows ▸ hr), fun c hc => hused ▸ (hcopies c hc).1⟩
  | @create row hnew hrows hused =>
    have hne : ∀ r ∈ rows s, V.key r ≠ V.key row := fun r hr hk => hnew (hk ▸ h.rowsUsed r hr)
    refine ⟨hrows ▸ h.keyed.cons hne, fun c hc r hr hk => ?_, fun r hr => ?_,
      fun c hc => hused ▸ List.mem_cons_of_mem _ (hcopies c hc).1⟩
    · rcases List.mem_cons.mp (hrows ▸ hr) with rfl | hr
      · -- the key of a copy has been used
        exact absurd (hk ▸ (hcopies c hc).1) hnew
      · exact (hcopies c hc).2 r hr hk
    · rw [hused]
      rcases List.mem_cons.mp (hrows ▸ hr) with rfl | hr
      · exact List.mem_cons_self
      · exact List.mem_cons_of_mem _ (h.rowsUsed r hr)
  | remove _ hrows hused =>
    have hrows := hrows h.keyed
    have hsub : ∀ r ∈ rows s', r ∈ rows s := fun r hr => (List.mem_filter.mp (hrows ▸ hr)).1
    exact ⟨hrows ▸ h.keyed.sublist List.filter_sublist, fun c hc r hr => (hcopies c hc).2 r (hsub r hr),
      fun r hr => hused ▸ h.rowsUsed r (hsub r hr), fun c hc => hused ▸ (hcopies c hc).1⟩
  | @edit copy new op hcopy happly hmatch hrows hused =>
    obtain ⟨r₀, hr₀, hm⟩ := hmatch
    obtain rfl := h.eq_of_matching hcopy hr₀ hm
    have hkey := V.key_apply happly
    have hrows := hrows h.keyed
    have hmem : ∀ r ∈ rows s', r = new ∨ (r ∈ rows s ∧ V.key r ≠ V.key r₀) :=
      fun r hr => (h.mem_write hr₀).mp (hrows ▸ hr)
    refine ⟨hrows ▸ keyed_write h.keyed hkey, fun c hc r hr hk => ?_, fun r hr => ?_,
      fun c hc => hused ▸ (hcopies c hc).1⟩
    · rcases hmem r hr with rfl | ⟨hr, -⟩
      · -- the new row came after the one that was there
        have hver := V.ver_apply happly
        right
        rcases (hcopies c hc).2 r₀ hr₀ (hkey.symm.trans hk) with rfl | hlt
        · exact hver
        · exact hlt.trans hver
      · exact (hcopies c hc).2 r hr hk
    · rw [hused]
      rcases hmem r hr with rfl | ⟨hr, -⟩
      · exact hkey ▸ h.rowsUsed r₀ hr₀
      · exact h.rowsUsed r hr

/-- **A commit is made on the row that is there**, and leaves the others alone. -/
theorem Tidy.apply_commit (hL : Locked V step rows copies used commit) {s s' : σ} {l : L} {e : Commit α κ Op}
    (h : Tidy V rows copies used s) (hs : step s l = some s') (he : commit s l = some e) (k : κ) :
    if e.key V = k then e.apply V (rowOf V (rows s) k) = .ok (rowOf V (rows s') k)
    else rowOf V (rows s') k = rowOf V (rows s) k := by
  have h' := h.after_step hL hs
  have ht := hL.touches hs
  rw [he] at ht
  cases ht with
  | @create row hnew hrows =>
    have hne : ∀ r ∈ rows s, V.key r ≠ V.key row := fun r hr hk => hnew (hk ▸ h.rowsUsed r hr)
    split_ifs with hk
    · obtain rfl : V.key row = k := hk
      have hin : row ∈ rows s' := hrows ▸ List.mem_cons_self
      rw [rowOf_eq_none.mpr hne, (rowOf_eq_some h'.keyed).mpr ⟨hin, rfl⟩]
      rfl
    · refine rowOf_congr h'.keyed h.keyed fun r hr => ?_
      rw [hrows, List.mem_cons]
      exact or_iff_right fun hrow => hk (hrow ▸ hr)
  | @remove k' hstored hrows =>
    obtain ⟨r₀, hr₀, hk₀⟩ := hstored
    have hrows := hrows h.keyed
    split_ifs with hk
    · obtain rfl : k' = k := hk
      have hnone : rowOf V (rows s') k' = none := rowOf_eq_none.mpr fun r hr => by
        have hfilter := (List.mem_filter.mp (hrows ▸ hr)).2
        simpa using hfilter
      rw [(rowOf_eq_some h.keyed).mpr ⟨hr₀, hk₀⟩, hnone]
      rfl
    · refine rowOf_congr h'.keyed h.keyed fun r hr => ?_
      have hne : V.key r ≠ k' := fun hr' => hk (hr'.symm.trans hr)
      rw [hrows, List.mem_filter]
      simp [hne]
  | @edit copy new op hcopy happly hmatch hrows =>
    obtain ⟨r₀, hr₀, hm⟩ := hmatch
    obtain rfl := h.eq_of_matching hcopy hr₀ hm
    have hkey := V.key_apply happly
    have hmem : ∀ r, r ∈ rows s' ↔ r = new ∨ (r ∈ rows s ∧ V.key r ≠ V.key r₀) := fun r => by
      rw [hrows h.keyed, h.mem_write hr₀]
    split_ifs with hk
    · obtain rfl : V.key r₀ = k := hk
      have hnew : rowOf V (rows s') (V.key r₀) = some new :=
        (rowOf_eq_some h'.keyed).mpr ⟨(hmem new).mpr (Or.inl rfl), hkey⟩
      rw [(rowOf_eq_some h.keyed).mpr ⟨hr₀, rfl⟩, hnew]
      simp only [Commit.apply, happly]
    · have hne : V.key r₀ ≠ k := hk
      refine rowOf_congr h'.keyed h.keyed fun r hr => ?_
      rw [hmem]
      constructor
      · rintro (rfl | ⟨hr, -⟩)
        · exact absurd (hkey.symm.trans hr) hne
        · exact hr
      · exact fun hin => Or.inr ⟨hin, fun hr₀ => hne (hr₀.symm.trans hr)⟩

/-- Where a row after a step comes from. -/
theorem Tidy.row_after_step (hL : Locked V step rows copies used commit) {s s' : σ} {l : L}
    (h : Tidy V rows copies used s) (hs : step s l = some s') {r' : α} (hr' : r' ∈ rows s') :
    r' ∈ rows s ∨ commit s l = some (.create r') ∨
      ∃ r ∈ rows s, ∃ op, commit s l = some (.edit (V.key r) op) ∧ V.apply r op = .ok r' := by
  have ht := hL.touches hs
  generalize hc : commit s l = e at ht
  cases ht with
  | silent hrows => exact Or.inl (hrows ▸ hr')
  | create _ hrows =>
    rcases List.mem_cons.mp (hrows ▸ hr') with rfl | hr
    · exact Or.inr (Or.inl rfl)
    · exact Or.inl hr
  | remove _ hrows => exact Or.inl (List.mem_filter.mp (hrows h.keyed ▸ hr')).1
  | @edit copy new op hcopy happly hmatch hrows =>
    obtain ⟨r₀, hr₀, hm⟩ := hmatch
    obtain rfl := h.eq_of_matching hcopy hr₀ hm
    rcases (h.mem_write hr₀).mp (hrows h.keyed ▸ hr') with rfl | ⟨hr, -⟩
    · exact Or.inr (Or.inr ⟨r₀, hr₀, op, rfl, happly⟩)
    · exact Or.inl hr

/-- The keys that have been used stay so. -/
theorem Touches.used_subset {rows rows' copies : List α} {used used' : List κ} {c : Option (Commit α κ Op)}
    (h : Touches V rows used copies rows' used' c) : ∀ k ∈ used, k ∈ used' := by
  intro k hk
  cases h with
  | silent _ hused | remove _ _ hused | edit _ _ _ _ hused => rw [hused]; exact hk
  | create _ _ hused => rw [hused]; exact List.mem_cons_of_mem _ hk

/-- A row of a key that was used is not new. -/
theorem Tidy.row_of_used (hL : Locked V step rows copies used commit) {s s' : σ} {l : L}
    (h : Tidy V rows copies used s) (hs : step s l = some s') {r' : α} (hr' : r' ∈ rows s')
    (hused : V.key r' ∈ used s) : r' ∈ rows s ∨ ∃ r ∈ rows s, ∃ op, V.apply r op = .ok r' := by
  rcases h.row_after_step hL hs hr' with hr | hcreate | ⟨r, hr, op, -, happly⟩
  · exact Or.inl hr
  · have ht := hL.touches hs
    rw [hcreate] at ht
    cases ht with
    | create hnew => exact absurd hused hnew
  · exact Or.inr ⟨r, hr, op, happly⟩

/-- What becomes of a row in a step. -/
theorem Tidy.row_before_step (hL : Locked V step rows copies used commit) {s s' : σ} {l : L}
    (h : Tidy V rows copies used s) (hs : step s l = some s') {r : α} (hr : r ∈ rows s) :
    r ∈ rows s' ∨ commit s l = some (.remove (V.key r)) ∨
      ∃ r' ∈ rows s', ∃ op, commit s l = some (.edit (V.key r) op) ∧ V.apply r op = .ok r' := by
  have ht := hL.touches hs
  generalize hc : commit s l = e at ht
  cases ht with
  | silent hrows => exact Or.inl (hrows ▸ hr)
  | create _ hrows => exact Or.inl (hrows ▸ List.mem_cons_of_mem _ hr)
  | @remove k _ hrows =>
    by_cases hk : V.key r = k
    · exact Or.inr (Or.inl (hk ▸ rfl))
    · exact Or.inl (hrows h.keyed ▸ List.mem_filter.mpr ⟨hr, by simpa using hk⟩)
  | @edit copy new op hcopy happly hmatch hrows =>
    obtain ⟨r₀, hr₀, hm⟩ := hmatch
    obtain rfl := h.eq_of_matching hcopy hr₀ hm
    have hmem : ∀ r, r ∈ write V.key V.ver (rows s) r₀ new ↔ r = new ∨ (r ∈ rows s ∧ V.key r ≠ V.key r₀) :=
      fun r => h.mem_write hr₀
    rw [hrows h.keyed]
    by_cases hk : V.key r = V.key r₀
    · obtain rfl := h.keyed.eq_of_key_eq hr hr₀ hk
      exact Or.inr (Or.inr ⟨new, (hmem new).mpr (Or.inl rfl), op, rfl, happly⟩)
    · exact Or.inl ((hmem r).mpr (Or.inr ⟨hr, hk⟩))

/-- The commits to the row of a key. -/
def commitsTo (V : Versioned α κ Op ε) (commit : σ → L → Option (Commit α κ Op)) (k : κ) (s : σ) (l : L) :
    Option (Commit α κ Op) :=
  (commit s l).filter fun e => e.key V == k

/-- **The commits of a row are made one after the other**, in every run of a machine that keeps to the lock. -/
theorem commits_serialised (hL : Locked V step rows copies used commit) {s s' : σ} {ls : List L}
    (h : Tidy V rows copies used s) (hr : run step s ls = some s') (k : κ) :
    (trace step (commitsTo V commit k) s ls).foldlM (Commit.apply V) (rowOf V (rows s) k) =
      .ok (rowOf V (rows s') k) := by
  have hsilent : ∀ s l s' row, Tidy V rows copies used s → step s l = some s' → row = rowOf V (rows s) k →
      commitsTo V commit k s l = none → row = rowOf V (rows s') k := by
    rintro s l s' row h hs rfl hobs
    cases he : commit s l with
    | none =>
      have ht := hL.touches hs
      rw [he] at ht
      cases ht with
      | silent hrows => rw [hrows]
    | some e =>
      have hcommit := h.apply_commit hL hs he k
      have hne : e.key V ≠ k := by simpa [commitsTo, he] using hobs
      rw [if_neg hne] at hcommit
      exact hcommit.symm
  have hshown : ∀ s l s' row e, Tidy V rows copies used s → step s l = some s' → row = rowOf V (rows s) k →
      commitsTo V commit k s l = some e →
      ∃ row', e.apply V row = .ok row' ∧ row' = rowOf V (rows s') k := by
    rintro s l s' row e h hs rfl hobs
    obtain ⟨he, hk⟩ := Option.filter_eq_some_iff.mp hobs
    have hcommit := h.apply_commit hL hs he k
    rw [if_pos (by simpa using hk)] at hcommit
    exact ⟨_, hcommit, rfl⟩
  obtain ⟨row, hfold, rfl⟩ := trace_refines (G := fun _ _ => True) (f := fun row e => Commit.apply V row e)
    (fun _ _ _ h _ hs => h.after_step hL hs) (fun s l s' row h _ hs => hsilent s l s' row h hs)
    (fun s l s' row e h _ hs => hshown s l s' row e h hs) h rfl (allSteps_of_forall (fun _ _ _ => trivial) s) hr
  exact hfold

end Machine

/-! ### Processes -/

variable {V}

/-- The rows that are selected, if any, are the one with the key and the version of the copy. -/
theorem updateWhere_eq_write [DecidableEq κ] {rows : List α} {c r₀ new : α} {p : α → Bool} (h : Keyed V.key rows)
    (hp : ∀ r, p r = true → matching V.key V.ver c r = true) (hr₀ : r₀ ∈ rows) (hs : p r₀ = true) :
    updateWhere p (fun _ => new) rows = write V.key V.ver rows c new := by
  refine List.map_congr_left fun r hr => ?_
  by_cases hm : matching V.key V.ver c r = true
  · have hkey := (matching_iff.mp hm).1.trans (matching_iff.mp (hp r₀ hs)).1.symm
    rw [if_pos hm, h.eq_of_key_eq hr hr₀ hkey, if_pos hs]
  · rw [if_neg hm, if_neg fun hsel => hm (hp r hsel)]

section Copies
variable {P : Type*} {f : P → List α} {procs : List P} {c : α}

theorem mem_flatMap_concat {p : P} (h : c ∈ (procs ++ [p]).flatMap f) : c ∈ procs.flatMap f ∨ c ∈ f p := by
  rw [List.flatMap_append, List.mem_append] at h
  simpa using h

theorem mem_flatMap_set {i : ℕ} {p' : P} (h : c ∈ (procs.set i p').flatMap f) : c ∈ procs.flatMap f ∨ c ∈ f p' := by
  obtain ⟨q, hq, hc⟩ := List.mem_flatMap.mp h
  rcases List.mem_or_eq_of_mem_set hq with hq | rfl
  · exact Or.inl (List.mem_flatMap.mpr ⟨q, hq, hc⟩)
  · exact Or.inr hc

/-- Processes keep a machine locked if each of their steps touches the table so, and their copies are those they
had and rows they have read. -/
theorem locked_of_processes {W S A : Type*} [DecidableEq κ] {start : W → S → Option (W × P)}
    {act : List P → W → P → A → Option (W × P)} (rows : W → List α) (used : W → List κ) (f : P → List α)
    {commit : Interleaving.State W P → Interleaving.Label S A → Option (Commit α κ Op)}
    (hstart : ∀ {st : Interleaving.State W P} {s w p}, start st.world s = some (w, p) →
      Touches V (rows st.world) (used st.world) (st.procs.flatMap f) (rows w) (used w) (commit st (.start s)) ∧
        ∀ c ∈ f p, c ∈ rows st.world)
    (hact : ∀ {st : Interleaving.State W P} {i : ℕ} {p a w p'}, st.procs[i]? = some p →
      act st.procs st.world p a = some (w, p') →
      Touches V (rows st.world) (used st.world) (st.procs.flatMap f) (rows w) (used w) (commit st (.act i a)) ∧
        ∀ c ∈ f p', c ∈ f p ∨ c ∈ rows st.world) :
    Locked V (Interleaving.step start act) (fun st => rows st.world) (fun st => st.procs.flatMap f)
      (fun st => used st.world) commit where
  touches {st l st'} hs := by
    cases l with
    | start s =>
      obtain ⟨w, p, hw, rfl⟩ := Interleaving.step_start.mp hs
      exact (hstart hw).1
    | act i a =>
      obtain ⟨p, w, p', hp, hw, rfl⟩ := Interleaving.step_act.mp hs
      exact (hact hp hw).1
  read {st l st'} hs c hc := by
    cases l with
    | start s =>
      obtain ⟨w, p, hw, rfl⟩ := Interleaving.step_start.mp hs
      exact (mem_flatMap_concat hc).imp_right ((hstart hw).2 c)
    | act i a =>
      obtain ⟨p, w, p', hp, hw, rfl⟩ := Interleaving.step_act.mp hs
      rcases mem_flatMap_set hc with hc | hc
      · exact Or.inl hc
      · refine ((hact hp hw).2 c hc).imp_left fun hc => ?_
        exact List.mem_flatMap.mpr ⟨p, List.mem_of_getElem? hp, hc⟩

end Copies

end Neltrik.Lib.Serial
