import Neltrik.Lib.Table

/-! # One-time tokens

Rows that can be used once, until they expire: `Kind` says what a row type shows of that. A row is
*open* while it is neither used nor expired. Two writes change a table of such rows: a new row is
issued after the rows named by `ids` have been made to expire (`expireThose`), and a used row is
written back (`redeem`).

The rules say what the writes keep: at most one open row an owner (`OneOpen`), what is used
(`UsedAt`, along `Advances`) and what is closed (`ClosedAt`). Issuing keeps the first only if it expires
all that is open (`Covers`), and then closes all that the owner had; `Orderly` is both. -/

namespace Neltrik.Lib.OneTime

open Neltrik.Lib.Table

/-- The rows of a table as one-time tokens. -/
structure Kind (ρ κ ο : Type*) where
  id : ρ → κ
  owner : ρ → ο
  expiresAt : ρ → ℕ
  used : ρ → Bool
  /-- The row after it has been made to expire at an instant. -/
  expire : ρ → ℕ → ρ
  id_expire : ∀ r now, id (expire r now) = id r
  owner_expire : ∀ r now, owner (expire r now) = owner r
  used_expire : ∀ r now, used (expire r now) = used r
  expiresAt_expire : ∀ r now, expiresAt (expire r now) = now

variable {ρ κ ο : Type*} (K : Kind ρ κ ο)

/-- The row can still be used. -/
def Kind.isOpen (r : ρ) (now : ℕ) : Bool := !K.used r && now < K.expiresAt r

/-- An owner has at most one open row. -/
def OneOpen (rows : List ρ) (now : ℕ) : Prop :=
  ∀ r ∈ rows, ∀ r' ∈ rows, K.owner r = K.owner r' → K.isOpen r now = true → K.isOpen r' now = true →
    K.id r = K.id r'

/-- The row of the id has been used. -/
def UsedAt (rows : List ρ) (i : κ) : Prop := ∃ r ∈ rows, K.id r = i ∧ K.used r = true

/-- The row of the id is not open. -/
def ClosedAt (rows : List ρ) (now : ℕ) (i : κ) : Prop := ∃ r ∈ rows, K.id r = i ∧ K.isOpen r now = false

/-- The ids are those of all open rows of the owner, at least. -/
def Covers (rows : List ρ) (owner : ο) (ids : List κ) (now : ℕ) : Prop :=
  ∀ r ∈ rows, K.owner r = owner → K.isOpen r now = true → K.id r ∈ ids

/-- One open row an owner, and what has been superseded is closed. -/
structure Orderly (rows : List ρ) (now : ℕ) (superseded : List κ) : Prop where
  oneOpen : OneOpen K rows now
  closed : ∀ i ∈ superseded, ClosedAt K rows now i

/-- Every row is still there, and what was used is used. -/
def Advances (rows rows' : List ρ) : Prop :=
  ∀ r ∈ rows, ∃ r' ∈ rows', K.id r' = K.id r ∧ (K.used r = true → K.used r' = true)

variable {K} {rows rows' : List ρ} {now now' : ℕ} {ids : List κ} {i : κ}

/-! ### Time -/

theorem isOpen_iff {r : ρ} : K.isOpen r now = true ↔ K.used r = false ∧ now < K.expiresAt r := by
  simp [Kind.isOpen]

theorem not_open_of_used {r : ρ} (hu : K.used r = true) : K.isOpen r now = false := by
  simp [Kind.isOpen, hu]

theorem isOpen_of_le {r : ρ} (h : now ≤ now') (hr : K.isOpen r now' = true) : K.isOpen r now = true := by
  obtain ⟨hu, he⟩ := isOpen_iff.mp hr
  exact isOpen_iff.mpr ⟨hu, by omega⟩

theorem OneOpen.later (h : OneOpen K rows now) (hle : now ≤ now') : OneOpen K rows now' :=
  fun r hr r' hr' ho h₁ h₂ => h r hr r' hr' ho (isOpen_of_le hle h₁) (isOpen_of_le hle h₂)

theorem ClosedAt.later (h : ClosedAt K rows now i) (hle : now ≤ now') : ClosedAt K rows now' i := by
  obtain ⟨r, hr, hi, hc⟩ := h
  refine ⟨r, hr, hi, ?_⟩
  by_contra ho
  rw [isOpen_of_le hle ((Bool.not_eq_false _).mp ho)] at hc
  cases hc

theorem Orderly.later {superseded : List κ} (h : Orderly K rows now superseded) (hle : now ≤ now') :
    Orderly K rows now' superseded :=
  ⟨h.oneOpen.later hle, fun i hi => (h.closed i hi).later hle⟩

/-- A closed row that has not expired has been used. -/
theorem ClosedAt.usedAt (h : ClosedAt K rows now i)
    (he : ∀ r ∈ rows, K.id r = i → now < K.expiresAt r) : UsedAt K rows i := by
  obtain ⟨r, hr, hi, hc⟩ := h
  refine ⟨r, hr, hi, ?_⟩
  by_contra hu
  have ho : K.isOpen r now = true := isOpen_iff.mpr ⟨(Bool.not_eq_true _).mp hu, he r hr hi⟩
  rw [ho] at hc
  cases hc

theorem Advances.refl (rows : List ρ) : Advances K rows rows := fun r hr => ⟨r, hr, rfl, id⟩

/-- **What is used stays used.** -/
theorem UsedAt.advance (h : UsedAt K rows i) (ha : Advances K rows rows') : UsedAt K rows' i := by
  obtain ⟨r, hr, hi, hu⟩ := h
  obtain ⟨r', hr', hid, hused⟩ := ha r hr
  exact ⟨r', hr', hid.trans hi, hused hu⟩

/-! ### A new row -/

theorem ClosedAt.cons (h : ClosedAt K rows now i) (new : ρ) : ClosedAt K (new :: rows) now i := by
  obtain ⟨r, hr, h⟩ := h
  exact ⟨r, List.mem_cons_of_mem _ hr, h⟩

/-- The first row of an owner without open rows. -/
theorem OneOpen.cons (h : OneOpen K rows now) {new : ρ}
    (hn : ∀ r ∈ rows, K.owner r = K.owner new → K.isOpen r now = false) :
    OneOpen K (new :: rows) now := by
  intro r hr r' hr' ho h₁ h₂
  rcases List.mem_cons.mp hr with rfl | hm
  · rcases List.mem_cons.mp hr' with rfl | hm'
    · rfl
    · rw [hn r' hm' ho.symm] at h₂; cases h₂
  · rcases List.mem_cons.mp hr' with rfl | hm'
    · rw [hn r hm ho] at h₁; cases h₁
    · exact h r hm r' hm' ho h₁ h₂

section Write
variable [DecidableEq κ]

/-! ### Expiry -/

/-- The unused rows of the ids expire. -/
def expireThose (K : Kind ρ κ ο) (ids : List κ) (now : ℕ) (rows : List ρ) : List ρ :=
  updateWhere (fun r => ids.contains (K.id r) && !K.used r) (fun r => K.expire r now) rows

/-- **What is still open was not among the expired ones.** -/
theorem mem_of_open_expireThose {r : ρ} (hr : r ∈ expireThose K ids now rows) (hle : now ≤ now')
    (ho : K.isOpen r now' = true) : r ∈ rows ∧ K.id r ∉ ids := by
  obtain ⟨hu, he⟩ := isOpen_iff.mp ho
  rcases mem_updateWhere.mp hr with ⟨r₀, -, -, rfl⟩ | ⟨hr, hc⟩
  · rw [K.expiresAt_expire] at he
    omega
  · refine ⟨hr, fun hm => ?_⟩
    simp [hu, hm] at hc

variable (K now ids) in
/-- Each row is there, as it was or expired. -/
theorem exists_expireThose {r : ρ} (hr : r ∈ rows) : ∃ r' ∈ expireThose K ids now rows,
    K.id r' = K.id r ∧ K.used r' = K.used r ∧ (r' = r ∨ K.expiresAt r' = now) := by
  by_cases hp : (ids.contains (K.id r) && !K.used r) = true
  · exact ⟨K.expire r now, mem_updateWhere.mpr (Or.inl ⟨r, hr, hp, rfl⟩), K.id_expire r now,
      K.used_expire r now, Or.inr (K.expiresAt_expire r now)⟩
  · exact ⟨r, mem_updateWhere.mpr (Or.inr ⟨hr, (Bool.not_eq_true _).mp hp⟩), rfl, rfl, Or.inl rfl⟩

theorem advances_issue (new : ρ) : Advances K rows (new :: expireThose K ids now rows) := by
  intro r hr
  obtain ⟨r', hr', hid, hused, -⟩ := exists_expireThose K now ids hr
  exact ⟨r', List.mem_cons_of_mem _ hr', hid, fun h => hused.trans h⟩

theorem ClosedAt.expireThose (h : ClosedAt K rows now' i) (hle : now ≤ now') :
    ClosedAt K (expireThose K ids now rows) now' i := by
  obtain ⟨r, hr, hi, hc⟩ := h
  obtain ⟨r', hr', hid, -, hcase⟩ := exists_expireThose K now ids hr
  refine ⟨r', hr', hid.trans hi, ?_⟩
  rcases hcase with rfl | he
  · exact hc
  · by_contra ho
    have := (isOpen_iff.mp ((Bool.not_eq_false _).mp ho)).2
    omega

theorem OneOpen.expireThose (h : OneOpen K rows now') (hle : now ≤ now') :
    OneOpen K (expireThose K ids now rows) now' := by
  intro r hr r' hr' ho h₁ h₂
  exact h r (mem_of_open_expireThose hr hle h₁).1 r' (mem_of_open_expireThose hr' hle h₂).1 ho h₁ h₂

/-- When all that is open expires, nothing of the owner is open. -/
theorem Covers.not_open {owner : ο} (h : Covers K rows owner ids now') (hle : now ≤ now') :
    ∀ r ∈ OneTime.expireThose K ids now rows, K.owner r = owner → K.isOpen r now' = false := by
  intro r hr howner
  by_contra ho
  have ho' := (Bool.not_eq_false _).mp ho
  obtain ⟨hmem, hnot⟩ := mem_of_open_expireThose hr hle ho'
  exact hnot (h r hmem howner ho')

/-- **Issuing keeps one open row an owner**, if all that was open is made to expire. -/
theorem OneOpen.issue (h : OneOpen K rows now') {new : ρ} (hc : Covers K rows (K.owner new) ids now')
    (hle : now ≤ now') : OneOpen K (new :: OneTime.expireThose K ids now rows) now' :=
  (h.expireThose hle).cons (hc.not_open hle)

/-- **What an owner had is closed** by issuing. -/
theorem Covers.closedAt {owner : ο} (h : Covers K rows owner ids now') (hle : now ≤ now') {r : ρ}
    (hr : r ∈ rows) (ho : K.owner r = owner) :
    ClosedAt K (OneTime.expireThose K ids now rows) now' (K.id r) := by
  by_cases hopen : K.isOpen r now' = true
  · have hm := h r hr ho hopen
    have hp : (ids.contains (K.id r) && !K.used r) = true := by
      simp [hm, (isOpen_iff.mp hopen).1]
    refine ⟨K.expire r now, mem_updateWhere.mpr (Or.inl ⟨r, hr, hp, rfl⟩), K.id_expire r now, ?_⟩
    by_contra hc
    have := (isOpen_iff.mp ((Bool.not_eq_false _).mp hc)).2
    rw [K.expiresAt_expire] at this
    omega
  · exact ClosedAt.expireThose ⟨r, hr, rfl, (Bool.not_eq_true _).mp hopen⟩ hle

/-! ### Use -/

/-- The row of its id becomes the used row. -/
def redeem (K : Kind ρ κ ο) (new : ρ) (rows : List ρ) : List ρ :=
  updateWhere (fun r => K.id r == K.id new) (fun _ => new) rows

variable {new : ρ}

theorem mem_redeem {r : ρ} : r ∈ redeem K new rows → r = new ∨ r ∈ rows ∧ K.id r ≠ K.id new := by
  intro hr
  rcases mem_updateWhere.mp hr with ⟨-, -, -, rfl⟩ | ⟨hr, hne⟩
  · exact Or.inl rfl
  · exact Or.inr ⟨hr, by simpa using hne⟩

variable (K new) in
theorem exists_redeem {r : ρ} (hr : r ∈ rows) :
    (K.id r = K.id new ∧ new ∈ redeem K new rows) ∨ r ∈ redeem K new rows := by
  by_cases hid : K.id r = K.id new
  · exact Or.inl ⟨hid, mem_updateWhere.mpr (Or.inl ⟨r, hr, by simpa using hid, rfl⟩)⟩
  · exact Or.inr (mem_updateWhere.mpr (Or.inr ⟨hr, by simpa using hid⟩))

theorem usedAt_redeem (hu : K.used new = true) {r : ρ} (hr : r ∈ rows) (hi : K.id r = K.id new) :
    UsedAt K (redeem K new rows) (K.id new) :=
  ⟨new, mem_updateWhere.mpr (Or.inl ⟨r, hr, by simpa using hi, rfl⟩), rfl, hu⟩

theorem advances_redeem (hu : K.used new = true) : Advances K rows (redeem K new rows) := by
  intro r hr
  rcases exists_redeem K new hr with ⟨hid, hm⟩ | hm
  · exact ⟨new, hm, hid.symm, fun _ => hu⟩
  · exact ⟨r, hm, rfl, id⟩

theorem ClosedAt.redeem (h : ClosedAt K rows now i) (hu : K.used new = true) :
    ClosedAt K (OneTime.redeem K new rows) now i := by
  obtain ⟨r, hr, hi, hc⟩ := h
  rcases exists_redeem K new hr with ⟨hid, hm⟩ | hm
  · exact ⟨new, hm, hid.symm.trans hi, not_open_of_used hu⟩
  · exact ⟨r, hm, hi, hc⟩

theorem OneOpen.redeem (h : OneOpen K rows now) (hu : K.used new = true) :
    OneOpen K (OneTime.redeem K new rows) now := by
  have hmem : ∀ r ∈ OneTime.redeem K new rows, K.isOpen r now = true → r ∈ rows := by
    intro r hr ho
    rcases mem_redeem hr with rfl | ⟨hr, -⟩
    · rw [not_open_of_used hu] at ho; cases ho
    · exact hr
  intro r hr r' hr' ho h₁ h₂
  exact h r (hmem r hr h₁) r' (hmem r' hr' h₂) ho h₁ h₂

/-! ### Both -/

variable {superseded superseded' : List κ}

/-- **Issuing supersedes what the owner had**, if all that is open is made to expire. -/
theorem Orderly.issue (h : Orderly K rows now' superseded) (hc : Covers K rows (K.owner new) ids now')
    (hle : now ≤ now')
    (hs : ∀ i ∈ superseded', i ∈ superseded ∨ ∃ r ∈ rows, K.owner r = K.owner new ∧ K.id r = i) :
    Orderly K (new :: OneTime.expireThose K ids now rows) now' superseded' := by
  refine ⟨h.oneOpen.issue hc hle, fun i hi => ?_⟩
  rcases hs i hi with hi | ⟨r, hr, ho, rfl⟩
  · exact ((h.closed i hi).expireThose hle).cons new
  · exact (hc.closedAt hle hr ho).cons new

theorem Orderly.redeem (h : Orderly K rows now superseded) (hu : K.used new = true) :
    Orderly K (OneTime.redeem K new rows) now superseded :=
  ⟨h.oneOpen.redeem hu, fun i hi => (h.closed i hi).redeem hu⟩

end Write

end Neltrik.Lib.OneTime
