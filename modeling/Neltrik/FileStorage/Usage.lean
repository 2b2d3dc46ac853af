import Neltrik.FileStorage.Rows

/-! # The bytes stored for a tenant

`Exact` says that the counter of every tenant is the sum of the sizes of its files that are not
deleted. `Sound` adds that the rows are tidy and that each quota is stored under its tenant. A request
that commits, an edit that is saved and a delete keep `Sound`. -/

namespace Neltrik.FileStorage.Accounting

open Neltrik.Lib Neltrik.Lib.Table Neltrik.FileStorage.Domain Neltrik.FileStorage.Persistence
open Neltrik.FileStorage.Validation Neltrik.FileStorage.UseCases Neltrik.FileStorage.System
open Neltrik.FileStorage.Rows

/-! ## What is stored for a tenant -/

/-- A file of the tenant that is not deleted. -/
def isStored (tenantId : String) (f : File) : Bool := f.tenantId == tenantId && !f.isDeleted

/-- The bytes of all versions of the files of a tenant that are not deleted. -/
def storedBytes (files : Files) (tenantId : String) : ℕ :=
  ((files.filter (isStored tenantId)).map File.getTotalSize).sum

/-- The counters are exact. -/
def Exact (s : Store) : Prop := ∀ t, s.quotas.used t = storedBytes s.files t

/-- What a file adds to the stored bytes of a tenant. -/
def share (tenantId : String) (f : File) : ℕ := if isStored tenantId f then f.getTotalSize else 0

theorem storedBytes_eq_sum (files : Files) (t : String) :
    storedBytes files t = (files.map (share t)).sum := by
  induction files with
  | nil => rfl
  | cons f files ih =>
    rw [List.map_cons, List.sum_cons, ← ih, storedBytes, share]
    by_cases h : isStored t f = true
    · rw [List.filter_cons_of_pos h, if_pos h]
      rfl
    · rw [List.filter_cons_of_neg h, if_neg h, Nat.zero_add]
      rfl

theorem isStored_iff {t : String} {f : File} :
    isStored t f = true ↔ f.tenantId = t ∧ f.status ≠ .deleted := by
  simp [isStored, File.isDeleted]

theorem share_of_deleted {t : String} {f : File} (h : f.status = .deleted) : share t f = 0 :=
  if_neg fun hc => (isStored_iff.mp hc).2 h

theorem share_of_live {f : File} (h : f.status ≠ .deleted) (t : String) :
    share t f = if f.tenantId = t then f.getTotalSize else 0 := by
  simp only [share, isStored_iff, h, ne_eq, not_false_eq_true, and_true]

@[simp] theorem share_bump (t : String) (f : File) : share t (Files.bump f) = share t f := rfl

section
variable {files files' : Files} {f g r : File}

theorem storedBytes_create (h : Files.create files g = .ok files') (t : String) :
    storedBytes files' t = storedBytes files t + share t g := by
  obtain ⟨-, rfl⟩ := Files.create_eq_ok.mp h
  rw [storedBytes_eq_sum, storedBytes_eq_sum, List.map_cons, List.sum_cons, Nat.add_comm]

/-- A saved row takes the place of the row with its id. -/
theorem storedBytes_update (ht : Tidy files) (h : Files.update files g = .ok files') (hr : r ∈ files)
    (hid : r.id = g.id) (hver : r.version = g.version) (t : String) :
    storedBytes files' t + share t r = storedBytes files t + share t g := by
  obtain ⟨-, -, rfl⟩ := Files.update_eq_ok.mp h
  rw [storedBytes_eq_sum, storedBytes_eq_sum]
  exact sum_updateWhere ht.keyed hr (OptimisticLock.matching_iff.mpr ⟨hid, hver⟩)
    (fun r' hr' => (OptimisticLock.matching_iff.mp hr').1.trans hid.symm) (share t)

/-- What keeps the tenant, the sizes and whether the file is deleted keeps its share. -/
theorem share_of_edited (he : Edited f g) (hd : g.status = .deleted → f.status = .deleted) (t : String) :
    share t g = share t f := by
  have hdel : g.status ≠ .deleted ↔ f.status ≠ .deleted := not_congr ⟨hd, he.deleted⟩
  simp only [share, isStored_iff, he.tenantId, hdel, he.getTotalSize]

theorem storedBytes_of_edited (ht : Tidy files) (hf : f ∈ files) (he : Edited f g)
    (hd : g.status = .deleted → f.status = .deleted) (h : Files.update files g = .ok files')
    (t : String) : storedBytes files' t = storedBytes files t := by
  have hsum := storedBytes_update ht h hf he.id.symm he.version.symm t
  have hshare := share_of_edited he hd t
  omega

end

/-! ## The invariant -/

/-- Rows in order, and exact counters. -/
structure Sound (s : Store) : Prop where
  tidy : Tidy s.files
  keyed : s.quotas.Keyed
  exact : Exact s

section
variable {s : Store} {files : Files} {quotas : Quotas} {f g : File}

theorem Sound.congr {s' : Store} (h : Sound s) (hf : s'.files = s.files) (hq : s'.quotas = s.quotas) :
    Sound s' :=
  { tidy := hf ▸ h.tidy, keyed := hq ▸ h.keyed
    exact := fun t => by rw [hf, hq]; exact h.exact t }

/-- An edit that does not delete. -/
theorem Sound.edit (h : Sound s) (hf : f ∈ s.files) (he : Edited f g)
    (hd : g.status = .deleted → f.status = .deleted) (hu : Files.update s.files g = .ok files) :
    Sound { s with files } :=
  { tidy := h.tidy.update hu, keyed := h.keyed
    exact := fun t => (h.exact t).trans (storedBytes_of_edited h.tidy hf he hd hu t).symm }

/-- A delete takes what the file added to the counter off it. -/
theorem Sound.delete {now : ℕ} (h : Sound s) (hf : f ∈ s.files) (hg : f.delete now = .ok g)
    (hu : Files.update s.files g = .ok files)
    (hq : Quotas.decrementUsedBytes s.quotas g.tenantId g.getTotalSize now = .ok quotas) :
    Sound { s with files, quotas } := by
  obtain ⟨-, hst, hp⟩ := File.delete_eq_ok.mp hg
  have he : Edited f g := edited_of_apply (show Edit.apply f now .delete = .ok g from hg)
  have hlive : f.status ≠ .deleted := by rcases hst with hst | hst <;> rw [hst] <;> exact nofun
  have hdel : g.status = .deleted := by rw [hp]
  obtain ⟨q, hsome, hle, rfl⟩ := Quotas.decrementUsedBytes_eq_ok hq
  have ht : q.tenantId = g.tenantId := h.keyed _ _ hsome
  refine ⟨h.tidy.update hu, h.keyed.update ht, fun t => ?_⟩
  have hsum := storedBytes_update h.tidy hu hf he.id.symm he.version.symm t
  have hex := h.exact t
  rw [share_of_live hlive, share_of_deleted hdel] at hsum
  rw [he.tenantId, he.getTotalSize] at *
  by_cases hne : f.tenantId = t
  · subst hne
    rw [if_pos rfl] at hsum
    rw [Quotas.used_of_some hsome] at hex
    have hused : q.usedBytes - f.getTotalSize = storedBytes files f.tenantId := by omega
    exact (Quotas.used_update_self _ _ _).trans hused
  · rw [if_neg hne] at hsum
    dsimp only
    rw [Quotas.used_update_of_ne _ _ (Ne.symm hne)]
    omega

/-- The row of a request adds its size to the stored bytes of its tenant. -/
theorem storedBytes_save {ports : Ports} {now : ℕ} {r : Request} (ht : Tidy s.files)
    (hc : ∀ c ∈ r.copies, c ∈ s.files) (hg : r.row ports now = .ok g)
    (hs : r.save s.files g = .ok files) (t : String) :
    storedBytes files t = storedBytes s.files t + if r.tenantId = t then r.size else 0 := by
  have hr := requested_of_row hg
  have hlive : g.status ≠ .deleted := by rw [hr.status]; exact nofun
  obtain ⟨v, extension, mimeType, hp, hv⟩ := hr.versions
  have hsize : v.size = r.size := by rw [hp]; rfl
  cases r with
  | upload input fileId =>
    have htotal : g.getTotalSize = input.size := by
      rw [File.getTotalSize, hv]
      simp only [List.nil_append, List.map_cons, List.map_nil, List.sum_singleton]
      exact hsize
    rw [storedBytes_create hs, share_of_live hlive, hr.tenantId, htotal]
    rfl
  | replace input copy =>
    have htotal : g.getTotalSize = copy.getTotalSize + input.size := by
      rw [File.getTotalSize, hv, List.map_append, List.sum_append]
      simp only [List.map_cons, List.map_nil, List.sum_singleton, hsize]
      rfl
    have hlive' : copy.status ≠ .deleted := by
      obtain ⟨v', -, hadd⟩ := Effect.except_bind_eq_ok.mp hg
      obtain ⟨hst, -, -⟩ := File.addVersion_eq_ok.mp hadd
      rcases hst with hst | hst <;> rw [hst] <;> exact nofun
    have hsum := storedBytes_update ht hs (hc copy (by simp [Request.copies])) hr.id.symm
      hr.version.symm t
    rw [share_of_live hlive, share_of_live hlive', hr.tenantId, htotal] at hsum
    have hsize' : (Request.replace input copy).size = input.size := rfl
    have htenant : (Request.replace input copy).tenantId = copy.tenantId := rfl
    rw [htenant] at hsum ⊢
    by_cases hne : copy.tenantId = t
    · rw [if_pos hne, if_pos hne] at hsum
      rw [if_pos hne]
      omega
    · rw [if_neg hne, if_neg hne] at hsum
      rw [if_neg hne]
      omega

/-- A commit counts the size of its request. -/
theorem Sound.save {ports : Ports} {now : ℕ} {r : Request} (h : Sound s)
    (hc : ∀ c ∈ r.copies, c ∈ s.files) (hg : r.row ports now = .ok g)
    (hs : r.save s.files g = .ok files)
    (hq : Quotas.incrementUsedBytes s.quotas r.tenantId r.size now = .ok quotas) :
    Sound { s with files, quotas } := by
  obtain ⟨q, hsome, rfl⟩ := Quotas.incrementUsedBytes_eq_ok hq
  have ht : q.tenantId = r.tenantId := h.keyed _ _ hsome
  have htidy : Tidy files := by
    cases r with
    | upload => exact h.tidy.create hs
    | replace => exact h.tidy.update hs
  refine ⟨htidy, h.keyed.update ht, fun t => ?_⟩
  have hsum := storedBytes_save h.tidy hc hg hs t
  have hex := h.exact t
  dsimp only
  rw [hsum]
  by_cases hne : r.tenantId = t
  · subst hne
    rw [Quotas.used_of_some hsome] at hex
    rw [Quotas.used_update_self, if_pos rfl, hex]
  · rw [Quotas.used_update_of_ne _ _ (Ne.symm hne), if_neg hne]
    omega

end

end Neltrik.FileStorage.Accounting
