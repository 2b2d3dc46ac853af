import Neltrik.FileStorage.Agreement

/-! # What a purge removes

A purge that nothing disturbs deletes the keys of all versions of the files it finds, if any of them is in
the directory of the tenant (`execute_eq`). A file with none of its binaries there has nothing to delete, as
its keys are in that directory, so afterwards no binary of an expired file is left (`Purged`), and a second
purge with the same cutoff finds nothing. -/

namespace Neltrik.FileStorage.Purge

open Neltrik.Lib Neltrik.FileStorage.Domain Neltrik.FileStorage.Persistence
open Neltrik.FileStorage.Validation Neltrik.FileStorage.UseCases Neltrik.FileStorage.Agreement

/-- `before`, which is negative when the days of grace reach back too far. -/
def cutoff (graceDays now : ℕ) : ℤ := now - graceDays * 24 * 60 * 60 * 1000

/-- A file of the tenant that was deleted before the cutoff. -/
structure Expired (s : Store) (tenantId : String) (before : ℤ) (f : File) : Prop where
  mem : f ∈ s.files
  tenantId : f.tenantId = tenantId
  deleted : f.status = .deleted
  before : ∃ deletedAt ∈ f.deletedAt, (deletedAt : ℤ) < before

/-- The keys of the tenant are built as `UploadFile` and `ReplaceFile` build them. -/
def KeysBuilt (files : Files) (tenantId : String) : Prop :=
  ∀ f ∈ files, f.tenantId = tenantId → ∀ v ∈ f.versions,
    v.storageKey = storageKey tenantId f.id v.version v.name

/-- What the store `s'` is after a purge of the tenant on `s`. -/
structure Purged (tenantId : String) (before : ℤ) (s s' : Store) : Prop where
  gone : ∀ f, Expired s tenantId before f → ∀ v ∈ f.versions, s'.storage.download v.storageKey = none
  kept : ∀ key, (∀ f, Expired s tenantId before f → ∀ v ∈ f.versions, v.storageKey ≠ key) →
    s'.storage.download key = s.storage.download key
  tables : s' = { s with storage := s'.storage }

section Run
variable {s : Store} {tenantId : String} {graceDays now : ℕ}

theorem lt_daysBefore_iff {deletedAt : ℕ} :
    deletedAt < daysBefore now graceDays ↔ (deletedAt : ℤ) < cutoff graceDays now := by
  unfold daysBefore cutoff
  omega

theorem mem_findDeletedBefore {f : File} :
    f ∈ Files.findDeletedBefore s.files tenantId (daysBefore now graceDays) ↔
      Expired s tenantId (cutoff graceDays now) f := by
  unfold Files.findDeletedBefore File.isDeleted
  simp only [List.mem_filter, Bool.and_eq_true, beq_iff_eq, Option.any_eq_true, decide_eq_true_eq,
    lt_daysBefore_iff]
  constructor
  · rintro ⟨hf, ⟨ht, hd⟩, hb⟩
    exact ⟨hf, ht, hd, hb⟩
  · rintro ⟨hf, ht, hd, hb⟩
    exact ⟨hf, ⟨ht, hd⟩, hb⟩

/-- The keys a purge of the tenant deletes. -/
def expiredKeys (s : Store) (tenantId : String) (graceDays now : ℕ) : List String :=
  PurgeDeletedFiles.purgedKeys (Files.findDeletedBefore s.files tenantId (daysBefore now graceDays))
    (s.storage.list (tenantPrefix tenantId))

theorem mem_expiredKeys {key : String} : key ∈ expiredKeys s tenantId graceDays now ↔
    ∃ f, Expired s tenantId (cutoff graceDays now) f ∧
      (∃ v ∈ f.versions, v.storageKey ∈ s.storage.list (tenantPrefix tenantId)) ∧
      ∃ v ∈ f.versions, v.storageKey = key := by
  unfold expiredKeys PurgeDeletedFiles.purgedKeys
  simp only [List.mem_flatMap, List.mem_filter, mem_findDeletedBefore, List.any_eq_true,
    List.contains_eq_mem, decide_eq_true_eq, List.mem_map, and_assoc]

/-- The store after a purge of the tenant. -/
def purged (tenantId : String) (graceDays now : ℕ) (s : Store) : Store :=
  { s with storage := (expiredKeys s tenantId graceDays now).foldl Storage.delete s.storage }

/-- **The run of a purge.** -/
theorem execute_eq (s : Store) (tenantId : String) (graceDays now : ℕ) :
    PurgeDeletedFiles.execute tenantId graceDays false now s = (.ok ⟨⟩, purged tenantId graceDays now s) :=
  deletes_eq s (expiredKeys s tenantId graceDays now)

theorem download_purged (key : String) : (purged tenantId graceDays now s).storage.download key =
    if key ∈ expiredKeys s tenantId graceDays now then none else s.storage.download key :=
  download_foldl_delete (expiredKeys s tenantId graceDays now) s.storage key

/-- A binary of the tenant is found in its directory. -/
theorem mem_list_of_built (hkeys : KeysBuilt s.files tenantId) {f : File} (hf : f ∈ s.files)
    (ht : f.tenantId = tenantId) {v : FileVersion} (hv : v ∈ f.versions)
    (hne : s.storage.download v.storageKey ≠ none) :
    v.storageKey ∈ s.storage.list (tenantPrefix tenantId) := by
  refine Storage.mem_list.mpr ⟨hne, ?_⟩
  rw [hkeys f hf ht v hv]
  exact tenantPrefix_isPrefix_storageKey tenantId f.id v.version v.name

theorem gone_purged (hkeys : KeysBuilt s.files tenantId) {f : File}
    (hf : Expired s tenantId (cutoff graceDays now) f) {v : FileVersion} (hv : v ∈ f.versions) :
    (purged tenantId graceDays now s).storage.download v.storageKey = none := by
  rw [download_purged]
  split_ifs with hdeleted
  · rfl
  · -- the file was left out, so it had no binary at all
    by_contra hne
    have hlisted := mem_list_of_built hkeys hf.mem hf.tenantId hv hne
    exact hdeleted (mem_expiredKeys.mpr ⟨f, hf, ⟨v, hv, hlisted⟩, v, hv, rfl⟩)

theorem kept_purged {key : String}
    (hkey : ∀ f, Expired s tenantId (cutoff graceDays now) f → ∀ v ∈ f.versions, v.storageKey ≠ key) :
    (purged tenantId graceDays now s).storage.download key = s.storage.download key := by
  rw [download_purged, if_neg]
  intro hdeleted
  obtain ⟨f, hf, -, v, hv, he⟩ := mem_expiredKeys.mp hdeleted
  exact hkey f hf v hv he

/-- **A second purge with the same cutoff finds no binary.** -/
theorem purged_purged (hkeys : KeysBuilt s.files tenantId) {graceDays' now' : ℕ}
    (hcutoff : cutoff graceDays' now' = cutoff graceDays now) :
    purged tenantId graceDays' now' (purged tenantId graceDays now s) = purged tenantId graceDays now s := by
  have hnone : expiredKeys (purged tenantId graceDays now s) tenantId graceDays' now' = [] := by
    refine List.eq_nil_iff_forall_not_mem.mpr fun key hkey => ?_
    obtain ⟨f, hf, ⟨v, hv, hlisted⟩, -⟩ := mem_expiredKeys.mp hkey
    rw [hcutoff] at hf
    have hf' : Expired s tenantId (cutoff graceDays now) f := ⟨hf.mem, hf.tenantId, hf.deleted, hf.before⟩
    exact (Storage.mem_list.mp hlisted).1 (gone_purged hkeys hf' hv)
  rw [purged, hnone]
  rfl

/-- **A purge removes exactly the binaries of the expired files**, a second one with the same cutoff removes
nothing, and a dry run removes nothing. -/
theorem purge_removes_expired (hkeys : KeysBuilt s.files tenantId) (graceDays now : ℕ) :
    (∃ s', PurgeDeletedFiles.execute tenantId graceDays false now s = (.ok ⟨⟩, s') ∧
      Purged tenantId (cutoff graceDays now) s s' ∧
      ∀ graceDays' now', cutoff graceDays' now' = cutoff graceDays now →
        PurgeDeletedFiles.execute tenantId graceDays' false now' s' = (.ok ⟨⟩, s')) ∧
    PurgeDeletedFiles.execute tenantId graceDays true now s = (.ok ⟨⟩, s) := by
  refine ⟨⟨purged tenantId graceDays now s, execute_eq s tenantId graceDays now, ?_, ?_⟩, rfl⟩
  · exact ⟨fun f hf v hv => gone_purged hkeys hf hv, fun key hkey => kept_purged hkey, rfl⟩
  · intro graceDays' now' hcutoff
    rw [execute_eq, purged_purged hkeys hcutoff]

end Run

/-! ## A file deleted at the cutoff and one deleted before it -/

def deletedAt (f : File) (now : ℕ) : File :=
  { f with status := .deleted, deletedAt := some now, valid := f.valid }

/-- The first binary of the expired file is missing. -/
def expiredStore : Store :=
  { files := [deletedAt partFile 86399999, deletedAt lostFile 86400000], quotas := fun _ => none,
    storage := Storage.upload (Storage.upload ∅ "tenants/t/files/f/v2/cv.pdf" [37])
      "tenants/t/files/g/v1/cv.pdf" [37],
    jobs := [] }

theorem keysBuilt_expiredStore : KeysBuilt expiredStore.files "t" := by
  unfold KeysBuilt
  decide +kernel

theorem purge_removes_expired_first :
    ((∃ s', PurgeDeletedFiles.execute "t" 1 false 172800000 expiredStore = (.ok ⟨⟩, s') ∧
        Purged "t" (cutoff 1 172800000) expiredStore s' ∧
        ∀ graceDays' now', cutoff graceDays' now' = cutoff 1 172800000 →
          PurgeDeletedFiles.execute "t" graceDays' false now' s' = (.ok ⟨⟩, s')) ∧
      PurgeDeletedFiles.execute "t" 1 true 172800000 expiredStore = (.ok ⟨⟩, expiredStore)) ∧
    (purged "t" 1 172800000 expiredStore).storage.list (tenantPrefix "t") = ["tenants/t/files/g/v1/cv.pdf"] :=
  ⟨purge_removes_expired keysBuilt_expiredStore 1 172800000, by decide +kernel⟩

end Neltrik.FileStorage.Purge
