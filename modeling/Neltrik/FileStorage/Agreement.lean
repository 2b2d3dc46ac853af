import Neltrik.FileStorage.UseCases

/-! # What a reconcile leaves

A reconcile that nothing disturbs deletes the keys of the directory that no version of a file of the tenant
names, and marks the files none of whose binaries is there (`execute_eq`). Afterwards the storage and the
rows agree (`Agrees`): each key of the directory is named, no binary that is named was deleted, and a second
run finds nothing to do. A file is no orphan while it has any of its binaries, and the download serves the
last one, so a `READY` file may lack what is served: `PartlyMissing` is when. -/

namespace Neltrik.FileStorage.Agreement

open Neltrik.Lib Neltrik.Lib.Table Neltrik.Lib.OptimisticLock Neltrik.FileStorage.Domain
open Neltrik.FileStorage.Persistence Neltrik.FileStorage.Validation Neltrik.FileStorage.UseCases

/-! ## Agreement -/

/-- Some version of a file of the tenant has the key. -/
def Named (files : Files) (tenantId key : String) : Prop :=
  ∃ f ∈ files, f.tenantId = tenantId ∧ ∃ v ∈ f.versions, v.storageKey = key

/-- The last binary is missing, and that of another version is there. -/
def PartlyMissing (storage : Storage) (tenantId : String) (f : File) : Prop :=
  storage.download f.latest.storageKey = none ∧
    ∃ v ∈ f.versions, v.storageKey ∈ storage.list (tenantPrefix tenantId)

/-- What the store `s'` is after a reconcile of the tenant on `s`. -/
structure Agrees (tenantId : String) (s s' : Store) : Prop where
  named : ∀ key ∈ s'.storage.list (tenantPrefix tenantId), Named s'.files tenantId key
  kept : ∀ key, Named s.files tenantId key → s'.storage.download key = s.storage.download key
  served : ∀ f ∈ s'.files, f.tenantId = tenantId → f.status = .ready →
    (∀ ports ttl, (GetDownloadUrl.execute ports s'.files (some tenantId) ttl f.id).map (·.url) =
      .ok (ports.getSignedUrl f.latest.storageKey ttl)) ∧
    (s'.storage.download f.latest.storageKey = none ↔ PartlyMissing s.storage tenantId f)

/-! ## The run -/

section Run
variable {s : Store} {tenantId : String} {now : ℕ}

theorem download_foldl_delete (keys : List String) (storage : Storage) (key : String) :
    (keys.foldl Storage.delete storage).download key = if key ∈ keys then none else storage.download key := by
  induction keys generalizing storage with
  | nil => simp
  | cons k keys ih =>
    rw [List.foldl_cons, ih, Storage.download_delete]
    by_cases hk : key = k
    · rw [if_pos hk, ite_self, if_pos (by rw [hk]; exact List.mem_cons_self)]
    · simp only [List.mem_cons, hk, false_or, if_false]

/-- The row of a file that is marked. -/
def orphaned (now : ℕ) (f : File) : File := Files.bump (f.markAsOrphan now)

theorem markAsOrphan_id (f : File) : (f.markAsOrphan now).id = f.id := by
  rw [File.markAsOrphan_props]
  split_ifs <;> rfl

theorem markAsOrphan_version (f : File) : (f.markAsOrphan now).version = f.version := by
  rw [File.markAsOrphan_props]
  split_ifs <;> rfl

theorem markAsOrphan_tenantId (f : File) : (f.markAsOrphan now).tenantId = f.tenantId := by
  rw [File.markAsOrphan_props]
  split_ifs <;> rfl

theorem markAsOrphan_versions (f : File) : (f.markAsOrphan now).versions = f.versions := by
  rw [File.markAsOrphan_props]
  split_ifs <;> rfl

theorem orphaned_id (f : File) : (orphaned now f).id = f.id := markAsOrphan_id f

/-- A file that is marked has no slot, so its row can always be written. -/
theorem update_orphan {files : Files} {f : File} (hf : f ∈ files) :
    Files.update files (f.markAsOrphan now) =
      .ok (write (·.id) (·.version) files f (orphaned now f)) := by
  refine Files.update_eq_ok.mpr ⟨⟨f, hf, (markAsOrphan_id f).symm, (markAsOrphan_version f).symm⟩,
    fun g _ _ => ?_, ?_⟩
  · have hinactive : isActive (f.markAsOrphan now) = false := by
      unfold isActive
      rw [File.markAsOrphan_status]
      rfl
    unfold sameSlot
    rw [hinactive, Bool.and_false]
    rfl
  · exact write_congr (markAsOrphan_id f).symm (markAsOrphan_version f).symm

/-- The keys a reconcile of the tenant deletes. -/
def orphanKeys (s : Store) (tenantId : String) : List String :=
  ReconcileStorage.orphanBinaries (Files.findAllByTenant s.files tenantId)
    (s.storage.list (tenantPrefix tenantId))

/-- The files it marks. -/
def orphanRows (s : Store) (tenantId : String) : List File :=
  ReconcileStorage.orphanFiles (Files.findAllByTenant s.files tenantId) (s.storage.list (tenantPrefix tenantId))

/-- The store after a reconcile of the tenant. -/
def reconciled (tenantId : String) (now : ℕ) (s : Store) : Store :=
  { s with
    files := s.files.map fun f => if f ∈ orphanRows s tenantId then orphaned now f else f
    storage := (orphanKeys s tenantId).foldl Storage.delete s.storage }

theorem orphanRows_sublist : (orphanRows s tenantId).Sublist s.files :=
  (List.filter_sublist.trans List.filter_sublist).trans List.filter_sublist

theorem foldl_files (g : Files → File → Files) (files : List File) (s : Store) :
    files.foldl (fun s f => { s with files := g s.files f }) s = { s with files := files.foldl g s.files } := by
  induction files generalizing s with
  | nil => rfl
  | cons f files ih => exact ih { s with files := g s.files f }

theorem deletes_eq (s : Store) (keys : List String) :
    Effect.forEach FileStoragePort.delete keys s =
      (.ok ⟨⟩, { s with storage := keys.foldl Storage.delete s.storage }) := by
  have hrun : Effect.forEach FileStoragePort.delete keys s =
      (.ok ⟨⟩, keys.foldl (fun s key => { s with storage := s.storage.delete key }) s) :=
    Effect.forEach_of_ok (I := fun _ _ => True) (fun _ _ _ _ => ⟨rfl, trivial⟩) trivial
  have hfold : keys.foldl (fun s key => { s with storage := s.storage.delete key }) s =
      { s with storage := keys.foldl Storage.delete s.storage } :=
    List.foldl_hom (fun storage : Storage => { s with storage }) fun _ _ => rfl
  exact hrun.trans (by rw [hfold])

theorem marks_eq (now : ℕ) (hk : Keyed (fun f : File => f.id) s.files) {files : List File}
    (hfiles : Keyed (fun f : File => f.id) files) (hsub : files ⊆ s.files) :
    Effect.forEach (fun file => FileRepository.update (file.markAsOrphan now)) files s =
      (.ok ⟨⟩, { s with files := s.files.map fun f => if f ∈ files then orphaned now f else f }) := by
  have hrun : Effect.forEach (fun file => FileRepository.update (file.markAsOrphan now)) files s =
      (.ok ⟨⟩, files.foldl (fun s f => { s with files := write (·.id) (·.version) s.files f (orphaned now f) }) s) := by
    refine Effect.forEach_of_ok
      (I := fun s files => Keyed (fun f : File => f.id) s.files ∧ Keyed (fun f : File => f.id) files ∧
        files ⊆ s.files) ?_ ⟨hk, hfiles, hsub⟩
    rintro s f files ⟨hk, hfiles, hsub⟩
    obtain ⟨hf, hfiles'⟩ := List.nodup_cons.mp (show ((f :: files).map fun f : File => f.id).Nodup from hfiles)
    refine ⟨Effect.change_of_ok ?_, keyed_write hk (orphaned_id f), hfiles', subset_write ?_ ?_⟩
    · rw [update_orphan (hsub List.mem_cons_self)]
      rfl
    · rintro g hg (he : g.id = f.id)
      exact hf (List.mem_map.mpr ⟨g, hg, he⟩)
    · exact List.Subset.trans (List.subset_cons_self f files) hsub
  have hfold : files.foldl (fun s f => { s with files := write (·.id) (·.version) s.files f (orphaned now f) }) s =
      { s with files := s.files.map fun f => if f ∈ files then orphaned now f else f } := by
    have hwrites : files.foldl (fun rows f => write (·.id) (·.version) rows f (orphaned now f)) s.files =
        s.files.map fun f => if f ∈ files then orphaned now f else f :=
      foldl_write hk orphaned_id hfiles hsub
    rw [← hwrites]
    exact foldl_files (fun rows f => write (·.id) (·.version) rows f (orphaned now f)) files s
  exact hrun.trans (by rw [hfold])

/-- **The run of a reconcile** on a table with unique ids. -/
theorem execute_eq (hk : Keyed (fun f : File => f.id) s.files) :
    ReconcileStorage.execute tenantId false now s = (.ok ⟨⟩, reconciled tenantId now s) := by
  have hsublist : (orphanRows s tenantId).Sublist s.files := orphanRows_sublist
  have hmarks := marks_eq (s := { s with storage := (orphanKeys s tenantId).foldl Storage.delete s.storage })
    now hk (hk.sublist hsublist) hsublist.subset
  exact (Effect.bind_of_ok (deletes_eq s (orphanKeys s tenantId))).trans hmarks

/-! ## What is left -/

theorem download_reconciled (key : String) : (reconciled tenantId now s).storage.download key =
    if key ∈ orphanKeys s tenantId then none else s.storage.download key :=
  download_foldl_delete (orphanKeys s tenantId) s.storage key

theorem mem_orphanKeys {key : String} : key ∈ orphanKeys s tenantId ↔
    key ∈ s.storage.list (tenantPrefix tenantId) ∧ ¬ Named s.files tenantId key := by
  unfold orphanKeys ReconcileStorage.orphanBinaries Files.findAllByTenant Named
  simp only [List.mem_filter, Bool.not_eq_true', Bool.eq_false_iff, ne_eq, List.any_eq_true, beq_iff_eq,
    and_assoc]

theorem mem_orphanRows {f : File} : f ∈ orphanRows s tenantId ↔ f ∈ s.files ∧ f.tenantId = tenantId ∧
    f.status ≠ .deleted ∧ ∀ v ∈ f.versions, v.storageKey ∉ s.storage.list (tenantPrefix tenantId) := by
  unfold orphanRows ReconcileStorage.orphanFiles Files.findAllByTenant File.isDeleted
  simp only [List.mem_filter, List.all_eq_true, Bool.not_eq_true', beq_eq_false_iff_ne, beq_iff_eq,
    List.contains_eq_mem, decide_eq_false_iff_not, and_assoc]

/-- The rows keep their tenants and their versions. -/
theorem exists_row {f' : File} (hf' : f' ∈ (reconciled tenantId now s).files) : ∃ f ∈ s.files,
    f'.id = f.id ∧ f'.tenantId = f.tenantId ∧ f'.versions = f.versions ∧
      (f ∈ orphanRows s tenantId ∧ f'.status = .deleted ∨ f ∉ orphanRows s tenantId ∧ f' = f) := by
  obtain ⟨f, hf, rfl⟩ := List.mem_map.mp hf'
  refine ⟨f, hf, ?_⟩
  by_cases ho : f ∈ orphanRows s tenantId
  · rw [if_pos ho]
    exact ⟨orphaned_id f, markAsOrphan_tenantId f, markAsOrphan_versions f,
      Or.inl ⟨ho, File.markAsOrphan_status⟩⟩
  · rw [if_neg ho]
    exact ⟨rfl, rfl, rfl, Or.inr ⟨ho, rfl⟩⟩

theorem named_reconciled {key : String} :
    Named (reconciled tenantId now s).files tenantId key ↔ Named s.files tenantId key := by
  constructor
  · rintro ⟨f', hf', ht, v, hv, hkey⟩
    obtain ⟨f, hf, -, hft, hversions, -⟩ := exists_row hf'
    exact ⟨f, hf, hft.symm.trans ht, v, hversions ▸ hv, hkey⟩
  · rintro ⟨f, hf, ht, v, hv, hkey⟩
    refine ⟨_, List.mem_map_of_mem hf, ?_⟩
    by_cases ho : f ∈ orphanRows s tenantId
    · rw [if_pos ho]
      exact ⟨(markAsOrphan_tenantId f).trans ht, v, (markAsOrphan_versions f).symm ▸ hv, hkey⟩
    · rw [if_neg ho]
      exact ⟨ht, v, hv, hkey⟩

theorem kept_of_named {key : String} (h : Named s.files tenantId key) :
    (reconciled tenantId now s).storage.download key = s.storage.download key := by
  rw [download_reconciled, if_neg fun ho => (mem_orphanKeys.mp ho).2 h]

theorem named_of_listed {key : String}
    (h : key ∈ (reconciled tenantId now s).storage.list (tenantPrefix tenantId)) :
    Named s.files tenantId key := by
  obtain ⟨hne, hprefix⟩ := Storage.mem_list.mp h
  rw [download_reconciled] at hne
  split_ifs at hne with ho
  · exact absurd rfl hne
  · by_contra hnamed
    exact ho (mem_orphanKeys.mpr ⟨Storage.mem_list.mpr ⟨hne, hprefix⟩, hnamed⟩)

/-- A file of the tenant that is not deleted was not deleted before, and has a binary in the directory. -/
theorem live_row {f : File} (hf : f ∈ (reconciled tenantId now s).files) (ht : f.tenantId = tenantId)
    (hlive : f.status ≠ .deleted) :
    f ∈ s.files ∧ ∃ v ∈ f.versions, v.storageKey ∈ s.storage.list (tenantPrefix tenantId) := by
  obtain ⟨f₀, hf₀, -, -, -, ⟨-, hd⟩ | ⟨ho, rfl⟩⟩ := exists_row hf
  · exact absurd hd hlive
  · refine ⟨hf₀, ?_⟩
    by_contra hnone
    exact ho (mem_orphanRows.mpr ⟨hf₀, ht, hlive, fun v hv hl => hnone ⟨v, hv, hl⟩⟩)

theorem keyed_reconciled (hk : Keyed (fun f : File => f.id) s.files) :
    Keyed (fun f : File => f.id) (reconciled tenantId now s).files := by
  have hids : (reconciled tenantId now s).files.map (fun f : File => f.id) = s.files.map fun f => f.id := by
    unfold reconciled
    rw [List.map_map]
    refine List.map_congr_left fun f _ => ?_
    rw [Function.comp_apply]
    split_ifs
    · exact orphaned_id f
    · rfl
  unfold Keyed
  rw [hids]
  exact hk

/-- The download of a `READY` file serves its last version. -/
theorem getDownloadUrl_of_ready {files : Files} (hk : Keyed (fun f : File => f.id) files) {f : File}
    (hf : f ∈ files) (hready : f.status = .ready) (ports : Ports) (ttl : ℕ) :
    (GetDownloadUrl.execute ports files (some f.tenantId) ttl f.id).map (·.url) =
      .ok (ports.getSignedUrl f.latest.storageKey ttl) := by
  have hfound : Files.findById files (some f.tenantId) f.id = some f :=
    Files.findById_of_mem hk hf (beq_self_eq_true f.tenantId)
  unfold GetDownloadUrl.execute
  rw [hfound]
  simp only [File.isDeleted, File.isInfected, File.isReady, hready, File.getLatestVersion_eq]
  rfl

theorem agrees_reconciled (hk : Keyed (fun f : File => f.id) s.files) :
    Agrees tenantId s (reconciled tenantId now s) := by
  refine ⟨fun key h => named_reconciled.mpr (named_of_listed h), fun key h => kept_of_named h,
    fun f hf ht hready => ⟨?_, ?_⟩⟩
  · rw [← ht]
    exact getDownloadUrl_of_ready (ht ▸ keyed_reconciled hk) (ht ▸ hf) hready
  · have hlive : f.status ≠ .deleted := by
      rw [hready]
      exact nofun
    obtain ⟨hmem, hthere⟩ := live_row hf ht hlive
    rw [kept_of_named ⟨f, hmem, ht, f.latest, f.latest_mem, rfl⟩]
    exact ⟨fun hnone => ⟨hnone, hthere⟩, And.left⟩

/-- **A second reconcile finds nothing to do.** -/
theorem reconciled_reconciled (now' : ℕ) :
    reconciled tenantId now' (reconciled tenantId now s) = reconciled tenantId now s := by
  have hkeys : orphanKeys (reconciled tenantId now s) tenantId = [] := by
    refine List.eq_nil_iff_forall_not_mem.mpr fun key hkey => ?_
    obtain ⟨hl, hnamed⟩ := mem_orphanKeys.mp hkey
    exact hnamed (named_reconciled.mpr (named_of_listed hl))
  have hrows : orphanRows (reconciled tenantId now s) tenantId = [] := by
    refine List.eq_nil_iff_forall_not_mem.mpr fun f hf => ?_
    obtain ⟨hmem, ht, hlive, hmissing⟩ := mem_orphanRows.mp hf
    obtain ⟨hmem', v, hv, hl⟩ := live_row hmem ht hlive
    obtain ⟨hne, hprefix⟩ := Storage.mem_list.mp hl
    have hkept : (reconciled tenantId now s).storage.download v.storageKey = s.storage.download v.storageKey :=
      kept_of_named ⟨f, hmem', ht, v, hv, rfl⟩
    rw [← hkept] at hne
    exact hmissing v hv (Storage.mem_list.mpr ⟨hne, hprefix⟩)
  rw [reconciled, hkeys, hrows]
  simp

/-- **A reconcile restores the agreement** of the storage and the rows of the tenant, a second one changes
nothing, and a dry run changes nothing. -/
theorem reconcile_agrees (hk : Keyed (fun f : File => f.id) s.files) (tenantId : String) (now : ℕ) :
    (∃ s', ReconcileStorage.execute tenantId false now s = (.ok ⟨⟩, s') ∧ Agrees tenantId s s' ∧
      ∀ now', ReconcileStorage.execute tenantId false now' s' = (.ok ⟨⟩, s')) ∧
    ReconcileStorage.execute tenantId true now s = (.ok ⟨⟩, s) := by
  refine ⟨⟨reconciled tenantId now s, execute_eq hk, agrees_reconciled hk, fun now' => ?_⟩, rfl⟩
  rw [execute_eq (keyed_reconciled hk), reconciled_reconciled]

end Run

/-! ## A file with one of its two binaries -/

/-- The first version of the file. -/
def version₁ : FileVersion :=
  ⟨{ version := 1, name := "cv.pdf", extension := ".pdf", mimeType := "application/pdf",
     storageKey := "tenants/t/files/f/v1/cv.pdf", size := 6, checksum := "21af8e71", scans := [], createdAt := 1 },
    by decide⟩

/-- The second one. -/
def version₂ : FileVersion :=
  ⟨{ version₁.toFileVersionParams with version := 2, storageKey := "tenants/t/files/f/v2/cv.pdf" }, by decide⟩

/-- The props of a ready file with the versions. -/
def readyProps (id : String) (versions : List FileVersion) : FileProps :=
  { id, tenantId := "t", ownerId := "u", name := "cv.pdf", extension := ".pdf", mimeType := "application/pdf",
    size := 6, purpose := .document, status := .ready, resourceType := "USER", resourceId := id, versions,
    version := 3, createdAt := 1, updatedAt := 1, deletedAt := none }

/-- The second binary of it is missing. -/
def partFile : File :=
  ⟨readyProps "f" [version₁, version₂], by decide, by decide, by decide, by decide, by decide⟩

/-- None of its binaries is there. -/
def lostFile : File :=
  ⟨readyProps "g" [⟨{ version₁.toFileVersionParams with storageKey := "tenants/t/files/g/v1/cv.pdf" }, by decide⟩],
    by decide, by decide, by decide, by decide, by decide⟩

/-- Two ready files, and a binary of neither. -/
def partStore : Store :=
  { files := [partFile, lostFile], quotas := fun _ => none,
    storage := Storage.upload (Storage.upload ∅ "tenants/t/files/f/v1/cv.pdf" [37])
      "tenants/t/files/h/v1/old.pdf" [37],
    jobs := [] }

theorem reconcile_agrees_part :
    ((∃ s', ReconcileStorage.execute "t" false 2 partStore = (.ok ⟨⟩, s') ∧ Agrees "t" partStore s' ∧
        ∀ now', ReconcileStorage.execute "t" false now' s' = (.ok ⟨⟩, s')) ∧
      ReconcileStorage.execute "t" true 2 partStore = (.ok ⟨⟩, partStore)) ∧
    (reconciled "t" 2 partStore).files.map (·.status) = [.ready, .deleted] ∧
    (reconciled "t" 2 partStore).storage.list (tenantPrefix "t") = ["tenants/t/files/f/v1/cv.pdf"] :=
  ⟨reconcile_agrees (by decide +kernel) "t" 2, by decide +kernel, by decide +kernel⟩

theorem ready_without_served : ¬ ∀ (s : Store) (tenantId : String) (now : ℕ) (s' : Store),
    Keyed (fun f : File => f.id) s.files → ReconcileStorage.execute tenantId false now s = (.ok ⟨⟩, s') →
      ∀ f ∈ s'.files, f.tenantId = tenantId → f.status = .ready →
        s'.storage.download f.latest.storageKey ≠ none := by
  intro h
  have hk : Keyed (fun f : File => f.id) partStore.files := by decide +kernel
  have hmem : partFile ∈ (reconciled "t" 2 partStore).files := by decide +kernel
  exact h partStore "t" 2 _ hk (execute_eq hk) partFile hmem rfl rfl (by decide +kernel)

end Neltrik.FileStorage.Agreement
