import Neltrik.FileStorage.Usage

/-! # The counter of a quota and the files of its tenant

The operations of the module as steps of one machine, each run to its end before the next one starts.
`Exact` says that the counter of every tenant is the sum of the sizes of its files that are not
deleted. Every operation keeps it (`Sound.after`) but one: a reconcile that marks a file as an orphan
takes it to `DELETED` and leaves the counter as it was (`not_exact_of_orphans`).

`usage_exact_iff`: the counters are exact in every state of a run exactly when no reconcile of the
run finds a file without any of its binaries. -/

namespace Neltrik.FileStorage.Accounting

open Neltrik.Lib Neltrik.Lib.Machine Neltrik.Lib.Table Neltrik.Lib.Effect
open Neltrik.FileStorage.Domain Neltrik.FileStorage.Persistence Neltrik.FileStorage.Validation
open Neltrik.FileStorage.UseCases Neltrik.FileStorage.System Neltrik.FileStorage.Rows

/-! ## Operations -/

inductive Op where
  | upload (input : UploadFileInput) (quotaId fileId : String) (now : ℕ)
  | replace (scope : Option String) (input : ReplaceFileInput) (now : ℕ)
  | rename (scope : Option String) (fileId name : String) (now : ℕ)
  | changeResource (scope : Option String) (fileId resourceType resourceId : String) (now : ℕ)
  | delete (scope : Option String) (fileId : String) (now : ℕ)
  | adjustLimit (tenantId : String) (newLimitBytes now : ℕ)
  | scan (antivirus : Bytes → AntivirusScan) (input : ScanFilePayload) (now : ℕ)
  | rescan (antivirus : Bytes → AntivirusScan) (tenantId : String) (ageDays : ℕ) (dryRun : Bool)
      (now : ℕ)
  | reconcile (tenantId : String) (dryRun : Bool) (now : ℕ)
  | purge (tenantId : String) (graceDays : ℕ) (dryRun : Bool) (now : ℕ)

/-- The store after an operation, whether it returned or threw. -/
def Op.after (ports : Ports) (s : Store) : Op → Store
  | upload input quotaId fileId now => (UploadFile.execute ports input quotaId fileId now s).2
  | replace scope input now => (ReplaceFile.execute ports scope input now s).2
  | rename scope fileId name now => (RenameFile.execute scope fileId name now s).2
  | changeResource scope fileId resourceType resourceId now =>
    (ChangeFileResource.execute scope fileId resourceType resourceId now s).2
  | delete scope fileId now => (DeleteFile.execute scope fileId now s).2
  | adjustLimit tenantId newLimitBytes now =>
    (AdjustQuotaLimit.execute tenantId newLimitBytes now s).2
  | scan antivirus input now => (ScanFile.execute antivirus input now s).2
  | rescan antivirus tenantId ageDays dryRun now =>
    (RescanFiles.execute antivirus tenantId ageDays dryRun now s).2
  | reconcile tenantId dryRun now => (ReconcileStorage.execute tenantId dryRun now s).2
  | purge tenantId graceDays dryRun now => (PurgeDeletedFiles.execute tenantId graceDays dryRun now s).2

/-- Every operation is enabled in every state. -/
def opStep (ports : Ports) (s : Store) (op : Op) : Option Store := some (op.after ports s)

/-! ## The use cases -/

/-- An operation keeps the invariant, whether it returns or throws. -/
abbrev Keeps {α : Type} (m : UseCase α) : Prop := Triple Sound m (fun _ => Sound) (fun _ => Sound)

section
variable {ports : Ports} {P : Store → Prop}

theorem triple_findById {scope : Option String} {id : String} : Triple P (FileRepository.findById scope id)
    (fun o s => P s ∧ o = Files.findById s.files scope id) (fun _ => P) := by
  refine Triple.bind (R := fun s₀ s => P s ∧ s₀ = s) (Triple.read fun s hs => ⟨hs, rfl⟩) fun s₀ => ?_
  exact Triple.pure fun s hs => ⟨hs.1, by rw [hs.2]⟩

theorem triple_findFile {scope : Option String} {id : String} : Triple P (findFile scope id)
    (fun f s => P s ∧ f ∈ s.files) (fun _ => P) := by
  refine Triple.bind triple_findById fun o => ?_
  cases o with
  | none => exact Triple.throw fun s hs => hs.1
  | some f => exact Triple.pure fun s hs => ⟨hs.1, (Files.findById_some hs.2.symm).1⟩

/-- What is said of the two tables alone. -/
def OfTables (P : Store → Prop) : Prop :=
  ∀ s s', s'.files = s.files → s'.quotas = s.quotas → P s → P s'

theorem ofTables_sound : OfTables Sound := fun _ _ hf hq h => h.congr hf hq

/-- A change outside of the tables, which is never refused. -/
theorem triple_outside (hP : OfTables P) {g : Store → Store} {E : FileError → Store → Prop}
    (hf : ∀ s, (g s).files = s.files) (hq : ∀ s, (g s).quotas = s.quotas) :
    Triple P (Effect.change fun s => .ok (g s)) (fun _ => P) E := by
  refine Triple.change (fun s s' hs h => ?_) fun s e _ h => nomatch h
  cases h
  exact hP s _ (hf s) (hq s) hs

theorem triple_storage_upload (hP : OfTables P) {key : String} {buffer : Bytes}
    {E : FileError → Store → Prop} : Triple P (FileStoragePort.upload key buffer) (fun _ => P) E :=
  triple_outside hP (fun _ => rfl) fun _ => rfl

theorem triple_storage_delete (hP : OfTables P) {key : String} {E : FileError → Store → Prop} :
    Triple P (FileStoragePort.delete key) (fun _ => P) E :=
  triple_outside hP (fun _ => rfl) fun _ => rfl

theorem triple_enqueueScan (hP : OfTables P) {payload : ScanFilePayload}
    {E : FileError → Store → Prop} : Triple P (enqueueScan payload) (fun _ => P) E :=
  triple_outside hP (fun _ => rfl) fun _ => rfl

theorem triple_download {key : String} :
    Triple P (FileStoragePort.download key) (fun _ => P) (fun _ => P) := by
  refine Triple.bind (R := fun _ => P) (Triple.read fun s hs => hs) fun s₀ => ?_
  cases s₀.storage.download key with
  | none => exact Triple.throw fun s hs => hs
  | some b => exact Triple.pure fun s hs => hs

theorem triple_verifyQuotaLimit {tenantId : String} {size : ℕ} :
    Triple P (verifyQuotaLimit tenantId size) (fun _ => P) (fun _ => P) :=
  Triple.bind (R := fun _ => P) (Triple.read fun _ hs => hs) fun _ =>
    Triple.lift (fun _ _ _ hs => hs) fun _ _ _ hs => hs

theorem keeps_createOrGetQuota {quotaId tenantId : String} {now : ℕ} :
    Keeps (createOrGetQuota quotaId tenantId now) := by
  refine Triple.change (fun s s' hs h => ?_) fun s e hs _ => hs
  obtain ⟨quotas, hq, rfl⟩ := except_map_eq_ok.mp h
  rcases Quotas.createOrGet_eq_ok hq with rfl | ⟨q, hnone, ht, hu, rfl⟩
  · exact hs
  · refine ⟨hs.tidy, hs.keyed.update ht, fun t => ?_⟩
    have hex := hs.exact t
    by_cases hne : t = tenantId
    · have hzero : s.quotas.used t = 0 := by rw [Quotas.used, hne, hnone]; rfl
      rw [← hex, hzero, hne]
      exact (Quotas.used_update_self _ _ _).trans hu
    · exact (Quotas.used_update_of_ne _ _ hne).trans hex

/-! ### Upload and replace -/

/-- The invariant, and the file a replace has read is a row. -/
def Ready (r : Request) (s : Store) : Prop := Sound s ∧ ∀ c ∈ r.copies, c ∈ s.files

theorem ofTables_ready (r : Request) : OfTables (Ready r) := fun _ _ hf hq h =>
  ⟨h.1.congr hf hq, hf ▸ h.2⟩

theorem triple_persistAndEnqueue {r : Request} {now : ℕ} :
    Triple (Ready r) (r.persistAndEnqueue ports now) (fun _ => Sound) (fun _ => Ready r) := by
  refine Triple.atomically (F := fun _ _ _ => True) (fun s₀ h₀ => ?_) fun s₀ e s h₀ _ =>
    ofTables_ready r s₀ _ rfl rfl h₀
  refine Triple.bind (R := fun g s => s = s₀ ∧ r.row ports now = .ok g)
    (Triple.lift (fun g hg s hs => ⟨hs, hg⟩) fun _ _ _ _ => trivial) fun g => ?_
  refine Triple.bind (R := fun _ s => r.row ports now = .ok g ∧
    ∃ files, r.save s₀.files g = .ok files ∧ s = { s₀ with files }) ?_ fun _ => ?_
  · refine Triple.change (fun s s' hs h => ?_) fun _ _ _ _ => trivial
    obtain ⟨rfl, hg⟩ := hs
    obtain ⟨files, hf, rfl⟩ := except_map_eq_ok.mp h
    exact ⟨hg, files, hf, rfl⟩
  refine Triple.bind (R := fun _ => Sound) ?_ fun _ => ?_
  · refine Triple.change (fun s s' hs h => ?_) fun _ _ _ _ => trivial
    obtain ⟨hg, files, hf, rfl⟩ := hs
    obtain ⟨quotas, hq, rfl⟩ := except_map_eq_ok.mp h
    exact h₀.1.save h₀.2 hg hf hq
  refine Triple.bind (R := fun _ => Sound) (triple_enqueueScan ofTables_sound) fun _ => ?_
  exact Triple.pure fun _ hs => hs

theorem triple_uploadAndPersist {r : Request} {now : ℕ} :
    Triple (Ready r) (r.uploadAndPersist ports now) (fun _ => Sound) (fun _ => Sound) := by
  refine Triple.bind (R := fun _ => Ready r) (triple_storage_upload (ofTables_ready r)) fun _ => ?_
  refine Triple.onError triple_persistAndEnqueue fun _ => ?_
  exact (triple_storage_delete (ofTables_ready r)).conseq (fun _ => id) (fun _ _ h => h.1)
    fun _ _ h => h

theorem keeps_upload {input : UploadFileInput} {quotaId fileId : String} {now : ℕ} :
    Keeps (UploadFile.execute ports input quotaId fileId now) := by
  refine Triple.bind (R := fun _ => Sound) (Triple.read fun _ hs => hs) fun s₀ => ?_
  refine Triple.bind (R := fun _ => Sound) (Triple.lift (fun _ _ _ hs => hs) fun _ _ _ hs => hs)
    fun _ => ?_
  refine Triple.bind (R := fun _ => Sound) keeps_createOrGetQuota fun _ => ?_
  refine Triple.bind (R := fun _ => Sound) triple_verifyQuotaLimit fun fits => ?_
  refine Triple.ite (fun _ => ?_) fun _ => Triple.throw fun _ hs => hs
  have hready : ∀ s, Sound s → Ready (.upload input fileId) s := fun _ hs => ⟨hs, fun _ hc => nomatch hc⟩
  exact triple_uploadAndPersist.conseq hready (fun _ _ => id) fun _ _ => id

theorem keeps_replace {scope : Option String} {input : ReplaceFileInput} {now : ℕ} :
    Keeps (ReplaceFile.execute ports scope input now) := by
  refine Triple.bind (R := fun s₀ s => Sound s ∧ s₀ = s) (Triple.read fun _ hs => ⟨hs, rfl⟩) fun s₀ => ?_
  refine Triple.bind (R := fun file s => Sound s ∧ file ∈ s.files) ?_ fun file => ?_
  · exact Triple.lift (fun file hf s hs => ⟨hs.1, hs.2 ▸ ensureReplaceable_mem hf⟩) fun _ _ _ hs => hs.1
  refine Triple.bind (R := fun _ s => Sound s ∧ file ∈ s.files)
    (triple_verifyQuotaLimit.conseq (fun _ => id) (fun _ _ => id) fun _ _ h => h.1) fun fits => ?_
  refine Triple.ite (fun _ => ?_) fun _ => Triple.throw fun _ hs => hs.1
  have hready : ∀ s, Sound s ∧ file ∈ s.files → Ready (.replace input file) s := fun _ hs =>
    ⟨hs.1, List.forall_mem_singleton.mpr hs.2⟩
  exact triple_uploadAndPersist.conseq hready (fun _ _ => id) fun _ _ => id

/-! ### Changes of one file -/

/-- Only a delete and an orphan take a file to `DELETED`. -/
theorem live_of_apply {f g : File} {edit : Edit} {now : ℕ} (h : edit.apply f now = .ok g)
    (hd : edit ≠ .delete) (ho : edit ≠ .orphan) (hg : g.status = .deleted) : f.status = .deleted := by
  cases edit with
  | rename newName =>
    obtain ⟨-, -, hp⟩ := File.rename_eq_ok.mp h
    rw [hp] at hg; exact hg
  | changeResource resourceType resourceId =>
    obtain ⟨-, -, -, hp⟩ := File.changeResource_eq_ok.mp h
    rw [hp] at hg; exact hg
  | delete => exact absurd rfl hd
  | scan answer =>
    obtain ⟨g₁, h₁, ⟨-, h⟩ | ⟨-, -, h⟩ | ⟨-, -, rfl⟩⟩ := scanVerdict_cases h
    · obtain ⟨-, hp⟩ := File.markReady_eq_ok.mp h
      rw [hp] at hg; cases hg
    · obtain ⟨-, hp⟩ := File.markInfected_eq_ok.mp h
      rw [hp] at hg; cases hg
    · exact (latest_scans_of_addScan h₁).2.symm.trans hg
  | rescan answer =>
    obtain ⟨g₁, h₁, ⟨-, h⟩ | ⟨-, rfl⟩⟩ := rescanVerdict_cases h
    · obtain ⟨-, hp⟩ := File.markAsInfectedByRescan_eq_ok.mp h
      rw [hp] at hg; cases hg
    · exact (latest_scans_of_addScan h₁).2.symm.trans hg
  | orphan => exact absurd rfl ho

/-- The invariant, and each of the files is a row or an earlier state of one. -/
def Tracked (files : List File) (s : Store) : Prop := Sound s ∧ ∀ c ∈ files, IsBehind s.files c

theorem tracked_of_mem {s : Store} {f : File} (h : Sound s ∧ f ∈ s.files) : Tracked [f] s :=
  ⟨h.1, List.forall_mem_singleton.mpr (OptimisticLock.behind_of_mem h.2)⟩

/-- An edit of a file that was read, and its conditional update. -/
theorem triple_saveEdit {files : List File} {f : File} {edit : Edit} {now : ℕ} (hf : f ∈ files)
    (hd : edit ≠ .delete) (ho : edit ≠ .orphan) :
    Triple (Tracked files) (Effect.lift (edit.apply f now) >>= FileRepository.update)
      (fun _ => Tracked files) (fun _ => Tracked files) := by
  refine Triple.bind (R := fun g s => Tracked files s ∧ edit.apply f now = .ok g)
    (Triple.lift (fun g hg s hs => ⟨hs, hg⟩) fun _ _ _ hs => hs) fun g => ?_
  refine Triple.assume fun hg => Triple.change (fun s s' hs h => ?_) fun _ _ hs _ => hs
  obtain ⟨files', hu, rfl⟩ := except_map_eq_ok.mp h
  obtain ⟨hsound, hbehind⟩ := hs
  have he := edited_of_apply hg
  have hmem := hsound.tidy.mem_of_update (hbehind f hf) he.id he.version hu
  refine ⟨hsound.edit hmem he (live_of_apply hg hd ho) hu, fun c hc => ?_⟩
  exact hsound.tidy.behind_update (hbehind f hf) he.id he.version he.later hu (hbehind c hc)

theorem triple_saveRow {f : File} {edit : Edit} {now : ℕ} (hd : edit ≠ .delete) (ho : edit ≠ .orphan) :
    Triple (fun s => Sound s ∧ f ∈ s.files) (Effect.lift (edit.apply f now) >>= FileRepository.update)
      (fun _ => Sound) (fun _ => Sound) :=
  (triple_saveEdit (List.mem_singleton.mpr rfl) hd ho).conseq (fun _ => tracked_of_mem)
    (fun _ _ h => h.1) fun _ _ h => h.1

theorem keeps_rename {scope : Option String} {fileId name : String} {now : ℕ} :
    Keeps (RenameFile.execute scope fileId name now) :=
  Triple.bind triple_findFile fun f => @triple_saveRow f (.rename name) now nofun nofun

theorem keeps_changeResource {scope : Option String} {fileId resourceType resourceId : String} {now : ℕ} :
    Keeps (ChangeFileResource.execute scope fileId resourceType resourceId now) := by
  refine Triple.bind triple_findFile fun f => ?_
  refine Triple.bind (R := fun _ s => Sound s ∧ f ∈ s.files) (Triple.read fun _ hs => hs) fun s₀ => ?_
  refine Triple.ite (fun _ => Triple.throw fun _ hs => hs.1) fun _ => ?_
  exact @triple_saveRow f (.changeResource resourceType resourceId) now nofun nofun

theorem keeps_delete {scope : Option String} {fileId : String} {now : ℕ} :
    Keeps (DeleteFile.execute scope fileId now) := by
  refine Triple.atomically (F := fun _ _ _ => True) (fun s₀ h₀ => ?_) fun s₀ e s h₀ _ =>
    h₀.congr rfl rfl
  refine Triple.bind (triple_findFile.conseq (fun _ => id) (fun _ _ => id) fun _ _ _ => trivial)
    fun f => ?_
  refine Triple.bind (R := fun g s => (s = s₀ ∧ f ∈ s.files) ∧ f.delete now = .ok g)
    (Triple.lift (fun g hg s hs => ⟨hs, hg⟩) fun _ _ _ _ => trivial) fun g => ?_
  refine Triple.assume fun hg => ?_
  refine Triple.bind (R := fun _ s => f ∈ s₀.files ∧
    ∃ files, Files.update s₀.files g = .ok files ∧ s = { s₀ with files }) ?_ fun _ => ?_
  · refine Triple.change (fun s s' hs h => ?_) fun _ _ _ _ => trivial
    obtain ⟨rfl, hf⟩ := hs
    obtain ⟨files, hu, rfl⟩ := except_map_eq_ok.mp h
    exact ⟨hf, files, hu, rfl⟩
  · refine Triple.change (fun s s' hs h => ?_) fun _ _ _ _ => trivial
    obtain ⟨hf, files, hu, rfl⟩ := hs
    obtain ⟨quotas, hq, rfl⟩ := except_map_eq_ok.mp h
    exact h₀.delete hf hg hu hq

/-- The row that is written has the counter that was read. -/
theorem Sound.adjust {s : Store} {quotas : Quotas} {t : String} {q q' : FileQuota} {n now : ℕ}
    (h : Sound s) (hq : s.quotas t = some q) (ha : AdjustQuotaLimit.adjusted q n now = .ok q')
    (hu : Quotas.update s.quotas q' = .ok quotas) : Sound { s with quotas } := by
  obtain ⟨-, -, ht, hused, -⟩ := AdjustQuotaLimit.adjusted_eq_ok ha
  obtain ⟨row, -, -, rfl⟩ := Quotas.update_eq_ok hu
  have hqt : q'.tenantId = t := ht.trans (h.keyed t q hq)
  refine ⟨h.tidy, h.keyed.update rfl, fun t' => ?_⟩
  have hex := h.exact t'
  by_cases hne : t' = q'.tenantId
  · rw [hne, hqt, Quotas.used_of_some hq] at hex
    rw [hne, hqt]
    exact (Quotas.used_update_self _ _ _).trans (hused.trans hex)
  · exact (Quotas.used_update_of_ne _ _ hne).trans hex

theorem keeps_adjustLimit {tenantId : String} {newLimitBytes now : ℕ} :
    Keeps (AdjustQuotaLimit.execute tenantId newLimitBytes now) := by
  refine Triple.bind (R := fun s₀ s => Sound s ∧ s₀ = s) (Triple.read fun _ hs => ⟨hs, rfl⟩) fun s₀ => ?_
  cases hq : s₀.quotas tenantId with
  | none => exact Triple.throw fun _ hs => hs.1
  | some q =>
    refine Triple.bind
      (R := fun q' s => (Sound s ∧ s₀ = s) ∧ AdjustQuotaLimit.adjusted q newLimitBytes now = .ok q')
      (Triple.lift (fun _ ha _ hs => ⟨hs, ha⟩) fun _ _ _ hs => hs.1) fun q' => ?_
    refine Triple.assume fun ha => Triple.change (fun s s' hs h => ?_) fun _ _ hs _ => hs.1
    obtain ⟨hsound, rfl⟩ := hs
    obtain ⟨quotas, hu, rfl⟩ := except_map_eq_ok.mp h
    exact hsound.adjust hq ha hu

/-! ### The jobs -/

theorem keeps_scan {antivirus : Bytes → AntivirusScan} {input : ScanFilePayload} {now : ℕ} :
    Keeps (ScanFile.execute antivirus input now) := by
  refine Triple.bind triple_findById fun found => ?_
  refine Triple.bind (R := fun r s => Sound s ∧ ∀ f, r = some f → f ∈ s.files) ?_ fun r => ?_
  · refine Triple.lift (fun r hr s hs => ⟨hs.1, ?_⟩) fun _ _ _ hs => hs.1
    rintro f rfl
    obtain ⟨hf, -⟩ := select_eq_ok.mp hr
    exact (Files.findById_some (hs.2 ▸ hf)).1
  · cases r with
    | none => exact Triple.pure fun _ hs => hs.1
    | some f =>
      refine Triple.bind (R := fun _ s => Sound s ∧ f ∈ s.files) ?_ fun buffer => ?_
      · exact (triple_download (P := fun s => Sound s ∧ f ∈ s.files)).conseq
          (fun s hs => ⟨hs.1, hs.2 f rfl⟩) (fun _ _ => id) fun _ _ hs => hs.1
      · exact @triple_saveRow f (.scan (antivirus buffer)) now nofun nofun

theorem keeps_rescan {antivirus : Bytes → AntivirusScan} {tenantId : String} {ageDays : ℕ}
    {dryRun : Bool} {now : ℕ} : Keeps (RescanFiles.execute antivirus tenantId ageDays dryRun now) := by
  refine Triple.bind (R := fun s₀ s => Sound s ∧ s₀ = s) (Triple.read fun _ hs => ⟨hs, rfl⟩) fun s₀ => ?_
  refine Triple.ite (fun _ => Triple.pure fun _ hs => hs.1) fun _ => ?_
  have hloop : ∀ files, Triple (Tracked files) (Effect.forEach (RescanFiles.rescan antivirus now) files)
      (fun _ => Tracked files) (fun _ => Tracked files) := fun files =>
    Triple.forEach fun f hf => Triple.bind triple_download fun buffer =>
      @triple_saveEdit files f (.rescan (antivirus buffer)) now hf nofun nofun
  refine (hloop _).conseq ?_ (fun _ _ h => h.1) fun _ _ h => h.1
  rintro s ⟨hs, rfl⟩
  exact ⟨hs, fun c hc => OptimisticLock.behind_of_mem (List.mem_filter.mp hc).1⟩

theorem keeps_purge {tenantId : String} {graceDays : ℕ} {dryRun : Bool} {now : ℕ} :
    Keeps (PurgeDeletedFiles.execute tenantId graceDays dryRun now) := by
  refine Triple.bind (R := fun _ => Sound) (Triple.read fun _ hs => hs) fun s₀ => ?_
  refine Triple.ite (fun _ => Triple.pure fun _ hs => hs) fun _ => ?_
  exact Triple.forEach fun key _ => triple_storage_delete ofTables_sound

/-- The files a reconcile finds that are not deleted and have none of their binaries. -/
def orphans (s : Store) (tenantId : String) : List File :=
  ReconcileStorage.orphanFiles (Files.findAllByTenant s.files tenantId)
    (s.storage.list (tenantPrefix tenantId))

theorem triple_reconcile {tenantId : String} {dryRun : Bool} {now : ℕ} :
    Triple (fun s => Sound s ∧ (dryRun = false → orphans s tenantId = []))
      (ReconcileStorage.execute tenantId dryRun now) (fun _ => Sound) (fun _ => Sound) := by
  refine Triple.bind
    (R := fun s₀ s => Sound s ∧ (dryRun = false → orphans s₀ tenantId = []))
    (Triple.read fun _ hs => hs) fun s₀ => ?_
  refine Triple.ite (fun _ => Triple.pure fun _ hs => hs.1) fun hdry => ?_
  refine Triple.assume fun hnone => ?_
  refine Triple.bind (R := fun _ => Sound)
    (Triple.forEach fun key _ => triple_storage_delete ofTables_sound) fun _ => ?_
  have hnil := hnone (by simpa using hdry)
  unfold orphans at hnil
  rw [hnil]
  exact Triple.pure fun _ hs => hs

/-! ### Orphans -/

/-- The files of the tenant take less room than what is counted for it. -/
structure Leaked (tenantId : String) (quotas : Quotas) (n : ℕ) (s : Store) : Prop where
  tidy : Tidy s.files
  quotas : s.quotas = quotas
  less : storedBytes s.files tenantId < n

variable {t : String} {quotas : Quotas} {n now : ℕ} {f : File}

theorem edited_markAsOrphan : Edited f (f.markAsOrphan now) :=
  edited_of_apply (show Edit.apply f now .orphan = .ok _ from rfl)

/-- The files that follow can only take away more. -/
theorem triple_leaked : Triple (Leaked t quotas n) (FileRepository.update (f.markAsOrphan now))
    (fun _ => Leaked t quotas n) (fun _ => Leaked t quotas n) := by
  refine Triple.change (fun s s' hs h => ?_) fun _ _ hs _ => hs
  obtain ⟨files, hu, rfl⟩ := except_map_eq_ok.mp h
  obtain ⟨⟨r, hr, hid, hver⟩, -, -⟩ := Files.update_eq_ok.mp hu
  have hsum := storedBytes_update hs.tidy hu hr hid hver t
  rw [share_of_deleted File.markAsOrphan_status] at hsum
  have hless := hs.less
  exact ⟨hs.tidy.update hu, hs.quotas, by dsimp only; omega⟩

/-- What is counted, and the first orphan still there. -/
structure Counted (tenantId : String) (quotas : Quotas) (n : ℕ) (f : File) (s : Store) : Prop where
  tidy : Tidy s.files
  quotas : s.quotas = quotas
  stored : storedBytes s.files tenantId = n
  mem : f ∈ s.files

theorem ofTables_counted : OfTables (Counted t quotas n f) := fun _ _ hf hq h =>
  ⟨hf ▸ h.tidy, hq.trans h.quotas, hf ▸ h.stored, hf ▸ h.mem⟩

/-- The first one is marked and takes its bytes away. -/
theorem triple_markAsOrphan (ht : f.tenantId = t) (hlive : f.status ≠ .deleted) :
    Triple (Counted t quotas n f) (FileRepository.update (f.markAsOrphan now))
      (fun _ => Leaked t quotas n) (fun _ => Leaked t quotas n) := by
  have he := @edited_markAsOrphan now f
  refine Triple.change (fun s s' hs h => ?_) fun s e hs h => ?_
  · obtain ⟨files, hu, rfl⟩ := except_map_eq_ok.mp h
    have hsum := storedBytes_update hs.tidy hu hs.mem he.id.symm he.version.symm t
    rw [share_of_deleted File.markAsOrphan_status, share_of_live hlive, if_pos ht, hs.stored] at hsum
    have hpos := f.getTotalSize_pos
    exact ⟨hs.tidy.update hu, hs.quotas, by dsimp only; omega⟩
  · have hslot : ∀ r ∈ s.files, r.id ≠ (f.markAsOrphan now).id →
        sameSlot r (f.markAsOrphan now) = false := by
      intro r _ _
      simp [sameSlot, isActive]
    rw [Files.update_eq_ok.mpr ⟨⟨f, hs.mem, he.id.symm, he.version.symm⟩, hslot, rfl⟩] at h
    cases h

theorem of_mem_orphans {s : Store} (h : f ∈ orphans s t) :
    f ∈ s.files ∧ f.tenantId = t ∧ f.status ≠ .deleted := by
  obtain ⟨h, -⟩ := List.mem_filter.mp h
  obtain ⟨h, hdel⟩ := List.mem_filter.mp h
  obtain ⟨hf, ht⟩ := List.mem_filter.mp h
  exact ⟨hf, by simpa using ht, by simpa [File.isDeleted] using hdel⟩

theorem triple_reconcile_leaks {rest : List File} (ht : f.tenantId = t) (hlive : f.status ≠ .deleted) :
    Triple (fun s => Counted t quotas n f s ∧ orphans s t = f :: rest)
      (ReconcileStorage.execute t false now) (fun _ => Leaked t quotas n)
      (fun _ => Leaked t quotas n) := by
  refine Triple.bind (R := fun s₀ s => Counted t quotas n f s ∧ orphans s₀ t = f :: rest)
    (Triple.read fun _ h => h) fun s₀ => ?_
  refine Triple.ite (fun hd => nomatch hd) fun _ => Triple.assume fun ho => ?_
  refine Triple.bind (R := fun _ => Counted t quotas n f)
    (Triple.forEach fun _ _ => triple_storage_delete ofTables_counted) fun _ => ?_
  unfold orphans at ho
  rw [ho]
  exact Triple.bind (triple_markAsOrphan ht hlive) fun _ => Triple.forEach fun _ _ => triple_leaked

/-- **A reconcile that marks an orphan breaks the equation** of its tenant. -/
theorem not_exact_of_orphans {s : Store} (hs : Sound s) (ho : orphans s t ≠ []) :
    ¬ Exact (ReconcileStorage.execute t false now s).2 := by
  obtain ⟨f, rest, hcons⟩ := List.exists_cons_of_ne_nil ho
  have hm : f ∈ orphans s t := by rw [hcons]; exact List.mem_cons_self
  obtain ⟨hf, ht, hlive⟩ := of_mem_orphans hm
  have hleak := (@triple_reconcile_leaks t s.quotas (storedBytes s.files t) now f rest ht hlive).snd
    ⟨⟨hs.tidy, rfl, rfl, hf⟩, hcons⟩
  intro hex
  have hused := hex t
  have hless := hleak.less
  rw [hleak.quotas, hs.exact t] at hused
  omega

end

/-! ## Runs -/

/-- A reconcile that is not a dry run finds no orphan. -/
def FindsNoOrphan (s : Store) : Op → Prop
  | .reconcile tenantId false _ => orphans s tenantId = []
  | _ => True

theorem Sound.after {ports : Ports} {s : Store} {op : Op} (hs : Sound s) (ho : FindsNoOrphan s op) :
    Sound (op.after ports s) := by
  cases op with
  | upload => exact keeps_upload.snd hs
  | replace => exact keeps_replace.snd hs
  | rename => exact keeps_rename.snd hs
  | changeResource => exact keeps_changeResource.snd hs
  | delete => exact keeps_delete.snd hs
  | adjustLimit => exact keeps_adjustLimit.snd hs
  | scan => exact keeps_scan.snd hs
  | rescan => exact keeps_rescan.snd hs
  | reconcile tenantId dryRun now =>
    refine triple_reconcile.snd ⟨hs, fun hd => ?_⟩
    rw [hd] at ho
    exact ho
  | purge => exact keeps_purge.snd hs

theorem exact_after_iff {ports : Ports} {s : Store} {op : Op} (hs : Sound s) :
    Exact (op.after ports s) ↔ FindsNoOrphan s op := by
  refine ⟨fun hex => ?_, fun ho => (hs.after ho).exact⟩
  by_contra hno
  cases op with
  | reconcile tenantId dryRun now =>
    cases dryRun with
    | true => exact hno trivial
    | false => exact not_exact_of_orphans hs hno hex
  | _ => exact hno trivial

theorem exists_run (ports : Ports) (s : Store) (ops : List Op) :
    ∃ s', run (opStep ports) s ops = some s' := by
  induction ops generalizing s with
  | nil => exact ⟨s, rfl⟩
  | cons op ops ih => exact ih (op.after ports s)

/-- **The counters are exact in every state exactly when** no reconcile finds an orphan. -/
theorem usage_exact_iff {ports : Ports} {s : Store} {ops : List Op} (hs : Sound s) :
    AllStates (opStep ports) Exact s ops ↔ AllSteps (opStep ports) FindsNoOrphan s ops := by
  obtain ⟨s', hr⟩ := exists_run ports s ops
  refine allStates_iff_allSteps (C := fun _ _ => True) (I := Sound) ?_ ?_ hs hs.exact
    (allSteps_of_forall (fun _ _ _ => trivial) s) hr
  · rintro s op s' hs - - ho h
    cases h
    exact hs.after ho
  · rintro s op s' hs - - h
    cases h
    exact exact_after_iff hs

/-! ### A file whose binary is gone -/

def emptyStore : Store := emptySystem.world.toStore

theorem sound_emptyStore : Sound emptyStore := ⟨tidy_nil, nofun, fun _ => rfl⟩

/-- `FindsNoOrphan` by evaluation. -/
def findsNoOrphan (s : Store) : Op → Bool
  | .reconcile tenantId false _ => (orphans s tenantId).isEmpty
  | _ => true

theorem findsNoOrphan_sound (s : Store) (op : Op) (h : findsNoOrphan s op = true) :
    FindsNoOrphan s op := by
  cases op with
  | reconcile tenantId dryRun now =>
    cases dryRun with
    | true => trivial
    | false => exact List.isEmpty_iff.mp h
  | _ => trivial

/-- An upload, its scan, a reconcile and a delete. -/
def accountedRun : List Op :=
  [.upload firstInput "q" "f" 1, .scan (fun _ => cleanScan) ⟨"t", "f", 1⟩ 2, .reconcile "t" false 3,
    .delete (some "t") "f" 4]

theorem usage_exact_iff_accountedRun :
    AllStates (opStep pdfPorts) Exact emptyStore accountedRun ∧
      AllSteps (opStep pdfPorts) FindsNoOrphan emptyStore accountedRun := by
  have hcheck : checkSteps (opStep pdfPorts) findsNoOrphan emptyStore accountedRun = true := by decide
  have hsteps := allSteps_of_checkSteps findsNoOrphan_sound hcheck
  exact ⟨(usage_exact_iff sound_emptyStore).mpr hsteps, hsteps⟩

/-- A store after an upload and its scan. -/
def scannedStore : Store :=
  Op.after pdfPorts (Op.after pdfPorts emptyStore (.upload firstInput "q" "f" 1))
    (.scan (fun _ => cleanScan) ⟨"t", "f", 1⟩ 2)

/-- The same store when the storage has lost the binary. -/
def lostStore : Store := { scannedStore with storage := ∅ }

theorem sound_lostStore : Sound lostStore := by
  have hupload : Sound (Op.after pdfPorts emptyStore (.upload firstInput "q" "f" 1)) :=
    sound_emptyStore.after (by exact trivial)
  have hscan : Sound scannedStore := hupload.after (by exact trivial)
  exact hscan.congr rfl rfl

/-- The reconcile marks the file as an orphan and its six bytes stay counted. -/
theorem usage_leaks_by_orphan : ¬ ∀ (ports : Ports) (s : Store) (ops : List Op), Sound s →
    AllStates (opStep ports) Exact s ops := by
  intro h
  have hrun : (run (opStep pdfPorts) lostStore [.reconcile "t" false 3]).any
      (fun s => s.quotas.used "t" == 6 && storedBytes s.files "t" == 0) = true := by decide +kernel
  obtain ⟨s, hs, hleak⟩ := (Option.any_eq_true _ _).mp hrun
  have hex := (h pdfPorts lostStore [.reconcile "t" false 3] sound_lostStore).last hs "t"
  simp only [Bool.and_eq_true, beq_iff_eq] at hleak
  omega

end Neltrik.FileStorage.Accounting
