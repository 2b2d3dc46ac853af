import Neltrik.FileStorage.Domain
import Neltrik.Lib.OptimisticLock
import Mathlib.Data.List.AList

/-! # Quotas, binaries, scan jobs and the repositories

What the use cases of the file storage module work on: the tables `files` and `file_quotas`, the
binaries behind the storage port and the queue of the scan jobs. Rows are kept as the entities they
are restored to. The tables enforce what the migrations declare: the primary key of `files`, its
partial unique index on the active files of a resource and purpose, one quota row a tenant, and
`used_bytes >= 0`. The conditional update of a file is `OptimisticLock.write`.

`scope` is the tenant the tenant-scoped client filters by, `none` for the platform administrator. -/

namespace Neltrik.FileStorage.Persistence

open Neltrik.Lib Neltrik.Lib.Table Neltrik.FileStorage.Domain

/-! ## Quotas -/

/-- `DEFAULT_FILE_QUOTA_LIMIT_BYTES`. -/
def defaultFileQuotaLimitBytes : ℕ := 1024 * 1024 * 1024

/-- `MIN_FILE_QUOTA_LIMIT_BYTES`. -/
def minFileQuotaLimitBytes : ℕ := 1024 * 1024 * 1024

/-- A quota with what its constructor has checked. -/
structure FileQuota where
  id : String
  tenantId : String
  limitBytes : ℕ
  usedBytes : ℕ
  createdAt : ℕ
  updatedAt : ℕ
  limit_pos : 0 < limitBytes
  deriving DecidableEq

namespace FileQuota

/-- A new quota has nothing used. -/
def create (id tenantId : String) (limitBytes createdAt : ℕ) : Except FileError FileQuota :=
  if h : 0 < limitBytes then
    .ok { id, tenantId, limitBytes, usedBytes := 0, createdAt, updatedAt := createdAt, limit_pos := h }
  else .error .invalidQuotaLimit

/-- A limit below what is used is refused. -/
def adjustLimit (q : FileQuota) (newLimitBytes now : ℕ) : Except FileError FileQuota :=
  if h : 0 < newLimitBytes then
    .ok { q with limitBytes := newLimitBytes, updatedAt := now, limit_pos := h }
  else .error .invalidQuotaLimit

/-- The bytes fit below the limit. -/
def canAccommodate (q : FileQuota) (size : ℕ) : Bool := q.usedBytes + size ≤ q.limitBytes

end FileQuota

/-- The table `file_quotas`, by its unique column `tenant_id`. -/
abbrev Quotas := String → Option FileQuota

namespace Quotas

/-- `PrismaFileQuotaRepository.create`: a row that is already there is kept. -/
def create (quotas : Quotas) (q : FileQuota) : Quotas :=
  match quotas q.tenantId with
  | some _ => quotas
  | none => Function.update quotas q.tenantId (some q)

/-- `PrismaFileQuotaRepository.update`: the whole mapped row, where the id is the one read. -/
def update (quotas : Quotas) (q : FileQuota) : Except FileError Quotas :=
  match quotas q.tenantId with
  | some row =>
    if row.id = q.id then .ok (Function.update quotas q.tenantId (some q)) else .error .recordNotFound
  | none => .error .recordNotFound

/-- `FileQuotaRepository.incrementUsedBytes`. -/
def incrementUsedBytes (quotas : Quotas) (tenantId : String) (delta now : ℕ) :
    Except FileError Quotas :=
  match quotas tenantId with
  | some q => .ok (Function.update quotas tenantId
      (some { q with usedBytes := q.usedBytes + delta, updatedAt := now }))
  | none => .error .recordNotFound

/-- `FileQuotaRepository.decrementUsedBytes`. -/
def decrementUsedBytes (quotas : Quotas) (tenantId : String) (delta now : ℕ) :
    Except FileError Quotas :=
  match quotas tenantId with
  | some q =>
    -- the check constraint `file_quotas_used_bytes_non_negative`
    if delta ≤ q.usedBytes then .ok (Function.update quotas tenantId
      (some { q with usedBytes := q.usedBytes - delta, updatedAt := now }))
    else .error .checkViolation
  | none => .error .recordNotFound

/-- `CreateOrGetQuotaInternalUseCase.execute`. -/
def createOrGet (quotas : Quotas) (id tenantId : String) (now : ℕ) : Except FileError Quotas :=
  match quotas tenantId with
  | some _ => .ok quotas
  | none => (FileQuota.create id tenantId defaultFileQuotaLimitBytes now).map quotas.create

/-- `VerifyQuotaLimitInternalUseCase.execute`. -/
def verifyLimit (quotas : Quotas) (tenantId : String) (size : ℕ) : Except FileError Bool :=
  match quotas tenantId with
  | some q => .ok (q.canAccommodate size)
  | none => .error .fileQuotaNotFound

/-- The counter of a tenant; a quota that is yet to be created counts nothing. -/
def used (quotas : Quotas) (tenantId : String) : ℕ := (quotas tenantId).elim 0 (·.usedBytes)

theorem used_of_some {quotas : Quotas} {t : String} {q : FileQuota} (h : quotas t = some q) :
    quotas.used t = q.usedBytes := by
  rw [used, h]; rfl

theorem used_update_self (quotas : Quotas) (t : String) (q : FileQuota) :
    Quotas.used (Function.update quotas t (some q)) t = q.usedBytes := by
  rw [used, Function.update_self]; rfl

theorem used_update_of_ne (quotas : Quotas) {t t' : String} (q : FileQuota) (h : t ≠ t') :
    Quotas.used (Function.update quotas t' (some q)) t = quotas.used t := by
  rw [used, used, Function.update_of_ne h]

/-- Each row is the row of its tenant. -/
def Keyed (quotas : Quotas) : Prop := ∀ t q, quotas t = some q → q.tenantId = t

theorem Keyed.update {quotas : Quotas} (h : quotas.Keyed) {t : String} {q : FileQuota}
    (ht : q.tenantId = t) : Quotas.Keyed (Function.update quotas t (some q)) := by
  intro t' q' hq'
  by_cases hne : t' = t
  · rw [hne, Function.update_self] at hq'; cases hq'; exact ht.trans hne.symm
  · rw [Function.update_of_ne hne] at hq'; exact h t' q' hq'

theorem createOrGet_eq_ok {quotas quotas' : Quotas} {quotaId t : String} {now : ℕ}
    (h : createOrGet quotas quotaId t now = .ok quotas') : quotas' = quotas ∨
      ∃ q, quotas t = none ∧ q.tenantId = t ∧ q.usedBytes = 0 ∧
        quotas' = Function.update quotas t (some q) := by
  unfold createOrGet at h
  split at h
  · cases h; exact Or.inl rfl
  · rename_i hnone
    right
    have hpos : 0 < defaultFileQuotaLimitBytes := by decide
    unfold FileQuota.create at h
    rw [dif_pos hpos] at h
    cases h
    refine ⟨⟨quotaId, t, defaultFileQuotaLimitBytes, 0, now, now, hpos⟩, hnone, rfl, rfl, ?_⟩
    unfold create
    dsimp only
    rw [hnone]

theorem incrementUsedBytes_eq_ok {quotas quotas' : Quotas} {t : String} {size now : ℕ}
    (h : incrementUsedBytes quotas t size now = .ok quotas') : ∃ q, quotas t = some q ∧
      quotas' = Function.update quotas t
        (some { q with usedBytes := q.usedBytes + size, updatedAt := now }) := by
  unfold incrementUsedBytes at h
  split at h
  · cases h; exact ⟨_, ‹_›, rfl⟩
  · cases h

theorem decrementUsedBytes_eq_ok {quotas quotas' : Quotas} {t : String} {size now : ℕ}
    (h : decrementUsedBytes quotas t size now = .ok quotas') : ∃ q, quotas t = some q ∧
      size ≤ q.usedBytes ∧ quotas' = Function.update quotas t
        (some { q with usedBytes := q.usedBytes - size, updatedAt := now }) := by
  unfold decrementUsedBytes at h
  split at h
  · split_ifs at h with hle
    cases h
    exact ⟨_, ‹_›, hle, rfl⟩
  · cases h

theorem update_eq_ok {quotas quotas' : Quotas} {q : FileQuota}
    (h : update quotas q = .ok quotas') : ∃ row, quotas q.tenantId = some row ∧
      row.id = q.id ∧ quotas' = Function.update quotas q.tenantId (some q) := by
  unfold update at h
  split at h
  · split_ifs at h with hid
    cases h
    exact ⟨_, ‹_›, hid, rfl⟩
  · cases h

end Quotas

/-! ## The storage port -/

/-- The contents of a binary. -/
abbrev Bytes := List UInt8

/-- `FileStoragePort`: the stored binaries by their keys. -/
abbrev Storage := AList fun _ : String => Bytes

namespace Storage

/-- The binary under its key. -/
def upload (storage : Storage) (key : String) (buffer : Bytes) : Storage := storage.insert key buffer

/-- The binary of the key. -/
def download (storage : Storage) (key : String) : Option Bytes := storage.lookup key

/-- The key without a binary. -/
def delete (storage : Storage) (key : String) : Storage := storage.erase key

/-- The keys under a directory `pre`, which ends in a slash. -/
def list (storage : Storage) (pre : String) : List String :=
  storage.keys.filter fun key => pre.toList.isPrefixOf key.toList

theorem download_upload (storage : Storage) (key key' : String) (buffer : Bytes) :
    (storage.upload key buffer).download key' =
      if key' = key then some buffer else storage.download key' := by
  unfold upload download
  split_ifs with h
  · rw [h]; exact AList.lookup_insert _
  · exact AList.lookup_insert_ne h

theorem download_delete (storage : Storage) (key key' : String) :
    (storage.delete key).download key' = if key' = key then none else storage.download key' := by
  unfold delete download
  split_ifs with h
  · rw [h]; exact AList.lookup_erase _ _
  · exact AList.lookup_erase_ne h

theorem mem_list {storage : Storage} {pre key : String} :
    key ∈ storage.list pre ↔ storage.download key ≠ none ∧ pre.toList <+: key.toList := by
  simp only [list, download, List.mem_filter, List.isPrefixOf_iff_prefix, ne_eq]
  rw [AList.lookup_eq_none, not_not]
  exact Iff.rfl

end Storage

/-! ## The repository of the files -/

/-- The files the partial unique index covers. -/
def isActive (f : File) : Bool :=
  f.status == .pending || f.status == .ready || f.status == .infected

/-- Two rows the partial unique index does not allow together. -/
def sameSlot (f f' : File) : Bool :=
  isActive f && isActive f' && f.tenantId == f'.tenantId && f.resourceType == f'.resourceType &&
    f.resourceId == f'.resourceId && f.purpose == f'.purpose

/-- The rows the tenant-scoped client sees. -/
def inScope (scope : Option String) (f : File) : Bool := scope.all (· == f.tenantId)

/-- The table `files`. -/
abbrev Files := List File

namespace Files

/-- `create`, with the primary key and the unique index. -/
def create (files : Files) (file : File) : Except FileError Files :=
  if files.any fun f => f.id == file.id || sameSlot f file then .error .uniqueViolation
  else .ok (file :: files)

/-- The row an update writes: the entity, its version raised by one. -/
def bump (file : File) : File := { file with version := file.version + 1, valid := file.valid }

/-- `PrismaFileRepository.update`: `updateMany` where the id and the version are those of the
entity, and an error when no row was. -/
def update (files : Files) (file : File) : Except FileError Files :=
  if files.any (OptimisticLock.matching (·.id) (·.version) file) then
    if files.any fun f => f.id != file.id && sameSlot f file then .error .uniqueViolation
    else .ok (OptimisticLock.write (·.id) (·.version) files file (bump file))
  else .error .optimisticLock

/-- `findFirst` by the id, in the scope of the request. -/
def findById (files : Files) (scope : Option String) (id : String) : Option File :=
  files.find? fun f => f.id == id && inScope scope f

/-- The live row of a tenant, resource and purpose. -/
def findByResourceAndPurpose (files : Files) (tenantId resourceType resourceId : String)
    (purpose : FilePurpose) : Option File :=
  files.find? fun f => f.tenantId == tenantId && f.resourceType == resourceType &&
    f.resourceId == resourceId && f.purpose == purpose && isActive f

/-- The rows of a tenant. -/
def findAllByTenant (files : Files) (tenantId : String) : List File :=
  files.filter fun f => f.tenantId == tenantId

/-- The rows of a tenant that have been deleted before the instant. -/
def findDeletedBefore (files : Files) (tenantId : String) (before : ℕ) : List File :=
  files.filter fun f => f.tenantId == tenantId && f.isDeleted && f.deletedAt.any (· < before)

/-- The rows of a tenant that are due for a rescan. -/
def findReadyForRescan (files : Files) (tenantId : String) (before : ℕ) : List File :=
  files.filter fun f => f.tenantId == tenantId && f.isReady &&
    match f.getLatestVersion.bind FileVersion.getLatestScan with
    | none => true
    | some scan => scan.scannedAt < before

@[simp] theorem bump_id (file : File) : (bump file).id = file.id := rfl

@[simp] theorem bump_version (file : File) : (bump file).version = file.version + 1 := rfl

@[simp] theorem bump_status (file : File) : (bump file).status = file.status := rfl

@[simp] theorem bump_versions (file : File) : (bump file).versions = file.versions := rfl

@[simp] theorem bump_tenantId (file : File) : (bump file).tenantId = file.tenantId := rfl

@[simp] theorem bump_latest (file : File) : (bump file).latest = file.latest := rfl

@[simp] theorem bump_getTotalSize (file : File) : (bump file).getTotalSize = file.getTotalSize := rfl

theorem findById_some {files : Files} {scope : Option String} {id : String} {f : File}
    (h : findById files scope id = some f) : f ∈ files ∧ f.id = id := by
  refine ⟨List.mem_of_find?_eq_some h, ?_⟩
  have := List.find?_some h
  simp only [Bool.and_eq_true, beq_iff_eq] at this
  exact this.1

/-- A file in the scope is found by its id. -/
theorem findById_of_mem {files : Files} (hk : Keyed (fun f : File => f.id) files) {f : File} (hf : f ∈ files)
    {scope : Option String} (hs : inScope scope f = true) : findById files scope f.id = some f := by
  have hsome : (findById files scope f.id).isSome = true :=
    List.find?_isSome.mpr ⟨f, hf, by rw [beq_self_eq_true, hs]; rfl⟩
  obtain ⟨g, hg⟩ := Option.isSome_iff_exists.mp hsome
  obtain ⟨hmem, hid⟩ := findById_some hg
  rw [hg, hk.eq_of_key_eq hmem hf hid]

theorem create_eq_ok {files files' : Files} {file : File} : create files file = .ok files' ↔
    (∀ f ∈ files, f.id ≠ file.id ∧ sameSlot f file = false) ∧ files' = file :: files := by
  unfold create
  split_ifs with h
  · refine ⟨nofun, fun hn => ?_⟩
    obtain ⟨f, hf, hc⟩ := List.any_eq_true.mp h
    have := hn.1 f hf
    simp [this.1, this.2] at hc
  · rw [Except.ok.injEq]
    refine ⟨fun he => ⟨fun f hf => ?_, he.symm⟩, fun he => he.2.symm⟩
    simpa using fun hc => h (List.any_eq_true.mpr ⟨f, hf, hc⟩)

/-- **What a successful update does**: some row has the id and the version of the entity, no other
row is in its slot, and the rows of its id and version become the entity with the next version. -/
theorem update_eq_ok {files files' : Files} {file : File} : update files file = .ok files' ↔
    (∃ f ∈ files, f.id = file.id ∧ f.version = file.version) ∧
      (∀ f ∈ files, f.id ≠ file.id → sameSlot f file = false) ∧
      files' = OptimisticLock.write (·.id) (·.version) files file (bump file) := by
  unfold update
  split_ifs with hm hs
  · refine ⟨(fun h => by cases h), fun h => ?_⟩
    obtain ⟨f, hf, hc⟩ := List.any_eq_true.mp hs
    have hc' : f.id ≠ file.id ∧ sameSlot f file = true := by simpa using hc
    rw [h.2.1 f hf hc'.1] at hc'
    cases hc'.2
  · obtain ⟨f, hf, hc⟩ := List.any_eq_true.mp hm
    rw [Except.ok.injEq]
    refine ⟨fun h => ⟨⟨f, hf, OptimisticLock.matching_iff.mp hc⟩, fun g hg hid => ?_, h.symm⟩,
      fun h => h.2.2.symm⟩
    by_contra hslot
    exact hs (List.any_eq_true.mpr ⟨g, hg, by simpa [hid] using hslot⟩)
  · refine ⟨(fun h => by cases h), fun h => ?_⟩
    obtain ⟨f, hf, hc⟩ := h.1
    exact absurd (List.any_eq_true.mpr ⟨f, hf, OptimisticLock.matching_iff.mpr hc⟩) hm

end Files

/-! ## The queue of the scan jobs -/

/-- `ScanFilePayload`. -/
structure ScanFilePayload where
  tenantId : String
  fileId : String
  version : ℕ
  deriving DecidableEq, Repr

/-- A job that waits out its backoff is `waiting`; one that used up its attempts is `failed`. -/
inductive JobState where
  | waiting | active | completed | failed
  deriving DecidableEq, Repr

/-- A job of the queue, with its attempts. -/
structure ScanJob where
  jobId : String
  payload : ScanFilePayload
  attemptsMade : ℕ
  state : JobState
  deriving DecidableEq, Repr

/-- `FILE_SCAN_JOB_OPTIONS.attempts`. -/
def fileScanAttempts : ℕ := 3

/-- `buildFileScanJobId`. -/
def buildFileScanJobId (fileId : String) (version : ℕ) : String := s!"file-scan:{fileId}:v{version}"

namespace ScanJob

/-- A worker has it. -/
def activate (job : ScanJob) : ScanJob := { job with state := .active }

/-- It has ended well. -/
def complete (job : ScanJob) : ScanJob := { job with state := .completed }

/-- The handler threw: the job waits for its next attempt, if it has one. -/
def failAttempt (job : ScanJob) : ScanJob :=
  { job with
    attemptsMade := job.attemptsMade + 1
    state := if job.attemptsMade + 1 < fileScanAttempts then .waiting else .failed }

/-- The job will still run, or is running. -/
def isPending (job : ScanJob) : Bool := job.state == .waiting || job.state == .active

@[simp] theorem activate_jobId (job : ScanJob) : job.activate.jobId = job.jobId := rfl

@[simp] theorem complete_jobId (job : ScanJob) : job.complete.jobId = job.jobId := rfl

@[simp] theorem failAttempt_jobId (job : ScanJob) : job.failAttempt.jobId = job.jobId := rfl

@[simp] theorem activate_payload (job : ScanJob) : job.activate.payload = job.payload := rfl

@[simp] theorem complete_payload (job : ScanJob) : job.complete.payload = job.payload := rfl

@[simp] theorem failAttempt_payload (job : ScanJob) : job.failAttempt.payload = job.payload := rfl

end ScanJob

/-- The jobs that are kept. -/
abbrev ScanQueue := List ScanJob

namespace ScanQueue

/-- `JobScheduler.enqueue`: a job whose id is already there, a finished one included, is ignored. -/
def enqueue (jobs : ScanQueue) (jobId : String) (payload : ScanFilePayload) : ScanQueue :=
  if jobs.any (·.jobId == jobId) then jobs
  else ⟨jobId, payload, 0, .waiting⟩ :: jobs

/-- The job of the id becomes `g` of itself. -/
def modify (jobs : ScanQueue) (jobId : String) (g : ScanJob → ScanJob) : ScanQueue :=
  updateWhere (·.jobId == jobId) g jobs

theorem subset_enqueue (jobs : ScanQueue) (jobId : String) (payload : ScanFilePayload) :
    jobs ⊆ jobs.enqueue jobId payload := by
  unfold enqueue
  split_ifs with h
  · exact fun _ => id
  · exact List.subset_cons_self _ _

theorem keyed_enqueue {jobs : ScanQueue} (h : Keyed ScanJob.jobId jobs) (jobId : String)
    (payload : ScanFilePayload) : Keyed ScanJob.jobId (jobs.enqueue jobId payload) := by
  unfold enqueue
  split_ifs with hm
  · exact h
  · exact h.cons fun job hj he => hm (List.any_eq_true.mpr ⟨job, hj, by simpa using he⟩)

theorem mem_modify {jobs : ScanQueue} {jobId : String} {g : ScanJob → ScanJob} {job : ScanJob} :
    job ∈ jobs.modify jobId g ↔
      (∃ job₀ ∈ jobs, job₀.jobId = jobId ∧ job = g job₀) ∨ (job ∈ jobs ∧ job.jobId ≠ jobId) := by
  simp only [modify, mem_updateWhere, beq_iff_eq, beq_eq_false_iff_ne]

theorem keyed_modify {jobs : ScanQueue} (h : Keyed ScanJob.jobId jobs) (jobId : String)
    {g : ScanJob → ScanJob} (hg : ∀ job, (g job).jobId = job.jobId) :
    Keyed ScanJob.jobId (jobs.modify jobId g) :=
  h.updateWhere fun job _ _ => hg job

end ScanQueue

/-! ## The store of the file storage module -/

/-- The two tables, the binaries and the queue. -/
structure Store where
  files : Files
  quotas : Quotas
  storage : Storage
  jobs : ScanQueue

end Neltrik.FileStorage.Persistence
