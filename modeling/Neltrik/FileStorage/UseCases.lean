import Neltrik.FileStorage.Validation
import Neltrik.Lib.Effect

/-! # The use cases and the jobs

Each use case as the sequence of its calls, an `Effect` on the store. What the source takes from
outside is an argument: `now` for the clock, new ids, the answers of the antivirus. A failed
transaction puts back the two tables; binaries and jobs are outside of it.

The parts that decide something (`ReplaceFile.ensureReplaceable`, `Request.row`, `ScanFile.select`,
`ScanFile.verdict`, `ReconcileStorage.orphanFiles`, …) are functions of their own, which the concurrent
system takes its steps with. -/

namespace Neltrik.FileStorage.UseCases

open Neltrik.Lib Neltrik.FileStorage.Domain Neltrik.FileStorage.Persistence
open Neltrik.FileStorage.Validation

/-- A use case, or one of its calls: it returns or throws, and may write first. -/
abbrev UseCase := Effect Store FileError

/-! ## The ports -/

/-- `TransactionManager.execute`. -/
def transaction {α : Type} (operation : UseCase α) : UseCase α :=
  Effect.atomically (fun before after => { after with files := before.files, quotas := before.quotas })
    operation

/-- `CompensatingOperationService.execute`; an error of the compensation is only logged. -/
def compensating {α : Type} (externalOperation compensatingOperation : UseCase Unit)
    (localWork : UseCase α) : UseCase α := do
  externalOperation
  Effect.onError localWork compensatingOperation

namespace FileRepository

/-- `create`, with the primary key. -/
def create (file : File) : UseCase Unit :=
  Effect.change fun s => (Files.create s.files file).map fun files => { s with files }

/-- `updateMany` of the version that has been read. -/
def update (file : File) : UseCase Unit :=
  Effect.change fun s => (Files.update s.files file).map fun files => { s with files }

/-- `findFirst` by the id, in the scope of the request. -/
def findById (scope : Option String) (id : String) : UseCase (Option File) := do
  return Files.findById (← Effect.read).files scope id

end FileRepository

namespace FileStoragePort

/-- The binary under its key. -/
def upload (key : String) (buffer : Bytes) : UseCase Unit :=
  Effect.change fun s => .ok { s with storage := s.storage.upload key buffer }

/-- The binary under the key goes. -/
def delete (key : String) : UseCase Unit :=
  Effect.change fun s => .ok { s with storage := s.storage.delete key }

/-- The binary, or an error when there is none. -/
def download (key : String) : UseCase Bytes := do
  match (← Effect.read).storage.download key with
  | some buffer => return buffer
  | none => Effect.throw .infrastructure

end FileStoragePort

/-- The job of a new version; `jobId` makes it unique. -/
def enqueueScan (payload : ScanFilePayload) : UseCase Unit :=
  Effect.change fun s => .ok
    { s with jobs := s.jobs.enqueue (buildFileScanJobId payload.fileId payload.version) payload }

/-! ## Quotas -/

/-- `CreateOrGetQuotaInternalUseCase.execute`. -/
def createOrGetQuota (quotaId tenantId : String) (now : ℕ) : UseCase Unit :=
  Effect.change fun s =>
    (Quotas.createOrGet s.quotas quotaId tenantId now).map fun quotas => { s with quotas }

/-- `VerifyQuotaLimitInternalUseCase.execute`. -/
def verifyQuotaLimit (tenantId : String) (size : ℕ) : UseCase Bool := do
  Effect.lift (Quotas.verifyLimit (← Effect.read).quotas tenantId size)

/-- `IncrementQuotaInternalUseCase.execute`. -/
def incrementQuota (tenantId : String) (size now : ℕ) : UseCase Unit :=
  Effect.change fun s =>
    (Quotas.incrementUsedBytes s.quotas tenantId size now).map fun quotas => { s with quotas }

/-- `DecrementQuotaInternalUseCase.execute`. -/
def decrementQuota (tenantId : String) (size now : ℕ) : UseCase Unit :=
  Effect.change fun s =>
    (Quotas.decrementUsedBytes s.quotas tenantId size now).map fun quotas => { s with quotas }

namespace AdjustQuotaLimit

/-- What the use case writes for the row it read. -/
def adjusted (quota : FileQuota) (newLimitBytes now : ℕ) : Except FileError FileQuota :=
  if newLimitBytes < minFileQuotaLimitBytes then .error .quotaLimitBelowMinimum
  else quota.adjustLimit newLimitBytes now

/-- `AdjustQuotaLimitUseCase.execute`. -/
def execute (tenantId : String) (newLimitBytes now : ℕ) : UseCase Unit := do
  match (← Effect.read).quotas tenantId with
  | none => Effect.throw .fileQuotaNotFound
  | some quota =>
    let quota ← Effect.lift (adjusted quota newLimitBytes now)
    Effect.change fun s => (Quotas.update s.quotas quota).map fun quotas => { s with quotas }

theorem adjusted_eq_ok {copy quota : FileQuota} {newLimitBytes now : ℕ}
    (h : adjusted copy newLimitBytes now = .ok quota) :
    minFileQuotaLimitBytes ≤ newLimitBytes ∧ quota.id = copy.id ∧ quota.tenantId = copy.tenantId ∧
      quota.usedBytes = copy.usedBytes ∧ quota.createdAt = copy.createdAt := by
  unfold adjusted FileQuota.adjustLimit at h
  split_ifs at h with hm hp
  cases h
  exact ⟨not_lt.mp hm, rfl, rfl, rfl, rfl⟩

theorem adjusted_ok_of_le {copy : FileQuota} {newLimitBytes now : ℕ}
    (h : minFileQuotaLimitBytes ≤ newLimitBytes) :
    ∃ quota, adjusted copy newLimitBytes now = .ok quota := by
  have hmin : 0 < minFileQuotaLimitBytes := by decide
  unfold adjusted FileQuota.adjustLimit
  rw [if_neg (not_lt.mpr h), dif_pos (by omega)]
  exact ⟨_, rfl⟩

end AdjustQuotaLimit

/-! ## Upload and replace -/

/-- What the request of an upload has. -/
structure UploadFileInput where
  tenantId : String
  ownerId : String
  buffer : Bytes
  name : String
  extension : String
  mimeType : String
  size : ℕ
  purpose : FilePurpose
  resourceType : String
  resourceId : String
  deriving DecidableEq

/-- What the request of a replacement has. -/
structure ReplaceFileInput where
  fileId : String
  buffer : Bytes
  name : String
  extension : String
  mimeType : String
  size : ℕ
  deriving DecidableEq

/-- The key of a binary. -/
def storageKey (tenantId fileId : String) (version : ℕ) (name : String) : String :=
  s!"tenants/{tenantId}/files/{fileId}/v{version}/{name}"

/-- A request after `prepare`: an upload with the id of the new file, or a replace with the file it
read. -/
inductive Request where
  | upload (input : UploadFileInput) (fileId : String)
  | replace (input : ReplaceFileInput) (file : File)
  deriving DecidableEq

namespace Request

/-- The tenant of the actor. -/
def tenantId : Request → String
  | upload input _ => input.tenantId
  | replace _ file => file.tenantId

/-- The new id, or that of the file. -/
def fileId : Request → String
  | upload _ fileId => fileId
  | replace _ file => file.id

/-- The file a replace read. -/
def copies : Request → List File
  | upload _ _ => []
  | replace _ file => [file]

/-- `1`, or `nextVersion`. -/
def version : Request → ℕ
  | upload _ _ => 1
  | replace _ file => file.latest.version + 1

/-- The name of the upload. -/
def name : Request → String
  | upload input _ => input.name
  | replace input _ => input.name

/-- The bytes of the upload. -/
def buffer : Request → Bytes
  | upload input _ => input.buffer
  | replace input _ => input.buffer

/-- What is to be taken of the quota. -/
def size : Request → ℕ
  | upload input _ => input.size
  | replace input _ => input.size

/-- The key of the binary. -/
def key (r : Request) : String := storageKey r.tenantId r.fileId r.version r.name

/-- The job of the scan. -/
def payload (r : Request) : ScanFilePayload :=
  { tenantId := r.tenantId, fileId := r.fileId, version := r.version }

/-- The new version, with the checksum of the buffer. -/
def newVersion (ports : Ports) (now : ℕ) : Request → Except FileError FileVersion
  | upload input fileId => FileVersion.createInitial
      { version := 1, name := input.name, extension := input.extension, mimeType := input.mimeType,
        storageKey := key (upload input fileId), size := input.size,
        checksum := ports.generate input.buffer, scans := [], createdAt := now }
  | replace input file => FileVersion.create
      { version := version (replace input file), name := input.name, extension := input.extension,
        mimeType := input.mimeType, storageKey := key (replace input file), size := input.size,
        checksum := ports.generate input.buffer, scans := [], createdAt := now }

/-- The new file of an upload. -/
def newFile (input : UploadFileInput) (fileId : String) (version : FileVersion) (now : ℕ) :
    Except FileError File :=
  File.create
    { id := fileId, tenantId := input.tenantId, ownerId := input.ownerId, name := input.name,
      extension := input.extension, mimeType := input.mimeType, size := input.size,
      purpose := input.purpose, status := .pending, resourceType := input.resourceType,
      resourceId := input.resourceId, versions := [version], version := 0, createdAt := now,
      updatedAt := now, deletedAt := none }

/-- The entity that is saved. -/
def row (ports : Ports) (now : ℕ) (r : Request) : Except FileError File := do
  let version ← r.newVersion ports now
  match r with
  | upload input fileId => newFile input fileId version now
  | replace _ file => file.addVersion version now

/-- `fileRepository.create` or `fileRepository.update`. -/
def save : Request → Files → File → Except FileError Files
  | upload _ _, files, file => Files.create files file
  | replace _ _, files, file => Files.update files file

/-- `persistAndEnqueue`. -/
def persistAndEnqueue (ports : Ports) (now : ℕ) (r : Request) : UseCase File :=
  transaction do
    let file ← Effect.lift (r.row ports now)
    Effect.change fun s => (r.save s.files file).map fun files => { s with files }
    incrementQuota r.tenantId r.size now
    enqueueScan r.payload
    return file

/-- `uploadAndPersist`. -/
def uploadAndPersist (ports : Ports) (now : ℕ) (r : Request) : UseCase File :=
  compensating (FileStoragePort.upload r.key r.buffer) (FileStoragePort.delete r.key)
    (r.persistAndEnqueue ports now)

end Request

namespace UploadFile

/-- The checks before the quota: the binary and the slot of the file. -/
def ensureUploadable (ports : Ports) (files : Files) (input : UploadFileInput) :
    Except FileError Unit := do
  Validation.validate ports
    { purpose := input.purpose, mimeType := input.mimeType, extension := input.extension,
      size := input.size, buffer := input.buffer }
  match Files.findByResourceAndPurpose files input.tenantId input.resourceType input.resourceId
      input.purpose with
  | some _ => throw .fileAlreadyExists
  | none => return ()

/-- `UploadFileUseCase.execute`. -/
def execute (ports : Ports) (input : UploadFileInput) (quotaId fileId : String) (now : ℕ) :
    UseCase File := do
  Effect.lift (ensureUploadable ports (← Effect.read).files input)
  createOrGetQuota quotaId input.tenantId now
  if ← verifyQuotaLimit input.tenantId input.size then
    (Request.upload input fileId).uploadAndPersist ports now
  else Effect.throw .fileQuotaExceeded

end UploadFile

namespace ReplaceFile

/-- `findAndValidate` before the quota: the file, its status and the binary. -/
def ensureReplaceable (ports : Ports) (files : Files) (scope : Option String)
    (input : ReplaceFileInput) : Except FileError File := do
  match Files.findById files scope input.fileId with
  | none => throw .fileNotFound
  | some file =>
    if file.isReady = false ∧ file.isInfected = false then throw .invalidFileStatus
    else
      Validation.validate ports
        { purpose := file.purpose, mimeType := input.mimeType, extension := input.extension,
          size := input.size, buffer := input.buffer }
      return file

/-- `ReplaceFileUseCase.execute`. -/
def execute (ports : Ports) (scope : Option String) (input : ReplaceFileInput) (now : ℕ) :
    UseCase File := do
  let file ← Effect.lift (ensureReplaceable ports (← Effect.read).files scope input)
  if ← verifyQuotaLimit file.tenantId input.size then
    (Request.replace input file).uploadAndPersist ports now
  else Effect.throw .fileQuotaExceeded

end ReplaceFile

/-! ## Changes of one file -/

/-- The `findById` of a use case, with its error. -/
def findFile (scope : Option String) (fileId : String) : UseCase File := do
  match ← FileRepository.findById scope fileId with
  | some file => return file
  | none => Effect.throw .fileNotFound

/-- `RenameFileUseCase.execute`. -/
def RenameFile.execute (scope : Option String) (fileId name : String) (now : ℕ) : UseCase Unit := do
  let file ← findFile scope fileId
  let file ← Effect.lift (file.rename name now)
  FileRepository.update file

/-- Another active file has the resource and the purpose. -/
def ChangeFileResource.taken (files : Files) (file : File) (resourceType resourceId : String) : Bool :=
  (Files.findByResourceAndPurpose files file.tenantId resourceType resourceId file.purpose).any
    (·.id != file.id)

/-- `ChangeFileResourceUseCase.execute`. -/
def ChangeFileResource.execute (scope : Option String) (fileId resourceType resourceId : String)
    (now : ℕ) : UseCase Unit := do
  let file ← findFile scope fileId
  if ChangeFileResource.taken (← Effect.read).files file resourceType resourceId then
    Effect.throw .fileAlreadyExists
  else
    let file ← Effect.lift (file.changeResource resourceType resourceId now)
    FileRepository.update file

/-- `DeleteFileUseCase.execute`. -/
def DeleteFile.execute (scope : Option String) (fileId : String) (now : ℕ) : UseCase Unit :=
  transaction do
    let file ← findFile scope fileId
    let file ← Effect.lift (file.delete now)
    FileRepository.update file
    decrementQuota file.tenantId file.getTotalSize now

/-- The address of the binary, and until when. -/
structure GetDownloadUrlOutput where
  url : String
  expiresIn : ℕ
  name : String
  mimeType : String
  size : ℕ
  deriving DecidableEq

/-- `GetDownloadUrlUseCase.execute`; `ttl` is `STORAGE_SIGNED_URL_TTL_SECONDS`. -/
def GetDownloadUrl.execute (ports : Ports) (files : Files) (scope : Option String) (ttl : ℕ)
    (fileId : String) : Except FileError GetDownloadUrlOutput :=
  match Files.findById files scope fileId with
  | none => .error .fileNotFound
  | some file =>
    if file.isDeleted ∨ file.isInfected then .error .fileNotFound
    else if file.isReady = false then .error .invalidFileStatus
    else match file.getLatestVersion with
      | none => .error .invalidFileStatus
      | some latestVersion => .ok
          { url := ports.getSignedUrl latestVersion.storageKey ttl, expiresIn := ttl,
            name := file.name, mimeType := file.mimeType, size := file.size }

/-! ## The jobs -/

namespace ScanFile

/-- What the job does with the file it found: it throws, it returns at once (`none`), or it scans the
latest version. -/
def select (found : Option File) (input : ScanFilePayload) : Except FileError (Option File) :=
  match found with
  | none => .error .fileNotFound
  | some file =>
    if file.tenantId ≠ input.tenantId then .error .fileNotFound
    else if file.isPending = false then .ok none
    else match file.getLatestVersion with
      | none => .error .fileVersionNotFound
      | some version =>
        if version.version ≠ input.version then .error .fileVersionNotFound
        else if version.scans ≠ [] then .ok none
        else .ok (some file)

/-- The scan recorded, and the status it decides. -/
def verdict (file : File) (scan : AntivirusScan) (now : ℕ) : Except FileError File := do
  let file ← file.addScanToLatestVersion scan now
  if scan.isClean then file.markReady now
  else if scan.isInfected then file.markInfected now
  else return file

/-- `ScanFileJobsUseCase.execute`. -/
def execute (antivirus : Bytes → AntivirusScan) (input : ScanFilePayload) (now : ℕ) :
    UseCase Unit := do
  let found ← FileRepository.findById (some input.tenantId) input.fileId
  match ← Effect.lift (select found input) with
  | none => return ()
  | some file =>
    let buffer ← FileStoragePort.download file.latest.storageKey
    let file ← Effect.lift (verdict file (antivirus buffer) now)
    FileRepository.update file

end ScanFile

/-- The instant `days` days before `now`. -/
def daysBefore (now days : ℕ) : ℕ := now - days * 24 * 60 * 60 * 1000

namespace RescanFiles

/-- What the scan makes of the file. -/
def verdict (file : File) (scan : AntivirusScan) (now : ℕ) : Except FileError File := do
  let file ← file.addScanToLatestVersion scan now
  if scan.isInfected then file.markAsInfectedByRescan now
  else return file

/-- One file, scanned again. -/
def rescan (antivirus : Bytes → AntivirusScan) (now : ℕ) (file : File) : UseCase Unit := do
  let buffer ← FileStoragePort.download file.latest.storageKey
  let file ← Effect.lift (verdict file (antivirus buffer) now)
  FileRepository.update file

/-- `RescanFilesJobsUseCase.execute`. -/
def execute (antivirus : Bytes → AntivirusScan) (tenantId : String) (ageDays : ℕ) (dryRun : Bool)
    (now : ℕ) : UseCase Unit := do
  let files := Files.findReadyForRescan (← Effect.read).files tenantId (daysBefore now ageDays)
  if dryRun then return ()
  else Effect.forEach (rescan antivirus now) files

end RescanFiles

/-- The directory of the binaries of a tenant. -/
def tenantPrefix (tenantId : String) : String := s!"tenants/{tenantId}/files/"

theorem tenantPrefix_isPrefix_storageKey (tenantId fileId : String) (version : ℕ) (name : String) :
    (tenantPrefix tenantId).toList <+: (storageKey tenantId fileId version name).toList := by
  refine ⟨(fileId ++ "/v" ++ toString version ++ "/" ++ name).toList, ?_⟩
  unfold tenantPrefix storageKey
  rw [← String.toList_append]
  congr 1
  simp only [String.append_assoc]
  rfl

namespace ReconcileStorage

/-- The stored keys that no version of a file names. -/
def orphanBinaries (files : List File) (keys : List String) : List String :=
  keys.filter fun key => !(files.any fun f => f.versions.any (·.storageKey == key))

/-- The files that are not deleted and have none of their binaries. -/
def orphanFiles (files : List File) (keys : List String) : List File :=
  (files.filter (!·.isDeleted)).filter fun f => f.versions.all fun v => !(keys.contains v.storageKey)

/-- `ReconcileStorageJobsUseCase.execute`. -/
def execute (tenantId : String) (dryRun : Bool) (now : ℕ) : UseCase Unit := do
  let s ← Effect.read
  let files := Files.findAllByTenant s.files tenantId
  let keys := s.storage.list (tenantPrefix tenantId)
  if dryRun then return ()
  else
    Effect.forEach FileStoragePort.delete (orphanBinaries files keys)
    Effect.forEach (fun file => FileRepository.update (file.markAsOrphan now)) (orphanFiles files keys)

end ReconcileStorage

namespace PurgeDeletedFiles

/-- The keys of all versions of the files that still have a binary. -/
def purgedKeys (files : List File) (keys : List String) : List String :=
  (files.filter fun f => f.versions.any fun v => keys.contains v.storageKey).flatMap fun f =>
    f.versions.map (·.storageKey)

/-- `PurgeDeletedFilesJobsUseCase.execute`. -/
def execute (tenantId : String) (graceDays : ℕ) (dryRun : Bool) (now : ℕ) : UseCase Unit := do
  let s ← Effect.read
  let files := Files.findDeletedBefore s.files tenantId (daysBefore now graceDays)
  let keys := s.storage.list (tenantPrefix tenantId)
  if dryRun then return ()
  else Effect.forEach FileStoragePort.delete (purgedKeys files keys)

end PurgeDeletedFiles

end Neltrik.FileStorage.UseCases
