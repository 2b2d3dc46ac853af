import Neltrik.FileStorage.UseCases
import Neltrik.Lib.Interleaving
import Mathlib.Data.Int.Notation

/-! # The concurrent system

The use cases and the jobs as processes over one world. An action is what a use case does between two
awaits on another party: one query, one call of the storage, one call of the queue. The steps that
only read are taken together with the decision that follows them.

A transaction of an upload or a replace is open from `write` to `commit` or `abort`. Its rows are not
seen by others, but they are locked: an action that could write a row of the same id, or one that the
unique index does not allow beside it, has to wait and is not enabled. The other transactions have no
call to another party inside and are one action. A process that never acts again is one whose server
has died.

The world carries two records that no use case reads: `moved`, the bytes that committed increments
and decrements have moved for a tenant, and `origins`, the bytes the checksum of a committed version
was computed from. -/

namespace Neltrik.FileStorage.System

open Neltrik.Lib Neltrik.FileStorage.Domain Neltrik.FileStorage.Persistence
open Neltrik.FileStorage.Validation Neltrik.FileStorage.UseCases

/-- The store, with the two records. -/
structure World extends Store where
  moved : String → ℤ
  origins : String → ℕ → Option Bytes

/-- What the quota check of a request read, and what had been moved by then. -/
structure QuotaCheck where
  usedBytes : ℕ
  limitBytes : ℕ
  moved : ℤ
  deriving DecidableEq

/-- A change of one file that is saved by a conditional update. -/
inductive Edit where
  | rename (newName : String)
  | changeResource (resourceType resourceId : String)
  | delete
  | scan (answer : AntivirusScan)
  | rescan (answer : AntivirusScan)
  | orphan

/-- The method of the entity. -/
def Edit.apply (file : File) (now : ℕ) : Edit → Except FileError File
  | rename newName => file.rename newName now
  | changeResource resourceType resourceId => file.changeResource resourceType resourceId now
  | delete => file.delete now
  | scan answer => ScanFile.verdict file answer now
  | rescan answer => RescanFiles.verdict file answer now
  | orphan => .ok (file.markAsOrphan now)

/-- The processes, by what they hold between two actions. -/
inductive Proc where
  /-- An upload that passed its checks; its quota row may not exist yet. -/
  | validated (r : Request)
  | checked (r : Request)
  | admitted (r : Request) (check : QuotaCheck)
  | uploaded (r : Request) (check : QuotaCheck)
  /-- The transaction is open, the row written at `now` and the quota incremented. -/
  | written (r : Request) (check : QuotaCheck) (now : ℕ)
  | enqueued (r : Request) (check : QuotaCheck) (now : ℕ)
  /-- The transaction is rolled back, the compensation is due. -/
  | aborted (r : Request)
  | resourcing (copy : File) (resourceType resourceId : String)
  | editing (copy : File) (edit : Edit)
  | scanning (jobId : String) (copy : File) (buffer : Option Bytes)
  | rescanning (todo : List File) (buffer : Option Bytes)
  /-- A reconcile, or a purge, that has read its files. -/
  | listing (tenantId : String) (files : List File) (purge : Bool)
  | sweeping (keys : List String) (orphans : List File)
  | adjusting (copy : FileQuota) (newLimitBytes : ℕ) (moved : ℤ)
  | finished

namespace Proc

/-- The request whose binary is stored and whose transaction has neither committed nor failed. -/
def pending : Proc → Option Request
  | uploaded r _ | written r _ _ | enqueued r _ _ => some r
  | _ => none

/-- The key a request has stored its binary under, until it commits or has compensated. -/
def heldKey : Proc → Option String
  | aborted r => some r.key
  | p => p.pending.map Request.key

/-- A reconcile or a purge. -/
def sweeps : Proc → Bool
  | listing _ _ _ | sweeping _ _ => true
  | _ => false

/-- The row of an open transaction. -/
def openRow (ports : Ports) : Proc → Option File
  | written r _ now => (r.row ports now).toOption
  | enqueued r _ now => (r.row ports now).toOption
  | _ => none

/-- The files a process has read and may still write. -/
def copies : Proc → List File
  | validated r | checked r | admitted r _ | uploaded r _ | written r _ _ | enqueued r _ _ => r.copies
  | resourcing copy _ _ | editing copy _ | scanning _ copy _ => [copy]
  | rescanning todo _ => todo
  | listing _ files _ => files
  | sweeping _ orphans => orphans
  | aborted _ | adjusting _ _ _ | finished => []

end Proc

/-- The starts: what a use case or a job reads first. -/
inductive Start where
  | upload (input : UploadFileInput) (fileId : String)
  | replace (scope : Option String) (input : ReplaceFileInput)
  | rename (scope : Option String) (fileId newName : String)
  | changeResource (scope : Option String) (fileId resourceType resourceId : String)
  | delete (scope : Option String) (fileId : String)
  | scan (jobId : String)
  | rescan (tenantId : String) (before : ℕ)
  | reconcile (tenantId : String)
  | purge (tenantId : String) (before : ℕ)
  | adjust (tenantId : String) (newLimitBytes : ℕ)

/-- The actions of a process. -/
inductive Action where
  | createQuota (quotaId : String) (now : ℕ)
  | verifyQuota
  | upload
  | write (now : ℕ)
  | enqueue
  | commit
  | abort
  | compensate (succeeds : Bool)
  | checkResource
  | saveEdit (now : ℕ)
  | download
  | saveScan (scan : AntivirusScan) (now : ℕ)
  | failScan
  | saveRescan (scan : AntivirusScan) (now : ℕ)
  | listStorage
  | sweep
  | markOrphan (now : ℕ)
  | saveLimit (now : ℕ)

/-! ## Locks -/

/-- Writing `file` has to wait for an open transaction. -/
def locked (ports : Ports) (procs : List Proc) (file : File) : Bool :=
  procs.any fun p => (p.openRow ports).any fun row => row.id == file.id || sameSlot row file

/-! ## Starts -/

/-- The change of one file by a user: the file is read. -/
def openFile (w : World) (scope : Option String) (fileId : String) (p : File → Proc) :
    Option (World × Proc) :=
  (Files.findById w.files scope fileId).map fun file => (w, p file)

/-- A worker takes a waiting job; the job ends at once when `ScanFile.select` does not scan. -/
def takeJob (w : World) (jobId : String) : Option (World × Proc) :=
  (w.jobs.find? fun job => job.jobId == jobId && job.state == .waiting).map fun job =>
    let found := Files.findById w.files (some job.payload.tenantId) job.payload.fileId
    match ScanFile.select found job.payload with
    | .error _ => ({ w with jobs := w.jobs.modify jobId ScanJob.failAttempt }, .finished)
    | .ok none => ({ w with jobs := w.jobs.modify jobId ScanJob.complete }, .finished)
    | .ok (some file) => ({ w with jobs := w.jobs.modify jobId ScanJob.activate },
        .scanning jobId file none)

/-- A request that is refused by what it reads leaves no trace and has no label. -/
def start (ports : Ports) (w : World) : Start → Option (World × Proc)
  | .upload input fileId =>
    match UploadFile.ensureUploadable ports w.files input with
    | .ok _ => some (w, .validated (.upload input fileId))
    | .error _ => none
  | .replace scope input =>
    match ReplaceFile.ensureReplaceable ports w.files scope input with
    | .ok file => some (w, .checked (.replace input file))
    | .error _ => none
  | .rename scope fileId newName => openFile w scope fileId fun file => .editing file (.rename newName)
  | .changeResource scope fileId resourceType resourceId =>
    openFile w scope fileId fun file => .resourcing file resourceType resourceId
  | .delete scope fileId => openFile w scope fileId fun file => .editing file .delete
  | .scan jobId => takeJob w jobId
  | .rescan tenantId before =>
    some (w, .rescanning (Files.findReadyForRescan w.files tenantId before) none)
  | .reconcile tenantId => some (w, .listing tenantId (Files.findAllByTenant w.files tenantId) false)
  | .purge tenantId before =>
    some (w, .listing tenantId (Files.findDeletedBefore w.files tenantId before) true)
  | .adjust tenantId newLimitBytes =>
    (w.quotas tenantId).map fun quota => (w, .adjusting quota newLimitBytes (w.moved tenantId))

/-! ## Uploads and replaces -/

/-- The quota of a tenant that has none. -/
def createQuota (w : World) (quotaId : String) (now : ℕ) : Proc → Option (World × Proc)
  | .validated r =>
    match Quotas.createOrGet w.quotas quotaId r.tenantId now with
    | .ok quotas => some ({ w with quotas }, .checked r)
    | .error _ => none
  | _ => none

/-- The quota is read and has to accommodate the upload. -/
def verifyQuota (w : World) : Proc → Option (World × Proc)
  | .checked r => (w.quotas r.tenantId).map fun quota =>
      if quota.canAccommodate r.size then
        (w, .admitted r ⟨quota.usedBytes, quota.limitBytes, w.moved r.tenantId⟩)
      else (w, .finished)
  | _ => none

/-- The write of the binary. -/
def upload (w : World) : Proc → Option (World × Proc)
  | .admitted r check =>
    some ({ w with storage := w.storage.upload r.key r.buffer }, .uploaded r check)
  | _ => none

/-- The rows and the counter after the transaction of a request. -/
def persist (ports : Ports) (w : World) (r : Request) (now : ℕ) : Except FileError (Files × Quotas) := do
  let file ← r.row ports now
  let files ← r.save w.files file
  let quotas ← Quotas.incrementUsedBytes w.quotas r.tenantId r.size now
  return (files, quotas)

/-- Opens the transaction; a statement that fails rolls it back. -/
def write (ports : Ports) (procs : List Proc) (w : World) (now : ℕ) : Proc → Option (World × Proc)
  | .uploaded r check =>
    match persist ports w r now with
    | .ok _ =>
      if (r.row ports now).toOption.any (locked ports procs) then none
      else some (w, .written r check now)
    | .error _ => some (w, .aborted r)
  | _ => none

/-- The job of the scan. -/
def enqueue (w : World) : Proc → Option (World × Proc)
  | .written r check now =>
    some ({ w with jobs := w.jobs.enqueue (buildFileScanJobId r.fileId r.version) r.payload },
      .enqueued r check now)
  | _ => none

/-- The transaction of the row and the quota. -/
def commit (ports : Ports) (w : World) : Proc → Option (World × Proc)
  | .enqueued r _ now =>
    match persist ports w r now with
    | .ok (files, quotas) => some
        ({ w with
            files, quotas
            moved := Function.update w.moved r.tenantId (w.moved r.tenantId + r.size)
            origins := Function.update w.origins r.fileId
              (Function.update (w.origins r.fileId) r.version (some r.buffer)) },
          .finished)
    | .error _ => none
  | _ => none

/-- The transaction fails for a reason of its own: the database, the queue, a time limit. -/
def abort (w : World) (p : Proc) : Option (World × Proc) := p.pending.map fun r => (w, .aborted r)

/-- The binary is deleted, if the storage answers. -/
def compensate (w : World) (succeeds : Bool) : Proc → Option (World × Proc)
  | .aborted r =>
    some (if succeeds then { w with storage := w.storage.delete r.key } else w, .finished)
  | _ => none

/-! ## Changes of one file -/

/-- The lookup of another file of the resource. -/
def checkResource (w : World) : Proc → Option (World × Proc)
  | .resourcing copy resourceType resourceId =>
    if ChangeFileResource.taken w.files copy resourceType resourceId then some (w, .finished)
    else some (w, .editing copy (.changeResource resourceType resourceId))
  | _ => none

/-- The change in memory, the conditional update and, for a delete, the decrement. -/
def saveCopy (w : World) (copy : File) (edit : Edit) (now : ℕ) : Except FileError World := do
  let file ← edit.apply copy now
  let files ← Files.update w.files file
  match edit with
  | .delete =>
    let quotas ← Quotas.decrementUsedBytes w.quotas file.tenantId file.getTotalSize now
    return { w with
      files, quotas
      moved := Function.update w.moved file.tenantId (w.moved file.tenantId - file.getTotalSize) }
  | _ => return { w with files }

/-- `saveCopy` when no lock stands in its way; `done` and `failed` are how the process goes on. -/
def saveUnlocked (ports : Ports) (procs : List Proc) (w : World) (copy : File) (edit : Edit)
    (now : ℕ) (done : World → World × Proc) (failed : World × Proc) : Option (World × Proc) :=
  match saveCopy w copy edit now with
  | .ok w' => if (edit.apply copy now).toOption.any (locked ports procs) then none else some (done w')
  | .error _ => some failed

/-- The update with the edited copy. -/
def saveEdit (ports : Ports) (procs : List Proc) (w : World) (now : ℕ) : Proc → Option (World × Proc)
  | .editing copy edit => saveUnlocked ports procs w copy edit now (·, .finished) (w, .finished)
  | _ => none

/-! ## Scans -/

/-- The read of the binary by a job. -/
def download (w : World) : Proc → Option (World × Proc)
  | .scanning jobId copy none =>
    (w.storage.download copy.latest.storageKey).map fun b => (w, .scanning jobId copy (some b))
  | .rescanning (copy :: todo) none =>
    (w.storage.download copy.latest.storageKey).map fun b => (w, .rescanning (copy :: todo) (some b))
  | _ => none

/-- The update with the scan. -/
def saveScan (ports : Ports) (procs : List Proc) (w : World) (scan : AntivirusScan) (now : ℕ) :
    Proc → Option (World × Proc)
  | .scanning jobId copy (some _) => saveUnlocked ports procs w copy (.scan scan) now
      (fun w' => ({ w' with jobs := w'.jobs.modify jobId ScanJob.complete }, .finished))
      ({ w with jobs := w.jobs.modify jobId ScanJob.failAttempt }, .finished)
  | _ => none

/-- The attempt fails for want of the binary, the antivirus or the database. -/
def failScan (w : World) : Proc → Option (World × Proc)
  | .scanning jobId _ _ => some ({ w with jobs := w.jobs.modify jobId ScanJob.failAttempt }, .finished)
  | _ => none

/-- The update with the scan of a rescan. -/
def saveRescan (ports : Ports) (procs : List Proc) (w : World) (scan : AntivirusScan) (now : ℕ) :
    Proc → Option (World × Proc)
  | .rescanning (copy :: todo) (some _) => saveUnlocked ports procs w copy (.rescan scan) now
      (·, .rescanning todo none) (w, .finished)
  | _ => none

/-! ## Reconcile and purge -/

/-- The keys of the tenant. -/
def listStorage (w : World) : Proc → Option (World × Proc)
  | .listing tenantId files purge =>
    let keys := w.storage.list (tenantPrefix tenantId)
    if purge then some (w, .sweeping (PurgeDeletedFiles.purgedKeys files keys) [])
    else some (w, .sweeping (ReconcileStorage.orphanBinaries files keys)
      (ReconcileStorage.orphanFiles files keys))
  | _ => none

/-- The next binary without a row. -/
def sweep (w : World) : Proc → Option (World × Proc)
  | .sweeping (key :: keys) orphans =>
    some ({ w with storage := w.storage.delete key }, .sweeping keys orphans)
  | _ => none

/-- The next row without a binary. -/
def markOrphan (ports : Ports) (procs : List Proc) (w : World) (now : ℕ) : Proc → Option (World × Proc)
  | .sweeping [] (copy :: orphans) => saveUnlocked ports procs w copy .orphan now
      (·, .sweeping [] orphans) (w, .finished)
  | _ => none

/-! ## The limit of a quota -/

/-- The update of the limit. -/
def saveLimit (w : World) (now : ℕ) : Proc → Option (World × Proc)
  | .adjusting copy newLimitBytes _ =>
    match (AdjustQuotaLimit.adjusted copy newLimitBytes now).bind (Quotas.update w.quotas) with
    | .ok quotas => some ({ w with quotas }, .finished)
    | .error _ => some (w, .finished)
  | _ => none

/-! ## The system -/

/-- One action of the process `p`; `procs` are all processes, for their locks. -/
def act (ports : Ports) (procs : List Proc) (w : World) (p : Proc) : Action → Option (World × Proc)
  | .createQuota quotaId now => createQuota w quotaId now p
  | .verifyQuota => verifyQuota w p
  | .upload => upload w p
  | .write now => write ports procs w now p
  | .enqueue => enqueue w p
  | .commit => commit ports w p
  | .abort => abort w p
  | .compensate succeeds => compensate w succeeds p
  | .checkResource => checkResource w p
  | .saveEdit now => saveEdit ports procs w now p
  | .download => download w p
  | .saveScan scan now => saveScan ports procs w scan now p
  | .failScan => failScan w p
  | .saveRescan scan now => saveRescan ports procs w scan now p
  | .listStorage => listStorage w p
  | .sweep => sweep w p
  | .markOrphan now => markOrphan ports procs w now p
  | .saveLimit now => saveLimit w now p

/-- The world and the processes. -/
abbrev State := Interleaving.State World Proc

/-- A step of the system. -/
abbrev Label := Interleaving.Label Start Action

/-- One step of the system. -/
abbrev step (ports : Ports) : State → Label → Option State :=
  Interleaving.step (start ports) (act ports)

/-! ### A first file

An empty system and the labels that take the file `f` of the tenant `t` to `READY`. -/

/-- Nothing is stored and nothing is under way. -/
def emptySystem : State :=
  { world :=
      { files := [], quotas := fun _ => none, storage := ∅, jobs := [], moved := fun _ => 0,
        origins := fun _ _ => none }
    procs := [] }

/-- A document. -/
def pdf₁ : Bytes := [37, 80, 68, 70, 45, 49]

/-- Another one. -/
def pdf₂ : Bytes := [37, 80, 68, 70, 45, 50]

/-- The libraries on the two binaries above. -/
def pdfPorts : Ports where
  detect b := if [37, 80, 68, 70].isPrefixOf b then some "application/pdf" else none
  generate b :=
    if b = pdf₁ then "21af8e71c8703196df7fe1ff901869a88fe64c07bbaa83d838efb45a52b4f303"
    else "468b145bbc44c6e9436af27c6aa4378a76b0e1c52829f59abd537da87572f240"
  getSignedUrl key _ := s!"/storage/{key}"

/-- The upload of the first one. -/
def firstInput : UploadFileInput :=
  { tenantId := "t", ownerId := "u", buffer := pdf₁, name := "cv.pdf", extension := ".pdf",
    mimeType := "application/pdf", size := 6, purpose := .document, resourceType := "USER",
    resourceId := "r" }

/-- A replacement of it. -/
def replaceInput (buffer : Bytes) : ReplaceFileInput :=
  { fileId := "f", buffer, name := "cv.pdf", extension := ".pdf", mimeType := "application/pdf",
    size := 6 }

/-- A scan that finds nothing. -/
def cleanScan : AntivirusScan :=
  { status := .clean, engine := "clamav", result := none, scannedAt := 2, engine_ne := by decide,
    result_ok := rfl }

/-- Process `0` uploads the file. -/
def uploadRun : List Label :=
  [.start (.upload firstInput "f"), .act 0 (.createQuota "q" 0), .act 0 .verifyQuota, .act 0 .upload,
    .act 0 (.write 1), .act 0 .enqueue, .act 0 .commit]

/-- Process `1` scans it. -/
def readyRun : List Label :=
  uploadRun ++
    [.start (.scan "file-scan:f:v1"), .act 1 .download, .act 1 (.saveScan cleanScan 2)]

end Neltrik.FileStorage.System
