import Neltrik.Shared.Text
import Mathlib.Algebra.Order.BigOperators.Group.List
import Mathlib.Algebra.Order.Ring.Nat

/-! # The `File` aggregate

The value objects `AntivirusScan` and `FileVersion` and the entity `File`. Each type carries what its
private constructor checks, so a value that the source would refuse cannot be built; the
constructors of the source (`create`, `createInitial`, `restore`) run the checks and return the
error the source throws. A method that changes the entity in place is here a function to the changed
entity; `now` is the instant `new Date()` returns in it.

Instants are milliseconds, and the numbers of the source that are checked with `Number.isInteger`
and a lower bound are natural numbers. -/

namespace Neltrik.FileStorage.Domain

open Neltrik.Shared

/-- The errors of the file storage use cases, by the class the source throws. -/
inductive FileError where
  | emptyFileName | fileAlreadyDeleted | fileNotReady | invalidFileExtension | invalidFileResource
  | invalidFileSize | invalidFileStatus | invalidFileVersions | invalidMimeType
  | invalidAntivirusScan | invalidFileVersion | invalidFileMagicBytes
  | fileNotFound | fileVersionNotFound | fileAlreadyExists
  | fileQuotaExceeded | fileQuotaNotFound | invalidQuotaLimit | quotaLimitBelowMinimum
  | optimisticLock | uniqueViolation | checkViolation | recordNotFound | infrastructure
  deriving DecidableEq, Repr

/-! ## Antivirus scans -/

/-- `ANTIVIRUS_SCAN_STATUS`. -/
inductive AntivirusScanStatus where
  | clean | infected | error
  deriving DecidableEq, Repr

/-- `ensureResultForStatus`: only a clean scan may come without a result text. -/
def resultForStatus : AntivirusScanStatus → Option String → Bool
  | .clean, _ => true
  | _, none => false
  | _, some result => !isBlank result

/-- A scan of a version, which names its engine. -/
structure AntivirusScan where
  status : AntivirusScanStatus
  engine : String
  result : Option String
  scannedAt : ℕ
  engine_ne : isBlank engine = false
  result_ok : resultForStatus status result = true
  deriving DecidableEq

namespace AntivirusScan

/-- Both checks throw the one error. -/
def create (status : AntivirusScanStatus) (engine : String) (result : Option String)
    (scannedAt : ℕ) : Except FileError AntivirusScan :=
  if h : isBlank engine = false ∧ resultForStatus status result = true then
    .ok { status, engine, result, scannedAt, engine_ne := h.1, result_ok := h.2 }
  else .error .invalidAntivirusScan

/-- By the status. -/
def isClean (scan : AntivirusScan) : Bool := scan.status == .clean

/-- By the status. -/
def isInfected (scan : AntivirusScan) : Bool := scan.status == .infected

/-- By the status. -/
def hasError (scan : AntivirusScan) : Bool := scan.status == .error

theorem isClean_or_isInfected_or_hasError (scan : AntivirusScan) :
    scan.isClean = true ∨ scan.isInfected = true ∨ scan.hasError = true := by
  unfold isClean isInfected hasError
  cases scan.status <;> simp

theorem isInfected_of_isClean {scan : AntivirusScan} (h : scan.isClean = true) :
    scan.isInfected = false := by
  unfold isClean at h; unfold isInfected
  rw [beq_iff_eq] at h; rw [h]; rfl

end AntivirusScan

/-! ## File versions -/

/-- The parameters of `FileVersion.create`. -/
structure FileVersionParams where
  version : ℕ
  name : String
  extension : String
  mimeType : String
  storageKey : String
  size : ℕ
  checksum : String
  scans : List AntivirusScan
  createdAt : ℕ
  deriving DecidableEq

/-- What `FileVersion.create` checks. -/
def FileVersionParams.Valid (p : FileVersionParams) : Prop :=
  1 ≤ p.version ∧ isBlank p.name = false ∧ isBlank p.extension = false ∧
    isBlank p.mimeType = false ∧ isBlank p.storageKey = false ∧ 0 < p.size ∧
    isBlank p.checksum = false

instance (p : FileVersionParams) : Decidable p.Valid := by
  unfold FileVersionParams.Valid; infer_instance

/-- A version of a file. -/
structure FileVersion extends FileVersionParams where
  valid : toFileVersionParams.Valid
  deriving DecidableEq

namespace FileVersion

/-- Every check throws the one error. -/
def create (p : FileVersionParams) : Except FileError FileVersion :=
  if h : p.Valid then .ok ⟨p, h⟩ else .error .invalidFileVersion

/-- `FileVersion.createInitial`: version `1`, whatever `p` says. -/
def createInitial (p : FileVersionParams) : Except FileError FileVersion :=
  create { p with version := 1 }

theorem create_eq_ok {p : FileVersionParams} {v : FileVersion} :
    create p = .ok v ↔ v.toFileVersionParams = p := by
  unfold create
  constructor
  · intro h
    split at h
    · cases h; rfl
    · cases h
  · rintro rfl
    rw [dif_pos v.valid]

/-- The last scan, if there has been one. -/
def getLatestScan (v : FileVersion) : Option AntivirusScan := v.scans.getLast?

/-- The version with one more scan. -/
def withScan (v : FileVersion) (scan : AntivirusScan) : FileVersion :=
  { v with scans := v.scans ++ [scan], valid := v.valid }

@[simp] theorem withScan_version (v : FileVersion) (scan : AntivirusScan) :
    (v.withScan scan).version = v.version := rfl

@[simp] theorem withScan_storageKey (v : FileVersion) (scan : AntivirusScan) :
    (v.withScan scan).storageKey = v.storageKey := rfl

@[simp] theorem withScan_size (v : FileVersion) (scan : AntivirusScan) :
    (v.withScan scan).size = v.size := rfl

@[simp] theorem withScan_scans (v : FileVersion) (scan : AntivirusScan) :
    (v.withScan scan).scans = v.scans ++ [scan] := rfl

theorem size_pos (v : FileVersion) : 0 < v.size := v.valid.2.2.2.2.2.1

end FileVersion

/-! ## The entity -/

/-- `FILE_PURPOSE`. -/
inductive FilePurpose where
  | cv | avatar | document
  deriving DecidableEq, Repr

/-- `FILE_STATUS`. -/
inductive FileStatus where
  | pending | ready | infected | deleted
  deriving DecidableEq, Repr

/-- The fields of a file. The format and the size are those of its last version. -/
structure FileProps where
  id : String
  tenantId : String
  ownerId : String
  name : String
  extension : String
  mimeType : String
  size : ℕ
  purpose : FilePurpose
  status : FileStatus
  resourceType : String
  resourceId : String
  versions : List FileVersion
  version : ℕ
  createdAt : ℕ
  updatedAt : ℕ
  deletedAt : Option ℕ
  deriving DecidableEq

/-- What the private constructor of `File` checks; a purpose outside the enumeration has no value. -/
def FileProps.Valid (p : FileProps) : Prop :=
  isBlank p.name = false ∧ isBlank p.extension = false ∧ isBlank p.mimeType = false ∧ 0 < p.size ∧
    p.versions ≠ []

/-- A file, which has a version. -/
structure File extends FileProps where
  valid : toFileProps.Valid
  deriving DecidableEq

namespace File

/-- The private constructor, with the errors in the order of its checks. -/
def ofProps (p : FileProps) : Except FileError File :=
  if hn : isBlank p.name = false then
    if he : isBlank p.extension = false then
      if hm : isBlank p.mimeType = false then
        if hs : 0 < p.size then
          if hv : p.versions ≠ [] then .ok ⟨p, hn, he, hm, hs, hv⟩
          else .error .invalidFileVersions
        else .error .invalidFileSize
      else .error .invalidMimeType
    else .error .invalidFileExtension
  else .error .emptyFileName

/-- The constructor on what is stored. -/
def restore (p : FileProps) : Except FileError File := ofProps p

/-- `File.create`; the fields the source sets itself (`status`, `version`, `updatedAt`, `deletedAt`)
are not read from `p`. -/
def create (p : FileProps) : Except FileError File :=
  if p.versions.length ≠ 1 then .error .invalidFileVersions
  else ofProps { p with status := .pending, version := 0, updatedAt := p.createdAt, deletedAt := none }

theorem ofProps_eq_ok {p : FileProps} {f : File} : ofProps p = .ok f ↔ f.toFileProps = p := by
  unfold ofProps
  constructor
  · intro h
    split_ifs at h
    cases h; rfl
  · rintro rfl
    obtain ⟨hn, he, hm, hs, hv⟩ := f.valid
    rw [dif_pos hn, dif_pos he, dif_pos hm, dif_pos hs, dif_pos hv]

theorem create_eq_ok {p : FileProps} {f : File} : create p = .ok f ↔ p.versions.length = 1 ∧
    f.toFileProps =
      { p with status := .pending, version := 0, updatedAt := p.createdAt, deletedAt := none } := by
  unfold create
  by_cases hl : p.versions.length = 1
  · rw [if_neg (not_not.mpr hl), ofProps_eq_ok]
    exact ⟨fun h => ⟨hl, h⟩, And.right⟩
  · rw [if_pos hl]
    exact ⟨nofun, fun h => absurd h.1 hl⟩

theorem ext_props : ∀ {f f' : File}, f.toFileProps = f'.toFileProps → f = f'
  | ⟨_, _⟩, ⟨_, _⟩, rfl => rfl

/-! ### Queries -/

/-- By the status. -/
def isReady (f : File) : Bool := f.status == .ready

/-- By the status. -/
def isDeleted (f : File) : Bool := f.status == .deleted

/-- By the status. -/
def isInfected (f : File) : Bool := f.status == .infected

/-- By the status. -/
def isPending (f : File) : Bool := f.status == .pending

/-- `versions.at(-1)`. -/
def getLatestVersion (f : File) : Option FileVersion := f.versions.getLast?

/-- What the file takes of the quota: all its versions. -/
def getTotalSize (f : File) : ℕ := (f.versions.map (·.size)).sum

theorem versions_ne_nil (f : File) : f.versions ≠ [] := f.valid.2.2.2.2

/-- The last version; there is one (`getLatestVersion_eq`). -/
def latest (f : File) : FileVersion := f.versions.getLast f.versions_ne_nil

theorem getLatestVersion_eq (f : File) : f.getLatestVersion = some f.latest :=
  List.getLast?_eq_some_getLast f.versions_ne_nil

theorem latest_mem (f : File) : f.latest ∈ f.versions := List.getLast_mem f.versions_ne_nil

theorem latest_eq_of_getLast? {f : File} {v : FileVersion} (h : f.versions.getLast? = some v) :
    f.latest = v := by
  have := f.getLatestVersion_eq
  rw [getLatestVersion, h] at this
  exact (Option.some.inj this).symm

theorem getTotalSize_pos (f : File) : 0 < f.getTotalSize :=
  lt_of_lt_of_le f.latest.size_pos
    (List.single_le_sum (by simp) _ (List.mem_map.mpr ⟨_, f.latest_mem, rfl⟩))

/-! ### Changes -/

/-- From `PENDING` only. -/
def markReady (f : File) (now : ℕ) : Except FileError File :=
  if f.status ≠ .pending then .error .invalidFileStatus
  else .ok { f with status := .ready, updatedAt := now, valid := f.valid }

/-- From `PENDING` only. -/
def markInfected (f : File) (now : ℕ) : Except FileError File :=
  if f.status ≠ .pending then .error .invalidFileStatus
  else .ok { f with status := .infected, updatedAt := now, valid := f.valid }

/-- Of a `READY` or `INFECTED` file, once. -/
def delete (f : File) (now : ℕ) : Except FileError File :=
  if f.deletedAt ≠ none then .error .fileAlreadyDeleted
  else if f.status ≠ .ready ∧ f.status ≠ .infected then .error .fileNotReady
  else .ok { f with status := .deleted, deletedAt := some now, updatedAt := now, valid := f.valid }

/-- From any status, for a file without its binary; a second time does nothing. -/
def markAsOrphan (f : File) (now : ℕ) : File :=
  if f.status = .deleted then f
  else { f with status := .deleted, deletedAt := some now, updatedAt := now, valid := f.valid }

/-- From `READY` only. -/
def markAsInfectedByRescan (f : File) (now : ℕ) : Except FileError File :=
  if f.status ≠ .ready then .error .invalidFileStatus
  else .ok { f with status := .infected, updatedAt := now, valid := f.valid }

/-- The next number; the file is `PENDING` again, under the name and the format of the version. -/
def addVersion (f : File) (v : FileVersion) (now : ℕ) : Except FileError File :=
  if f.status ≠ .ready ∧ f.status ≠ .infected then .error .fileNotReady
  else match f.getLatestVersion with
    | none => .error .invalidFileVersions
    | some latest =>
      if v.version ≠ latest.version + 1 then .error .invalidFileVersions
      else .ok
        { f with
          versions := f.versions ++ [v], name := v.name, extension := v.extension,
          mimeType := v.mimeType, size := v.size, status := .pending, updatedAt := now,
          valid := ⟨v.valid.2.1, v.valid.2.2.1, v.valid.2.2.2.1, v.size_pos, by simp⟩ }

/-- The status is left to the caller. -/
def addScanToLatestVersion (f : File) (scan : AntivirusScan) (now : ℕ) : Except FileError File :=
  match f.getLatestVersion with
  | none => .error .invalidFileVersions
  | some latest => .ok
      { f with
        versions := f.versions.dropLast ++ [latest.withScan scan], updatedAt := now,
        valid := ⟨f.valid.1, f.valid.2.1, f.valid.2.2.1, f.valid.2.2.2.1, by simp⟩ }

/-- The name of the file, not that of its version. -/
def rename (f : File) (newName : String) (now : ℕ) : Except FileError File :=
  if f.status ≠ .ready ∧ f.status ≠ .infected then .error .fileNotReady
  else if hn : isBlank newName = false then
    .ok { f with name := newName, updatedAt := now, valid := ⟨hn, f.valid.2⟩ }
  else .error .emptyFileName

/-- Both texts have to be there. -/
def changeResource (f : File) (resourceType resourceId : String) (now : ℕ) : Except FileError File :=
  if f.status ≠ .ready ∧ f.status ≠ .infected then .error .fileNotReady
  else if isBlank resourceType then .error .invalidFileResource
  else if isBlank resourceId then .error .invalidFileResource
  else .ok { f with resourceType, resourceId, updatedAt := now, valid := f.valid }

/-! ### What each change does -/

variable {f f' : File} {now : ℕ}

/-- A change behind one check of the file. -/
theorem ite_not_eq_ok {condition : Prop} [Decidable condition] {e : FileError} {g : File} :
    (if ¬ condition then .error e else .ok g : Except FileError File) = .ok f' ↔
      condition ∧ f'.toFileProps = g.toFileProps := by
  by_cases h : condition
  · rw [if_neg (not_not.mpr h), Except.ok.injEq]
    exact ⟨fun h' => ⟨h, by rw [← h']⟩, fun h' => ext_props h'.2.symm⟩
  · rw [if_pos h]
    exact ⟨nofun, fun h' => absurd h'.1 h⟩

theorem markReady_eq_ok : f.markReady now = .ok f' ↔ f.status = .pending ∧
    f'.toFileProps = { f.toFileProps with status := .ready, updatedAt := now } := by
  unfold markReady
  exact ite_not_eq_ok

theorem markInfected_eq_ok : f.markInfected now = .ok f' ↔ f.status = .pending ∧
    f'.toFileProps = { f.toFileProps with status := .infected, updatedAt := now } := by
  unfold markInfected
  exact ite_not_eq_ok

theorem markAsInfectedByRescan_eq_ok :
    f.markAsInfectedByRescan now = .ok f' ↔ f.status = .ready ∧
      f'.toFileProps = { f.toFileProps with status := .infected, updatedAt := now } := by
  unfold markAsInfectedByRescan
  exact ite_not_eq_ok

theorem not_ready_nor_infected_iff {st : FileStatus} :
    ¬ (st ≠ .ready ∧ st ≠ .infected) ↔ st = .ready ∨ st = .infected := by
  rw [not_and_or, not_not, not_not]

theorem delete_eq_ok : f.delete now = .ok f' ↔ f.deletedAt = none ∧
    (f.status = .ready ∨ f.status = .infected) ∧
    f'.toFileProps =
      { f.toFileProps with status := .deleted, deletedAt := some now, updatedAt := now } := by
  unfold delete
  split_ifs with hd hs
  · exact ⟨nofun, fun h => absurd h.1 hd⟩
  · exact ⟨nofun, fun h => absurd h.2.1 (by rw [← not_ready_nor_infected_iff, not_not]; exact hs)⟩
  · rw [Except.ok.injEq]
    exact ⟨fun h => ⟨not_not.mp hd, not_ready_nor_infected_iff.mp hs, by rw [← h]⟩,
      fun h => ext_props h.2.2.symm⟩

theorem addVersion_eq_ok {v : FileVersion} : f.addVersion v now = .ok f' ↔
    (f.status = .ready ∨ f.status = .infected) ∧ v.version = f.latest.version + 1 ∧
    f'.toFileProps =
      { f.toFileProps with
        versions := f.versions ++ [v], name := v.name, extension := v.extension,
        mimeType := v.mimeType, size := v.size, status := .pending, updatedAt := now } := by
  unfold addVersion
  rw [getLatestVersion_eq]
  dsimp only
  split_ifs with hs hv
  · exact ⟨nofun, fun h => absurd h.1 (by rw [← not_ready_nor_infected_iff, not_not]; exact hs)⟩
  · exact ⟨nofun, fun h => absurd h.2.1 hv⟩
  · rw [Except.ok.injEq]
    exact ⟨fun h => ⟨not_ready_nor_infected_iff.mp hs, not_not.mp hv, by rw [← h]⟩,
      fun h => ext_props h.2.2.symm⟩

theorem addScanToLatestVersion_eq_ok {scan : AntivirusScan} :
    f.addScanToLatestVersion scan now = .ok f' ↔
      f'.toFileProps =
        { f.toFileProps with
          versions := f.versions.dropLast ++ [f.latest.withScan scan], updatedAt := now } := by
  unfold addScanToLatestVersion
  rw [getLatestVersion_eq]
  dsimp only
  rw [Except.ok.injEq]
  exact ⟨fun h => by rw [← h], fun h => ext_props h.symm⟩

theorem rename_eq_ok {newName : String} : f.rename newName now = .ok f' ↔
    (f.status = .ready ∨ f.status = .infected) ∧ isBlank newName = false ∧
    f'.toFileProps = { f.toFileProps with name := newName, updatedAt := now } := by
  unfold rename
  split_ifs with hs hn
  · exact ⟨nofun, fun h => absurd h.1 (by rw [← not_ready_nor_infected_iff, not_not]; exact hs)⟩
  · rw [Except.ok.injEq]
    exact ⟨fun h => ⟨not_ready_nor_infected_iff.mp hs, hn, by rw [← h]⟩,
      fun h => ext_props h.2.2.symm⟩
  · exact ⟨nofun, fun h => absurd h.2.1 hn⟩

theorem changeResource_eq_ok {resourceType resourceId : String} :
    f.changeResource resourceType resourceId now = .ok f' ↔
      (f.status = .ready ∨ f.status = .infected) ∧ isBlank resourceType = false ∧
      isBlank resourceId = false ∧
      f'.toFileProps = { f.toFileProps with resourceType, resourceId, updatedAt := now } := by
  unfold changeResource
  split_ifs with hs ht hi
  · exact ⟨nofun, fun h => absurd h.1 (by rw [← not_ready_nor_infected_iff, not_not]; exact hs)⟩
  · exact ⟨nofun, fun h => by rw [h.2.1] at ht; cases ht⟩
  · exact ⟨nofun, fun h => by rw [h.2.2.1] at hi; cases hi⟩
  · rw [Except.ok.injEq]
    exact ⟨fun h => ⟨not_ready_nor_infected_iff.mp hs, by simpa using ht, by simpa using hi,
      by rw [← h]⟩, fun h => ext_props h.2.2.2.symm⟩

theorem markAsOrphan_props : (f.markAsOrphan now).toFileProps =
    if f.status = .deleted then f.toFileProps
    else { f.toFileProps with status := .deleted, deletedAt := some now, updatedAt := now } := by
  unfold markAsOrphan
  split_ifs <;> rfl

@[simp] theorem markAsOrphan_status : (f.markAsOrphan now).status = .deleted := by
  unfold markAsOrphan
  split_ifs with h
  · exact h
  · rfl

end File

end Neltrik.FileStorage.Domain
