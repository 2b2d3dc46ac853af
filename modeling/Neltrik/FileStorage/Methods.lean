import Neltrik.FileStorage.UseCases

/-! # The methods of the entity, one assignment after the other

The methods of `File` change its `props` in place, and a method that throws leaves what it has already
assigned. Here they are written as the source has them, over `FileProps`. `perform_refines`: on the props of
a file they do what the functions of the entity say, and where these give an error the props stay as they
were.

`FileMapper` writes a file to a row, its versions and scans as JSON, and builds the file from the row with
the checks of each constructor (`toDomain_toPersistence`). -/

namespace Neltrik.FileStorage.Methods

open Neltrik.Lib Neltrik.Shared Neltrik.FileStorage.Domain Neltrik.FileStorage.Persistence
open Neltrik.FileStorage.Validation Neltrik.FileStorage.UseCases

/-! ## Methods -/

/-- A method of the entity that returns nothing. -/
abbrev Method := Effect FileProps FileError PUnit

/-- An assignment to a field of `this.props`. -/
def assign (g : FileProps → FileProps) : Method := fun p => (.ok ⟨⟩, g p)

/-- A check of the fields as they are. -/
def throwIf (condition : FileProps → Prop) [DecidablePred condition] (e : FileError) : Method := fun p =>
  if condition p then (.error e, p) else (.ok ⟨⟩, p)

theorem throwIf_bind (condition : FileProps → Prop) [DecidablePred condition] (e : FileError) (k : PUnit → Method)
    (p : FileProps) : (throwIf condition e >>= k) p = if condition p then (.error e, p) else k ⟨⟩ p := by
  by_cases h : condition p
  · rw [if_pos h]
    exact Effect.bind_of_error (if_pos h)
  · rw [if_neg h]
    exact Effect.bind_of_ok (if_neg h)

/-- Neither `READY` nor `INFECTED`. -/
def NotReady (p : FileProps) : Prop := p.status ≠ .ready ∧ p.status ≠ .infected

instance : DecidablePred NotReady := fun p => by unfold NotReady; infer_instance

/-- `File.markReady`. -/
def markReady (now : ℕ) : Method := do
  throwIf (·.status ≠ .pending) .invalidFileStatus
  assign ({ · with status := .ready })
  assign ({ · with updatedAt := now })

/-- `File.markInfected`. -/
def markInfected (now : ℕ) : Method := do
  throwIf (·.status ≠ .pending) .invalidFileStatus
  assign ({ · with status := .infected })
  assign ({ · with updatedAt := now })

/-- `File.delete`. -/
def delete (now : ℕ) : Method := do
  throwIf (·.deletedAt ≠ none) .fileAlreadyDeleted
  throwIf NotReady .fileNotReady
  assign ({ · with status := .deleted })
  assign ({ · with deletedAt := some now })
  assign ({ · with updatedAt := now })

/-- `File.markAsOrphan`. -/
def markAsOrphan (now : ℕ) : Method := do
  if (← Effect.read).status = .deleted then return ⟨⟩
  assign ({ · with status := .deleted })
  assign ({ · with deletedAt := some now })
  assign ({ · with updatedAt := now })

/-- `File.markAsInfectedByRescan`. -/
def markAsInfectedByRescan (now : ℕ) : Method := do
  throwIf (·.status ≠ .ready) .invalidFileStatus
  assign ({ · with status := .infected })
  assign ({ · with updatedAt := now })

/-- The number is the next one. -/
def Follows (version : FileVersion) (p : FileProps) : Prop :=
  ∃ latest ∈ p.versions.getLast?, version.version = latest.version + 1

instance (version : FileVersion) : DecidablePred (Follows version) := fun p => by unfold Follows; infer_instance

/-- `File.addVersion`. -/
def addVersion (version : FileVersion) (now : ℕ) : Method := do
  throwIf NotReady .fileNotReady
  throwIf (¬ Follows version ·) .invalidFileVersions
  assign fun p => { p with versions := p.versions ++ [version] }
  assign ({ · with name := version.name })
  assign ({ · with extension := version.extension })
  assign ({ · with mimeType := version.mimeType })
  assign ({ · with size := version.size })
  assign ({ · with status := .pending })
  assign ({ · with updatedAt := now })

/-- `File.addScanToLatestVersion`. -/
def addScanToLatestVersion (scan : AntivirusScan) (now : ℕ) : Method := do
  match (← Effect.read).versions.getLast? with
  | none => Effect.throw .invalidFileVersions
  | some latest =>
    let updated := latest.withScan scan
    assign fun p => { p with versions := p.versions.dropLast ++ [updated] }
    assign ({ · with updatedAt := now })

/-- `File.rename`. -/
def rename (newName : String) (now : ℕ) : Method := do
  throwIf NotReady .fileNotReady
  throwIf (fun _ => isBlank newName = true) .emptyFileName
  assign ({ · with name := newName })
  assign ({ · with updatedAt := now })

/-- `File.changeResource`. -/
def changeResource (resourceType resourceId : String) (now : ℕ) : Method := do
  throwIf NotReady .fileNotReady
  throwIf (fun _ => isBlank resourceType = true) .invalidFileResource
  throwIf (fun _ => isBlank resourceId = true) .invalidFileResource
  assign ({ · with resourceType := resourceType })
  assign ({ · with resourceId := resourceId })
  assign ({ · with updatedAt := now })

/-! ## The mapper -/

/-- A scan as JSON has it; the ISO text of an instant stands for the instant. -/
structure PersistedScan where
  status : AntivirusScanStatus
  engine : String
  result : Option String
  scannedAt : ℕ
  deriving DecidableEq

/-- A version as the column `versions` has it. -/
structure PersistedFileVersion where
  version : ℕ
  name : String
  extension : String
  mimeType : String
  storageKey : String
  size : ℕ
  checksum : String
  scans : List PersistedScan
  createdAt : ℕ
  deriving DecidableEq

/-- `PrismaFile`. -/
structure FileRow where
  id : String
  tenantId : String
  ownerId : String
  name : String
  extension : String
  mimeType : String
  size : ℕ
  purpose : FilePurpose
  status : FileStatus
  resourceType : String
  resourceId : String
  versions : List PersistedFileVersion
  version : ℕ
  createdAt : ℕ
  updatedAt : ℕ
  deletedAt : Option ℕ
  deriving DecidableEq

namespace FileMapper

/-- A scan for the column. -/
def persistScan (scan : AntivirusScan) : PersistedScan :=
  { status := scan.status, engine := scan.engine, result := scan.result, scannedAt := scan.scannedAt }

/-- A version for the column. -/
def persistVersion (v : FileVersion) : PersistedFileVersion :=
  { version := v.version, name := v.name, extension := v.extension, mimeType := v.mimeType,
    storageKey := v.storageKey, size := v.size, checksum := v.checksum, scans := v.scans.map persistScan,
    createdAt := v.createdAt }

/-- The row of a file. -/
def toPersistence (p : FileProps) : FileRow :=
  { id := p.id, tenantId := p.tenantId, ownerId := p.ownerId, name := p.name, extension := p.extension,
    mimeType := p.mimeType, size := p.size, purpose := p.purpose, status := p.status,
    resourceType := p.resourceType, resourceId := p.resourceId, versions := p.versions.map persistVersion,
    version := p.version, createdAt := p.createdAt, updatedAt := p.updatedAt, deletedAt := p.deletedAt }

/-- A scan through its constructor. -/
def restoreScan (scan : PersistedScan) : Except FileError AntivirusScan :=
  AntivirusScan.create scan.status scan.engine scan.result scan.scannedAt

/-- A version through its constructor, after its scans. -/
def restoreVersion (item : PersistedFileVersion) : Except FileError FileVersion := do
  let scans ← item.scans.mapM restoreScan
  FileVersion.create
    { version := item.version, name := item.name, extension := item.extension, mimeType := item.mimeType,
      storageKey := item.storageKey, size := item.size, checksum := item.checksum, scans,
      createdAt := item.createdAt }

/-- A file through its constructor, after its versions. -/
def toDomain (file : FileRow) : Except FileError File := do
  let versions ← file.versions.mapM restoreVersion
  File.restore
    { id := file.id, tenantId := file.tenantId, ownerId := file.ownerId, name := file.name,
      extension := file.extension, mimeType := file.mimeType, size := file.size, purpose := file.purpose,
      status := file.status, resourceType := file.resourceType, resourceId := file.resourceId, versions,
      version := file.version, createdAt := file.createdAt, updatedAt := file.updatedAt,
      deletedAt := file.deletedAt }

/-- A list that is written item by item is read back item by item. -/
theorem mapM_map_ok {α β : Type} {persist : α → β} {restore : β → Except FileError α}
    (h : ∀ a, restore (persist a) = .ok a) (as : List α) : (as.map persist).mapM restore = .ok as := by
  induction as with
  | nil => rfl
  | cons a as ih =>
    rw [List.map_cons, List.mapM_cons, h, ih]
    rfl

theorem restoreScan_persistScan (scan : AntivirusScan) : restoreScan (persistScan scan) = .ok scan := by
  unfold restoreScan AntivirusScan.create
  exact dif_pos ⟨scan.engine_ne, scan.result_ok⟩

theorem restoreVersion_persistVersion (v : FileVersion) : restoreVersion (persistVersion v) = .ok v := by
  have hscans : (persistVersion v).scans.mapM restoreScan = .ok v.scans :=
    mapM_map_ok restoreScan_persistScan v.scans
  unfold restoreVersion
  rw [hscans]
  exact FileVersion.create_eq_ok.mpr rfl

/-- **The file read back is the file that was written.** -/
theorem toDomain_toPersistence (f : File) : toDomain (toPersistence f.toFileProps) = .ok f := by
  have hversions : (toPersistence f.toFileProps).versions.mapM restoreVersion = .ok f.versions :=
    mapM_map_ok restoreVersion_persistVersion f.versions
  unfold toDomain
  rw [hversions]
  exact File.ofProps_eq_ok.mpr rfl

end FileMapper

/-! ## Calls -/

/-- The version `ReplaceFile` builds from what it reads of the file. -/
def replaceVersion (ports : Ports) (input : ReplaceFileInput) (now : ℕ) (p : FileProps) :
    Except FileError FileVersion :=
  match p.versions.getLast? with
  | none => .error .invalidFileStatus
  | some latest =>
    let nextVersion := latest.version + 1
    FileVersion.create
      { version := nextVersion, name := input.name, extension := input.extension, mimeType := input.mimeType,
        storageKey := storageKey p.tenantId p.id nextVersion input.name, size := input.size,
        checksum := ports.generate input.buffer, scans := [], createdAt := now }

/-- The calls on a file. A `reload` is what a use case finds that runs later: the file written to its row,
by an update with the next version or by a create, and read from it. -/
inductive Call where
  | replace (input : ReplaceFileInput) (now : ℕ)
  | addScanToLatestVersion (scan : AntivirusScan) (now : ℕ)
  | markReady (now : ℕ)
  | markInfected (now : ℕ)
  | markAsInfectedByRescan (now : ℕ)
  | rename (newName : String) (now : ℕ)
  | changeResource (resourceType resourceId : String) (now : ℕ)
  | delete (now : ℕ)
  | markAsOrphan (now : ℕ)
  | reload (updated : Bool)
  deriving DecidableEq

/-- The row that is written has the next version, if an update writes it. -/
def saved (updated : Bool) (p : FileProps) : FileProps :=
  if updated then { p with version := p.version + 1 } else p

namespace Call

/-- The call on the `props` of the file. -/
def perform (ports : Ports) : Call → Method
  | replace input now => do
    let version ← Effect.lift (replaceVersion ports input now (← Effect.read))
    addVersion version now
  | addScanToLatestVersion scan now => Methods.addScanToLatestVersion scan now
  | markReady now => Methods.markReady now
  | markInfected now => Methods.markInfected now
  | markAsInfectedByRescan now => Methods.markAsInfectedByRescan now
  | rename newName now => Methods.rename newName now
  | changeResource resourceType resourceId now => Methods.changeResource resourceType resourceId now
  | delete now => Methods.delete now
  | markAsOrphan now => Methods.markAsOrphan now
  | reload updated => Effect.change fun p =>
    (FileMapper.toDomain (FileMapper.toPersistence (saved updated p))).map (·.toFileProps)

/-- The call as a function of the file. -/
def apply (ports : Ports) : Call → File → Except FileError File
  | replace input now => fun f => (Request.replace input f).row ports now
  | addScanToLatestVersion scan now => fun f => f.addScanToLatestVersion scan now
  | markReady now => fun f => f.markReady now
  | markInfected now => fun f => f.markInfected now
  | markAsInfectedByRescan now => fun f => f.markAsInfectedByRescan now
  | rename newName now => fun f => f.rename newName now
  | changeResource resourceType resourceId now => fun f => f.changeResource resourceType resourceId now
  | delete now => fun f => f.delete now
  | markAsOrphan now => fun f => .ok (f.markAsOrphan now)
  | reload updated => fun f => .ok (if updated then Files.bump f else f)

end Call

/-! ## The methods and the functions of the entity -/

/-- What is left after a call on `f`: the props of the changed file, or its own after an error. -/
def settled (f : File) : Except FileError File → Except FileError PUnit × FileProps
  | .ok f' => (.ok ⟨⟩, f'.toFileProps)
  | .error e => (.error e, f.toFileProps)

section Refinement
variable (f : File) (now : ℕ)

theorem settled_ite {c : Prop} [Decidable c] (e : FileError) (x : Except FileError File) :
    settled f (if c then .error e else x) = if c then (.error e, f.toFileProps) else settled f x := by
  split_ifs <;> rfl

theorem markReady_refines : markReady now f.toFileProps = settled f (f.markReady now) := by
  unfold markReady File.markReady
  rw [throwIf_bind, settled_ite]
  rfl

theorem markInfected_refines : markInfected now f.toFileProps = settled f (f.markInfected now) := by
  unfold markInfected File.markInfected
  rw [throwIf_bind, settled_ite]
  rfl

theorem markAsInfectedByRescan_refines :
    markAsInfectedByRescan now f.toFileProps = settled f (f.markAsInfectedByRescan now) := by
  unfold markAsInfectedByRescan File.markAsInfectedByRescan
  rw [throwIf_bind, settled_ite]
  rfl

theorem delete_refines : delete now f.toFileProps = settled f (f.delete now) := by
  unfold delete File.delete
  rw [throwIf_bind, settled_ite, throwIf_bind, settled_ite]
  rfl

theorem markAsOrphan_refines : markAsOrphan now f.toFileProps = settled f (.ok (f.markAsOrphan now)) := by
  unfold markAsOrphan File.markAsOrphan
  rw [Effect.read_bind]
  by_cases h : f.status = .deleted
  · rw [if_pos h, if_pos h]
    rfl
  · rw [if_neg h, if_neg h]
    rfl

theorem follows_iff (version : FileVersion) :
    Follows version f.toFileProps ↔ version.version = f.latest.version + 1 := by
  have hlast : f.versions.getLast? = some f.latest := f.getLatestVersion_eq
  unfold Follows
  rw [hlast]
  constructor
  · rintro ⟨latest, hl, h⟩
    cases hl
    exact h
  · exact fun h => ⟨f.latest, rfl, h⟩

theorem addVersion_refines (version : FileVersion) :
    addVersion version now f.toFileProps = settled f (f.addVersion version now) := by
  unfold addVersion File.addVersion
  rw [throwIf_bind, settled_ite, throwIf_bind, File.getLatestVersion_eq]
  dsimp only
  rw [settled_ite]
  refine if_congr Iff.rfl rfl (if_congr ?_ rfl rfl)
  rw [follows_iff]

theorem addScanToLatestVersion_refines (scan : AntivirusScan) :
    addScanToLatestVersion scan now f.toFileProps = settled f (f.addScanToLatestVersion scan now) := by
  have hlast : f.versions.getLast? = some f.latest := f.getLatestVersion_eq
  unfold addScanToLatestVersion File.addScanToLatestVersion
  rw [Effect.read_bind, hlast, File.getLatestVersion_eq]
  rfl

theorem rename_refines (newName : String) :
    rename newName now f.toFileProps = settled f (f.rename newName now) := by
  unfold rename File.rename
  rw [throwIf_bind, settled_ite, throwIf_bind]
  refine if_congr Iff.rfl rfl ?_
  by_cases h : isBlank newName = false
  · rw [dif_pos h, if_neg (by rw [h]; exact Bool.false_ne_true)]
    rfl
  · rw [dif_neg h, if_pos (Bool.eq_true_of_not_eq_false h)]
    rfl

theorem changeResource_refines (resourceType resourceId : String) :
    changeResource resourceType resourceId now f.toFileProps =
      settled f (f.changeResource resourceType resourceId now) := by
  unfold changeResource File.changeResource
  rw [throwIf_bind, settled_ite, throwIf_bind, settled_ite, throwIf_bind, settled_ite]
  rfl

theorem replaceVersion_eq (ports : Ports) (input : ReplaceFileInput) :
    replaceVersion ports input now f.toFileProps = (Request.replace input f).newVersion ports now := by
  have hlast : f.versions.getLast? = some f.latest := f.getLatestVersion_eq
  unfold replaceVersion
  rw [hlast]
  rfl

theorem reload_refines (ports : Ports) (updated : Bool) :
    Call.perform ports (.reload updated) f.toFileProps = settled f (.ok (if updated then Files.bump f else f)) := by
  have hsaved : saved updated f.toFileProps = (if updated then Files.bump f else f).toFileProps := by
    cases updated <;> rfl
  have hread : (FileMapper.toDomain (FileMapper.toPersistence (saved updated f.toFileProps))).map
      (·.toFileProps) = .ok (if updated then Files.bump f else f).toFileProps := by
    rw [hsaved, FileMapper.toDomain_toPersistence]
    rfl
  unfold Call.perform
  exact Effect.change_of_ok hread

end Refinement

/-- **A method does what the function of the entity says**, and one that throws leaves the props. -/
theorem perform_refines (ports : Ports) (call : Call) (f : File) :
    call.perform ports f.toFileProps = settled f (call.apply ports f) := by
  cases call with
  | replace input now =>
    show (Effect.read >>= fun p => Effect.lift (replaceVersion ports input now p) >>= fun version =>
      addVersion version now) f.toFileProps = settled f ((Request.replace input f).row ports now)
    rw [Effect.read_bind, replaceVersion_eq]
    unfold Request.row
    rcases (Request.replace input f).newVersion ports now with e | version
    · rfl
    · exact addVersion_refines f now version
  | addScanToLatestVersion scan now => exact addScanToLatestVersion_refines f now scan
  | markReady now => exact markReady_refines f now
  | markInfected now => exact markInfected_refines f now
  | markAsInfectedByRescan now => exact markAsInfectedByRescan_refines f now
  | rename newName now => exact rename_refines f now newName
  | changeResource resourceType resourceId now => exact changeResource_refines f now resourceType resourceId
  | delete now => exact delete_refines f now
  | markAsOrphan now => exact markAsOrphan_refines f now
  | reload updated => exact reload_refines f ports updated

end Neltrik.FileStorage.Methods
