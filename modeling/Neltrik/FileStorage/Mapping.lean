import Neltrik.FileStorage.Methods
import Neltrik.Lib.IsoInstant
import Neltrik.Shared.Json

/-! # The mapper and the JSON column

The versions and scans of a file are written as JSON, with their dates as texts, and what is read back has no
type: each property is looked up, and the factories check the values they are given once more. A value that
they do not look at is kept as it is, so the objects that are built (`ScanObject`, `VersionObject`,
`FileObject`) may be more than the files of the domain.

`toDomain_toPersistence`: a file with a size that a number holds exactly, and with instants that are
instants, is read back as it was written. -/

namespace Neltrik.FileStorage.Mapping

open Neltrik.Lib.IsoInstant Neltrik.Shared Neltrik.FileStorage.Domain

/-! ## Untyped values -/

/-- What the mapper throws. -/
inductive MapperError where
  | file (e : FileError)
  | invalidFilePurpose
  | typeError
  | rangeError
  deriving DecidableEq

/-- A value, or what the mapper throws. -/
abbrev Mapped := Except MapperError

/-- `value.key`; a property that is missing is `none`. Nothing but an object has a property of these names. -/
def read (value : JsonValue) (key : String) : Mapped (Option JsonValue) :=
  match value with
  | .null => .error .typeError
  | .object entries => .ok (entries.lookup key)
  | _ => .ok none

/-- `value.map(f)`. -/
def mapArray {α : Type} (value : Option JsonValue) (f : JsonValue → Mapped α) : Mapped (List α) :=
  match value with
  | some (.array items) => items.mapM f
  | _ => .error .typeError

/-- `value === s`. -/
def isText (value : Option JsonValue) (s : String) : Bool :=
  match value with
  | some (.string t) => t == s
  | _ => false

/-- `new Date(value)`; an invalid date is `none`. The text of an array or an object is no date. -/
def newDate (value : Option JsonValue) : Option ℤ :=
  match value with
  | some .null => some 0
  | some (.bool b) => some (if b then 1 else 0)
  | some (.number q) => if (q.num.tdiv q.den).natAbs ≤ maxTime then some (q.num.tdiv q.den) else none
  | some (.string s) => parse s
  | _ => none

/-- A text that is not blank. -/
def ensureText (e : FileError) (value : Option JsonValue) : Mapped String :=
  match value with
  | some (.string s) => if isBlank s then .error (.file e) else .ok s
  | _ => .error (.file e)

/-- `Number.isInteger(value)`, and `1` or more. -/
def ensurePositive (e : FileError) (value : Option JsonValue) : Mapped ℕ :=
  match value with
  | some (.number q) => if q.den = 1 ∧ 1 ≤ q.num then .ok q.num.toNat else .error (.file e)
  | _ => .error (.file e)

/-- The date has to be one. -/
def ensureDate (e : FileError) (date : Option ℤ) : Mapped ℤ :=
  match date with
  | some t => .ok t
  | none => .error (.file e)

/-! ## The objects and their factories -/

/-- `create` does not look at the status, nor at the result of a clean scan. -/
structure ScanObject where
  status : Option JsonValue
  engine : String
  result : JsonValue
  scannedAt : ℤ

/-- A version as an object. -/
structure VersionObject where
  version : ℕ
  name : String
  extension : String
  mimeType : String
  storageKey : String
  size : ℕ
  checksum : String
  scans : List ScanObject
  createdAt : ℤ

/-- A file as an object. -/
structure FileObject where
  id : String
  tenantId : String
  ownerId : String
  name : String
  extension : String
  mimeType : String
  size : ℕ
  purpose : FilePurpose
  status : FileStatus
  resourceType : String
  resourceId : String
  versions : List VersionObject
  version : ℕ
  createdAt : ℕ
  updatedAt : ℕ
  deletedAt : Option ℕ

/-- `PrismaFile`; `size` is a number when it is written and a bigint when it is read. -/
structure Row where
  id : String
  tenantId : String
  ownerId : String
  name : String
  extension : String
  mimeType : String
  size : ℤ
  purpose : String
  status : FileStatus
  resourceType : String
  resourceId : String
  versions : JsonValue
  version : ℕ
  createdAt : ℕ
  updatedAt : ℕ
  deletedAt : Option ℕ

/-- `ANTIVIRUS_SCAN_STATUS`. -/
def statusText : AntivirusScanStatus → String
  | .clean => "CLEAN"
  | .infected => "INFECTED"
  | .error => "ERROR"

/-- `FILE_PURPOSE`. -/
def purposeText : FilePurpose → String
  | .cv => "CV"
  | .avatar => "AVATAR"
  | .document => "DOCUMENT"

/-- All but a clean scan need a result that is not blank. -/
def ensureResultForStatus (status : Option JsonValue) (result : JsonValue) : Mapped Unit :=
  if isText status "CLEAN" then .ok ()
  else match result with
    | .null => .error (.file .invalidAntivirusScan)
    | .string s => if isBlank s then .error (.file .invalidAntivirusScan) else .ok ()
    | _ => .error .typeError

/-- `AntivirusScan.create`. -/
def createScan (status engine result : Option JsonValue) (scannedAt : Option ℤ) : Mapped ScanObject := do
  let engine ← ensureText .invalidAntivirusScan engine
  let scannedAt ← ensureDate .invalidAntivirusScan scannedAt
  ensureResultForStatus status (result.getD .null)
  return { status, engine, result := result.getD .null, scannedAt }

/-- `FileVersion.create`. -/
def createVersion (version name extension mimeType storageKey size checksum : Option JsonValue)
    (scans : List ScanObject) (createdAt : Option ℤ) : Mapped VersionObject := do
  let version ← ensurePositive .invalidFileVersion version
  let name ← ensureText .invalidFileVersion name
  let extension ← ensureText .invalidFileVersion extension
  let mimeType ← ensureText .invalidFileVersion mimeType
  let storageKey ← ensureText .invalidFileVersion storageKey
  let size ← ensurePositive .invalidFileVersion size
  let checksum ← ensureText .invalidFileVersion checksum
  let createdAt ← ensureDate .invalidFileVersion createdAt
  return { version, name, extension, mimeType, storageKey, size, checksum, scans, createdAt }

/-- `ensurePurposeIsValid`. -/
def ensurePurpose (purpose : String) : Mapped FilePurpose :=
  match [FilePurpose.cv, .avatar, .document].find? (purposeText · == purpose) with
  | some p => .ok p
  | none => .error .invalidFilePurpose

/-! ## Numbers -/

/-- The number a natural number becomes: 53 bits, the last one even when two are as near. -/
def roundNat (n : ℕ) : ℕ :=
  if n < 2 ^ 53 then n
  else
    let unit := 2 ^ (n.log2 - 52)
    let q := n / unit
    let r := n % unit
    (if unit < 2 * r ∨ (unit = 2 * r ∧ q % 2 = 1) then q + 1 else q) * unit

/-- `Number(n)` of a bigint. -/
def toNumber (n : ℤ) : ℤ := n.sign * roundNat n.natAbs

/-! ## The mapper -/

/-- `date.toISOString()`. -/
def isoText (t : ℕ) : Mapped JsonValue :=
  match toISOString t with
  | some s => .ok (.string s)
  | none => .error .rangeError

namespace FileMapper

/-- A scan for the column. -/
def persistScan (scan : AntivirusScan) : Mapped JsonValue := do
  let scannedAt ← isoText scan.scannedAt
  return .object
    [("status", .string (statusText scan.status)), ("engine", .string scan.engine),
      ("result", scan.result.elim .null .string), ("scannedAt", scannedAt)]

/-- A version for the column. -/
def persistVersion (version : FileVersion) : Mapped JsonValue := do
  let scans ← version.scans.mapM persistScan
  let createdAt ← isoText version.createdAt
  return .object
    [("version", .number version.version), ("name", .string version.name),
      ("extension", .string version.extension), ("mimeType", .string version.mimeType),
      ("storageKey", .string version.storageKey), ("size", .number version.size),
      ("checksum", .string version.checksum), ("scans", .array scans), ("createdAt", createdAt)]

/-- `FileMapper.toPersistence`. -/
def toPersistence (file : File) : Mapped Row := do
  let versions ← file.versions.mapM persistVersion
  return {
    id := file.id, tenantId := file.tenantId, ownerId := file.ownerId, name := file.name,
    extension := file.extension, mimeType := file.mimeType, size := file.size,
    purpose := purposeText file.purpose, status := file.status, resourceType := file.resourceType,
    resourceId := file.resourceId, versions := .array versions, version := file.version,
    createdAt := file.createdAt, updatedAt := file.updatedAt, deletedAt := file.deletedAt }

/-- A scan from the column. -/
def restoreScan (scan : JsonValue) : Mapped ScanObject := do
  let status ← read scan "status"
  let engine ← read scan "engine"
  let result ← read scan "result"
  let scannedAt ← read scan "scannedAt"
  createScan status engine result (newDate scannedAt)

/-- A version from the column, after its scans. -/
def restoreVersion (item : JsonValue) : Mapped VersionObject := do
  let version ← read item "version"
  let name ← read item "name"
  let extension ← read item "extension"
  let mimeType ← read item "mimeType"
  let storageKey ← read item "storageKey"
  let size ← read item "size"
  let checksum ← read item "checksum"
  let scans ← mapArray (← read item "scans") restoreScan
  let createdAt ← read item "createdAt"
  createVersion version name extension mimeType storageKey size checksum scans (newDate createdAt)

/-- `File.restore`, with the checks of the constructor in their order. -/
def restore (file : Row) (size : ℤ) (versions : List VersionObject) : Mapped FileObject := do
  if isBlank file.name then throw (.file .emptyFileName)
  if isBlank file.extension then throw (.file .invalidFileExtension)
  if isBlank file.mimeType then throw (.file .invalidMimeType)
  if size ≤ 0 then throw (.file .invalidFileSize)
  let purpose ← ensurePurpose file.purpose
  if versions.isEmpty then throw (.file .invalidFileVersions)
  return {
    id := file.id, tenantId := file.tenantId, ownerId := file.ownerId, name := file.name,
    extension := file.extension, mimeType := file.mimeType, size := size.toNat, purpose,
    status := file.status, resourceType := file.resourceType, resourceId := file.resourceId, versions,
    version := file.version, createdAt := file.createdAt, updatedAt := file.updatedAt,
    deletedAt := file.deletedAt }

/-- `FileMapper.toDomain`. -/
def toDomain (file : Row) : Mapped FileObject := do
  let versions ← mapArray (some file.versions) restoreVersion
  restore file (toNumber file.size) versions

end FileMapper

/-! ## Files as objects -/

/-- The object of a scan. -/
def ofScan (scan : AntivirusScan) : ScanObject :=
  { status := some (.string (statusText scan.status)), engine := scan.engine,
    result := scan.result.elim .null .string, scannedAt := scan.scannedAt }

/-- The object of a version. -/
def ofVersion (v : FileVersion) : VersionObject :=
  { version := v.version, name := v.name, extension := v.extension, mimeType := v.mimeType,
    storageKey := v.storageKey, size := v.size, checksum := v.checksum, scans := v.scans.map ofScan,
    createdAt := v.createdAt }

/-- The object of a file. -/
def ofFile (f : File) : FileObject :=
  { id := f.id, tenantId := f.tenantId, ownerId := f.ownerId, name := f.name, extension := f.extension,
    mimeType := f.mimeType, size := f.size, purpose := f.purpose, status := f.status,
    resourceType := f.resourceType, resourceId := f.resourceId, versions := f.versions.map ofVersion,
    version := f.version, createdAt := f.createdAt, updatedAt := f.updatedAt, deletedAt := f.deletedAt }

/-- The size is a number that is held exactly, and the dates that are written as texts are dates. -/
structure Storable (f : File) : Prop where
  size : f.size < 2 ^ 53
  createdAt : ∀ v ∈ f.versions, v.createdAt ≤ maxTime
  scannedAt : ∀ v ∈ f.versions, ∀ scan ∈ v.scans, scan.scannedAt ≤ maxTime

/-! ### What the factories accept -/

theorem ensureText_of_not_blank {e : FileError} {s : String} (h : isBlank s = false) :
    ensureText e (some (.string s)) = .ok s :=
  if_neg (by rw [h]; exact Bool.false_ne_true)

theorem ensurePositive_natCast {e : FileError} {n : ℕ} (h : 1 ≤ n) :
    ensurePositive e (some (.number n)) = .ok n := by
  have hnum : ((n : Rat)).num = n := Rat.num_natCast n
  have hden : ((n : Rat)).den = 1 := Rat.den_natCast n
  show (if (n : Rat).den = 1 ∧ 1 ≤ (n : Rat).num then Except.ok (n : Rat).num.toNat
    else Except.error (MapperError.file e)) = _
  rw [hnum, hden, if_pos ⟨rfl, by omega⟩]
  rfl

theorem isoText_ok {t : ℕ} (h : t ≤ maxTime) :
    ∃ s, isoText t = .ok (.string s) ∧ newDate (some (.string s)) = some (t : ℤ) := by
  obtain ⟨s, hs, hparse⟩ := parse_toISOString (t := (t : ℤ)) h
  refine ⟨s, ?_, hparse⟩
  rw [isoText, hs]

/-- A scan meets the check for its status. -/
theorem ensureResultForStatus_ok {status : AntivirusScanStatus} {result : Option String}
    (h : resultForStatus status result = true) :
    ensureResultForStatus (some (.string (statusText status))) (result.elim .null .string) = .ok () := by
  cases status with
  | clean => rfl
  | infected | error =>
    cases result with
    | none => cases h
    | some s =>
      have hs : isBlank s = false := by simpa [resultForStatus] using h
      show (if isBlank s = true then _ else _) = _
      rw [hs]
      rfl

/-! ### The round trip -/

/-- A list that is written item by item is read back item by item. -/
theorem mapM_mapM {α β γ : Type} {persist : α → Mapped β} {restore : β → Mapped γ} {view : α → γ}
    {as : List α} (h : ∀ a ∈ as, ∃ b, persist a = .ok b ∧ restore b = .ok (view a)) :
    ∃ bs, as.mapM persist = .ok bs ∧ bs.mapM restore = .ok (as.map view) := by
  induction as with
  | nil => exact ⟨[], rfl, rfl⟩
  | cons a as ih =>
    obtain ⟨b, hb, hrb⟩ := h a List.mem_cons_self
    obtain ⟨bs, hbs, hrbs⟩ := ih fun a ha => h a (List.mem_cons_of_mem _ ha)
    refine ⟨b :: bs, ?_, ?_⟩
    · rw [List.mapM_cons, hb, hbs]
      rfl
    · rw [List.mapM_cons, hrb, hrbs]
      rfl

theorem restore_persist_scan {scan : AntivirusScan} (h : scan.scannedAt ≤ maxTime) :
    ∃ value, FileMapper.persistScan scan = .ok value ∧ FileMapper.restoreScan value = .ok (ofScan scan) := by
  obtain ⟨s, hs, hdate⟩ := isoText_ok h
  unfold FileMapper.persistScan
  rw [hs]
  refine ⟨_, rfl, ?_⟩
  show createScan (some (.string (statusText scan.status))) (some (.string scan.engine))
    (some (scan.result.elim .null .string)) (newDate (some (.string s))) = _
  unfold createScan
  rw [hdate, ensureText_of_not_blank scan.engine_ne]
  show (ensureResultForStatus _ _ >>= _) = _
  rw [Option.getD_some, ensureResultForStatus_ok scan.result_ok]
  rfl

theorem createVersion_ok (v : FileVersion) (scans : List ScanObject) (t : ℤ) :
    createVersion (some (.number v.version)) (some (.string v.name)) (some (.string v.extension))
      (some (.string v.mimeType)) (some (.string v.storageKey)) (some (.number v.size))
      (some (.string v.checksum)) scans (some t) =
        .ok { version := v.version, name := v.name, extension := v.extension, mimeType := v.mimeType,
              storageKey := v.storageKey, size := v.size, checksum := v.checksum, scans, createdAt := t } := by
  obtain ⟨hversion, hname, hext, hmime, hkey, hsize, hsum⟩ := v.valid
  unfold createVersion
  rw [ensurePositive_natCast hversion, ensureText_of_not_blank hname, ensureText_of_not_blank hext,
    ensureText_of_not_blank hmime, ensureText_of_not_blank hkey, ensurePositive_natCast hsize,
    ensureText_of_not_blank hsum]
  rfl

theorem restore_persist_version {v : FileVersion} (hc : v.createdAt ≤ maxTime)
    (hs : ∀ scan ∈ v.scans, scan.scannedAt ≤ maxTime) :
    ∃ value, FileMapper.persistVersion v = .ok value ∧
      FileMapper.restoreVersion value = .ok (ofVersion v) := by
  have hscan := fun scan (h : scan ∈ v.scans) => restore_persist_scan (hs scan h)
  obtain ⟨values, hvalues, hscans⟩ := mapM_mapM hscan
  obtain ⟨s, htext, hdate⟩ := isoText_ok hc
  unfold FileMapper.persistVersion
  rw [hvalues, htext]
  refine ⟨_, rfl, ?_⟩
  show (values.mapM FileMapper.restoreScan >>= fun scans =>
    createVersion (some (.number v.version)) (some (.string v.name)) (some (.string v.extension))
      (some (.string v.mimeType)) (some (.string v.storageKey)) (some (.number v.size))
      (some (.string v.checksum)) scans (newDate (some (.string s)))) = _
  rw [hscans, hdate]
  exact createVersion_ok v _ _

theorem ensurePurpose_text (p : FilePurpose) : ensurePurpose (purposeText p) = .ok p := by
  cases p <;> decide

theorem toNumber_of_lt {n : ℕ} (hpos : 0 < n) (h : n < 2 ^ 53) : toNumber n = n := by
  have hround : roundNat n = n := if_pos h
  unfold toNumber
  rw [Int.natAbs_natCast, hround, Int.sign_eq_one_of_pos (by omega), Int.one_mul]

/-- What passes the checks of the constructor is built. -/
theorem restore_ok {file : Row} {size : ℤ} {versions : List VersionObject} {purpose : FilePurpose}
    (hname : isBlank file.name = false) (hext : isBlank file.extension = false)
    (hmime : isBlank file.mimeType = false) (hsize : ¬ size ≤ 0)
    (hpurpose : ensurePurpose file.purpose = .ok purpose) (hversions : versions.isEmpty = false) :
    FileMapper.restore file size versions = .ok
      { id := file.id, tenantId := file.tenantId, ownerId := file.ownerId, name := file.name,
        extension := file.extension, mimeType := file.mimeType, size := size.toNat, purpose,
        status := file.status, resourceType := file.resourceType, resourceId := file.resourceId, versions,
        version := file.version, createdAt := file.createdAt, updatedAt := file.updatedAt,
        deletedAt := file.deletedAt } := by
  unfold FileMapper.restore
  rw [hname, hext, hmime, if_neg hsize, hpurpose, hversions]
  rfl

/-- **The file that is read back is the file that was written.** -/
theorem toDomain_toPersistence {f : File} (h : Storable f) :
    (FileMapper.toPersistence f >>= FileMapper.toDomain) = .ok (ofFile f) := by
  obtain ⟨values, hvalues, hversions⟩ :=
    mapM_mapM fun v hv => restore_persist_version (h.createdAt v hv) (h.scannedAt v hv)
  obtain ⟨hname, hext, hmime, hsize, hne⟩ := f.valid
  have hempty : (f.versions.map ofVersion).isEmpty = false := by
    rw [List.isEmpty_map]
    exact Bool.eq_false_iff.mpr fun he => hne (List.isEmpty_iff.mp he)
  have hpositive : ¬ (f.size : ℤ) ≤ 0 := by omega
  unfold FileMapper.toPersistence
  rw [hvalues]
  show (values.mapM FileMapper.restoreVersion >>= FileMapper.restore _ (toNumber f.size)) = _
  rw [hversions, toNumber_of_lt hsize h.size]
  exact restore_ok hname hext hmime hpositive (ensurePurpose_text f.purpose) hempty

/-! ### Nothing is lost in the view -/

theorem statusText_inj {s s' : AntivirusScanStatus} (h : statusText s = statusText s') : s = s' := by
  revert h
  cases s <;> cases s' <;> decide

theorem ofScan_inj {scan scan' : AntivirusScan} (h : ofScan scan = ofScan scan') : scan = scan' := by
  obtain ⟨status, engine, result, t, hengine, hresult⟩ := scan
  obtain ⟨status', engine', result', t', hengine', hresult'⟩ := scan'
  obtain ⟨hs, rfl, hr, ht⟩ := ScanObject.mk.inj h
  obtain rfl : t = t' := Int.ofNat.inj ht
  obtain rfl : status = status' := statusText_inj (JsonValue.string.inj (Option.some.inj hs))
  obtain rfl : result = result' := by
    cases result with
    | none =>
      cases result' with
      | none => rfl
      | some r' => cases hr
    | some r =>
      cases result' with
      | none => cases hr
      | some r' => exact congrArg some (JsonValue.string.inj hr)
  rfl

theorem ofVersion_inj {v v' : FileVersion} (h : ofVersion v = ofVersion v') : v = v' := by
  obtain ⟨⟨version, name, ext, mime, key, size, sum, scans, t⟩, hv⟩ := v
  obtain ⟨⟨version', name', ext', mime', key', size', sum', scans', t'⟩, hv'⟩ := v'
  obtain ⟨rfl, rfl, rfl, rfl, rfl, rfl, rfl, hscans, ht⟩ := VersionObject.mk.inj h
  obtain rfl : t = t' := Int.ofNat.inj ht
  obtain rfl : scans = scans' := List.map_injective_iff.mpr (fun _ _ => ofScan_inj) hscans
  rfl

/-- Two files that are one object are one file. -/
theorem ofFile_injective : Function.Injective ofFile := by
  intro f f' h
  obtain ⟨⟨id, tenant, owner, name, ext, mime, size, purpose, status, rt, ri, versions, n, c, u, d⟩, hf⟩ := f
  obtain ⟨⟨id', tenant', owner', name', ext', mime', size', purpose', status', rt', ri', versions', n', c',
    u', d'⟩, hf'⟩ := f'
  obtain ⟨rfl, rfl, rfl, rfl, rfl, rfl, rfl, rfl, rfl, rfl, rfl, hv, rfl, rfl, rfl, rfl⟩ :=
    FileObject.mk.inj h
  obtain rfl : versions = versions' := List.map_injective_iff.mpr (fun _ _ => ofVersion_inj) hv
  rfl

/-- **Every file survives its row**: it is read back, and as no other file. -/
theorem file_round_trip (f : File) (h : Storable f) :
    (FileMapper.toPersistence f >>= FileMapper.toDomain) = .ok (ofFile f) ∧
      ∀ g : File, ofFile g = ofFile f → g = f :=
  ⟨toDomain_toPersistence h, fun _ hg => ofFile_injective hg⟩

/-- A clean version that a rescan has found infected. -/
def rescannedVersion : FileVersion where
  version := 1
  name := "cv.pdf"
  extension := ".pdf"
  mimeType := "application/pdf"
  storageKey := "tenants/t/files/f/v1/cv.pdf"
  size := 1024
  checksum := "c1"
  scans := [⟨.clean, "clamd", none, 1709210096789, by decide, by decide⟩,
    ⟨.infected, "clamd", some "Eicar", 1709210099999, by decide, by decide⟩]
  createdAt := 1709210096000
  valid := by decide

/-- A version whose scan has failed. -/
def unscannedVersion : FileVersion where
  version := 2
  name := "cv.pdf"
  extension := ".pdf"
  mimeType := "application/pdf"
  storageKey := "tenants/t/files/f/v2/cv.pdf"
  size := 2048
  checksum := "c2"
  scans := [⟨.error, "clamd", some "unreachable", 1709210100000, by decide, by decide⟩]
  createdAt := 1709210100000
  valid := by decide

/-- A file with one scan. -/
def scannedFile : File where
  id := "f"
  tenantId := "t"
  ownerId := "u"
  name := "cv.pdf"
  extension := ".pdf"
  mimeType := "application/pdf"
  size := 2048
  purpose := .cv
  status := .pending
  resourceType := "application"
  resourceId := "a"
  versions := [rescannedVersion, unscannedVersion]
  version := 3
  createdAt := 1709210096000
  updatedAt := 1709210100000
  deletedAt := none
  valid := ⟨by decide, by decide, by decide, by decide, List.cons_ne_nil _ _⟩

theorem file_round_trip_scanned :
    (FileMapper.toPersistence scannedFile >>= FileMapper.toDomain) = .ok (ofFile scannedFile) ∧
      ∀ g : File, ofFile g = ofFile scannedFile → g = scannedFile :=
  file_round_trip scannedFile ⟨by decide, by decide, by decide⟩

/-- The mapper with typed columns is this one, as far as a file is concerned. -/
theorem typed_mapper {f : File} (h : Storable f) : (FileMapper.toPersistence f >>= FileMapper.toDomain) =
    ((Methods.FileMapper.toDomain (Methods.FileMapper.toPersistence f.toFileProps)).mapError .file).map ofFile := by
  rw [toDomain_toPersistence h, Methods.FileMapper.toDomain_toPersistence]
  rfl

end Neltrik.FileStorage.Mapping
