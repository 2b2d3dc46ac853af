import Neltrik.FileStorage.Methods
import Neltrik.FileStorage.Rows
import Neltrik.Lib.Scan

/-! # A file as the history of its versions

`WellFormed`: the versions are numbered from one, no two have one key, the format of the file is that of the
last version, and a file has a `deletedAt` when it is `DELETED`. `Kept`: a call adds a version, or a scan to
the last one, leaves `DELETED` as it is, and changes nothing when it throws.

A scan changes no version but for its scans, so the numbers and the keys are a matter of the `core` of the
versions (`Chain`). `Changed` says what a call does to a file in three cases, and `Sound` is the invariant
along them. `File.create` takes the number, the format and the key of the first version from its caller,
and `wellFormed_history` rests on what it gets there (`FirstVersion`). -/

namespace Neltrik.FileStorage.History

open Neltrik.Lib Neltrik.Lib.Machine Neltrik.Lib.Scan Neltrik.Shared Neltrik.FileStorage.Domain Neltrik.FileStorage.Persistence
open Neltrik.FileStorage.Validation Neltrik.FileStorage.UseCases Neltrik.FileStorage.Rows
open Neltrik.FileStorage.Methods Neltrik.FileStorage.System

/-! ## Histories -/

/-- The earlier versions are kept. -/
inductive Appends (vs : List FileVersion) : List FileVersion → Prop
  | same : Appends vs vs
  | version (v : FileVersion) : Appends vs (vs ++ [v])
  | scan {earlier : List FileVersion} {latest : FileVersion} (scan : AntivirusScan)
      (h : vs = earlier ++ [latest]) : Appends vs (earlier ++ [latest.withScan scan])

/-- The file has the format of the version. -/
structure FormatOf (p : FileProps) (v : FileVersionParams) : Prop where
  extension : p.extension = v.extension
  mimeType : p.mimeType = v.mimeType
  size : p.size = v.size

/-- What the documents say of the versions of a file. -/
structure WellFormed (p : FileProps) : Prop where
  numbered : p.versions.map (·.version) = List.range' 1 p.versions.length
  keys : (p.versions.map (·.storageKey)).Nodup
  format : ∃ latest ∈ p.versions.getLast?, FormatOf p latest.toFileVersionParams
  deleted : p.deletedAt ≠ none ↔ p.status = .deleted

/-- What a call leaves of a file. -/
structure Kept (ports : Ports) (p : FileProps) (call : Call) : Prop where
  appends : Appends p.versions (call.perform ports p).2.versions
  deleted : p.status = .deleted → (call.perform ports p).2.status = .deleted
  thrown : ∀ e, (call.perform ports p).1 = .error e → (call.perform ports p).2 = p

/-- Each call runs on the props the one before has left. -/
def step (ports : Ports) (p : FileProps) (call : Call) : Option FileProps := some (call.perform ports p).2

/-- No key that `ReplaceFile` builds for a later version of the file. -/
def NotBuilt (tenantId fileId key : String) : Prop :=
  ∀ n name, 2 ≤ n → isBlank name = false → key ≠ storageKey tenantId fileId n name

/-- What `File.create` leaves to its caller. -/
structure FirstVersion (p : FileProps) (v : FileVersionParams) : Prop where
  version : v.version = 1
  format : FormatOf p v
  key : NotBuilt p.tenantId p.id v.storageKey

/-! ## Keys -/

theorem toList_storageKey (tenantId fileId : String) (n : ℕ) (name : String) :
    (storageKey tenantId fileId n name).toList =
      s!"tenants/{tenantId}/files/{fileId}/v".toList ++ (Nat.toDigits 10 n ++ '/' :: name.toList) := by
  unfold storageKey
  simp only [String.toList_append, Nat.toString_eq_repr, Nat.toList_repr]
  rw [List.append_assoc, List.append_assoc]
  rfl

/-- Two keys of one file that are equal are of one version. -/
theorem version_eq_of_storageKey {tenantId fileId name name' : String} {m n : ℕ}
    (h : storageKey tenantId fileId m name = storageKey tenantId fileId n name') : m = n := by
  have hspan : ∀ (k : ℕ) (as : List Char),
      (Nat.toDigits 10 k ++ '/' :: as).takeWhile (·.isDigit) = Nat.toDigits 10 k := by
    refine fun k as => (span_append (fun c hc => ?_) fun c hc => ?_).1
    · exact Nat.isDigit_of_mem_toDigits (by decide) (by decide) hc
    · cases hc; rfl
  have hlist := congrArg String.toList h
  rw [toList_storageKey, toList_storageKey] at hlist
  have hdigits := congrArg (List.takeWhile (·.isDigit)) (List.append_cancel_left hlist)
  rw [hspan, hspan] at hdigits
  rw [← Nat.ofDigitChars_ten_toDigits (n := m), hdigits, Nat.ofDigitChars_ten_toDigits]

/-! ## The versions without their scans -/

/-- The versions of a file, as far as a scan leaves them. -/
structure Chain (tenantId fileId : String) (vs : List FileVersionParams) : Prop where
  valid : ∀ v ∈ vs, v.Valid
  numbered : vs.map (·.version) = List.range' 1 vs.length
  built : ∀ v ∈ vs, 2 ≤ v.version → v.storageKey = storageKey tenantId fileId v.version v.name
  first : ∀ v ∈ vs, v.version < 2 → NotBuilt tenantId fileId v.storageKey

namespace Chain
variable {tenantId fileId : String} {vs : List FileVersionParams} {v : FileVersionParams}

theorem singleton (hvalid : v.Valid) (hversion : v.version = 1) (hkey : NotBuilt tenantId fileId v.storageKey) :
    Chain tenantId fileId [v] := by
  refine ⟨fun u hu => ?_, ?_, fun u hu h => ?_, fun u hu _ => ?_⟩
  · rw [List.mem_singleton.mp hu]; exact hvalid
  · rw [List.map_singleton, hversion]; rfl
  · rw [List.mem_singleton.mp hu, hversion] at h
    omega
  · rw [List.mem_singleton.mp hu]; exact hkey

theorem append (h : Chain tenantId fileId vs) (hne : vs ≠ []) (hvalid : v.Valid)
    (hversion : v.version = vs.length + 1)
    (hkey : v.storageKey = storageKey tenantId fileId v.version v.name) : Chain tenantId fileId (vs ++ [v]) := by
  have hpos : 0 < vs.length := List.length_pos_of_ne_nil hne
  have hmem : ∀ u ∈ vs ++ [v], u ∈ vs ∨ u = v := fun u hu => by
    rwa [List.mem_append, List.mem_singleton] at hu
  refine ⟨fun u hu => ?_, ?_, fun u hu hle => ?_, fun u hu hlt => ?_⟩
  · rcases hmem u hu with hu | rfl
    · exact h.valid u hu
    · exact hvalid
  · rw [List.map_append, h.numbered, List.length_append, List.length_singleton, List.range'_1_concat,
      List.map_singleton, hversion, add_comm]
  · rcases hmem u hu with hu | rfl
    · exact h.built u hu hle
    · exact hkey
  · rcases hmem u hu with hu | rfl
    · exact h.first u hu hlt
    · omega

/-- Only one of two versions can be the first, and two later ones differ in the number in their keys. -/
theorem nodup_keys (h : Chain tenantId fileId vs) : (vs.map (·.storageKey)).Nodup := by
  have hnumbers : (vs.map (·.version)).Nodup := by
    rw [h.numbered]
    exact List.nodup_range'
  refine List.pairwise_map.mpr ((List.pairwise_map.mp hnumbers).imp_of_mem fun {u v} hu hv hne he => ?_)
  by_cases hu₂ : 2 ≤ u.version
  · by_cases hv₂ : 2 ≤ v.version
    · rw [h.built u hu hu₂, h.built v hv hv₂] at he
      exact hne (version_eq_of_storageKey he)
    · rw [h.built u hu hu₂] at he
      exact h.first v hv (by omega) u.version u.name hu₂ (h.valid u hu).2.1 he.symm
  · by_cases hv₂ : 2 ≤ v.version
    · rw [h.built v hv hv₂] at he
      exact h.first u hu (by omega) v.version v.name hv₂ (h.valid v hv).2.1 he
    · have := (h.valid u hu).1
      have := (h.valid v hv).1
      omega

/-- The last version has the number of the versions. -/
theorem version_last (h : Chain tenantId fileId vs) (hv : vs.getLast? = some v) : v.version = vs.length := by
  have hpos : vs.length ≠ 0 := (List.length_pos_of_mem (List.mem_of_getLast? hv)).ne'
  have hlast := congrArg List.getLast? h.numbered
  rw [List.getLast?_map, hv, List.getLast?_range', if_neg hpos, Option.map_some, Option.some.injEq] at hlast
  omega

end Chain

/-! ## What a call does -/

/-- The status stays, goes from one that is not `DELETED` to another, or becomes `DELETED` with its
instant. -/
inductive Turns (f f' : File) : Prop
  | keeps (hs : f'.status = f.status) (hd : f'.deletedAt = f.deletedAt)
  | decides (hlive : f.status ≠ .deleted) (hs : f'.status ≠ .deleted) (hd : f'.deletedAt = f.deletedAt)
  | deletes (hs : f'.status = .deleted) (hd : f'.deletedAt ≠ none)

/-- The versions, and the version that has the format of the file. -/
inductive Changed (f f' : File) : Prop
  | fields (hversions : f'.versions = f.versions)
      (hformat : ∀ v, FormatOf f.toFileProps v → FormatOf f'.toFileProps v)
  | scan (scan : AntivirusScan) (hversions : f'.versions = f.versions.dropLast ++ [f.latest.withScan scan])
      (hformat : ∀ v, FormatOf f.toFileProps v → FormatOf f'.toFileProps v)
  | version (v : FileVersion) (hversion : v.version = f.latest.version + 1)
      (hkey : v.storageKey = storageKey f.tenantId f.id v.version v.name)
      (hversions : f'.versions = f.versions ++ [v])
      (hformat : FormatOf f'.toFileProps v.toFileVersionParams)

/-- What a call leaves that does not throw. -/
structure Outcome (f f' : File) : Prop where
  id : f'.id = f.id
  tenantId : f'.tenantId = f.tenantId
  turns : Turns f f'
  changed : Changed f f'

section Outcome
variable {f f' : File} {now : ℕ}

theorem Turns.deleted (h : Turns f f') (hf : f.status = .deleted) : f'.status = .deleted := by
  cases h with
  | keeps hs _ => rw [hs, hf]
  | decides hlive _ _ => exact absurd hf hlive
  | deletes hs _ => exact hs

theorem Turns.deletedAt_iff (h : Turns f f') (hf : f.deletedAt ≠ none ↔ f.status = .deleted) :
    f'.deletedAt ≠ none ↔ f'.status = .deleted := by
  cases h with
  | keeps hs hd => rw [hs, hd, hf]
  | decides hlive hs hd =>
    rw [hd, hf]
    exact iff_of_false hlive hs
  | deletes hs hd => exact iff_of_true hd hs

theorem ne_deleted_of_ready_or_infected {st : FileStatus} (h : st = .ready ∨ st = .infected) : st ≠ .deleted := by
  rcases h with rfl | rfl <;> decide

/-- A call that writes other fields than the versions and the format. -/
theorem Outcome.of_fields {name resourceType resourceId : String} {status : FileStatus} {version updatedAt : ℕ}
    {deletedAt : Option ℕ}
    (h : f'.toFileProps =
      { f.toFileProps with name, status, resourceType, resourceId, version, updatedAt, deletedAt })
    (hturns : Turns f f') : Outcome f f' := by
  refine ⟨by rw [h], by rw [h], hturns, .fields (by rw [h]) fun v hv => ?_⟩
  rw [h]
  exact ⟨hv.extension, hv.mimeType, hv.size⟩

theorem outcome_of_replace {ports : Ports} {input : ReplaceFileInput}
    (h : (Request.replace input f).row ports now = .ok f') : Outcome f f' := by
  obtain ⟨v, hv, hadd⟩ := Effect.except_bind_eq_ok.mp h
  obtain ⟨hs, hversion, hp⟩ := File.addVersion_eq_ok.mp hadd
  have hparams := FileVersion.create_eq_ok.mp hv
  refine ⟨by rw [hp], by rw [hp], ?_, ?_⟩
  · refine .decides (ne_deleted_of_ready_or_infected hs) ?_ (by rw [hp])
    rw [hp]
    exact nofun
  · refine .version v hversion ?_ (by rw [hp]) ⟨by rw [hp], by rw [hp], by rw [hp]⟩
    rw [hparams]
    rfl

theorem outcome_of_scan {scan : AntivirusScan} (h : f.addScanToLatestVersion scan now = .ok f') :
    Outcome f f' := by
  have hp := File.addScanToLatestVersion_eq_ok.mp h
  refine ⟨by rw [hp], by rw [hp], .keeps (by rw [hp]) (by rw [hp]), .scan scan (by rw [hp]) fun v hv => ?_⟩
  rw [hp]
  exact ⟨hv.extension, hv.mimeType, hv.size⟩

theorem outcome_of_orphan : Outcome f (f.markAsOrphan now) := by
  have hp := @File.markAsOrphan_props f now
  split_ifs at hp with hf
  · exact Outcome.of_fields hp (.keeps (by rw [hp]) (by rw [hp]))
  · refine Outcome.of_fields hp (.deletes (by rw [hp]) ?_)
    rw [hp]
    exact nofun

theorem outcome_of_bump : Outcome f (Files.bump f) :=
  Outcome.of_fields rfl (.keeps rfl rfl)

/-- **What each call does**, whichever it is. -/
theorem outcome_of_apply {ports : Ports} {call : Call} (h : call.apply ports f = .ok f') : Outcome f f' := by
  cases call with
  | replace input now => exact outcome_of_replace h
  | addScanToLatestVersion scan now => exact outcome_of_scan h
  | markReady now =>
    obtain ⟨hs, hp⟩ := File.markReady_eq_ok.mp h
    exact Outcome.of_fields hp (.decides (by rw [hs]; exact nofun) (by rw [hp]; exact nofun) (by rw [hp]))
  | markInfected now =>
    obtain ⟨hs, hp⟩ := File.markInfected_eq_ok.mp h
    exact Outcome.of_fields hp (.decides (by rw [hs]; exact nofun) (by rw [hp]; exact nofun) (by rw [hp]))
  | markAsInfectedByRescan now =>
    obtain ⟨hs, hp⟩ := File.markAsInfectedByRescan_eq_ok.mp h
    exact Outcome.of_fields hp (.decides (by rw [hs]; exact nofun) (by rw [hp]; exact nofun) (by rw [hp]))
  | rename newName now =>
    obtain ⟨-, -, hp⟩ := File.rename_eq_ok.mp h
    exact Outcome.of_fields hp (.keeps (by rw [hp]) (by rw [hp]))
  | changeResource resourceType resourceId now =>
    obtain ⟨-, -, -, hp⟩ := File.changeResource_eq_ok.mp h
    exact Outcome.of_fields hp (.keeps (by rw [hp]) (by rw [hp]))
  | delete now =>
    obtain ⟨-, -, hp⟩ := File.delete_eq_ok.mp h
    exact Outcome.of_fields hp (.deletes (by rw [hp]) (by rw [hp]; exact nofun))
  | markAsOrphan now =>
    cases h
    exact outcome_of_orphan
  | reload updated =>
    cases h
    cases updated with
    | false => exact Outcome.of_fields rfl (.keeps rfl rfl)
    | true => exact outcome_of_bump

end Outcome

/-! ## The invariant -/

/-- What a file of a history has. -/
structure Sound (f : File) : Prop where
  chain : Chain f.tenantId f.id (f.versions.map core)
  format : FormatOf f.toFileProps (core f.latest)
  deleted : f.deletedAt ≠ none ↔ f.status = .deleted

namespace Sound
variable {f f' : File}

theorem of_create {p : FileProps} (h : File.create p = .ok f)
    (hfirst : ∀ v ∈ p.versions, FirstVersion p v.toFileVersionParams) : Sound f := by
  obtain ⟨hlength, hp⟩ := File.create_eq_ok.mp h
  obtain ⟨v, hv⟩ := List.length_eq_one_iff.mp hlength
  have hversions : f.versions = [v] := by rw [hp, hv]
  have hlatest : f.latest = v := File.latest_eq_of_getLast? (by rw [hversions]; rfl)
  obtain ⟨hversion, hformat, hkey⟩ := hfirst v (by rw [hv]; exact List.mem_singleton_self v)
  refine ⟨?_, ?_, ?_⟩
  · rw [hversions, hp]
    exact Chain.singleton v.valid hversion hkey
  · rw [hlatest, hp]
    exact ⟨hformat.extension, hformat.mimeType, hformat.size⟩
  · rw [hp]
    exact iff_of_false (fun h => h rfl) nofun

theorem version_latest (h : Sound f) : f.latest.version = f.versions.length := by
  have hlast : (f.versions.map core).getLast? = some (core f.latest) := by
    rw [List.getLast?_map]
    exact congrArg (Option.map core) f.getLatestVersion_eq
  have := h.chain.version_last hlast
  rwa [List.length_map] at this

/-- **Every call keeps the invariant.** -/
theorem outcome (h : Sound f) (ho : Outcome f f') : Sound f' := by
  refine ⟨?_, ?_, ho.turns.deletedAt_iff h.deleted⟩
  · rw [ho.id, ho.tenantId]
    cases ho.changed with
    | fields hversions _ => rw [hversions]; exact h.chain
    | scan scan hversions _ =>
      rw [hversions, map_core_dropLast_append]
      exact h.chain
    | version v hversion hkey hversions _ =>
      rw [hversions, List.map_append]
      refine h.chain.append (List.map_eq_nil_iff.not.mpr f.versions_ne_nil) v.valid ?_ hkey
      rw [List.length_map, ← h.version_latest]
      exact hversion
  · cases ho.changed with
    | fields hversions hformat =>
      have hlatest : f'.latest = f.latest :=
        File.latest_eq_of_getLast? (by rw [hversions]; exact f.getLatestVersion_eq)
      rw [hlatest]
      exact hformat _ h.format
    | scan scan hversions hformat =>
      have hlatest : f'.latest = f.latest.withScan scan :=
        File.latest_eq_of_getLast? (by rw [hversions, List.getLast?_concat])
      rw [hlatest]
      exact hformat _ h.format
    | version v _ _ hversions hformat =>
      have hlatest : f'.latest = v := File.latest_eq_of_getLast? (by rw [hversions, List.getLast?_concat])
      rw [hlatest]
      exact ⟨hformat.extension, hformat.mimeType, hformat.size⟩

theorem wellFormed (h : Sound f) : WellFormed f.toFileProps := by
  refine ⟨?_, ?_, ⟨f.latest, f.getLatestVersion_eq, ?_⟩, h.deleted⟩
  · have hnumbers := h.chain.numbered
    rw [List.map_map, List.length_map] at hnumbers
    exact hnumbers
  · have hkeys := h.chain.nodup_keys
    rw [List.map_map] at hkeys
    exact hkeys
  · exact ⟨h.format.extension, h.format.mimeType, h.format.size⟩

end Sound

theorem appends_of_outcome {f f' : File} (h : Outcome f f') : Appends f.versions f'.versions := by
  cases h.changed with
  | fields hversions _ => rw [hversions]; exact .same
  | scan scan hversions _ =>
    rw [hversions]
    exact .scan scan (List.dropLast_append_getLast f.versions_ne_nil).symm
  | version v _ _ hversions _ => rw [hversions]; exact .version v

theorem kept (ports : Ports) (f : File) (call : Call) : Kept ports f.toFileProps call := by
  have hr := perform_refines ports call f
  rcases ha : call.apply ports f with e | f'
  · rw [ha] at hr
    refine ⟨?_, ?_, ?_⟩ <;> rw [hr]
    · exact .same
    · exact id
    · exact fun _ _ => rfl
  · rw [ha] at hr
    have ho := outcome_of_apply ha
    refine ⟨?_, ?_, ?_⟩ <;> rw [hr]
    · exact appends_of_outcome ho
    · exact ho.turns.deleted
    · exact nofun

/-! ## Runs -/

/-- The props of a file that meets the invariant. -/
def Reached (p : FileProps) : Prop := ∃ f : File, f.toFileProps = p ∧ Sound f

theorem reached_step {ports : Ports} {p p' : FileProps} {call : Call} (h : Reached p)
    (hs : step ports p call = some p') : Reached p' := by
  obtain ⟨f, rfl, hf⟩ := h
  cases hs
  rw [perform_refines]
  rcases ha : call.apply ports f with e | f'
  · exact ⟨f, rfl, hf⟩
  · exact ⟨f', rfl, hf.outcome (outcome_of_apply ha)⟩

/-- **A file is a well-formed history** in every state of every run of calls, and each call keeps it, if
`File.create` was given a first version with the number one, the format of the file and a key that no later
version gets. -/
theorem wellFormed_history {ports : Ports} {p : FileProps} {f : File} (h : File.create p = .ok f)
    (hfirst : ∀ v ∈ p.versions, FirstVersion p v.toFileVersionParams) (calls : List Call) :
    AllStates (step ports) WellFormed f.toFileProps calls ∧
      AllSteps (step ports) (Kept ports) f.toFileProps calls := by
  have hreached : Reached f.toFileProps := ⟨f, rfl, Sound.of_create h hfirst⟩
  constructor
  · intro pre _ p' hr
    obtain ⟨f', rfl, hf'⟩ := run_inv (fun p call p' => reached_step) hreached hr
    exact hf'.wellFormed
  · have hall : AllSteps (step ports) (fun p _ => Reached p) f.toFileProps calls :=
      allSteps_of_inv (fun p call p' hp _ hs => reached_step hp hs) hreached
        (allSteps_of_forall (fun _ _ _ => trivial) f.toFileProps)
    refine hall.mono fun p call hp => ?_
    obtain ⟨f', rfl, -⟩ := hp
    exact kept ports f' call

/-- What `UploadFile` gives to `File.create`. -/
theorem sound_of_upload {ports : Ports} {input : UploadFileInput} {fileId : String} {now : ℕ} {f : File}
    (h : (Request.upload input fileId).row ports now = .ok f) : Sound f := by
  obtain ⟨v, hv, hcreate⟩ := Effect.except_bind_eq_ok.mp h
  have hparams := FileVersion.create_eq_ok.mp hv
  refine Sound.of_create hcreate fun u hu => ?_
  rw [List.mem_singleton.mp hu, hparams]
  refine ⟨rfl, ⟨rfl, rfl, rfl⟩, fun n name hn _ he => ?_⟩
  have : 1 = n := version_eq_of_storageKey he
  omega

/-- The parameters of a first version of the file `f` of the tenant `t`. -/
def pdfParams (version : ℕ) (extension key : String) : FileVersionParams :=
  { version, name := "cv.pdf", extension, mimeType := "application/pdf", storageKey := key, size := 6,
    checksum := "21af8e71c8703196df7fe1ff901869a88fe64c07bbaa83d838efb45a52b4f303", scans := [], createdAt := 1 }

/-- The props of a new file with the version. -/
def pdfProps (v : FileVersion) : FileProps :=
  { id := "f", tenantId := "t", ownerId := "u", name := "cv.pdf", extension := ".pdf",
    mimeType := "application/pdf", size := 6, purpose := .document, status := .pending, resourceType := "USER",
    resourceId := "r", versions := [v], version := 0, createdAt := 1, updatedAt := 1, deletedAt := none }

/-- A new file with the version. -/
def pdfFile (v : FileVersion) : File :=
  ⟨pdfProps v, (by decide : isBlank "cv.pdf" = false), (by decide : isBlank ".pdf" = false),
    (by decide : isBlank "application/pdf" = false), (by decide : 0 < 6), List.cons_ne_nil v []⟩

theorem create_pdfProps (v : FileVersion) : File.create (pdfProps v) = .ok (pdfFile v) :=
  File.create_eq_ok.mpr ⟨rfl, rfl⟩

/-- Two versions, a scan of each, a reload, and three calls that throw. -/
def pdfCalls : List Call :=
  [.addScanToLatestVersion cleanScan 2, .markReady 2, .markReady 3, .replace (replaceInput pdf₂) 4,
    .addScanToLatestVersion cleanScan 5, .markReady 5, .reload true, .rename " " 6, .delete 7, .delete 8]

/-- The version an upload makes. -/
def uploaded : FileVersion := ⟨pdfParams 1 ".pdf" "tenants/t/files/f/v1/cv.pdf", by decide⟩

theorem wellFormed_history_pdf :
    (AllStates (step pdfPorts) WellFormed (pdfFile uploaded).toFileProps pdfCalls ∧
      AllSteps (step pdfPorts) (Kept pdfPorts) (pdfFile uploaded).toFileProps pdfCalls) ∧
    (run (step pdfPorts) (pdfFile uploaded).toFileProps pdfCalls).map
      (fun p => (p.versions.map (·.version), p.status)) = some ([1, 2], .deleted) := by
  have hkey : storageKey "t" "f" 1 "cv.pdf" = "tenants/t/files/f/v1/cv.pdf" := by decide +kernel
  refine ⟨wellFormed_history (create_pdfProps uploaded) (fun v hv => ?_) pdfCalls, by decide +kernel⟩
  rw [List.mem_singleton.mp hv]
  refine ⟨rfl, ⟨rfl, rfl, rfl⟩, fun n name hn _ he => ?_⟩
  have := version_eq_of_storageKey (hkey.trans he)
  omega

/-- A first version that is numbered two, one with another extension, and one under the key that the second
version of the file gets. -/
def secondFirst : FileVersion := ⟨pdfParams 2 ".pdf" "tenants/t/files/f/v2/cv.pdf", by decide⟩

/-- A version of another format than its file. -/
def otherFormat : FileVersion := ⟨pdfParams 1 ".docx" "tenants/t/files/f/v1/cv.docx", by decide⟩

/-- A version with the key of the next one. -/
def laterKey : FileVersion := ⟨pdfParams 1 ".pdf" "tenants/t/files/f/v2/cv.pdf", by decide⟩

/-- `create` takes the version, and a replace leads out of the histories. -/
def LeavesHistory (v : FileVersion) : Prop :=
  File.create (pdfProps v) = .ok (pdfFile v) ∧
    ¬ AllStates (step pdfPorts) WellFormed (pdfFile v).toFileProps [.markReady 2, .replace (replaceInput pdf₂) 3]

theorem create_leaves_history :
    LeavesHistory secondFirst ∧ LeavesHistory otherFormat ∧ LeavesHistory laterKey := by
  refine ⟨⟨create_pdfProps _, fun h => ?_⟩, ⟨create_pdfProps _, fun h => ?_⟩, ⟨create_pdfProps _, fun h => ?_⟩⟩
  · exact absurd h.head.numbered (by decide)
  · obtain ⟨latest, hlatest, hformat⟩ := h.head.format
    cases hlatest
    exact absurd hformat.extension (by decide)
  · have hkeys : (run (step pdfPorts) (pdfFile laterKey).toFileProps
        [.markReady 2, .replace (replaceInput pdf₂) 3]).map (fun p => p.versions.map (·.storageKey)) =
          some ["tenants/t/files/f/v2/cv.pdf", "tenants/t/files/f/v2/cv.pdf"] := by decide +kernel
    obtain ⟨p, hr⟩ := @exists_run _ _ (step pdfPorts) (fun p call => ⟨_, rfl⟩)
      (pdfFile laterKey).toFileProps [.markReady 2, .replace (replaceInput pdf₂) 3]
    have hnodup := (h.last hr).keys
    rw [hr, Option.map_some, Option.some.injEq] at hkeys
    rw [hkeys] at hnodup
    exact absurd hnodup (by decide)

end Neltrik.FileStorage.History
