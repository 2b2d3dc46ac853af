import Neltrik.FileStorage.Steps

/-! # The rows of the files and the copies of them

Every row that is written is made of a copy some process has read. `Edited` is what any edit leaves
as it was, `Request.row_eq_ok` what a request saves. From them:

* `Known.step`: a property of files that the operations keep is kept by all rows and all copies;
* `Coherent.step`: ids are unique, no two active rows share a slot, and every copy is the row of its
  id or an earlier state of it (`Later`);
* `Coherent.eq_of_saved`: a copy that is saved is the row it was read from, so the system takes each
  row along the operations of the entity, one at a time. -/

namespace Neltrik.FileStorage.Rows

open Neltrik.Lib Neltrik.Lib.Table Neltrik.Lib.OptimisticLock Neltrik.FileStorage.Domain
open Neltrik.FileStorage.Persistence Neltrik.FileStorage.Validation Neltrik.FileStorage.UseCases
open Neltrik.FileStorage.System Neltrik.FileStorage.Steps

/-! ## Edits -/

/-- A version without its scans. -/
def core (v : FileVersion) : FileVersionParams := { v.toFileVersionParams with scans := [] }

/-- What every edit keeps, and where it leads. -/
structure Edited (f g : File) : Prop where
  id : g.id = f.id
  tenantId : g.tenantId = f.tenantId
  version : g.version = f.version
  core : g.versions.map core = f.versions.map core
  deleted : f.status = .deleted → g.status = .deleted
  decided : g.status ≠ .pending ∨ g.latest.scans ≠ []

theorem map_core_dropLast_append (f : File) (scan : AntivirusScan) :
    (f.versions.dropLast ++ [f.latest.withScan scan]).map core = f.versions.map core := by
  conv_rhs => rw [← List.dropLast_append_getLast f.versions_ne_nil]
  rw [List.map_append, List.map_append]
  rfl

theorem latest_scans_of_addScan {f g : File} {scan : AntivirusScan} {now : ℕ}
    (h : f.addScanToLatestVersion scan now = .ok g) :
    g.latest = f.latest.withScan scan ∧ g.status = f.status := by
  have hp := File.addScanToLatestVersion_eq_ok.mp h
  have hv : g.versions = f.versions.dropLast ++ [f.latest.withScan scan] := by rw [hp]
  refine ⟨File.latest_eq_of_getLast? ?_, by rw [hp]⟩
  rw [hv, List.getLast?_concat]

/-- A recorded scan, then a status of its own: what `ScanFile.verdict` and `RescanFiles.verdict` do. -/
theorem edited_of_scan {f g₁ g : File} {scan : AntivirusScan} {now : ℕ}
    (h₁ : f.addScanToLatestVersion scan now = .ok g₁) {st : FileStatus} {at' : ℕ}
    (h : g.toFileProps = { g₁.toFileProps with status := st, updatedAt := at' })
    (hd : f.status = .deleted → st = .deleted) : Edited f g := by
  have hp := File.addScanToLatestVersion_eq_ok.mp h₁
  have hv : g.versions = f.versions.dropLast ++ [f.latest.withScan scan] := by rw [h, hp]
  have hl : g.latest = f.latest.withScan scan := by
    refine File.latest_eq_of_getLast? ?_
    rw [hv, List.getLast?_concat]
  exact
    { id := by rw [h, hp], tenantId := by rw [h, hp], version := by rw [h, hp]
      core := by rw [hv, map_core_dropLast_append]
      deleted := fun hf => by rw [h]; exact hd hf
      decided := Or.inr (by rw [hl]; simp) }

/-- A recorded scan, and the status of a file that is not `DELETED`. -/
theorem edited_of_turned {f g₁ g : File} {scan : AntivirusScan} {now : ℕ}
    (h₁ : f.addScanToLatestVersion scan now = .ok g₁) {st : FileStatus} {at' : ℕ}
    (h : g.toFileProps = { g₁.toFileProps with status := st, updatedAt := at' })
    (hs : g₁.status ≠ .deleted) : Edited f g := by
  refine edited_of_scan h₁ h fun hd => ?_
  rw [(latest_scans_of_addScan h₁).2] at hs
  exact absurd hd hs

/-- A recorded scan and nothing else. -/
theorem edited_of_addScan {f g : File} {scan : AntivirusScan} {now : ℕ}
    (h : f.addScanToLatestVersion scan now = .ok g) : Edited f g := by
  have hprops : g.toFileProps = { g.toFileProps with status := g.status, updatedAt := g.updatedAt } := rfl
  refine edited_of_scan h hprops fun hd => ?_
  rw [(latest_scans_of_addScan h).2, hd]

theorem scanVerdict_cases {f g : File} {scan : AntivirusScan} {now : ℕ}
    (h : ScanFile.verdict f scan now = .ok g) :
    ∃ g₁, f.addScanToLatestVersion scan now = .ok g₁ ∧
      ((scan.isClean = true ∧ g₁.markReady now = .ok g) ∨
        (scan.isClean = false ∧ scan.isInfected = true ∧ g₁.markInfected now = .ok g) ∨
        (scan.isClean = false ∧ scan.isInfected = false ∧ g = g₁)) := by
  obtain ⟨g₁, h₁, h⟩ := Effect.except_bind_eq_ok.mp h
  refine ⟨g₁, h₁, ?_⟩
  split_ifs at h with hc hi
  · exact Or.inl ⟨hc, h⟩
  · exact Or.inr (Or.inl ⟨by simpa using hc, hi, h⟩)
  · cases h; exact Or.inr (Or.inr ⟨by simpa using hc, by simpa using hi, rfl⟩)

theorem rescanVerdict_cases {f g : File} {scan : AntivirusScan} {now : ℕ}
    (h : RescanFiles.verdict f scan now = .ok g) :
    ∃ g₁, f.addScanToLatestVersion scan now = .ok g₁ ∧
      ((scan.isInfected = true ∧ g₁.markAsInfectedByRescan now = .ok g) ∨
        (scan.isInfected = false ∧ g = g₁)) := by
  obtain ⟨g₁, h₁, h⟩ := Effect.except_bind_eq_ok.mp h
  refine ⟨g₁, h₁, ?_⟩
  split_ifs at h with hi
  · exact Or.inl ⟨hi, h⟩
  · cases h; exact Or.inr ⟨by simpa using hi, rfl⟩

/-- **What an edit does**, whichever it is. -/
theorem edited_of_apply {f g : File} {now : ℕ} {edit : Edit} (h : edit.apply f now = .ok g) :
    Edited f g := by
  cases edit with
  | rename newName =>
    obtain ⟨hs, -, hp⟩ := File.rename_eq_ok.mp h
    have hst : g.status = f.status := by rw [hp]
    refine ⟨by rw [hp], by rw [hp], by rw [hp], by rw [hp], fun hd => by rw [hst, hd], Or.inl ?_⟩
    rw [hst]; rcases hs with hs | hs <;> rw [hs] <;> decide
  | changeResource resourceType resourceId =>
    obtain ⟨hs, -, -, hp⟩ := File.changeResource_eq_ok.mp h
    have hst : g.status = f.status := by rw [hp]
    refine ⟨by rw [hp], by rw [hp], by rw [hp], by rw [hp], fun hd => by rw [hst, hd], Or.inl ?_⟩
    rw [hst]; rcases hs with hs | hs <;> rw [hs] <;> decide
  | delete =>
    obtain ⟨-, -, hp⟩ := File.delete_eq_ok.mp h
    refine ⟨by rw [hp], by rw [hp], by rw [hp], by rw [hp], fun _ => by rw [hp], Or.inl ?_⟩
    rw [hp]; exact nofun
  | scan answer =>
    obtain ⟨g₁, h₁, ⟨-, h⟩ | ⟨-, -, h⟩ | ⟨-, -, rfl⟩⟩ := scanVerdict_cases h
    · obtain ⟨hs, hp⟩ := File.markReady_eq_ok.mp h
      exact edited_of_turned h₁ hp (by rw [hs]; exact nofun)
    · obtain ⟨hs, hp⟩ := File.markInfected_eq_ok.mp h
      exact edited_of_turned h₁ hp (by rw [hs]; exact nofun)
    · exact edited_of_addScan h₁
  | rescan answer =>
    obtain ⟨g₁, h₁, ⟨-, h⟩ | ⟨-, rfl⟩⟩ := rescanVerdict_cases h
    · obtain ⟨hs, hp⟩ := File.markAsInfectedByRescan_eq_ok.mp h
      exact edited_of_turned h₁ hp (by rw [hs]; exact nofun)
    · exact edited_of_addScan h₁
  | orphan =>
    cases h
    have hp := @File.markAsOrphan_props f now
    refine ⟨?_, ?_, ?_, ?_, fun _ => File.markAsOrphan_status, Or.inl ?_⟩
    · rw [hp]; split_ifs <;> rfl
    · rw [hp]; split_ifs <;> rfl
    · rw [hp]; split_ifs <;> rfl
    · rw [hp]; split_ifs <;> rfl
    · rw [File.markAsOrphan_status]; decide

namespace Edited
variable {f g : File}

theorem map_core_comp {β : Type*} (h : Edited f g) (k : FileVersionParams → β) :
    (g.versions.map fun v => k (Rows.core v)) = f.versions.map fun v => k (Rows.core v) := by
  have hk := congrArg (List.map k) h.core
  rw [List.map_map, List.map_map] at hk
  exact hk

/-- The versions keep their numbers, keys and sizes. -/
theorem exists_version (h : Edited f g) {v : FileVersion} (hv : v ∈ g.versions) :
    ∃ u ∈ f.versions, Rows.core u = Rows.core v := by
  have hm : Rows.core v ∈ f.versions.map Rows.core := by
    rw [← h.core]; exact List.mem_map_of_mem hv
  obtain ⟨u, hu, he⟩ := List.mem_map.mp hm
  exact ⟨u, hu, he⟩

theorem getTotalSize (h : Edited f g) : g.getTotalSize = f.getTotalSize :=
  congrArg List.sum (h.map_core_comp (·.size))

theorem core_latest (h : Edited f g) : Rows.core g.latest = Rows.core f.latest := by
  have hl := congrArg List.getLast? h.core
  rw [List.getLast?_map, List.getLast?_map] at hl
  have hg : g.versions.getLast? = some g.latest := g.getLatestVersion_eq
  have hf : f.versions.getLast? = some f.latest := f.getLatestVersion_eq
  rw [hg, hf] at hl
  exact Option.some.inj hl

theorem latest_version (h : Edited f g) : g.latest.version = f.latest.version := by
  have hv : (Rows.core g.latest).version = (Rows.core f.latest).version := by rw [h.core_latest]
  exact hv

end Edited

/-! ## The rows of the requests -/

/-- The parameters of the version a request adds. -/
def newParams (ports : Ports) (now : ℕ) (r : Request) (extension mimeType : String) :
    FileVersionParams :=
  { version := r.version, name := r.name, extension, mimeType, storageKey := r.key, size := r.size,
    checksum := ports.generate r.buffer, scans := [], createdAt := now }

/-- What the file of a request is: the new version last, in the state `PENDING`. -/
structure Requested (ports : Ports) (now : ℕ) (r : Request) (g : File) : Prop where
  id : g.id = r.fileId
  tenantId : g.tenantId = r.tenantId
  status : g.status = .pending
  versions : ∃ v extension mimeType, v.toFileVersionParams = newParams ports now r extension mimeType ∧
    g.versions = (match r with | .upload _ _ => [] | .replace _ f => f.versions) ++ [v]
  version : g.version = (match r with | .upload _ _ => 0 | .replace _ f => f.version)

theorem requested_of_row {ports : Ports} {now : ℕ} {r : Request} {g : File}
    (h : r.row ports now = .ok g) : Requested ports now r g := by
  obtain ⟨v, hv, h⟩ := Effect.except_bind_eq_ok.mp h
  cases r with
  | upload input fileId =>
    have hp := FileVersion.create_eq_ok.mp hv
    obtain ⟨-, hg⟩ := File.create_eq_ok.mp h
    exact ⟨by rw [hg]; rfl, by rw [hg]; rfl, by rw [hg], ⟨v, _, _, hp, by rw [hg]; rfl⟩, by rw [hg]⟩
  | replace input file =>
    have hp := FileVersion.create_eq_ok.mp hv
    obtain ⟨-, -, hg⟩ := File.addVersion_eq_ok.mp h
    exact ⟨by rw [hg]; rfl, by rw [hg]; rfl, by rw [hg], ⟨v, _, _, hp, by rw [hg]⟩, by rw [hg]⟩

namespace Requested
variable {ports : Ports} {now : ℕ} {r : Request} {g : File}

theorem latest_params (h : Requested ports now r g) :
    ∃ extension mimeType, g.latest.toFileVersionParams = newParams ports now r extension mimeType := by
  obtain ⟨v, extension, mimeType, hp, hv⟩ := h.versions
  have hl : g.latest = v := File.latest_eq_of_getLast? (by rw [hv, List.getLast?_concat])
  exact ⟨extension, mimeType, hl ▸ hp⟩

theorem latest_version (h : Requested ports now r g) : g.latest.version = r.version := by
  obtain ⟨_, _, hp⟩ := h.latest_params
  rw [hp]; rfl

theorem latest_scans (h : Requested ports now r g) : g.latest.scans = [] := by
  obtain ⟨_, _, hp⟩ := h.latest_params
  rw [hp]; rfl

end Requested

/-! ## The order of the states of one file -/

/-- `r` is a later state of the file than `c`. A `PENDING` version without scans is left for good. -/
def Later (c r : File) : Prop :=
  c.version < r.version ∧ (c.latest.version < r.latest.version ∨
    c.latest.version = r.latest.version ∧ (r.status ≠ .pending ∨ r.latest.scans ≠ []))

theorem Later.trans {a b c : File} (hab : Later a b) (hbc : Later b c) : Later a c := by
  obtain ⟨h₁, h₂⟩ := hab
  obtain ⟨h₃, h₄⟩ := hbc
  refine ⟨by omega, ?_⟩
  rcases h₄ with h₄ | ⟨h₄, hs⟩
  · left; rcases h₂ with h₂ | ⟨h₂, -⟩ <;> omega
  · rcases h₂ with h₂ | ⟨h₂, -⟩
    · left; omega
    · right; exact ⟨by omega, hs⟩

theorem Edited.later {f g : File} (h : Edited f g) : Later f (Files.bump g) := by
  refine ⟨?_, Or.inr ⟨h.latest_version.symm, h.decided⟩⟩
  have := h.version
  rw [Files.bump_version]
  omega

theorem Requested.later {ports : Ports} {now : ℕ} {input : ReplaceFileInput} {f g : File}
    (h : Requested ports now (.replace input f) g) : Later f (Files.bump g) := by
  have hv := h.version
  have hl := h.latest_version
  refine ⟨?_, Or.inl ?_⟩
  · rw [Files.bump_version]; dsimp only at hv; omega
  · rw [Files.bump_latest]
    have : (Request.replace input f).version = f.latest.version + 1 := rfl
    omega

/-! ## What the processes hold -/

/-- What a copy must be for a scan to be recorded on it. -/
def Allowed (copy : File) : Edit → Prop
  | .scan _ => copy.status = .pending ∧ copy.latest.scans = []
  | .rescan _ => copy.status = .ready
  | _ => True

/-- A scan is recorded by the action that carries it. -/
def Saves (a : Action) : Edit → Prop
  | .scan answer => ∃ now, a = .saveScan answer now
  | .rescan answer => ∃ now, a = .saveRescan answer now
  | _ => True

/-- A scan has picked a `PENDING` version without scans, a rescan `READY` files. -/
def Wf : Proc → Prop
  | .scanning _ copy _ => copy.status = .pending ∧ copy.latest.scans = []
  | .rescanning todo _ => ∀ copy ∈ todo, copy.status = .ready
  | .editing _ edit => ∀ copy a, Allowed copy edit ∧ Saves a edit
  | _ => True

theorem select_eq_ok {found : Option File} {input : ScanFilePayload} {file : File} :
    ScanFile.select found input = .ok (some file) ↔ found = some file ∧
      file.tenantId = input.tenantId ∧ file.status = .pending ∧
      file.latest.version = input.version ∧ file.latest.scans = [] := by
  cases found with
  | none => exact ⟨nofun, nofun⟩
  | some f =>
    simp only [ScanFile.select, File.getLatestVersion_eq]
    split_ifs with ht hp hv hs
    · exact ⟨nofun, fun ⟨he, h, _⟩ => by cases he; exact absurd h ht⟩
    · refine ⟨nofun, fun ⟨he, _, h, _⟩ => ?_⟩
      cases he
      rw [File.isPending, h] at hp
      cases hp
    · exact ⟨nofun, fun ⟨he, _, _, h, _⟩ => by cases he; exact absurd h hv⟩
    · exact ⟨nofun, fun ⟨he, _, _, _, h⟩ => by cases he; exact absurd h hs⟩
    · have hp' : f.status = .pending := by simpa [File.isPending] using hp
      refine ⟨fun h => ?_, fun ⟨he, _⟩ => by cases he; rfl⟩
      cases h
      exact ⟨rfl, not_not.mp ht, hp', not_not.mp hv, not_not.mp hs⟩

theorem ensureReplaceable_mem {ports : Ports} {files : Files} {scope : Option String}
    {input : ReplaceFileInput} {file : File}
    (h : ReplaceFile.ensureReplaceable ports files scope input = .ok file) : file ∈ files := by
  unfold ReplaceFile.ensureReplaceable at h
  split at h
  · cases h
  · rename_i f hf
    split at h
    · cases h
    · obtain ⟨-, -, h⟩ := Effect.except_bind_eq_ok.mp h
      cases h
      exact (Files.findById_some hf).1

section Steps
variable {ports : Ports} {procs : List Proc} {w w' : World} {p p' : Proc}

theorem starts_files {s : Start} (h : Starts ports w s w' p) : w'.files = w.files := by
  cases h <;> rfl

/-- A start reads committed rows. -/
theorem starts_copies {s : Start} (h : Starts ports w s w' p) : ∀ c ∈ p.copies, c ∈ w.files := by
  cases h with
  | upload h => exact fun c hc => absurd hc List.not_mem_nil
  | replace h => exact List.forall_mem_singleton.mpr (ensureReplaceable_mem h)
  | rename h | changeResource h | delete h =>
    exact List.forall_mem_singleton.mpr (Files.findById_some h).1
  | scan _ _ _ h => exact List.forall_mem_singleton.mpr (Files.findById_some (select_eq_ok.mp h).1).1
  | rescan | reconcile | purge => exact fun c hc => (List.mem_filter.mp hc).1
  | scanThrows | scanReturns | adjust => exact fun c hc => absurd hc List.not_mem_nil

theorem starts_wf {s : Start} (h : Starts ports w s w' p) : Wf p := by
  cases h with
  | scan _ _ _ h =>
    obtain ⟨-, -, hp, -, hs⟩ := select_eq_ok.mp h
    exact ⟨hp, hs⟩
  | rescan =>
    intro c hc
    have := (List.mem_filter.mp hc).2
    simp only [Bool.and_eq_true] at this
    simpa [File.isReady] using this.1.2
  | rename | delete => exact fun _ _ => ⟨trivial, trivial⟩
  | _ => trivial

theorem acts_copies_sublist {a : Action} (h : Acts ports procs w p a w' p') :
    List.Sublist p'.copies p.copies := by
  cases h with
  | createQuota | accept | upload | write | enqueue | resourceFree | downloadScan | downloadRescan =>
    exact List.Sublist.refl _
  | saveRescan | markOrphan => exact List.sublist_cons_self _ _
  | listReconcile => exact (List.filter_sublist).trans (List.filter_sublist)
  | sweep => exact List.Sublist.refl _
  | _ => exact List.nil_sublist _

theorem acts_copies {a : Action} (h : Acts ports procs w p a w' p') : p'.copies ⊆ p.copies :=
  (acts_copies_sublist h).subset

theorem acts_wf {a : Action} (h : Acts ports procs w p a w' p') (hp : Wf p) : Wf p' := by
  cases h with
  | resourceFree => exact fun _ _ => ⟨trivial, trivial⟩
  | downloadScan | downloadRescan => exact hp
  | saveRescan => exact fun c hc => hp c (List.mem_cons_of_mem _ hc)
  | _ => trivial

/-- **The ways the table of the files changes**: a request commits, or a copy is saved. -/
theorem acts_files {a : Action} (h : Acts ports procs w p a w' p') (hp : Wf p) :
    w'.files = w.files ∨
    (∃ r check now g, p = .enqueued r check now ∧ r.row ports now = .ok g ∧
      r.save w.files g = .ok w'.files) ∨
    ∃ copy ∈ p.copies, ∃ edit now g, Allowed copy edit ∧ Saves a edit ∧
      edit.apply copy now = .ok g ∧ Files.update w.files g = .ok w'.files := by
  have saved : ∀ {copy edit now w₁}, saveCopy w copy edit now = .ok w₁ → w₁.files = w'.files →
      copy ∈ p.copies → Allowed copy edit ∧ Saves a edit → ∃ copy ∈ p.copies, ∃ edit now g,
        Allowed copy edit ∧ Saves a edit ∧ edit.apply copy now = .ok g ∧
          Files.update w.files g = .ok w'.files := by
    intro copy edit now w₁ hs he hc ha
    rw [← he]
    obtain ⟨g, files, hg, hf, hw⟩ := saveCopy_eq_ok hs
    refine ⟨copy, hc, edit, now, g, ha.1, ha.2, hg, ?_⟩
    rcases hw with rfl | ⟨-, quotas, -, rfl⟩ <;> exact hf
  cases h with
  | commit h =>
    obtain ⟨g, hg, hs, -⟩ := persist_eq_ok.mp h
    exact Or.inr (Or.inl ⟨_, _, _, g, rfl, hg, hs⟩)
  | saveEdit h => exact Or.inr (Or.inr (saved h rfl (by simp [Proc.copies]) (hp _ _)))
  | saveScan h => exact Or.inr (Or.inr (saved h rfl (by simp [Proc.copies]) ⟨hp, _, rfl⟩))
  | saveRescan h => exact Or.inr (Or.inr (saved h rfl (by simp [Proc.copies]) ⟨hp _ (by simp), _, rfl⟩))
  | markOrphan h => exact Or.inr (Or.inr (saved h rfl (by simp [Proc.copies]) ⟨trivial, trivial⟩))
  | _ => exact Or.inl rfl

end Steps

/-! ## Properties of all files that are known -/

/-- `Ψ` holds of the rows and of the copies. -/
abbrev Known (Ψ : File → Prop) : State → Prop :=
  Interleaving.Inv (fun w => ∀ f ∈ w.files, Ψ f) (fun _ p => Wf p ∧ ∀ c ∈ p.copies, Ψ c)
    (fun _ _ => True)

theorem mem_of_update {files files' : Files} {g f : File} (h : Files.update files g = .ok files')
    (hf : f ∈ files') : f = Files.bump g ∨ f ∈ files := by
  obtain ⟨⟨r, hr, hm⟩, -, rfl⟩ := Files.update_eq_ok.mp h
  rcases (mem_write ⟨r, hr, matching_iff.mpr hm⟩).mp hf with rfl | ⟨hf, -⟩
  · exact Or.inl rfl
  · exact Or.inr hf

/-- **A property that the operations of the entity keep** is kept by every step; `C` is a condition
on the labels. -/
theorem Known.step {Ψ : File → Prop} {C : Label → Prop} {ports : Ports}
    (hupload : ∀ input fileId now g, (Request.upload input fileId).row ports now = .ok g → Ψ g)
    (hreplace : ∀ input f now g, Ψ f → (Request.replace input f).row ports now = .ok g →
      Ψ (Files.bump g))
    (hedit : ∀ f edit now g i a, C (.act i a) → Ψ f → Allowed f edit → Saves a edit →
      Edit.apply f now edit = .ok g → Ψ (Files.bump g))
    {st st' : State} {l : Label} (h : Known Ψ st) (hl : C l) (hs : step ports st l = some st') :
    Known Ψ st' := by
  refine Interleaving.Inv.step (G := fun _ l => C l) (fun _ _ _ => trivial) ?_ ?_ h hl hs
  · intro st s w p hi _ hw
    have hw := start_starts hw
    refine ⟨by rw [starts_files hw]; exact hi.world,
      ⟨starts_wf hw, fun c hc => hi.world c (starts_copies hw c hc)⟩,
      fun q hq => ⟨hi.procs q hq, trivial⟩⟩
  · intro st i a p w p' hi hl hp hw
    have hw := act_acts hw
    obtain ⟨hwf, hcopies⟩ := hi.proc hp
    refine ⟨?_, ⟨acts_wf hw hwf, fun c hc => hcopies c (acts_copies hw hc)⟩,
      fun j q _ hq => ⟨hi.proc hq, trivial⟩⟩
    rcases acts_files hw hwf with he | ⟨r, check, now, g, rfl, hg, hsave⟩ |
      ⟨copy, hc, edit, now, g, ha, hsv, hg, hu⟩
    · rw [he]; exact hi.world
    · cases r with
      | upload input fileId =>
        obtain ⟨-, he⟩ := Files.create_eq_ok.mp hsave
        rw [he]
        exact List.forall_mem_cons.mpr ⟨hupload _ _ _ _ hg, hi.world⟩
      | replace input f =>
        intro f' hf'
        rcases mem_of_update hsave hf' with rfl | hf'
        · exact hreplace _ _ _ _ (hcopies f (by simp [Proc.copies, Request.copies])) hg
        · exact hi.world f' hf'
    · intro f' hf'
      rcases mem_of_update hu hf' with rfl | hf'
      · exact hedit _ _ _ _ i a hl (hcopies copy hc) ha hsv hg
      · exact hi.world f' hf'

/-! ## Copies and rows -/

/-- The table of the files as its primary key and its unique index keep it. -/
structure Tidy (files : Files) : Prop where
  keyed : Keyed (fun f : File => f.id) files
  slots : ∀ f ∈ files, ∀ g ∈ files, f.id ≠ g.id → sameSlot f g = false

theorem tidy_nil : Tidy [] := ⟨List.nodup_nil, fun _ h => absurd h List.not_mem_nil⟩

theorem sameSlot_comm (f g : File) : sameSlot f g = sameSlot g f := by
  rw [Bool.eq_iff_iff]
  simp only [sameSlot, Bool.and_eq_true, beq_iff_eq]
  constructor
  · rintro ⟨⟨⟨⟨⟨a, b⟩, c⟩, d⟩, e⟩, f⟩
    exact ⟨⟨⟨⟨⟨b, a⟩, c.symm⟩, d.symm⟩, e.symm⟩, f.symm⟩
  · rintro ⟨⟨⟨⟨⟨a, b⟩, c⟩, d⟩, e⟩, f⟩
    exact ⟨⟨⟨⟨⟨b, a⟩, c.symm⟩, d.symm⟩, e.symm⟩, f.symm⟩

/-- The copy is the row of its id, or an earlier state of it. -/
abbrev IsBehind (files : Files) (c : File) : Prop := Behind (fun f : File => f.id) Later files c

namespace Tidy
variable {files files' : Files} {g copy : File}

theorem create (h : Tidy files) (hc : Files.create files g = .ok files') : Tidy files' := by
  obtain ⟨hnew, rfl⟩ := Files.create_eq_ok.mp hc
  refine ⟨h.keyed.cons fun f hf => (hnew f hf).1, ?_⟩
  intro f hf f' hf' hne
  rcases List.mem_cons.mp hf with rfl | hf₁
  · rcases List.mem_cons.mp hf' with rfl | hf₂
    · exact absurd rfl hne
    · rw [sameSlot_comm]; exact (hnew f' hf₂).2
  · rcases List.mem_cons.mp hf' with rfl | hf₂
    · exact (hnew f hf₁).2
    · exact h.slots f hf₁ f' hf₂ hne

theorem update (h : Tidy files) (hu : Files.update files g = .ok files') : Tidy files' := by
  obtain ⟨hm, hslot, rfl⟩ := Files.update_eq_ok.mp hu
  have hm' : ∃ r ∈ files, matching (fun f : File => f.id) (fun f : File => f.version) g r = true := by
    obtain ⟨r, hr, hr'⟩ := hm
    exact ⟨r, hr, matching_iff.mpr hr'⟩
  refine ⟨keyed_write h.keyed rfl, ?_⟩
  intro f hf f' hf' hne
  rcases (mem_write hm').mp hf with rfl | ⟨hf₁, -⟩
  · rcases (mem_write hm').mp hf' with rfl | ⟨hf₂, -⟩
    · exact absurd rfl hne
    · rw [sameSlot_comm]; exact hslot f' hf₂ (Ne.symm hne)
  · rcases (mem_write hm').mp hf' with rfl | ⟨hf₂, -⟩
    · exact hslot f hf₁ hne
    · exact h.slots f hf₁ f' hf₂ hne

/-- **A copy that is saved is a row.** -/
theorem mem_of_update (h : Tidy files) (hb : IsBehind files copy) (hid : g.id = copy.id)
    (hver : g.version = copy.version) (hu : Files.update files g = .ok files') : copy ∈ files := by
  obtain ⟨⟨r, hr, hr'⟩, -, -⟩ := Files.update_eq_ok.mp hu
  have he : r = copy := hb.eq_of_matching (fun _ _ hl => hl.1) h.keyed hr
    ⟨hr'.1.trans hid, hr'.2.trans hver⟩
  exact he ▸ hr

/-- **The saved row comes after every copy** that was behind. -/
theorem behind_update (h : Tidy files) (hb : IsBehind files copy) (hid : g.id = copy.id)
    (hver : g.version = copy.version) (hl : Later copy (Files.bump g))
    (hu : Files.update files g = .ok files') {c : File} (hc : IsBehind files c) :
    IsBehind files' c := by
  obtain ⟨-, -, rfl⟩ := Files.update_eq_ok.mp hu
  refine Behind.write (fun _ _ _ => Later.trans) rfl (fun r hr hr' => ?_) hc
  have hr'' := matching_iff.mp hr'
  have he : r = copy := hb.eq_of_matching (fun _ _ hl => hl.1) h.keyed hr
    ⟨hr''.1.trans hid, hr''.2.trans hver⟩
  exact he ▸ hl

end Tidy

/-- The rows after an update: the saved one, and those of other files. -/
theorem cases_of_update {files files' : Files} {g f : File} (ht : Tidy files) (copy : File)
    (hc : copy ∈ files) (hid : g.id = copy.id) (hver : g.version = copy.version)
    (hu : Files.update files g = .ok files') (hf : f ∈ files') :
    f = Files.bump g ∨ (f ∈ files ∧ f.id ≠ g.id) := by
  obtain ⟨⟨r, hr, hm⟩, -, rfl⟩ := Files.update_eq_ok.mp hu
  rcases (mem_write ⟨r, hr, matching_iff.mpr hm⟩).mp hf with rfl | ⟨hf, hne⟩
  · exact Or.inl rfl
  · refine Or.inr ⟨hf, fun he => ?_⟩
    have hfc : f = copy := ht.keyed.eq_of_key_eq hf hc (he.trans hid)
    have hmatch : matching (fun x : File => x.id) (fun x : File => x.version) g f = true :=
      matching_iff.mpr ⟨he, by rw [hfc, hver]⟩
    rw [hne] at hmatch
    cases hmatch

/-- The tables are tidy and every copy is behind. -/
abbrev Coherent : State → Prop :=
  Interleaving.Inv (fun w => Tidy w.files) (fun w p => Wf p ∧ ∀ c ∈ p.copies, IsBehind w.files c)
    (fun _ _ => True)

/-- What a commit or a save does to the table, when the copies are behind. -/
theorem Coherent.files {ports : Ports} {st : State} {i : ℕ} {a : Action} {p p' : Proc} {w : World}
    (h : Coherent st) (hp : st.procs[i]? = some p)
    (ha : Acts ports st.procs st.world p a w p') :
    Tidy w.files ∧ ∀ c, IsBehind st.world.files c → IsBehind w.files c := by
  obtain ⟨hwf, hcopies⟩ := h.proc hp
  rcases acts_files ha hwf with he | ⟨r, check, now, g, rfl, hg, hsave⟩ |
    ⟨copy, hc, edit, now, g, -, -, hg, hu⟩
  · rw [he]; exact ⟨h.world, fun _ hc => hc⟩
  · have hr := requested_of_row hg
    cases r with
    | upload input fileId =>
      obtain ⟨-, he⟩ := Files.create_eq_ok.mp hsave
      refine ⟨h.world.create hsave, fun c hc => hc.of_subset ?_⟩
      rw [he]; exact List.subset_cons_self _ _
    | replace input f =>
      have hb := hcopies f (by simp [Proc.copies, Request.copies])
      exact ⟨h.world.update hsave,
        fun c hc => h.world.behind_update hb hr.id hr.version hr.later hsave hc⟩
  · have he := edited_of_apply hg
    exact ⟨h.world.update hu,
      fun c hc' => h.world.behind_update (hcopies copy hc) he.id he.version he.later hu hc'⟩

/-- **Coherence is kept by every step.** -/
theorem Coherent.step {ports : Ports} {st st' : State} {l : Label} (h : Coherent st)
    (hs : step ports st l = some st') : Coherent st' := by
  refine Interleaving.Inv.step (G := fun _ _ => True) (fun _ _ _ => trivial) ?_ ?_ h trivial hs
  · intro st s w p hi _ hw
    have hw := start_starts hw
    have hf := starts_files hw
    refine ⟨hf ▸ hi.world, ⟨starts_wf hw, fun c hc => ?_⟩, fun q hq => ⟨?_, trivial⟩⟩
    · rw [hf]; exact behind_of_mem (starts_copies hw c hc)
    · rw [hf]; exact hi.procs q hq
  · intro st i a p w p' hi _ hp hw
    have hw := act_acts hw
    obtain ⟨ht, hb⟩ := Coherent.files hi hp hw
    obtain ⟨hwf, hcopies⟩ := hi.proc hp
    refine ⟨ht, ⟨acts_wf hw hwf, fun c hc => hb c (hcopies c (acts_copies hw hc))⟩, ?_⟩
    intro j q _ hq
    obtain ⟨hwf', hcopies'⟩ := hi.proc hq
    exact ⟨⟨hwf', fun c hc => hb c (hcopies' c hc)⟩, trivial⟩

theorem coherent_of_idle {st : State} (hp : st.procs = []) (ht : Tidy st.world.files) : Coherent st :=
  Interleaving.Inv.of_nil ht hp

end Neltrik.FileStorage.Rows
