import Neltrik.FileStorage.Rows

/-! # Only clean content is served

The status of a file and the scans of its last version are changed by different methods.
`Clean` links them: a `READY` version has a clean scan and no infected one, a `PENDING` version has
neither, an `INFECTED` version has an infected one. Every operation of the entity keeps it
(`clean_of_apply`, `clean_of_row`), so it holds of every row in every run, and
`served_content_is_clean` is what this means for a download. -/

namespace Neltrik.FileStorage.CleanContent

open Neltrik.Lib Neltrik.Lib.Machine Neltrik.FileStorage.Domain Neltrik.FileStorage.Persistence
open Neltrik.FileStorage.Validation Neltrik.FileStorage.UseCases Neltrik.FileStorage.System
open Neltrik.FileStorage.Rows

/-- The status agrees with the scans of the last version. -/
structure Clean (f : File) : Prop where
  ready : f.status = .ready → (∃ s ∈ f.latest.scans, s.isClean = true) ∧
    ∀ s ∈ f.latest.scans, s.isInfected = false
  pending : f.status = .pending → ∀ s ∈ f.latest.scans, s.isClean = false ∧ s.isInfected = false
  infected : f.status = .infected → ∃ s ∈ f.latest.scans, s.isInfected = true

section
variable {f g : File}

theorem latest_congr (h : g.versions = f.versions) : g.latest = f.latest :=
  File.latest_eq_of_getLast? (by rw [h]; exact f.getLatestVersion_eq)

theorem Clean.congr (h : Clean f) (hs : g.status = f.status) (hl : g.latest = f.latest) : Clean g := by
  refine ⟨?_, ?_, ?_⟩
  · rw [hs, hl]; exact h.ready
  · rw [hs, hl]; exact h.pending
  · rw [hs, hl]; exact h.infected

theorem clean_of_deleted (h : g.status = .deleted) : Clean g := by
  refine ⟨?_, ?_, ?_⟩ <;> rw [h] <;> exact nofun

theorem clean_of_ready (hs : g.status = .ready) (hc : ∃ s ∈ g.latest.scans, s.isClean = true)
    (hi : ∀ s ∈ g.latest.scans, s.isInfected = false) : Clean g := by
  refine ⟨fun _ => ⟨hc, hi⟩, ?_, ?_⟩ <;> rw [hs] <;> exact nofun

theorem clean_of_pending (hs : g.status = .pending)
    (h : ∀ s ∈ g.latest.scans, s.isClean = false ∧ s.isInfected = false) : Clean g := by
  refine ⟨?_, fun _ => h, ?_⟩ <;> rw [hs] <;> exact nofun

theorem clean_of_infected (hs : g.status = .infected)
    (h : ∃ s ∈ g.latest.scans, s.isInfected = true) : Clean g := by
  refine ⟨?_, ?_, fun _ => h⟩ <;> rw [hs] <;> exact nofun

theorem mem_scans_of_addScan {scan s : AntivirusScan} {now : ℕ}
    (h : f.addScanToLatestVersion scan now = .ok g) :
    s ∈ g.latest.scans ↔ s ∈ f.latest.scans ∨ s = scan := by
  rw [(latest_scans_of_addScan h).1, FileVersion.withScan_scans, List.mem_append,
    List.mem_singleton]

/-- An infected scan of the last version makes the file `INFECTED`. -/
theorem clean_of_infected_scan {g₁ : File} {scan : AntivirusScan} {now : ℕ}
    (h₁ : f.addScanToLatestVersion scan now = .ok g₁) (hi : scan.isInfected = true)
    (hg : g.toFileProps = { g₁.toFileProps with status := .infected, updatedAt := now }) : Clean g := by
  have hst : g.status = .infected := by rw [hg]
  have hl : g.latest = g₁.latest := latest_congr (by rw [hg])
  refine clean_of_infected hst ?_
  rw [hl]
  exact ⟨scan, (mem_scans_of_addScan h₁).mpr (Or.inr rfl), hi⟩

/-- The scan job: the scan decides a `PENDING` version, unless it is an error. -/
theorem clean_of_scan {scan : AntivirusScan} {now : ℕ} (h : Clean f) (hp : f.status = .pending)
    (hv : ScanFile.verdict f scan now = .ok g) : Clean g := by
  obtain ⟨g₁, h₁, ⟨hc, hm⟩ | ⟨-, hi, hm⟩ | ⟨hc, hi, rfl⟩⟩ := scanVerdict_cases hv
  · -- clean: the version becomes `READY`
    obtain ⟨-, hg⟩ := File.markReady_eq_ok.mp hm
    have hst : g.status = .ready := by rw [hg]
    have hl : g.latest = g₁.latest := latest_congr (by rw [hg])
    refine clean_of_ready hst ?_ ?_ <;> rw [hl]
    · exact ⟨scan, (mem_scans_of_addScan h₁).mpr (Or.inr rfl), hc⟩
    intro s hs
    rcases (mem_scans_of_addScan h₁).mp hs with hs | rfl
    · exact (h.pending hp s hs).2
    · exact AntivirusScan.isInfected_of_isClean hc
  · -- infected
    obtain ⟨-, hg⟩ := File.markInfected_eq_ok.mp hm
    exact clean_of_infected_scan h₁ hi hg
  · -- an error: still `PENDING`
    have hst : g.status = .pending := by rw [(latest_scans_of_addScan h₁).2, hp]
    refine clean_of_pending hst fun s hs => ?_
    rcases (mem_scans_of_addScan h₁).mp hs with hs | rfl
    · exact h.pending hp s hs
    · exact ⟨hc, hi⟩

/-- The rescan: a `READY` version stays so unless the scan is infected. -/
theorem clean_of_rescan {scan : AntivirusScan} {now : ℕ} (h : Clean f) (hr : f.status = .ready)
    (hv : RescanFiles.verdict f scan now = .ok g) : Clean g := by
  obtain ⟨g₁, h₁, ⟨hi, hm⟩ | ⟨hi, rfl⟩⟩ := rescanVerdict_cases hv
  · obtain ⟨-, hg⟩ := File.markAsInfectedByRescan_eq_ok.mp hm
    exact clean_of_infected_scan h₁ hi hg
  · have hst : g.status = .ready := by rw [(latest_scans_of_addScan h₁).2, hr]
    obtain ⟨⟨s₀, hs₀, hc₀⟩, hall⟩ := h.ready hr
    refine clean_of_ready hst ⟨s₀, (mem_scans_of_addScan h₁).mpr (Or.inl hs₀), hc₀⟩ fun s hs => ?_
    rcases (mem_scans_of_addScan h₁).mp hs with hs | rfl
    · exact hall s hs
    · exact hi

/-- **Edits keep the files clean.** -/
theorem clean_of_apply {edit : Edit} {now : ℕ} (h : Clean f) (ha : Allowed f edit)
    (hg : edit.apply f now = .ok g) : Clean g := by
  cases edit with
  | rename newName =>
    obtain ⟨-, -, hp⟩ := File.rename_eq_ok.mp hg
    exact h.congr (by rw [hp]) (latest_congr (by rw [hp]))
  | changeResource resourceType resourceId =>
    obtain ⟨-, -, -, hp⟩ := File.changeResource_eq_ok.mp hg
    exact h.congr (by rw [hp]) (latest_congr (by rw [hp]))
  | delete =>
    obtain ⟨-, -, hp⟩ := File.delete_eq_ok.mp hg
    exact clean_of_deleted (by rw [hp])
  | scan answer => exact clean_of_scan h ha.1 hg
  | rescan answer => exact clean_of_rescan h ha hg
  | orphan => cases hg; exact clean_of_deleted File.markAsOrphan_status

theorem clean_of_row {ports : Ports} {now : ℕ} {r : Request} (h : r.row ports now = .ok g) : Clean g :=
  by
  refine clean_of_pending (requested_of_row h).status ?_
  rw [(requested_of_row h).latest_scans]
  exact fun s hs => absurd hs List.not_mem_nil

end

/-- **The rows and the copies stay clean.** -/
theorem known_clean_step {ports : Ports} {st st' : State} {l : Label} (h : Known Clean st)
    (hs : step ports st l = some st') : Known Clean st' :=
  h.step (C := fun _ => True) (fun _ _ _ _ hg => clean_of_row hg)
    (fun _ _ _ _ _ hg => (clean_of_row hg).congr rfl rfl)
    (fun _ _ _ _ _ _ _ hf ha _ hg => (clean_of_apply hf ha hg).congr rfl rfl) trivial hs

/-- What a download URL is given out for. -/
theorem getDownloadUrl_eq_ok {ports : Ports} {files : Files} {scope : Option String} {ttl : ℕ}
    {fileId : String} {out : GetDownloadUrlOutput}
    (h : GetDownloadUrl.execute ports files scope ttl fileId = .ok out) :
    ∃ f ∈ files, f.id = fileId ∧ f.status = .ready ∧
      out.url = ports.getSignedUrl f.latest.storageKey ttl := by
  unfold GetDownloadUrl.execute at h
  split at h
  · cases h
  · rename_i f hf
    obtain ⟨hm, hid⟩ := Files.findById_some hf
    rw [File.getLatestVersion_eq] at h
    split_ifs at h with hd hr
    cases h
    exact ⟨f, hm, hid, by simpa [File.isReady] using hr, rfl⟩

/-- **Only clean content is served.** In every state of every run, a download URL is given out only
for the last version of a `READY` file, which has a clean scan and no infected one; a `PENDING`
version has neither; an `INFECTED` version has an infected one. -/
theorem served_content_is_clean {ports : Ports} {st st' : State} {ls : List Label}
    (hidle : st.procs = []) (hclean : ∀ f ∈ st.world.files, Clean f)
    (hr : run (step ports) st ls = some st') :
    (∀ scope ttl fileId out,
      GetDownloadUrl.execute ports st'.world.files scope ttl fileId = .ok out →
      ∃ f ∈ st'.world.files, f.id = fileId ∧ f.status = .ready ∧
        out.url = ports.getSignedUrl f.latest.storageKey ttl ∧
        (∃ s ∈ f.latest.scans, s.isClean = true) ∧ ∀ s ∈ f.latest.scans, s.isInfected = false) ∧
    ∀ f ∈ st'.world.files,
      (f.status = .pending → ∀ s ∈ f.latest.scans, s.isClean = false ∧ s.isInfected = false) ∧
      (f.status = .infected → ∃ s ∈ f.latest.scans, s.isInfected = true) := by
  have hi : Known Clean st := Interleaving.Inv.of_nil hclean hidle
  have hi' : Known Clean st' := run_inv (fun _ _ _ h hs => known_clean_step h hs) hi hr
  refine ⟨fun scope ttl fileId out hout => ?_, fun f hf => ?_⟩
  · obtain ⟨f, hf, hid, hready, hurl⟩ := getDownloadUrl_eq_ok hout
    obtain ⟨hclean, hinf⟩ := (hi'.world f hf).ready hready
    exact ⟨f, hf, hid, hready, hurl, hclean, hinf⟩
  · exact ⟨(hi'.world f hf).pending, (hi'.world f hf).infected⟩

/-- The file that was uploaded and scanned is served, with the scan that allows it. -/
theorem served_content_of_readyRun : ∃ st out, run (step pdfPorts) emptySystem readyRun = some st ∧
    GetDownloadUrl.execute pdfPorts st.world.files (some "t") 300 "f" = .ok out ∧
    ∃ f ∈ st.world.files, f.status = .ready ∧
      out.url = pdfPorts.getSignedUrl f.latest.storageKey 300 ∧
      ∃ s ∈ f.latest.scans, s.isClean = true := by
  have hrun : (run (step pdfPorts) emptySystem readyRun).any (fun st =>
      (GetDownloadUrl.execute pdfPorts st.world.files (some "t") 300 "f").toBool) = true := by decide
  obtain ⟨st, hst, hout⟩ := (Option.any_eq_true _ _).mp hrun
  cases hd : GetDownloadUrl.execute pdfPorts st.world.files (some "t") 300 "f" with
  | error e => rw [hd] at hout; cases hout
  | ok out =>
    obtain ⟨f, hf, -, hready, hurl, hc, -⟩ :=
      (served_content_is_clean rfl (fun f hf => absurd hf List.not_mem_nil) hst).1 _ _ _ out hd
    exact ⟨st, out, hst, hd, f, hf, hready, hurl, hc⟩

end Neltrik.FileStorage.CleanContent
