import Neltrik.FileStorage.Rows

/-! # Pending files and their scans

A file waits in `PENDING` for a scan that is `CLEAN` or `INFECTED`. The job scans the last version only while
it has no scan, and a scan that ended in an `ERROR` is a scan: it is kept with the version, and every later
job returns before it scans. `decided_iff`: a job on a pending file decides it exactly if no attempt before
has left its error. -/

namespace Neltrik.FileStorage.PendingFiles

open Neltrik.Lib Neltrik.Lib.Machine Neltrik.FileStorage.Domain Neltrik.FileStorage.Persistence
open Neltrik.FileStorage.Validation Neltrik.FileStorage.UseCases Neltrik.FileStorage.System
open Neltrik.FileStorage.Steps Neltrik.FileStorage.Rows

/-! ## Decisions -/

/-- The status of a file whose scan is `CLEAN` or `INFECTED`. -/
def decidedStatus (scan : AntivirusScan) : FileStatus := if scan.isClean then .ready else .infected

/-- The scan says what the file is. -/
def Decisive (scan : AntivirusScan) : Prop := scan.isClean = true ∨ scan.isInfected = true

/-- The stored file has the status the scan decides, and the scan last. -/
def DecidedBy (files : Files) (f : File) (scan : AntivirusScan) : Prop :=
  ∃ g, Files.findById files (some f.tenantId) f.id = some g ∧ g.status = decidedStatus scan ∧
    g.latest.getLatestScan = some scan

/-- The job of the last version. -/
def payloadOfLatest (f : File) : ScanFilePayload :=
  { tenantId := f.tenantId, fileId := f.id, version := f.latest.version }

theorem tidy_of_run {ports : Ports} {st : State} {ls : List Label}
    (hr : run (step ports) emptySystem ls = some st) : Tidy st.world.files :=
  (run_inv (I := Coherent) (fun _ _ _ => Coherent.step) (coherent_of_idle rfl tidy_nil) hr).world

/-! ## The job -/

section Job
variable {s : Store} {f : File} {antivirus : Bytes → AntivirusScan} {buffer : Bytes}

theorem findById_of_tidy (ht : Tidy s.files) (hf : f ∈ s.files) :
    Files.findById s.files (some f.tenantId) f.id = some f :=
  Files.findById_of_mem ht.keyed hf (beq_self_eq_true f.tenantId)

theorem findById_eq (ht : Tidy s.files) (hf : f ∈ s.files) :
    FileRepository.findById (some (payloadOfLatest f).tenantId) (payloadOfLatest f).fileId s = (.ok (some f), s) := by
  show (Except.ok (Files.findById s.files (some f.tenantId) f.id), s) = _
  rw [findById_of_tidy ht hf]

/-- A decisive scan of a pending file is recorded and decides. -/
theorem verdict_of_decisive {scan : AntivirusScan} (hp : f.status = .pending) (hd : Decisive scan) (now : ℕ) :
    ∃ g, ScanFile.verdict f scan now = .ok g ∧ g.toFileProps =
      { f.toFileProps with
        versions := f.versions.dropLast ++ [f.latest.withScan scan], status := decidedStatus scan,
        updatedAt := now } := by
  have hadd : ∃ g₁, f.addScanToLatestVersion scan now = .ok g₁ := by
    unfold File.addScanToLatestVersion
    rw [File.getLatestVersion_eq]
    exact ⟨_, rfl⟩
  obtain ⟨g₁, h₁⟩ := hadd
  have hp₁ := File.addScanToLatestVersion_eq_ok.mp h₁
  have hs₁ : g₁.status = .pending := by rw [hp₁, hp]
  unfold ScanFile.verdict decidedStatus
  rw [h₁]
  by_cases hc : scan.isClean = true
  · have hready : ∃ g, g₁.markReady now = .ok g := by
      unfold File.markReady
      rw [if_neg (not_not.mpr hs₁)]
      exact ⟨_, rfl⟩
    obtain ⟨g, hg⟩ := hready
    refine ⟨g, (if_pos hc).trans hg, ?_⟩
    rw [(File.markReady_eq_ok.mp hg).2, hp₁, if_pos hc]
  · have hinfected : ∃ g, g₁.markInfected now = .ok g := by
      unfold File.markInfected
      rw [if_neg (not_not.mpr hs₁)]
      exact ⟨_, rfl⟩
    obtain ⟨g, hg⟩ := hinfected
    refine ⟨g, (if_neg hc).trans ((if_pos (hd.resolve_left hc)).trans hg), ?_⟩
    rw [(File.markInfected_eq_ok.mp hg).2, hp₁, if_neg hc]

/-- The file that was pending still has its slot, so its row is written. -/
theorem update_of_verdict {g : File} (ht : Tidy s.files) (hf : f ∈ s.files) (hp : f.status = .pending)
    {scan : AntivirusScan} {now : ℕ} (hg : g.toFileProps =
      { f.toFileProps with
        versions := f.versions.dropLast ++ [f.latest.withScan scan], status := decidedStatus scan,
        updatedAt := now }) :
    ∃ files', Files.update s.files g = .ok files' ∧ Files.bump g ∈ files' ∧ Tidy files' := by
  have hid : g.id = f.id := by rw [hg]
  have hversion : g.version = f.version := by rw [hg]
  have hslot : ∀ r ∈ s.files, r.id ≠ g.id → sameSlot r g = false := by
    intro r hr hne
    have hactive : isActive g = isActive f := by
      unfold isActive decidedStatus at *
      rw [hg, hp]
      split_ifs <;> rfl
    have hsame : sameSlot r g = sameSlot r f := by
      unfold sameSlot
      rw [hactive, hg]
    rw [hsame]
    exact ht.slots r hr f hf (hid ▸ hne)
  have hupdate := Files.update_eq_ok.mpr ⟨⟨f, hf, hid.symm, hversion.symm⟩, hslot, rfl⟩
  refine ⟨_, hupdate, ?_, ht.update hupdate⟩
  exact (OptimisticLock.mem_write ⟨f, hf, OptimisticLock.matching_iff.mpr ⟨hid.symm, hversion.symm⟩⟩).mpr (Or.inl rfl)

/-- **A job decides a pending file that has no scan.** -/
theorem decidedBy_of_no_scan (ht : Tidy s.files) (hf : f ∈ s.files) (hp : f.status = .pending)
    (hb : s.storage.download f.latest.storageKey = some buffer) (hd : Decisive (antivirus buffer))
    (hnone : f.latest.scans = []) (now : ℕ) :
    DecidedBy (ScanFile.execute antivirus (payloadOfLatest f) now s).2.files f (antivirus buffer) := by
  obtain ⟨g, hverdict, hg⟩ := verdict_of_decisive hp hd now
  obtain ⟨files', hupdate, hmem, ht'⟩ := update_of_verdict ht hf hp hg
  have hselect : ScanFile.select (some f) (payloadOfLatest f) = .ok (some f) :=
    select_eq_ok.mpr ⟨rfl, rfl, hp, rfl, hnone⟩
  have hexecute : ScanFile.execute antivirus (payloadOfLatest f) now s = (.ok (), { s with files := files' }) := by
    unfold ScanFile.execute
    rw [Effect.bind_of_ok (findById_eq ht hf), hselect]
    have hdownload : FileStoragePort.download f.latest.storageKey s = (.ok buffer, s) := by
      unfold FileStoragePort.download
      rw [Effect.read_bind, hb]
      rfl
    show (FileStoragePort.download f.latest.storageKey >>= fun buffer =>
      Effect.lift (ScanFile.verdict f (antivirus buffer) now) >>= fun file => FileRepository.update file) s = _
    rw [Effect.bind_of_ok hdownload, hverdict]
    show FileRepository.update g s = _
    refine Effect.change_of_ok ?_
    rw [hupdate]
    rfl
  have hid : g.id = f.id := by rw [hg]
  have htenant : g.tenantId = f.tenantId := by rw [hg]
  have hlatest : g.latest = f.latest.withScan (antivirus buffer) :=
    File.latest_eq_of_getLast? (by rw [hg, List.getLast?_concat])
  have hfound : Files.findById files' (some g.tenantId) g.id = some (Files.bump g) :=
    Files.findById_of_mem ht'.keyed hmem (beq_self_eq_true g.tenantId)
  rw [hid, htenant] at hfound
  refine ⟨Files.bump g, by rw [hexecute]; exact hfound, ?_, ?_⟩
  · rw [Files.bump_status, hg]
  · rw [Files.bump_latest, hlatest]
    exact List.getLast?_concat

/-- **A job returns at once where there is a scan.** -/
theorem execute_of_scans (ht : Tidy s.files) (hf : f ∈ s.files) (hp : f.status = .pending)
    (hscans : f.latest.scans ≠ []) (now : ℕ) :
    ScanFile.execute antivirus (payloadOfLatest f) now s = (.ok (), s) := by
  have hselect : ScanFile.select (some f) (payloadOfLatest f) = .ok none := by
    unfold ScanFile.select payloadOfLatest
    simp only [ne_eq, not_true_eq_false, if_false, File.isPending, hp, File.getLatestVersion_eq, hscans]
    rfl
  unfold ScanFile.execute
  rw [Effect.bind_of_ok (findById_eq ht hf), hselect]
  rfl

theorem not_decidedBy_of_scans (ht : Tidy s.files) (hf : f ∈ s.files) (hp : f.status = .pending)
    (hscans : f.latest.scans ≠ []) (scan : AntivirusScan) (now : ℕ) :
    ¬ DecidedBy (ScanFile.execute antivirus (payloadOfLatest f) now s).2.files f scan := by
  rintro ⟨g, hg, hstatus, -⟩
  rw [execute_of_scans ht hf hp hscans, findById_of_tidy ht hf] at hg
  cases hg
  unfold decidedStatus at hstatus
  rw [hp] at hstatus
  split_ifs at hstatus

end Job

/-! ## Reachable files -/

/-- **A pending file is decided by the next answer of the antivirus** exactly if its last version has no scan
yet. -/
theorem decided_iff {ports : Ports} {st : State} {ls : List Label}
    (hr : run (step ports) emptySystem ls = some st) {f : File} (hf : f ∈ st.world.files)
    (hp : f.status = .pending) {antivirus : Bytes → AntivirusScan} {buffer : Bytes}
    (hb : st.world.storage.download f.latest.storageKey = some buffer) (hd : Decisive (antivirus buffer))
    (now : ℕ) :
    DecidedBy (ScanFile.execute antivirus (payloadOfLatest f) now st.world.toStore).2.files f (antivirus buffer) ↔
      f.latest.scans = [] := by
  have ht : Tidy st.world.toStore.files := tidy_of_run hr
  constructor
  · intro hdecided
    by_contra hscans
    exact not_decidedBy_of_scans ht hf hp hscans (antivirus buffer) now hdecided
  · exact fun hnone => decidedBy_of_no_scan ht hf hp hb hd hnone now

/-- The antivirus is down when process `1` scans the file. -/
def errorScan : AntivirusScan :=
  { cleanScan with status := .error, result := some "timeout", result_ok := by decide }

/-- The scan of the file answers with an error. -/
def errorRun : List Label :=
  uploadRun ++ [.start (.scan "file-scan:f:v1"), .act 1 .download, .act 1 (.saveScan errorScan 2)]

/-- A pending file with its binary and nothing but errors. -/
def undecided (scans : ℕ) (st : State) : Bool :=
  st.world.files.any fun f => f.status == .pending && f.latest.scans.length == scans &&
    f.latest.scans.all (·.hasError) && st.world.storage.download f.latest.storageKey == some pdf₁

theorem exists_of_undecided {scans : ℕ} {ls : List Label}
    (h : (run (step pdfPorts) emptySystem ls).any (undecided scans) = true) :
    ∃ st f, run (step pdfPorts) emptySystem ls = some st ∧ f ∈ st.world.files ∧ f.status = .pending ∧
      f.latest.scans.length = scans ∧ (∀ scan ∈ f.latest.scans, scan.hasError = true) ∧
      st.world.storage.download f.latest.storageKey = some pdf₁ := by
  obtain ⟨st, hst, hu⟩ := (Option.any_eq_true _ _).mp h
  obtain ⟨f, hf, hall⟩ := List.any_eq_true.mp hu
  simp only [Bool.and_eq_true, beq_iff_eq, List.all_eq_true] at hall
  obtain ⟨⟨⟨hp, hlength⟩, herror⟩, hb⟩ := hall
  exact ⟨st, f, hst, hf, hp, hlength, herror, hb⟩

/-- The first job decides. -/
theorem decided_iff_uploadRun : ∃ st f, run (step pdfPorts) emptySystem uploadRun = some st ∧
    f ∈ st.world.files ∧ f.status = .pending ∧
    (DecidedBy (ScanFile.execute (fun _ => cleanScan) (payloadOfLatest f) 3 st.world.toStore).2.files f cleanScan ↔
      f.latest.scans = []) ∧ f.latest.scans = [] := by
  obtain ⟨st, f, hst, hf, hp, hlength, -, hb⟩ := exists_of_undecided
    (show (run (step pdfPorts) emptySystem uploadRun).any (undecided 0) = true by decide +kernel)
  exact ⟨st, f, hst, hf, hp, decided_iff hst hf hp hb (Or.inl rfl) 3, List.length_eq_zero_iff.mp hlength⟩

/-- After one attempt that ended in an error no job decides the file, whatever the antivirus answers. -/
theorem undecidable_after_error : ¬ ∀ (ports : Ports) (st : State) (ls : List Label) (f : File)
    (antivirus : Bytes → AntivirusScan) (buffer : Bytes) (now : ℕ),
    run (step ports) emptySystem ls = some st → f ∈ st.world.files → f.status = .pending →
      (∀ scan ∈ f.latest.scans, scan.isClean = false ∧ scan.isInfected = false) →
      st.world.storage.download f.latest.storageKey = some buffer → Decisive (antivirus buffer) →
      DecidedBy (ScanFile.execute antivirus (payloadOfLatest f) now st.world.toStore).2.files f
        (antivirus buffer) := by
  intro h
  obtain ⟨st, f, hst, hf, hp, hlength, herror, hb⟩ := exists_of_undecided
    (show (run (step pdfPorts) emptySystem errorRun).any (undecided 1) = true by decide +kernel)
  have hscans : f.latest.scans ≠ [] := List.ne_nil_of_length_pos (by omega)
  have hnone : ∀ scan ∈ f.latest.scans, scan.isClean = false ∧ scan.isInfected = false := by
    intro scan hscan
    have hstatus : scan.status = .error := beq_iff_eq.mp (herror scan hscan)
    unfold AntivirusScan.isClean AntivirusScan.isInfected
    rw [hstatus]
    exact ⟨rfl, rfl⟩
  have ht : Tidy st.world.toStore.files := tidy_of_run hst
  exact not_decidedBy_of_scans ht hf hp hscans cleanScan 3
    (h pdfPorts st errorRun f (fun _ => cleanScan) pdf₁ 3 hst hf hp hnone hb (Or.inl rfl))

end Neltrik.FileStorage.PendingFiles
