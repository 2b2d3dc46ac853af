import Neltrik.FileStorage.System

/-! # What a step of the system does

`Starts` and `Acts` say once what a start and an action can do, with the guards: `start_starts` and
`act_acts` are the inversion of `System.start` and `System.act`. The invariants of the system are
proved by cases on them. `saveCopy_eq_ok` and `persist_eq_ok` open the two ways the table of the files
changes. -/

namespace Neltrik.FileStorage.Steps

open Neltrik.Lib Neltrik.FileStorage.Domain Neltrik.FileStorage.Persistence
open Neltrik.FileStorage.Validation Neltrik.FileStorage.UseCases Neltrik.FileStorage.System

/-! ## The two ways a file is saved -/

theorem persist_eq_ok {ports : Ports} {w : World} {r : Request} {now : ℕ} {files : Files}
    {quotas : Quotas} : persist ports w r now = .ok (files, quotas) ↔
      ∃ file, r.row ports now = .ok file ∧ r.save w.files file = .ok files ∧
        Quotas.incrementUsedBytes w.quotas r.tenantId r.size now = .ok quotas := by
  unfold persist
  simp only [Effect.except_bind_eq_ok]
  constructor
  · rintro ⟨file, hrow, files', hsave, quotas', hinc, h⟩
    cases h
    exact ⟨file, hrow, hsave, hinc⟩
  · rintro ⟨file, hrow, hsave, hinc⟩
    exact ⟨file, hrow, files, hsave, quotas, hinc, rfl⟩

/-- The world after the saved copy: only a delete touches the counter. -/
theorem saveCopy_eq_ok {w w' : World} {copy : File} {edit : Edit} {now : ℕ}
    (h : saveCopy w copy edit now = .ok w') : ∃ file files, edit.apply copy now = .ok file ∧
      Files.update w.files file = .ok files ∧
      (w' = { w with files } ∨
        edit = .delete ∧ ∃ quotas,
          Quotas.decrementUsedBytes w.quotas file.tenantId file.getTotalSize now = .ok quotas ∧
          w' = { w with
            files, quotas
            moved := Function.update w.moved file.tenantId
              (w.moved file.tenantId - file.getTotalSize) }) := by
  unfold saveCopy at h
  obtain ⟨file, hfile, h⟩ := Effect.except_bind_eq_ok.mp h
  obtain ⟨files, hfiles, h⟩ := Effect.except_bind_eq_ok.mp h
  refine ⟨file, files, hfile, hfiles, ?_⟩
  cases edit with
  | delete =>
    obtain ⟨quotas, hq, h⟩ := Effect.except_bind_eq_ok.mp h
    cases h
    exact Or.inr ⟨rfl, quotas, hq, rfl⟩
  | rename | changeResource | scan | rescan | orphan => cases h; exact Or.inl rfl

theorem saveCopy_not_delete {w w' : World} {copy : File} {edit : Edit} {now : ℕ}
    (h : saveCopy w copy edit now = .ok w') (he : edit ≠ .delete) : ∃ file files, edit.apply copy now = .ok file ∧
      Files.update w.files file = .ok files ∧ w' = { w with files } := by
  obtain ⟨file, files, hfile, hfiles, hw | ⟨rfl, -⟩⟩ := saveCopy_eq_ok h
  · exact ⟨file, files, hfile, hfiles, hw⟩
  · exact absurd rfl he

/-! ## Starts -/

/-- What a start does: the world after it and the new process. -/
inductive Starts (ports : Ports) (w : World) : Start → World → Proc → Prop where
  | upload {input fileId} (h : UploadFile.ensureUploadable ports w.files input = .ok ()) :
      Starts ports w (.upload input fileId) w (.validated (.upload input fileId))
  | replace {scope input file} (h : ReplaceFile.ensureReplaceable ports w.files scope input = .ok file) :
      Starts ports w (.replace scope input) w (.checked (.replace input file))
  | rename {scope fileId newName file} (h : Files.findById w.files scope fileId = some file) :
      Starts ports w (.rename scope fileId newName) w (.editing file (.rename newName))
  | changeResource {scope fileId resourceType resourceId file}
      (h : Files.findById w.files scope fileId = some file) :
      Starts ports w (.changeResource scope fileId resourceType resourceId) w
        (.resourcing file resourceType resourceId)
  | delete {scope fileId file} (h : Files.findById w.files scope fileId = some file) :
      Starts ports w (.delete scope fileId) w (.editing file .delete)
  | scanThrows {jobId job e} (hj : job ∈ w.jobs) (hid : job.jobId = jobId) (hw : job.state = .waiting)
      (h : ScanFile.select (Files.findById w.files (some job.payload.tenantId) job.payload.fileId)
        job.payload = .error e) :
      Starts ports w (.scan jobId) { w with jobs := w.jobs.modify jobId ScanJob.failAttempt } .finished
  | scanReturns {jobId job} (hj : job ∈ w.jobs) (hid : job.jobId = jobId) (hw : job.state = .waiting)
      (h : ScanFile.select (Files.findById w.files (some job.payload.tenantId) job.payload.fileId)
        job.payload = .ok none) :
      Starts ports w (.scan jobId) { w with jobs := w.jobs.modify jobId ScanJob.complete } .finished
  | scan {jobId job file} (hj : job ∈ w.jobs) (hid : job.jobId = jobId) (hw : job.state = .waiting)
      (h : ScanFile.select (Files.findById w.files (some job.payload.tenantId) job.payload.fileId)
        job.payload = .ok (some file)) :
      Starts ports w (.scan jobId) { w with jobs := w.jobs.modify jobId ScanJob.activate }
        (.scanning jobId file none)
  | rescan {tenantId before} : Starts ports w (.rescan tenantId before) w
      (.rescanning (Files.findReadyForRescan w.files tenantId before) none)
  | reconcile {tenantId} : Starts ports w (.reconcile tenantId) w
      (.listing tenantId (Files.findAllByTenant w.files tenantId) false)
  | purge {tenantId before} : Starts ports w (.purge tenantId before) w
      (.listing tenantId (Files.findDeletedBefore w.files tenantId before) true)
  | adjust {tenantId newLimitBytes quota} (h : w.quotas tenantId = some quota) :
      Starts ports w (.adjust tenantId newLimitBytes) w
        (.adjusting quota newLimitBytes (w.moved tenantId))

theorem openFile_eq_some {w w' : World} {scope : Option String} {fileId : String} {p : File → Proc}
    {p' : Proc} (h : openFile w scope fileId p = some (w', p')) :
    ∃ file, Files.findById w.files scope fileId = some file ∧ w' = w ∧ p' = p file := by
  obtain ⟨file, hf, he⟩ := Option.map_eq_some_iff.mp h
  cases he
  exact ⟨file, hf, rfl, rfl⟩

theorem start_starts {ports : Ports} {w w' : World} {s : Start} {p : Proc}
    (h : start ports w s = some (w', p)) : Starts ports w s w' p := by
  cases s with
  | upload input fileId =>
    simp only [start] at h
    split at h
    · cases h; exact .upload ‹_›
    · cases h
  | replace scope input =>
    simp only [start] at h
    split at h
    · cases h; exact .replace ‹_›
    · cases h
  | rename scope fileId newName =>
    obtain ⟨file, hf, rfl, rfl⟩ := openFile_eq_some h
    exact .rename hf
  | changeResource scope fileId resourceType resourceId =>
    obtain ⟨file, hf, rfl, rfl⟩ := openFile_eq_some h
    exact .changeResource hf
  | delete scope fileId =>
    obtain ⟨file, hf, rfl, rfl⟩ := openFile_eq_some h
    exact .delete hf
  | scan jobId =>
    obtain ⟨job, hj, he⟩ := Option.map_eq_some_iff.mp h
    have hm := List.mem_of_find?_eq_some hj
    have hc : job.jobId = jobId ∧ job.state = .waiting := by
      simpa using List.find?_some hj
    dsimp only at he
    split at he
    · cases he; exact .scanThrows hm hc.1 hc.2 ‹_›
    · cases he; exact .scanReturns hm hc.1 hc.2 ‹_›
    · cases he; exact .scan hm hc.1 hc.2 ‹_›
  | rescan tenantId before => cases h; exact .rescan
  | reconcile tenantId => cases h; exact .reconcile
  | purge tenantId before => cases h; exact .purge
  | adjust tenantId newLimitBytes =>
    obtain ⟨quota, hq, he⟩ := Option.map_eq_some_iff.mp h
    cases he
    exact .adjust hq

/-! ## Actions -/

/-- What an action does: the world after it and the process after it. -/
inductive Acts (ports : Ports) (procs : List Proc) (w : World) :
    Proc → Action → World → Proc → Prop where
  | createQuota {r quotaId now quotas}
      (h : Quotas.createOrGet w.quotas quotaId r.tenantId now = .ok quotas) :
      Acts ports procs w (.validated r) (.createQuota quotaId now) { w with quotas } (.checked r)
  | accept {r quota} (hq : w.quotas r.tenantId = some quota) (h : quota.canAccommodate r.size = true) :
      Acts ports procs w (.checked r) .verifyQuota w
        (.admitted r ⟨quota.usedBytes, quota.limitBytes, w.moved r.tenantId⟩)
  | refuse {r quota} (hq : w.quotas r.tenantId = some quota)
      (h : quota.canAccommodate r.size = false) :
      Acts ports procs w (.checked r) .verifyQuota w .finished
  | upload {r check} : Acts ports procs w (.admitted r check) .upload
      { w with storage := w.storage.upload r.key r.buffer } (.uploaded r check)
  | write {r check now files quotas} (h : persist ports w r now = .ok (files, quotas))
      (hl : (r.row ports now).toOption.any (locked ports procs) = false) :
      Acts ports procs w (.uploaded r check) (.write now) w (.written r check now)
  | writeFails {r check now e} (h : persist ports w r now = .error e) :
      Acts ports procs w (.uploaded r check) (.write now) w (.aborted r)
  | enqueue {r check now} : Acts ports procs w (.written r check now) .enqueue
      { w with jobs := w.jobs.enqueue (buildFileScanJobId r.fileId r.version) r.payload }
      (.enqueued r check now)
  | commit {r check now files quotas} (h : persist ports w r now = .ok (files, quotas)) :
      Acts ports procs w (.enqueued r check now) .commit
        { w with
          files, quotas
          moved := Function.update w.moved r.tenantId (w.moved r.tenantId + r.size)
          origins := Function.update w.origins r.fileId
            (Function.update (w.origins r.fileId) r.version (some r.buffer)) }
        .finished
  | abort {p r} (hp : p.pending = some r) : Acts ports procs w p .abort w (.aborted r)
  | compensate {r} : Acts ports procs w (.aborted r) (.compensate true)
      { w with storage := w.storage.delete r.key } .finished
  | compensationFails {r} : Acts ports procs w (.aborted r) (.compensate false) w .finished
  | resourceTaken {copy resourceType resourceId} :
      Acts ports procs w (.resourcing copy resourceType resourceId) .checkResource w .finished
  | resourceFree {copy resourceType resourceId} :
      Acts ports procs w (.resourcing copy resourceType resourceId) .checkResource w
        (.editing copy (.changeResource resourceType resourceId))
  | saveEdit {copy edit now w'} (h : saveCopy w copy edit now = .ok w') :
      Acts ports procs w (.editing copy edit) (.saveEdit now) w' .finished
  | editFails {copy edit now} : Acts ports procs w (.editing copy edit) (.saveEdit now) w .finished
  | downloadScan {jobId copy b} (h : w.storage.download copy.latest.storageKey = some b) :
      Acts ports procs w (.scanning jobId copy none) .download w (.scanning jobId copy (some b))
  | downloadRescan {copy todo b} (h : w.storage.download copy.latest.storageKey = some b) :
      Acts ports procs w (.rescanning (copy :: todo) none) .download w
        (.rescanning (copy :: todo) (some b))
  | saveScan {jobId copy b answer now w'} (h : saveCopy w copy (.scan answer) now = .ok w') :
      Acts ports procs w (.scanning jobId copy (some b)) (.saveScan answer now)
        { w' with jobs := w'.jobs.modify jobId ScanJob.complete } .finished
  | scanFails {jobId copy b answer now e} (h : saveCopy w copy (.scan answer) now = .error e) :
      Acts ports procs w (.scanning jobId copy (some b)) (.saveScan answer now)
        { w with jobs := w.jobs.modify jobId ScanJob.failAttempt } .finished
  | failScan {jobId copy buffer} : Acts ports procs w (.scanning jobId copy buffer) .failScan
      { w with jobs := w.jobs.modify jobId ScanJob.failAttempt } .finished
  | saveRescan {copy todo b answer now w'} (h : saveCopy w copy (.rescan answer) now = .ok w') :
      Acts ports procs w (.rescanning (copy :: todo) (some b)) (.saveRescan answer now) w'
        (.rescanning todo none)
  | rescanFails {copy todo b answer now} :
      Acts ports procs w (.rescanning (copy :: todo) (some b)) (.saveRescan answer now) w .finished
  | listPurge {tenantId files} : Acts ports procs w (.listing tenantId files true) .listStorage w
      (.sweeping (PurgeDeletedFiles.purgedKeys files (w.storage.list (tenantPrefix tenantId))) [])
  | listReconcile {tenantId files} :
      Acts ports procs w (.listing tenantId files false) .listStorage w
        (.sweeping
          (ReconcileStorage.orphanBinaries files (w.storage.list (tenantPrefix tenantId)))
          (ReconcileStorage.orphanFiles files (w.storage.list (tenantPrefix tenantId))))
  | sweep {key keys orphans} : Acts ports procs w (.sweeping (key :: keys) orphans) .sweep
      { w with storage := w.storage.delete key } (.sweeping keys orphans)
  | markOrphan {copy orphans now w'} (h : saveCopy w copy .orphan now = .ok w') :
      Acts ports procs w (.sweeping [] (copy :: orphans)) (.markOrphan now) w' (.sweeping [] orphans)
  | markFails {copy orphans now} :
      Acts ports procs w (.sweeping [] (copy :: orphans)) (.markOrphan now) w .finished
  | saveLimit {copy newLimitBytes moved now quota quotas}
      (ha : AdjustQuotaLimit.adjusted copy newLimitBytes now = .ok quota)
      (hu : Quotas.update w.quotas quota = .ok quotas) :
      Acts ports procs w (.adjusting copy newLimitBytes moved) (.saveLimit now) { w with quotas }
        .finished
  | limitFails {copy newLimitBytes moved now e}
      (h : (AdjustQuotaLimit.adjusted copy newLimitBytes now).bind (Quotas.update w.quotas) = .error e) :
      Acts ports procs w (.adjusting copy newLimitBytes moved) (.saveLimit now) w .finished

/-- A save that went through, or one that failed. -/
theorem saveUnlocked_eq_some {ports : Ports} {procs : List Proc} {w w' : World} {copy : File}
    {edit : Edit} {now : ℕ} {done : World → World × Proc} {failed : World × Proc} {p' : Proc}
    (h : saveUnlocked ports procs w copy edit now done failed = some (w', p')) :
    (∃ w₁, saveCopy w copy edit now = .ok w₁ ∧ done w₁ = (w', p')) ∨
      ((∃ e, saveCopy w copy edit now = .error e) ∧ failed = (w', p')) := by
  unfold saveUnlocked at h
  split at h
  · split at h
    · cases h
    · exact Or.inl ⟨_, ‹_›, Option.some.inj h⟩
  · exact Or.inr ⟨⟨_, ‹_›⟩, Option.some.inj h⟩

theorem act_acts {ports : Ports} {procs : List Proc} {w w' : World} {p p' : Proc} {a : Action}
    (h : act ports procs w p a = some (w', p')) : Acts ports procs w p a w' p' := by
  cases a with
  | createQuota quotaId now =>
    cases p with
    | validated r =>
      simp only [act, createQuota] at h
      split at h
      · cases h; exact .createQuota ‹_›
      · cases h
    | _ => cases h
  | verifyQuota =>
    cases p with
    | checked r =>
      obtain ⟨quota, hq, he⟩ := Option.map_eq_some_iff.mp h
      split at he
      · cases he; exact .accept hq ‹_›
      · cases he; exact .refuse hq (Bool.eq_false_of_not_eq_true ‹_›)
    | _ => cases h
  | upload =>
    cases p with
    | admitted r check =>
      cases h; exact .upload
    | _ => cases h
  | write now =>
    cases p with
    | uploaded r check =>
      simp only [act, write] at h
      split at h
      · split at h
        · cases h
        · cases h; exact .write ‹_› (Bool.eq_false_of_not_eq_true ‹_›)
      · cases h; exact .writeFails ‹_›
    | _ => cases h
  | enqueue =>
    cases p with
    | written r check now =>
      cases h; exact .enqueue
    | _ => cases h
  | commit =>
    cases p with
    | enqueued r check now =>
      simp only [act, commit] at h
      split at h
      · cases h; exact .commit ‹_›
      · cases h
    | _ => cases h
  | abort =>
    obtain ⟨r, hr, he⟩ := Option.map_eq_some_iff.mp h
    cases he; exact .abort hr
  | compensate succeeds =>
    cases p with
    | aborted r =>
      cases succeeds with
      | true => cases h; exact .compensate
      | false => cases h; exact .compensationFails
    | _ => cases h
  | checkResource =>
    cases p with
    | resourcing copy resourceType resourceId =>
      simp only [act, checkResource] at h
      split at h
      · cases h; exact .resourceTaken
      · cases h; exact .resourceFree
    | _ => cases h
  | saveEdit now =>
    cases p with
    | editing copy edit =>
      rcases saveUnlocked_eq_some h with ⟨w₁, hs, he⟩ | ⟨-, he⟩
      · cases he; exact .saveEdit hs
      · cases he; exact .editFails
    | _ => cases h
  | download =>
    cases p with
    | scanning jobId copy buffer =>
      cases buffer <;> try cases h
      obtain ⟨b, hb, he⟩ := Option.map_eq_some_iff.mp h
      cases he; exact .downloadScan hb
    | rescanning todo buffer =>
      cases todo <;> cases buffer <;> try cases h
      obtain ⟨b, hb, he⟩ := Option.map_eq_some_iff.mp h
      cases he; exact .downloadRescan hb
    | _ => cases h
  | saveScan answer now =>
    cases p with
    | scanning jobId copy buffer =>
      cases buffer <;> try cases h
      rcases saveUnlocked_eq_some h with ⟨w₁, hs, he⟩ | ⟨⟨e, hs⟩, he⟩
      · cases he; exact .saveScan hs
      · cases he; exact .scanFails hs
    | _ => cases h
  | failScan =>
    cases p with
    | scanning jobId copy buffer =>
      cases h; exact .failScan
    | _ => cases h
  | saveRescan answer now =>
    cases p with
    | rescanning todo buffer =>
      cases todo <;> cases buffer <;> try cases h
      rcases saveUnlocked_eq_some h with ⟨w₁, hs, he⟩ | ⟨-, he⟩
      · cases he; exact .saveRescan hs
      · cases he; exact .rescanFails
    | _ => cases h
  | listStorage =>
    cases p with
    | listing tenantId files purge =>
      cases purge with
      | true => cases h; exact .listPurge
      | false => cases h; exact .listReconcile
    | _ => cases h
  | sweep =>
    cases p with
    | sweeping keys orphans =>
      cases keys with
      | nil => cases h
      | cons key keys => cases h; exact .sweep
    | _ => cases h
  | markOrphan now =>
    cases p with
    | sweeping keys orphans =>
      cases keys <;> cases orphans <;> try cases h
      rcases saveUnlocked_eq_some h with ⟨w₁, hs, he⟩ | ⟨-, he⟩
      · cases he; exact .markOrphan hs
      · cases he; exact .markFails
    | _ => cases h
  | saveLimit now =>
    cases p with
    | adjusting copy newLimitBytes moved =>
      simp only [act, saveLimit] at h
      split at h
      · rename_i quotas hq
        cases h
        obtain ⟨quota, ha, hu⟩ := Effect.except_bind_eq_ok.mp hq
        exact .saveLimit ha hu
      · cases h; exact .limitFails ‹_›
    | _ => cases h

end Neltrik.FileStorage.Steps
