import Neltrik.FileStorage.Tenants

/-! # Steps in the part of a tenant

A step for a tenant is the same step in its part (`start_part`, `act_part`), a step for another tenant leaves
the part as it is (`start_other`, `act_other`). -/

namespace Neltrik.FileStorage.TenantSteps

open Neltrik.Lib Neltrik.Lib.Machine Neltrik.Lib.Table Neltrik.Lib.Restrict Neltrik.Lib.Parts
open Neltrik.FileStorage.Domain Neltrik.FileStorage.Persistence Neltrik.FileStorage.Validation
open Neltrik.FileStorage.UseCases Neltrik.FileStorage.System Neltrik.FileStorage.Steps Neltrik.FileStorage.Rows
open Neltrik.FileStorage.TenantParts Neltrik.FileStorage.Tenants

variable {T : String → String} {t k : String} {ports : Ports} {w w' : World} {procs : List (String × Proc)}

/-! ## Steps of the tenant -/


/-- The step in the part is the step. -/
abbrev inPart (T : String → String) (t : String) (x : World × Proc) : World × Proc := (part T t x.1, x.2)

theorem part_persist (h : Placed T w) (ht : OneName t) {r : Request} (hr : RequestOf T t r) (now : ℕ) :
    persist ports (part T t w) r now =
      (persist ports w r now).map fun x => (partFiles t x.1, partQuotas t x.2) := by
  unfold persist
  cases hrow : r.row ports now with
  | error e => rfl
  | ok g =>
    have hcopy := copyOf_requested ht hr (requested_of_row hrow)
    have hsave : r.save (part T t w).files g = (r.save w.files g).map (partFiles t) := by
      obtain ⟨hof, rfl⟩ := hcopy
      cases r with
      | upload => exact partFiles_create h.files hof.owner
      | replace => exact partFiles_update h.files hof.owner
    have hquotas : Quotas.incrementUsedBytes (part T t w).quotas r.tenantId r.size now =
        (Quotas.incrementUsedBytes w.quotas r.tenantId r.size now).map (partQuotas t) := by
      rw [hr.1]
      exact partQuotas_incrementUsedBytes r.size now
    simp only [bind, Except.bind, hsave, hquotas]
    cases r.save w.files g with
    | error e => rfl
    | ok files =>
      cases Quotas.incrementUsedBytes w.quotas r.tenantId r.size now with
      | error e => rfl
      | ok quotas => rfl

/-- Only the locks of the tenant's processes stand in the way of a file. -/
theorem part_locked (ports : Ports) (hprocs : ∀ q ∈ procs, Owns T q) {g : File} (hg : CopyOf T t g) :
    locked ports (procsOf t procs) g = locked ports (procs.map Prod.snd) g := by
  unfold locked procsOf
  rw [List.any_map, List.any_map]
  refine any_filter_of_imp fun q hq hlock => beq_iff_eq.mpr ?_
  obtain ⟨row, hrow, hconflict⟩ := (Option.any_eq_true _ _).mp hlock
  have hcopy : CopyOf T q.1 row := by
    obtain ⟨hname, hholds⟩ := hprocs q hq
    obtain ⟨s, p⟩ := q
    cases p with
    | written | enqueued =>
      exact copyOf_requested hname hholds (requested_of_row (Effect.toOption_eq_some.mp hrow))
    | _ => cases hrow
  rcases Bool.or_eq_true_iff.mp hconflict with hid | hslot
  · rw [← hcopy.2, ← hcopy.1.owner, beq_iff_eq.mp hid, hg.1.owner, hg.2]
  · rw [← hcopy.2, tenant_of_sameSlot hslot, hg.2]

theorem part_saveCopy (h : Placed T w) {copy : File} (hc : CopyOf T t copy) (edit : Edit) (now : ℕ) :
    saveCopy (part T t w) copy edit now = (saveCopy w copy edit now).map (part T t) := by
  unfold saveCopy
  cases hg : edit.apply copy now with
  | error e => rfl
  | ok g =>
    obtain ⟨hof, ht⟩ := copyOf_edited hc (edited_of_apply hg)
    have hfiles : Files.update (part T t w).files g = (Files.update w.files g).map (partFiles t) := by
      rw [← ht]
      exact partFiles_update h.files hof.owner
    have hquotas : Quotas.decrementUsedBytes (part T t w).quotas g.tenantId g.getTotalSize now =
        (Quotas.decrementUsedBytes w.quotas g.tenantId g.getTotalSize now).map (partQuotas t) := by
      rw [ht]
      exact partQuotas_decrementUsedBytes g.getTotalSize now
    simp only [bind, Except.bind, hfiles, hquotas]
    cases Files.update w.files g with
    | error e => rfl
    | ok files =>
      cases edit with
      | delete =>
        cases Quotas.decrementUsedBytes w.quotas g.tenantId g.getTotalSize now with
        | error e => rfl
        | ok quotas =>
          subst ht
          refine congrArg Except.ok ?_
          simp only [part, keep_of_pos, keep_update (p := (· = g.tenantId)) rfl]
      | rename | changeResource | scan | rescan | orphan => rfl

theorem part_saveUnlocked (h : Placed T w) (hprocs : ∀ q ∈ procs, Owns T q) {copy : File} (hc : CopyOf T t copy)
    (edit : Edit) (now : ℕ) {done done' : World → World × Proc} {failed failed' : World × Proc}
    (hdone : ∀ w', saveCopy w copy edit now = .ok w' → done' (part T t w') = inPart T t (done w'))
    (hfailed : failed' = inPart T t failed) :
    saveUnlocked ports (procsOf t procs) (part T t w) copy edit now done' failed' =
      (saveUnlocked ports (procs.map Prod.snd) w copy edit now done failed).map (inPart T t) := by
  unfold saveUnlocked
  rw [part_saveCopy h hc]
  cases hs : saveCopy w copy edit now with
  | error e => exact congrArg some hfailed
  | ok w' =>
    obtain ⟨g, -, hg, -, -⟩ := saveCopy_eq_ok hs
    have hlocked := part_locked ports hprocs (copyOf_edited hc (edited_of_apply hg))
    simp only [Except.map, hg, Except.toOption, Option.any_some, hlocked]
    split_ifs
    · rfl
    · exact congrArg some (hdone w' hs)

/-- A request, up to its transaction. -/
theorem part_createQuota (quotaId : String) (now : ℕ) {p : Proc} (hp : Owns T (t, p)) :
    createQuota (part T t w) quotaId now p = (createQuota w quotaId now p).map (inPart T t) := by
  cases p with
  | validated r =>
    obtain ⟨-, rfl, -⟩ := hp
    have hquotas : Quotas.createOrGet (part T r.tenantId w).quotas quotaId r.tenantId now =
        (Quotas.createOrGet w.quotas quotaId r.tenantId now).map (partQuotas r.tenantId) :=
      partQuotas_createOrGet quotaId now
    unfold createQuota
    dsimp only
    rw [hquotas]
    cases Quotas.createOrGet w.quotas quotaId r.tenantId now with
    | error e => rfl
    | ok quotas => rfl
  | _ => rfl

theorem part_verifyQuota {p : Proc} (hp : Owns T (t, p)) :
    verifyQuota (part T t w) p = (verifyQuota w p).map (inPart T t) := by
  cases p with
  | checked r =>
    obtain ⟨-, rfl, -⟩ := hp
    have hquota : (part T r.tenantId w).quotas r.tenantId = w.quotas r.tenantId := partQuotas_self
    have hmoved : (part T r.tenantId w).moved r.tenantId = w.moved r.tenantId := keep_of_pos (p := (· = r.tenantId)) rfl
    unfold verifyQuota
    dsimp only
    rw [hquota, hmoved]
    cases w.quotas r.tenantId with
    | none => rfl
    | some quota =>
      simp only [Option.map_some]
      split_ifs
      · rfl
      · rfl
  | _ => rfl

theorem part_upload {p : Proc} (hp : Owns T (t, p)) : upload (part T t w) p = (upload w p).map (inPart T t) := by
  cases p with
  | admitted r check =>
    obtain ⟨-, rfl, -⟩ := hp
    have hstorage := partStorage_upload w.storage (under_key r) r.buffer
    refine congrArg some ?_
    simp only [inPart, part, hstorage]
  | _ => rfl

theorem part_write (h : Placed T w) (hprocs : ∀ q ∈ procs, Owns T q) (now : ℕ) {p : Proc} (hp : Owns T (t, p)) :
    write ports (procsOf t procs) (part T t w) now p =
      (write ports (procs.map Prod.snd) w now p).map (inPart T t) := by
  cases p with
  | uploaded r check =>
    obtain ⟨hname, hr⟩ := hp
    unfold write
    dsimp only
    rw [part_persist h hname hr]
    cases hpersist : persist ports w r now with
    | error e => rfl
    | ok x =>
      obtain ⟨g, hrow, -⟩ := persist_eq_ok.mp hpersist
      have hlocked := part_locked ports hprocs (copyOf_requested hname hr (requested_of_row hrow))
      simp only [Except.map, hrow, Except.toOption, Option.any_some, hlocked]
      split_ifs
      · rfl
      · rfl
  | _ => rfl

theorem part_enqueue (h : Placed T w) {p : Proc} (hp : Owns T (t, p)) :
    enqueue (part T t w) p = (enqueue w p).map (inPart T t) := by
  cases p with
  | written r check now =>
    obtain ⟨-, rfl, hid, -⟩ := hp
    have hjob : JobOf T r.payload.tenantId (buildFileScanJobId r.fileId r.version) := ⟨r.fileId, r.version, rfl, hid⟩
    have hjobs : partJobs r.tenantId (w.jobs.enqueue (buildFileScanJobId r.fileId r.version) r.payload) =
        (partJobs r.tenantId w.jobs).enqueue (buildFileScanJobId r.fileId r.version) r.payload :=
      partJobs_enqueue h.jobs hjob
    refine congrArg some ?_
    simp only [inPart, part, hjobs]
  | _ => rfl

theorem part_commit (h : Placed T w) {p : Proc} (hp : Owns T (t, p)) :
    commit ports (part T t w) p = (commit ports w p).map (inPart T t) := by
  cases p with
  | enqueued r check now =>
    obtain ⟨hname, hr⟩ := hp
    unfold commit
    dsimp only
    rw [part_persist h hname hr]
    cases persist ports w r now with
    | error e => rfl
    | ok x =>
      obtain ⟨rfl, hid, -⟩ := hr
      refine congrArg some ?_
      simp only [inPart, part, keep_of_pos, keep_update (p := (· = r.tenantId)) rfl,
        keep_update (p := (T · = r.tenantId)) hid, keep_of_pos (p := (T · = r.tenantId)) hid]
  | _ => rfl

theorem part_abort (p : Proc) : abort (part T t w) p = (abort w p).map (inPart T t) := by
  unfold abort
  rw [Option.map_map]
  rfl

theorem part_compensate (succeeds : Bool) (p : Proc) :
    compensate (part T t w) succeeds p = (compensate w succeeds p).map (inPart T t) := by
  cases p with
  | aborted r =>
    refine congrArg some ?_
    cases succeeds with
    | false => rfl
    | true =>
      have hstorage := partStorage_delete w.storage t r.key
      simp only [inPart, part, if_true, hstorage]
  | _ => rfl

/-- A change of one file. -/
theorem part_checkResource {p : Proc} (hp : Owns T (t, p)) :
    checkResource (part T t w) p = (checkResource w p).map (inPart T t) := by
  cases p with
  | resourcing copy resourceType resourceId =>
    obtain ⟨-, -, rfl⟩ := hp
    have htaken : ChangeFileResource.taken (part T copy.tenantId w).files copy resourceType resourceId =
        ChangeFileResource.taken w.files copy resourceType resourceId := by
      unfold ChangeFileResource.taken
      exact congrArg (Option.any (·.id != copy.id)) (partFiles_findByResourceAndPurpose resourceType resourceId copy.purpose)
    unfold checkResource
    dsimp only
    rw [htaken]
    split_ifs
    · rfl
    · rfl
  | _ => rfl

theorem part_saveEdit (h : Placed T w) (hprocs : ∀ q ∈ procs, Owns T q) (now : ℕ) {p : Proc} (hp : Owns T (t, p)) :
    saveEdit ports (procsOf t procs) (part T t w) now p =
      (saveEdit ports (procs.map Prod.snd) w now p).map (inPart T t) := by
  cases p with
  | editing copy edit => exact part_saveUnlocked h hprocs hp.2 edit now (fun _ _ => rfl) rfl
  | _ => rfl

/-- A scan, and a rescan. -/
theorem part_download {p : Proc} (hp : Owns T (t, p)) : download (part T t w) p = (download w p).map (inPart T t) := by
  have hdownload : ∀ copy, CopyOf T t copy → (part T t w).storage.download copy.latest.storageKey =
      w.storage.download copy.latest.storageKey := by
    rintro copy ⟨hof, rfl⟩
    exact partStorage_download w.storage hof.latest
  cases p with
  | scanning jobId copy buffer =>
    cases buffer with
    | some => rfl
    | none =>
      unfold download
      dsimp only
      rw [hdownload copy hp.2.2, Option.map_map]
      rfl
  | rescanning todo buffer =>
    cases todo with
    | nil => rfl
    | cons copy todo =>
      cases buffer with
      | some => rfl
      | none =>
        unfold download
        dsimp only
        rw [hdownload copy (hp.2 copy List.mem_cons_self), Option.map_map]
        rfl
  | _ => rfl

theorem part_modify (jobId : String) {g : ScanJob → ScanJob} (hg : ∀ job, (g job).payload = job.payload) :
    { part T t w with jobs := (part T t w).jobs.modify jobId g } =
      part T t { w with jobs := w.jobs.modify jobId g } := by
  have hjobs := partJobs_modify t w.jobs jobId hg
  simp only [part, hjobs]

theorem part_saveScan (h : Placed T w) (hprocs : ∀ q ∈ procs, Owns T q) (scan : AntivirusScan) (now : ℕ) {p : Proc}
    (hp : Owns T (t, p)) :
    saveScan ports (procsOf t procs) (part T t w) scan now p =
      (saveScan ports (procs.map Prod.snd) w scan now p).map (inPart T t) := by
  cases p with
  | scanning jobId copy buffer =>
    cases buffer with
    | none => rfl
    | some =>
      refine part_saveUnlocked h hprocs hp.2.2 (.scan scan) now (fun w' _ => ?_) ?_
      · exact congrArg (·, Proc.finished) (part_modify jobId fun _ => rfl)
      · exact congrArg (·, Proc.finished) (part_modify jobId fun _ => rfl)
  | _ => rfl

theorem part_failScan (p : Proc) : failScan (part T t w) p = (failScan w p).map (inPart T t) := by
  cases p with
  | scanning jobId => exact congrArg (fun w => some (w, Proc.finished)) (part_modify jobId fun _ => rfl)
  | _ => rfl

theorem part_saveRescan (h : Placed T w) (hprocs : ∀ q ∈ procs, Owns T q) (scan : AntivirusScan) (now : ℕ) {p : Proc}
    (hp : Owns T (t, p)) :
    saveRescan ports (procsOf t procs) (part T t w) scan now p =
      (saveRescan ports (procs.map Prod.snd) w scan now p).map (inPart T t) := by
  cases p with
  | rescanning todo buffer =>
    cases todo with
    | nil => rfl
    | cons copy todo =>
      cases buffer with
      | none => rfl
      | some => exact part_saveUnlocked h hprocs (hp.2 copy List.mem_cons_self) (.rescan scan) now (fun _ _ => rfl) rfl
  | _ => rfl

/-- A reconcile, and a purge. -/
theorem part_listStorage {p : Proc} (hp : Owns T (t, p)) :
    listStorage (part T t w) p = (listStorage w p).map (inPart T t) := by
  cases p with
  | listing tenantId files purge =>
    obtain ⟨-, rfl, -⟩ := hp
    have hlist : (part T tenantId w).storage.list (tenantPrefix tenantId) = w.storage.list (tenantPrefix tenantId) :=
      partStorage_list w.storage
    unfold listStorage
    dsimp only
    rw [hlist]
    split_ifs
    · rfl
    · rfl
  | _ => rfl

theorem part_sweep (p : Proc) : sweep (part T t w) p = (sweep w p).map (inPart T t) := by
  cases p with
  | sweeping keys orphans =>
    cases keys with
    | nil => rfl
    | cons key keys =>
      have hstorage := partStorage_delete w.storage t key
      refine congrArg some ?_
      simp only [inPart, part, hstorage]
  | _ => rfl

theorem part_markOrphan (h : Placed T w) (hprocs : ∀ q ∈ procs, Owns T q) (now : ℕ) {p : Proc} (hp : Owns T (t, p)) :
    markOrphan ports (procsOf t procs) (part T t w) now p =
      (markOrphan ports (procs.map Prod.snd) w now p).map (inPart T t) := by
  cases p with
  | sweeping keys orphans =>
    cases keys with
    | cons => rfl
    | nil =>
      cases orphans with
      | nil => rfl
      | cons copy orphans =>
        exact part_saveUnlocked h hprocs (hp.2.2 copy List.mem_cons_self) .orphan now (fun _ _ => rfl) rfl
  | _ => rfl

/-- The limit of the quota. -/
theorem part_saveLimit (now : ℕ) {p : Proc} (hp : Owns T (t, p)) :
    saveLimit (part T t w) now p = (saveLimit w now p).map (inPart T t) := by
  cases p with
  | adjusting copy newLimitBytes moved =>
    obtain ⟨-, rfl⟩ := hp
    unfold saveLimit
    dsimp only
    cases hadjusted : AdjustQuotaLimit.adjusted copy newLimitBytes now with
    | error e => rfl
    | ok quota =>
      obtain ⟨-, -, ht, -⟩ := AdjustQuotaLimit.adjusted_eq_ok hadjusted
      have hquotas : Quotas.update (part T copy.tenantId w).quotas quota =
          (Quotas.update w.quotas quota).map (partQuotas copy.tenantId) := by
        rw [← ht]
        exact partQuotas_update quota
      simp only [Except.bind, hquotas]
      cases Quotas.update w.quotas quota with
      | error e => rfl
      | ok quotas => rfl
  | _ => rfl

/-- **An action for the tenant is the action in its part.** -/
theorem act_part (h : Placed T w) (hprocs : ∀ q ∈ procs, Owns T q) {p : Proc} (hp : Owns T (t, p)) (a : Action) :
    act ports (procsOf t procs) (part T t w) p a = (act ports (procs.map Prod.snd) w p a).map (inPart T t) := by
  cases a with
  | createQuota quotaId now => exact part_createQuota quotaId now hp
  | verifyQuota => exact part_verifyQuota hp
  | upload => exact part_upload hp
  | write now => exact part_write h hprocs now hp
  | enqueue => exact part_enqueue h hp
  | commit => exact part_commit h hp
  | abort => exact part_abort p
  | compensate succeeds => exact part_compensate succeeds p
  | checkResource => exact part_checkResource hp
  | saveEdit now => exact part_saveEdit h hprocs now hp
  | download => exact part_download hp
  | saveScan scan now => exact part_saveScan h hprocs scan now hp
  | failScan => exact part_failScan p
  | saveRescan scan now => exact part_saveRescan h hprocs scan now hp
  | listStorage => exact part_listStorage hp
  | sweep => exact part_sweep p
  | markOrphan now => exact part_markOrphan h hprocs now hp
  | saveLimit now => exact part_saveLimit now hp

/-! ## Starts for the tenant -/

theorem part_findById (h : Placed T w) (scope : Option String) (fileId : String) :
    Files.findById (part T (fileTenant w scope fileId) w).files scope fileId = Files.findById w.files scope fileId :=
  partFiles_findById (fun _ hf => (fileTenant_eq hf).symm) h.ids

theorem part_openFile (h : Placed T w) (scope : Option String) (fileId : String) (p : File → Proc) :
    openFile (part T (fileTenant w scope fileId) w) scope fileId p =
      (openFile w scope fileId p).map (inPart T (fileTenant w scope fileId)) := by
  unfold openFile
  rw [part_findById h, Option.map_map]
  rfl

theorem part_takeJob (h : Placed T w) (jobId : String) :
    takeJob (part T (owner w (.scan jobId)) w) jobId = (takeJob w jobId).map (inPart T (owner w (.scan jobId))) := by
  have hfind : ((part T (owner w (.scan jobId)) w).jobs.find? fun job => job.jobId == jobId && job.state == .waiting) =
      w.jobs.find? fun job => job.jobId == jobId && job.state == .waiting := by
    refine partJobs_find? (fun job hjob => ?_) h.jobIds
    simp only [owner, hjob, Option.map_some, Option.getD_some]
  unfold takeJob
  rw [hfind, Option.map_map]
  cases hjob : w.jobs.find? fun job => job.jobId == jobId && job.state == .waiting with
  | none => rfl
  | some job =>
    have hown : owner w (.scan jobId) = job.payload.tenantId := by
      simp only [owner, hjob, Option.map_some, Option.getD_some]
    have hfound : Files.findById (part T (owner w (.scan jobId)) w).files (some job.payload.tenantId)
        job.payload.fileId = Files.findById w.files (some job.payload.tenantId) job.payload.fileId := by
      refine partFiles_findById (fun f hf => ?_) h.ids
      obtain ⟨hmem, hid⟩ := Files.findById_some hf
      rw [hown, ← (h.files f hmem).owner, hid, (h.jobs job (List.mem_of_find?_eq_some hjob)).owner]
    simp only [Option.map_some, hfound, Function.comp_apply]
    cases ScanFile.select (Files.findById w.files (some job.payload.tenantId) job.payload.fileId) job.payload with
    | error e => exact congrArg (fun w => some (w, Proc.finished)) (part_modify jobId fun _ => rfl)
    | ok found =>
      cases found with
      | none => exact congrArg (fun w => some (w, Proc.finished)) (part_modify jobId fun _ => rfl)
      | some file => exact congrArg (fun w => some (w, Proc.scanning jobId file none)) (part_modify jobId fun _ => rfl)

/-- **A start for the tenant is the start in its part.** -/
theorem start_part (h : Placed T w) (s : Start) :
    start ports (part T (owner w s) w) s = (start ports w s).map (inPart T (owner w s)) := by
  cases s with
  | upload input fileId =>
    have hslot : UploadFile.ensureUploadable ports (part T input.tenantId w).files input =
        UploadFile.ensureUploadable ports w.files input := by
      unfold UploadFile.ensureUploadable
      simp only [part, partFiles_findByResourceAndPurpose]
    simp only [start, owner, hslot]
    cases UploadFile.ensureUploadable ports w.files input with
    | error e => rfl
    | ok => rfl
  | replace scope input =>
    have hfile : ReplaceFile.ensureReplaceable ports (part T (fileTenant w scope input.fileId) w).files scope input =
        ReplaceFile.ensureReplaceable ports w.files scope input := by
      unfold ReplaceFile.ensureReplaceable
      rw [part_findById h]
    simp only [start, owner, hfile]
    cases ReplaceFile.ensureReplaceable ports w.files scope input with
    | error e => rfl
    | ok => rfl
  | rename scope fileId newName => exact part_openFile h scope fileId _
  | changeResource scope fileId resourceType resourceId => exact part_openFile h scope fileId _
  | delete scope fileId => exact part_openFile h scope fileId _
  | scan jobId => exact part_takeJob h jobId
  | rescan tenantId before =>
    exact congrArg (fun files => some (part T tenantId w, Proc.rescanning files none)) (partFiles_findReadyForRescan before)
  | reconcile tenantId =>
    exact congrArg (fun files => some (part T tenantId w, Proc.listing tenantId files false)) partFiles_findAllByTenant
  | purge tenantId before =>
    exact congrArg (fun files => some (part T tenantId w, Proc.listing tenantId files true)) (partFiles_findDeletedBefore before)
  | adjust tenantId newLimitBytes =>
    have hquota : (part T tenantId w).quotas tenantId = w.quotas tenantId := partQuotas_self
    have hmoved : (part T tenantId w).moved tenantId = w.moved tenantId := keep_of_pos (p := (· = tenantId)) rfl
    simp only [start, owner, hquota, hmoved, Option.map_map]
    rfl

/-! ## Steps of others -/

theorem other_modify (h : Placed T w) (hk : k ≠ t) {jobId : String} (hjob : JobOf T t jobId) {g : ScanJob → ScanJob}
    (hg : ∀ job, (g job).payload = job.payload) :
    part T k { w with jobs := w.jobs.modify jobId g } = part T k w := by
  have hjobs := partJobs_modify_of_ne hg h.jobs hjob hk
  simp only [part, hjobs]

theorem other_saveCopy (h : Placed T w) (hk : k ≠ t) {copy : File} (hc : CopyOf T t copy) {edit : Edit} {now : ℕ}
    (hs : saveCopy w copy edit now = .ok w') : part T k w' = part T k w := by
  obtain ⟨g, files, hg, hu, hw⟩ := saveCopy_eq_ok hs
  obtain ⟨hof, ht⟩ := copyOf_edited hc (edited_of_apply hg)
  have hne : k ≠ g.tenantId := by rw [ht]; exact hk
  have hfiles := partFiles_update_of_ne h.files hof.owner hne hu
  rcases hw with rfl | ⟨-, quotas, hq, rfl⟩
  · simp only [part, hfiles]
  · obtain ⟨q, -, -, rfl⟩ := Quotas.decrementUsedBytes_eq_ok hq
    have hmoved := keep_update_of_not (p := (· = k)) (d := 0) (f := w.moved) (Ne.symm hne)
    simp only [part, hfiles, hmoved, partQuotas_update_of_ne hne]

theorem other_commit (h : Placed T w) (hname : OneName t) (hk : k ≠ t) {r : Request} (hr : RequestOf T t r) {now : ℕ}
    {files : Files} {quotas : Quotas} {moved : ℤ} {origins : ℕ → Option Bytes}
    (hpersist : persist ports w r now = .ok (files, quotas)) :
    part T k { w with
      files, quotas
      moved := Function.update w.moved r.tenantId moved
      origins := Function.update w.origins r.fileId origins } = part T k w := by
  obtain ⟨g, hrow, hsave, hinc⟩ := persist_eq_ok.mp hpersist
  obtain ⟨hof, ht⟩ := copyOf_requested hname hr (requested_of_row hrow)
  obtain ⟨rfl, hid, -⟩ := hr
  have hne : k ≠ g.tenantId := by rw [ht]; exact hk
  have hfiles : partFiles k files = partFiles k w.files := by
    cases r with
    | upload => exact partFiles_create_of_ne hne hsave
    | replace => exact partFiles_update_of_ne h.files hof.owner hne hsave
  obtain ⟨q, -, rfl⟩ := Quotas.incrementUsedBytes_eq_ok hinc
  have hmoved := keep_update_of_not (p := (· = k)) (d := 0) (f := w.moved) (Ne.symm hk) moved
  have horigins := keep_update_of_not (p := (T · = k)) (d := fun _ => none) (f := w.origins)
    (by rw [hid]; exact Ne.symm hk) origins
  simp only [part, hfiles, hmoved, horigins, partQuotas_update_of_ne hk]

/-- No key of another tenant is one of the tenant. -/
theorem not_under (hname : OneName t) (hname' : OneName k) (hk : k ≠ t) {key : String} (h : Under t key) :
    ¬ Under k key := fun h' => hk (tenant_eq_of_under hname' hname h' h)

theorem other_delete (hname : OneName t) (hname' : OneName k) (hk : k ≠ t) {key : String} (h : Under t key) :
    part T k { w with storage := w.storage.delete key } = part T k w := by
  have hstorage := partStorage_delete_of_not w.storage (not_under hname hname' hk h)
  simp only [part, hstorage]

theorem start_other (h : Placed T w) {s : Start} {p : Proc} (hs : Starts ports w s w' p) (hk : k ≠ owner w s) :
    part T k w' = part T k w := by
  cases hs with
  | scanThrows hjob hid hwaiting | scanReturns hjob hid hwaiting | scan hjob hid hwaiting =>
    subst hid
    rw [owner_scan h hjob hwaiting] at hk
    exact other_modify h hk (h.jobs _ hjob).jobOf fun _ => rfl
  | _ => rfl

theorem act_other (h : Placed T w) {procs : List Proc} {p p' : Proc} {a : Action} (hp : Owns T (t, p))
    (ha : Acts ports procs w p a w' p') (hname' : OneName k) (hk : k ≠ t) : part T k w' = part T k w := by
  obtain ⟨hname, hp⟩ := hp
  cases ha with
  | createQuota hq =>
    obtain ⟨rfl, -⟩ := id hp
    obtain rfl | ⟨q, -, htenant, -, rfl⟩ := Quotas.createOrGet_eq_ok hq
    · rfl
    · simp only [part, partQuotas_update_of_ne hk]
  | @upload r check =>
    obtain ⟨rfl, -⟩ := id hp
    have hstorage := partStorage_upload_of_not w.storage (not_under hname hname' hk (under_key r)) r.buffer
    simp only [part, hstorage]
  | @enqueue r =>
    obtain ⟨rfl, -⟩ := id hp
    have hjobs := partJobs_enqueue_of_ne w.jobs (buildFileScanJobId r.fileId r.version) r.payload hk
    simp only [part, hjobs]
  | commit hpersist => exact other_commit h hname hk hp hpersist
  | @compensate r =>
    obtain rfl : r.tenantId = t := hp
    exact other_delete hname hname' hk (under_key r)
  | saveEdit hs => exact other_saveCopy h hk hp hs
  | saveScan hs =>
    have hjobs := other_modify (placed_saveCopy h hp.2 hs) hk hp.1 (g := ScanJob.complete) fun _ => rfl
    exact hjobs.trans (other_saveCopy h hk hp.2 hs)
  | scanFails | failScan => exact other_modify h hk hp.1 fun _ => rfl
  | saveRescan hs => exact other_saveCopy h hk (hp _ List.mem_cons_self) hs
  | sweep => exact other_delete hname hname' hk (hp.1 _ List.mem_cons_self)
  | markOrphan hs => exact other_saveCopy h hk (hp.2 _ List.mem_cons_self) hs
  | saveLimit ha hu =>
    obtain ⟨-, -, ht, -⟩ := AdjustQuotaLimit.adjusted_eq_ok ha
    obtain ⟨q, -, -, rfl⟩ := Quotas.update_eq_ok hu
    obtain rfl : _ = t := ht.trans hp
    simp only [part, partQuotas_update_of_ne hk]
  | _ => rfl

end Neltrik.FileStorage.TenantSteps
