import Neltrik.FileStorage.TenantParts
import Neltrik.Lib.Parts

/-! # Tenants

Every process works for one tenant, and holds only what is of that tenant: its files, its keys, its jobs, its
quota (`Whole.step`). A user changes a file for the tenant of the file, whoever the user is. -/

namespace Neltrik.FileStorage.Tenants

open Neltrik.Lib Neltrik.Lib.Machine Neltrik.Lib.Table Neltrik.Lib.Restrict Neltrik.Lib.Parts
open Neltrik.FileStorage.Domain Neltrik.FileStorage.Persistence Neltrik.FileStorage.Validation
open Neltrik.FileStorage.UseCases Neltrik.FileStorage.System Neltrik.FileStorage.Steps Neltrik.FileStorage.Rows
open Neltrik.FileStorage.TenantParts

/-! ## Owners -/

/-- The tenant of the file that is found. -/
def fileTenant (w : World) (scope : Option String) (fileId : String) : String :=
  ((Files.findById w.files scope fileId).map (·.tenantId)).getD ""

/-- The tenant a process is started for. -/
def owner (w : World) : Start → String
  | .upload input _ => input.tenantId
  | .replace scope input => fileTenant w scope input.fileId
  | .rename scope fileId _ | .changeResource scope fileId _ _ | .delete scope fileId => fileTenant w scope fileId
  | .scan jobId =>
    ((w.jobs.find? fun job => job.jobId == jobId && job.state == .waiting).map (·.payload.tenantId)).getD ""
  | .rescan tenantId _ | .reconcile tenantId | .purge tenantId _ | .adjust tenantId _ => tenantId

/-- Tenants have ids that are one name in a path, and `T` says for whom the id of a new file is generated. -/
def Assigned (T : String → String) : Label → Prop
  | .start (.upload input fileId) => OneName input.tenantId ∧ T fileId = input.tenantId
  | .start (.rescan tenantId _) | .start (.reconcile tenantId) | .start (.purge tenantId _)
  | .start (.adjust tenantId _) => OneName tenantId
  | _ => True

instance {T : String → String} : DecidablePred (Assigned T)
  | .start (.upload _ _) => inferInstanceAs (Decidable (_ ∧ _))
  | .start (.rescan tenantId _) | .start (.reconcile tenantId) | .start (.purge tenantId _)
  | .start (.adjust tenantId _) => inferInstanceAs (Decidable (OneName tenantId))
  | .start (.replace _ _) | .start (.rename _ _ _) | .start (.changeResource _ _ _ _) | .start (.delete _ _)
  | .start (.scan _) | .act _ _ => isTrue trivial

section Holds
variable (T : String → String) (t : String)

/-- A copy of a file of the tenant. -/
def CopyOf (c : File) : Prop := Of T c ∧ c.tenantId = t

/-- A request of the tenant. -/
def RequestOf (r : Request) : Prop := r.tenantId = t ∧ T r.fileId = t ∧ ∀ c ∈ r.copies, CopyOf T t c

/-- What a process holds is of its tenant. -/
def Holds : Proc → Prop
  | .validated r | .checked r | .admitted r _ | .uploaded r _ | .written r _ _ | .enqueued r _ _ => RequestOf T t r
  | .aborted r => r.tenantId = t
  | .resourcing copy _ _ | .editing copy _ => CopyOf T t copy
  | .scanning jobId copy _ => JobOf T t jobId ∧ CopyOf T t copy
  | .rescanning todo _ => ∀ copy ∈ todo, CopyOf T t copy
  | .listing tenantId files _ => tenantId = t ∧ ∀ copy ∈ files, CopyOf T t copy
  | .sweeping keys orphans => (∀ key ∈ keys, Under t key) ∧ ∀ copy ∈ orphans, CopyOf T t copy
  | .adjusting copy _ _ => copy.tenantId = t
  | .finished => True

/-- Everything in the tables is of the tenant that it names. -/
structure Placed (w : World) : Prop where
  ids : Keyed (fun f : File => f.id) w.files
  files : ∀ f ∈ w.files, Of T f
  quotas : w.quotas.Keyed
  jobIds : Keyed ScanJob.jobId w.jobs
  jobs : ∀ job ∈ w.jobs, OfJob T job

/-- A process and its tenant. -/
def Owns (p : String × Proc) : Prop := OneName p.1 ∧ Holds T p.1 p.2

/-- Every process is one of its tenant. -/
abbrev Whole : Interleaving.State World (String × Proc) → Prop :=
  Interleaving.Inv (Placed T) (fun _ p => Owns T p) (fun _ _ => True)

end Holds

variable {T : String → String} {t k : String} {ports : Ports} {w w' : World}

/-! ## What is saved -/

theorem under_key (r : Request) : Under r.tenantId r.key :=
  tenantPrefix_isPrefix_storageKey r.tenantId r.fileId r.version r.name

theorem of_bump {g : File} (h : Of T g) : Of T (Files.bump g) := ⟨h.owner, h.oneName, h.under⟩

/-- What is saved is of the tenant of the copy. -/
theorem copyOf_edited {f g : File} (h : CopyOf T t f) (he : Edited f g) : CopyOf T t g := by
  obtain ⟨hof, rfl⟩ := h
  refine ⟨⟨by rw [he.id, he.tenantId, hof.owner], he.tenantId.symm ▸ hof.oneName, fun v hv => ?_⟩, he.tenantId⟩
  obtain ⟨u, hu, hcore⟩ := he.exists_version hv
  have hkey : (core u).storageKey = (core v).storageKey := by rw [hcore]
  rw [he.tenantId]
  exact hkey ▸ hof.under u hu

theorem copyOf_requested {r : Request} {now : ℕ} {g : File} (ht : OneName t) (h : RequestOf T t r)
    (hg : Requested ports now r g) : CopyOf T t g := by
  obtain ⟨rfl, hid, hcopies⟩ := h
  refine ⟨⟨by rw [hg.id, hid, hg.tenantId], hg.tenantId.symm ▸ ht, fun v hv => ?_⟩, hg.tenantId⟩
  rw [hg.tenantId]
  obtain ⟨v', extension, mimeType, hparams, hversions⟩ := hg.versions
  rw [hversions] at hv
  rcases List.mem_append.mp hv with hv | hv
  · cases r with
    | upload => exact absurd hv List.not_mem_nil
    | replace input f =>
      obtain ⟨hof, hf⟩ := hcopies f (List.mem_singleton_self f)
      rw [← hf]
      exact hof.under v hv
  · rw [List.mem_singleton.mp hv, hparams]
    exact under_key r

theorem placed_save (h : Placed T w) (ht : OneName t) {r : Request} (hr : RequestOf T t r) {now : ℕ} {g : File}
    (hg : Requested ports now r g) {files : Files} (hs : r.save w.files g = .ok files) :
    Keyed (fun f : File => f.id) files ∧ ∀ f ∈ files, Of T f := by
  have hof := (copyOf_requested ht hr hg).1
  cases r with
  | upload input fileId =>
    obtain ⟨hnew, rfl⟩ := Files.create_eq_ok.mp hs
    exact ⟨h.ids.cons fun f hf => (hnew f hf).1, List.forall_mem_cons.mpr ⟨hof, h.files⟩⟩
  | replace input f =>
    refine ⟨?_, fun f' hf' => ?_⟩
    · obtain ⟨-, -, rfl⟩ := Files.update_eq_ok.mp hs
      exact OptimisticLock.keyed_write h.ids rfl
    · rcases mem_of_update hs hf' with rfl | hf'
      · exact of_bump hof
      · exact h.files f' hf'

theorem placed_saveCopy (h : Placed T w) {copy : File} (hc : CopyOf T t copy) {edit : Edit} {now : ℕ}
    (hs : saveCopy w copy edit now = .ok w') : Placed T w' := by
  obtain ⟨g, files, hg, hu, hw⟩ := saveCopy_eq_ok hs
  have hcopy := copyOf_edited hc (edited_of_apply hg)
  have hids : Keyed (fun f : File => f.id) files := by
    obtain ⟨-, -, rfl⟩ := Files.update_eq_ok.mp hu
    exact OptimisticLock.keyed_write h.ids rfl
  have hfiles : ∀ f ∈ files, Of T f := by
    intro f hf
    rcases mem_of_update hu hf with rfl | hf
    · exact of_bump hcopy.1
    · exact h.files f hf
  rcases hw with rfl | ⟨-, quotas, hq, rfl⟩
  · exact ⟨hids, hfiles, h.quotas, h.jobIds, h.jobs⟩
  · refine ⟨hids, hfiles, ?_, h.jobIds, h.jobs⟩
    obtain ⟨q, hrow, -, rfl⟩ := Quotas.decrementUsedBytes_eq_ok hq
    exact h.quotas.update (h.quotas _ q hrow)

theorem placed_modify (h : Placed T w) (jobId : String) {g : ScanJob → ScanJob}
    (hg : ∀ job, (g job).jobId = job.jobId ∧ (g job).payload = job.payload) :
    Placed T { w with jobs := w.jobs.modify jobId g } := by
  refine ⟨h.ids, h.files, h.quotas, ScanQueue.keyed_modify h.jobIds jobId fun job => (hg job).1, fun job hjob => ?_⟩
  rcases ScanQueue.mem_modify.mp hjob with ⟨job', hjob', -, rfl⟩ | ⟨hjob, -⟩
  · obtain ⟨hid, hpayload⟩ := hg job'
    have hof := h.jobs job' hjob'
    exact ⟨by rw [hpayload, hof.owner], hpayload.symm ▸ hof.oneName, by rw [hid, hpayload, hof.jobId]⟩
  · exact h.jobs job hjob

/-! ## What the processes hold -/

theorem copyOf_mem (h : Placed T w) {f : File} (hf : f ∈ w.files) (ht : f.tenantId = t) : CopyOf T t f :=
  ⟨h.files f hf, ht⟩

theorem fileTenant_eq {scope : Option String} {fileId : String} {f : File}
    (h : Files.findById w.files scope fileId = some f) : fileTenant w scope fileId = f.tenantId := by
  unfold fileTenant
  rw [h]
  rfl

theorem found_of_ensureReplaceable {files : Files} {scope : Option String} {input : ReplaceFileInput} {file : File}
    (h : ReplaceFile.ensureReplaceable ports files scope input = .ok file) :
    Files.findById files scope input.fileId = some file := by
  unfold ReplaceFile.ensureReplaceable at h
  split at h
  · cases h
  · split_ifs at h
    obtain ⟨-, -, h⟩ := Effect.except_bind_eq_ok.mp h
    cases h
    assumption

theorem owner_scan (h : Placed T w) {job : ScanJob} (hjob : job ∈ w.jobs) (hw : job.state = .waiting) :
    owner w (.scan job.jobId) = job.payload.tenantId := by
  have hsome : (w.jobs.find? fun job' => job'.jobId == job.jobId && job'.state == .waiting).isSome = true :=
    List.find?_isSome.mpr ⟨job, hjob, by rw [beq_self_eq_true, hw]; rfl⟩
  obtain ⟨job', hjob'⟩ := Option.isSome_iff_exists.mp hsome
  have hfound : job'.jobId = job.jobId ∧ job'.state = .waiting := by simpa using List.find?_some hjob'
  have hsame := h.jobIds.eq_of_key_eq (List.mem_of_find?_eq_some hjob') hjob hfound.1
  simp only [owner, hjob', hsame]
  rfl

/-- A process starts with what is of its tenant. -/
theorem starts_owns (h : Placed T w) {s : Start} {p : Proc} (hG : Assigned T (.start s))
    (hs : Starts ports w s w' p) : Owns T (owner w s, p) ∧ Placed T w' := by
  have found : ∀ {scope fileId file}, Files.findById w.files scope fileId = some file →
      OneName (fileTenant w scope fileId) ∧ CopyOf T (fileTenant w scope fileId) file := by
    intro scope fileId file hf
    have hof := h.files file (Files.findById_some hf).1
    rw [fileTenant_eq hf]
    exact ⟨hof.oneName, hof, rfl⟩
  have listed : ∀ {t} {p : File → Bool}, ∀ c ∈ w.files.filter (fun f => f.tenantId == t && p f), CopyOf T t c := by
    intro t p c hc
    obtain ⟨hc, hp⟩ := List.mem_filter.mp hc
    rw [Bool.and_eq_true, beq_iff_eq] at hp
    exact ⟨h.files c hc, hp.1⟩
  cases hs with
  | upload => exact ⟨⟨hG.1, rfl, hG.2, fun c hc => absurd hc List.not_mem_nil⟩, h⟩
  | replace hfile =>
    obtain ⟨hname, hcopy⟩ := found (found_of_ensureReplaceable hfile)
    exact ⟨⟨hname, hcopy.2, hcopy.1.owner.trans hcopy.2, List.forall_mem_singleton.mpr hcopy⟩, h⟩
  | rename hfile | changeResource hfile | delete hfile => exact ⟨found hfile, h⟩
  | scanThrows hjob hid hwaiting | scanReturns hjob hid hwaiting =>
    subst hid
    rw [owner_scan h hjob hwaiting]
    exact ⟨⟨(h.jobs _ hjob).oneName, trivial⟩, placed_modify h _ fun _ => ⟨rfl, rfl⟩⟩
  | scan hjob hid hwaiting hselect =>
    subst hid
    rw [owner_scan h hjob hwaiting]
    obtain ⟨hfound, htenant, -⟩ := select_eq_ok.mp hselect
    have hof := h.jobs _ hjob
    exact ⟨⟨hof.oneName, hof.jobOf, h.files _ (Files.findById_some hfound).1, htenant⟩,
      placed_modify h _ fun _ => ⟨rfl, rfl⟩⟩
  | rescan =>
    refine ⟨⟨hG, fun c hc => ?_⟩, h⟩
    unfold Files.findReadyForRescan at hc
    simp only [Bool.and_assoc] at hc
    exact listed c hc
  | reconcile => exact ⟨⟨hG, rfl, fun c hc => copyOf_mem h (List.mem_filter.mp hc).1 (beq_iff_eq.mp (List.mem_filter.mp hc).2)⟩, h⟩
  | purge =>
    refine ⟨⟨hG, rfl, fun c hc => ?_⟩, h⟩
    unfold Files.findDeletedBefore at hc
    simp only [Bool.and_assoc] at hc
    exact listed c hc
  | adjust hquota => exact ⟨⟨hG, h.quotas _ _ hquota⟩, h⟩

/-- An action keeps to what is of its tenant. -/
theorem acts_owns (h : Placed T w) {procs : List Proc} {p p' : Proc} {a : Action} (hp : Owns T (t, p))
    (ha : Acts ports procs w p a w' p') : Owns T (t, p') ∧ Placed T w' := by
  obtain ⟨hname, hp⟩ := hp
  cases ha with
  | createQuota hq =>
    refine ⟨⟨hname, hp⟩, h.ids, h.files, ?_, h.jobIds, h.jobs⟩
    obtain rfl | ⟨q, -, ht, -, rfl⟩ := Quotas.createOrGet_eq_ok hq
    · exact h.quotas
    · exact h.quotas.update ht
  | accept | write | resourceFree | downloadScan | downloadRescan => exact ⟨⟨hname, hp⟩, h⟩
  | upload => exact ⟨⟨hname, hp⟩, h.ids, h.files, h.quotas, h.jobIds, h.jobs⟩
  | refuse | editFails | resourceTaken | compensationFails | rescanFails | markFails | limitFails =>
    exact ⟨⟨hname, trivial⟩, h⟩
  | writeFails => exact ⟨⟨hname, hp.1⟩, h⟩
  | @enqueue r check now =>
    obtain ⟨ht, hid, -⟩ := id hp
    have hnew : OneName r.tenantId := by rw [ht]; exact hname
    refine ⟨⟨hname, hp⟩, h.ids, h.files, h.quotas, ScanQueue.keyed_enqueue h.jobIds _ _, fun job hjob => ?_⟩
    unfold ScanQueue.enqueue at hjob
    split_ifs at hjob
    · exact h.jobs job hjob
    · rcases List.mem_cons.mp hjob with rfl | hjob
      · exact ⟨hid.trans ht.symm, hnew, rfl⟩
      · exact h.jobs job hjob
  | commit hpersist =>
    obtain ⟨g, hrow, hsave, hinc⟩ := persist_eq_ok.mp hpersist
    obtain ⟨hids, hfiles⟩ := placed_save h hname hp (requested_of_row hrow) hsave
    obtain ⟨q, hq, rfl⟩ := Quotas.incrementUsedBytes_eq_ok hinc
    exact ⟨⟨hname, trivial⟩, hids, hfiles, h.quotas.update (h.quotas _ q hq), h.jobIds, h.jobs⟩
  | abort hpending =>
    refine ⟨⟨hname, ?_⟩, h⟩
    cases p with
    | uploaded | written | enqueued => cases hpending; exact hp.1
    | _ => cases hpending
  | compensate => exact ⟨⟨hname, trivial⟩, h.ids, h.files, h.quotas, h.jobIds, h.jobs⟩
  | saveEdit hs => exact ⟨⟨hname, trivial⟩, placed_saveCopy h hp hs⟩
  | saveScan hs => exact ⟨⟨hname, trivial⟩, placed_modify (placed_saveCopy h hp.2 hs) _ fun _ => ⟨rfl, rfl⟩⟩
  | scanFails | failScan => exact ⟨⟨hname, trivial⟩, placed_modify h _ fun _ => ⟨rfl, rfl⟩⟩
  | saveRescan hs =>
    exact ⟨⟨hname, fun c hc => hp c (List.mem_cons_of_mem _ hc)⟩, placed_saveCopy h (hp _ List.mem_cons_self) hs⟩
  | listPurge =>
    obtain ⟨rfl, hcopies⟩ := hp
    refine ⟨⟨hname, fun key hkey => ?_, fun c hc => absurd hc List.not_mem_nil⟩, h⟩
    unfold PurgeDeletedFiles.purgedKeys at hkey
    obtain ⟨f, hf, hkey⟩ := List.mem_flatMap.mp hkey
    obtain ⟨v, hv, rfl⟩ := List.mem_map.mp hkey
    obtain ⟨hof, ht⟩ := hcopies f (List.mem_filter.mp hf).1
    exact ht ▸ hof.under v hv
  | listReconcile =>
    obtain ⟨rfl, hcopies⟩ := hp
    refine ⟨⟨hname, fun key hkey => under_of_mem_list (List.mem_filter.mp hkey).1, fun c hc => ?_⟩, h⟩
    exact hcopies c (List.mem_filter.mp (List.mem_filter.mp hc).1).1
  | sweep =>
    exact ⟨⟨hname, fun key hkey => hp.1 key (List.mem_cons_of_mem _ hkey), hp.2⟩, h.ids, h.files, h.quotas, h.jobIds,
      h.jobs⟩
  | markOrphan hs =>
    exact ⟨⟨hname, hp.1, fun c hc => hp.2 c (List.mem_cons_of_mem _ hc)⟩,
      placed_saveCopy h (hp.2 _ List.mem_cons_self) hs⟩
  | saveLimit ha hu =>
    obtain ⟨q, hq, -, rfl⟩ := Quotas.update_eq_ok hu
    exact ⟨⟨hname, trivial⟩, h.ids, h.files, h.quotas.update rfl, h.jobIds, h.jobs⟩

/-- **What is somebody's stays theirs**, step by step. -/
theorem Whole.step {st st' : Interleaving.State World (String × Proc)} {l : Label} (h : Whole T st)
    (hG : Assigned T l) (hs : ownedStep (start ports) (act ports) owner st l = some st') : Whole T st' := by
  refine Interleaving.Inv.step (G := fun _ l => Assigned T l) (fun _ _ _ => trivial) ?_ ?_ h hG hs
  · rintro st s w ⟨t, p⟩ hi hG hw
    obtain ⟨hw, rfl⟩ := ownedStart_eq_some.mp hw
    obtain ⟨hp, hplaced⟩ := starts_owns hi.world hG (start_starts hw)
    exact ⟨hplaced, hp, fun q hq => ⟨hi.procs q hq, trivial⟩⟩
  · rintro st i a ⟨t, p⟩ w ⟨t', p'⟩ hi - hp hw
    obtain ⟨hw, rfl⟩ := ownedAct_eq_some.mp hw
    obtain ⟨hp', hplaced⟩ := acts_owns hi.world (hi.proc hp) (act_acts hw)
    exact ⟨hplaced, hp', fun j q _ hq => ⟨hi.proc hq, trivial⟩⟩

end Neltrik.FileStorage.Tenants
