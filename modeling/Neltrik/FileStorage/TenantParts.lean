import Neltrik.FileStorage.Rows
import Neltrik.Lib.Restrict
import Neltrik.Lib.Scan

/-! # The part of a tenant

What a tenant has in the store: its files, its quota, the binaries under its directory and its scan jobs.
A change for the tenant is the same change of its part (`part_*`), a change for another tenant leaves the
part as it is (`part_*_of_ne`).

Nothing in the rows says whose an id is. `T` does: no id is generated for two tenants. -/

namespace Neltrik.FileStorage.TenantParts

open Neltrik.Lib Neltrik.Lib.Table Neltrik.Lib.Restrict Neltrik.FileStorage.Domain
open Neltrik.FileStorage.Persistence Neltrik.FileStorage.UseCases Neltrik.FileStorage.System

/-! ## Keys -/

/-- The key is one under the directory of the tenant. -/
def Under (t key : String) : Prop := (tenantPrefix t).toList <+: key.toList

/-- The id of a tenant is one name in a path. -/
def OneName (t : String) : Prop := '/' ∉ t.toList

instance (t key : String) : Decidable (Under t key) := inferInstanceAs (Decidable (_ <+: _))

instance (t : String) : Decidable (OneName t) := inferInstanceAs (Decidable (¬ _))

theorem toList_tenantPrefix (t : String) :
    (tenantPrefix t).toList = "tenants/".toList ++ (t.toList ++ '/' :: "files/".toList) := by
  unfold tenantPrefix
  simp only [String.toList_append]
  rfl

/-- **The directories of two tenants have no key in common.** -/
theorem tenant_eq_of_under {t t' key : String} (ht : OneName t) (ht' : OneName t') (h : Under t key)
    (h' : Under t' key) : t = t' := by
  have hspan : ∀ (s : String) (as : List Char), OneName s →
      (s.toList ++ '/' :: as).takeWhile (· != '/') = s.toList := by
    refine fun s as hs => (Scan.span_append (fun c hc => ?_) fun c hc => ?_).1
    · exact bne_iff_ne.mpr fun he => hs (he ▸ hc)
    · cases hc; rfl
  obtain ⟨as, has⟩ := h
  obtain ⟨as', has'⟩ := h'
  rw [toList_tenantPrefix, List.append_assoc] at has has'
  have hcancel := List.append_cancel_left (has.trans has'.symm)
  rw [List.append_assoc, List.append_assoc, List.cons_append, List.cons_append] at hcancel
  have hword := congrArg (List.takeWhile (· != '/')) hcancel
  rw [hspan t _ ht, hspan t' _ ht'] at hword
  exact String.toList_injective hword

/-- The id of a scan job names the file. -/
theorem fileId_eq_of_scanJobId {fileId fileId' : String} {m n : ℕ}
    (h : buildFileScanJobId fileId m = buildFileScanJobId fileId' n) : fileId = fileId' := by
  have hlist : ∀ (id : String) (k : ℕ), (buildFileScanJobId id k).toList.reverse =
      (Nat.toDigits 10 k).reverse ++ 'v' :: (':' :: (id.toList.reverse ++ "file-scan:".toList.reverse)) := by
    intro id k
    unfold buildFileScanJobId
    simp only [String.toList_append, Nat.toString_eq_repr, Nat.toList_repr, List.reverse_append]
    rfl
  have hspan : ∀ (k : ℕ) (as : List Char), ((Nat.toDigits 10 k).reverse ++ 'v' :: as).dropWhile (·.isDigit) =
      'v' :: as := by
    refine fun k as => (Scan.span_append (fun c hc => ?_) fun c hc => ?_).2
    · exact Nat.isDigit_of_mem_toDigits (by decide) (by decide) (List.mem_reverse.mp hc)
    · cases hc; rfl
  have hreverse := congrArg List.reverse (congrArg String.toList h)
  rw [hlist, hlist] at hreverse
  have hdrop := congrArg (List.dropWhile (·.isDigit)) hreverse
  rw [hspan, hspan] at hdrop
  have hids := List.append_cancel_right (List.cons.inj (List.cons.inj hdrop).2).2
  exact String.toList_injective (List.reverse_injective hids)

/-! ## The parts -/

/-- The files of the tenant. -/
def partFiles (t : String) (files : Files) : Files := files.filter (·.tenantId == t)

/-- The quota of the tenant. -/
def partQuotas (t : String) (quotas : Quotas) : Quotas := keep (· = t) none quotas

/-- The binaries under the prefix of the tenant. -/
def partStorage (t : String) (storage : Storage) : Storage := restrict (fun key => decide (Under t key)) storage

/-- The jobs for files of the tenant. -/
def partJobs (t : String) (jobs : ScanQueue) : ScanQueue := jobs.filter (·.payload.tenantId == t)

/-- The part of the world that is the tenant's. -/
def part (T : String → String) (t : String) (w : World) : World where
  files := partFiles t w.files
  quotas := partQuotas t w.quotas
  storage := partStorage t w.storage
  jobs := partJobs t w.jobs
  moved := keep (· = t) 0 w.moved
  origins := keep (T · = t) (fun _ => none) w.origins

variable {T : String → String} {t t' : String}

/-- A file with an id of its tenant and its binaries under the directory of it. -/
structure Of (T : String → String) (f : File) : Prop where
  owner : T f.id = f.tenantId
  oneName : OneName f.tenantId
  under : ∀ v ∈ f.versions, Under f.tenantId v.storageKey

theorem Of.latest {f : File} (h : Of T f) : Under f.tenantId f.latest.storageKey :=
  h.under _ (List.mem_of_getLast? f.getLatestVersion_eq)

/-! ### Files -/

section Files
variable {files files' : Files} {g : File}

theorem partFiles_findById {scope : Option String} {id : String}
    (h : ∀ f, Files.findById files scope id = some f → f.tenantId = t) (hids : Keyed (fun f : File => f.id) files) :
    Files.findById (partFiles t files) scope id = Files.findById files scope id := by
  refine find?_filter_of_imp fun f hf hp => beq_iff_eq.mpr (h f ?_)
  simp only [Bool.and_eq_true, beq_iff_eq] at hp
  rw [← hp.1]
  exact Files.findById_of_mem hids hf hp.2

theorem partFiles_findByResourceAndPurpose (resourceType resourceId : String) (purpose : FilePurpose) :
    Files.findByResourceAndPurpose (partFiles t files) t resourceType resourceId purpose =
      Files.findByResourceAndPurpose files t resourceType resourceId purpose := by
  refine find?_filter_of_imp fun f _ hp => ?_
  simp only [Bool.and_eq_true] at hp
  exact hp.1.1.1.1

theorem partFiles_findAllByTenant : Files.findAllByTenant (partFiles t files) t = Files.findAllByTenant files t := by
  unfold Files.findAllByTenant partFiles
  rw [List.filter_filter]
  exact List.filter_congr fun f _ => Bool.and_self _

theorem partFiles_findDeletedBefore (before : ℕ) :
    Files.findDeletedBefore (partFiles t files) t before = Files.findDeletedBefore files t before := by
  unfold Files.findDeletedBefore partFiles
  rw [List.filter_filter]
  refine List.filter_congr fun f _ => ?_
  cases f.tenantId == t with
  | false => simp only [Bool.false_and]
  | true => simp only [Bool.true_and, Bool.and_true]

theorem partFiles_findReadyForRescan (before : ℕ) :
    Files.findReadyForRescan (partFiles t files) t before = Files.findReadyForRescan files t before := by
  unfold Files.findReadyForRescan partFiles
  rw [List.filter_filter]
  refine List.filter_congr fun f _ => ?_
  cases f.tenantId == t with
  | false => simp only [Bool.false_and]
  | true => simp only [Bool.true_and, Bool.and_true]

theorem tenant_of_sameSlot {f : File} (h : sameSlot f g = true) : f.tenantId = g.tenantId := by
  simp only [sameSlot, Bool.and_eq_true, beq_iff_eq] at h
  exact h.1.1.1.2

/-- Rows with the id are of the tenant. -/
theorem tenant_of_id (hfiles : ∀ f ∈ files, Of T f) (hg : T g.id = g.tenantId) {f : File} (hf : f ∈ files)
    (hid : f.id = g.id) : f.tenantId = g.tenantId := by
  rw [← (hfiles f hf).owner, hid, hg]

theorem partFiles_create (hfiles : ∀ f ∈ files, Of T f) (hg : T g.id = g.tenantId) :
    Files.create (partFiles g.tenantId files) g = (Files.create files g).map (partFiles g.tenantId) := by
  have hany : (partFiles g.tenantId files).any (fun f => f.id == g.id || sameSlot f g) =
      files.any fun f => f.id == g.id || sameSlot f g := by
    refine any_filter_of_imp fun f hf h => beq_iff_eq.mpr ?_
    rcases Bool.or_eq_true_iff.mp h with hid | hslot
    · exact tenant_of_id hfiles hg hf (beq_iff_eq.mp hid)
    · exact tenant_of_sameSlot hslot
  unfold Files.create
  rw [hany]
  split_ifs with h
  · rfl
  · refine congrArg Except.ok ?_
    unfold partFiles
    rw [List.filter_cons, if_pos (beq_self_eq_true _)]

theorem partFiles_create_of_ne (hne : t ≠ g.tenantId) (h : Files.create files g = .ok files') :
    partFiles t files' = partFiles t files := by
  obtain ⟨-, rfl⟩ := Files.create_eq_ok.mp h
  exact List.filter_cons_of_neg (by simpa using Ne.symm hne)

theorem partFiles_update (hfiles : ∀ f ∈ files, Of T f) (hg : T g.id = g.tenantId) :
    Files.update (partFiles g.tenantId files) g = (Files.update files g).map (partFiles g.tenantId) := by
  have hmatching : (partFiles g.tenantId files).any (OptimisticLock.matching (·.id) (·.version) g) =
      files.any (OptimisticLock.matching (·.id) (·.version) g) :=
    any_filter_of_imp fun f hf h =>
      beq_iff_eq.mpr (tenant_of_id hfiles hg hf (OptimisticLock.matching_iff.mp h).1)
  have hslot : (partFiles g.tenantId files).any (fun f => f.id != g.id && sameSlot f g) =
      files.any fun f => f.id != g.id && sameSlot f g :=
    any_filter_of_imp fun f _ h => beq_iff_eq.mpr (tenant_of_sameSlot (Bool.and_eq_true_iff.mp h).2)
  unfold Files.update
  rw [hmatching, hslot]
  split_ifs with hm hs
  · rfl
  · refine congrArg Except.ok (filter_updateWhere_of_same fun f hf h => ?_).symm
    rw [tenant_of_id hfiles hg hf (OptimisticLock.matching_iff.mp h).1]
    rfl
  · rfl

theorem partFiles_update_of_ne (hfiles : ∀ f ∈ files, Of T f) (hg : T g.id = g.tenantId) (hne : t ≠ g.tenantId)
    (h : Files.update files g = .ok files') : partFiles t files' = partFiles t files := by
  obtain ⟨-, -, rfl⟩ := Files.update_eq_ok.mp h
  have hfalse : (g.tenantId == t) = false := beq_eq_false_iff_ne.mpr (Ne.symm hne)
  refine filter_updateWhere fun f hf hm => ⟨?_, hfalse⟩
  rw [tenant_of_id hfiles hg hf (OptimisticLock.matching_iff.mp hm).1]
  exact hfalse

end Files

/-! ### Quotas -/

section Quotas
variable {quotas quotas' : Quotas}

theorem partQuotas_self : partQuotas t quotas t = quotas t := keep_of_pos rfl

theorem partQuotas_updated (q : Option FileQuota) :
    partQuotas t (Function.update quotas t q) = Function.update (partQuotas t quotas) t q :=
  keep_update (p := (· = t)) rfl q

theorem partQuotas_createOrGet (id : String) (now : ℕ) :
    Quotas.createOrGet (partQuotas t quotas) id t now = (Quotas.createOrGet quotas id t now).map (partQuotas t) := by
  unfold Quotas.createOrGet
  rw [partQuotas_self]
  cases hq : quotas t with
  | some q => rfl
  | none =>
    dsimp only
    cases hcreate : FileQuota.create id t defaultFileQuotaLimitBytes now with
    | error e => rfl
    | ok q =>
      have ht : q.tenantId = t := by
        unfold FileQuota.create at hcreate
        split_ifs at hcreate
        cases hcreate
        rfl
      refine congrArg Except.ok ?_
      unfold Quotas.create
      rw [ht, partQuotas_self, hq]
      exact (partQuotas_updated _).symm

theorem partQuotas_incrementUsedBytes (delta now : ℕ) :
    Quotas.incrementUsedBytes (partQuotas t quotas) t delta now =
      (Quotas.incrementUsedBytes quotas t delta now).map (partQuotas t) := by
  unfold Quotas.incrementUsedBytes
  rw [partQuotas_self]
  cases quotas t with
  | none => rfl
  | some q => exact congrArg Except.ok (partQuotas_updated _).symm

theorem partQuotas_decrementUsedBytes (delta now : ℕ) :
    Quotas.decrementUsedBytes (partQuotas t quotas) t delta now =
      (Quotas.decrementUsedBytes quotas t delta now).map (partQuotas t) := by
  unfold Quotas.decrementUsedBytes
  rw [partQuotas_self]
  cases quotas t with
  | none => rfl
  | some q =>
    dsimp only
    split_ifs
    · exact congrArg Except.ok (partQuotas_updated _).symm
    · rfl

theorem partQuotas_update (q : FileQuota) :
    Quotas.update (partQuotas q.tenantId quotas) q = (Quotas.update quotas q).map (partQuotas q.tenantId) := by
  unfold Quotas.update
  rw [partQuotas_self]
  cases quotas q.tenantId with
  | none => rfl
  | some row =>
    dsimp only
    split_ifs
    · exact congrArg Except.ok (partQuotas_updated _).symm
    · rfl

theorem partQuotas_update_of_ne {s : String} (hne : t ≠ s) (q : Option FileQuota) :
    partQuotas t (Function.update quotas s q) = partQuotas t quotas :=
  keep_update_of_not (p := (· = t)) (Ne.symm hne) q

end Quotas

/-! ### Binaries -/

section Storage
variable (storage : Storage) {key : String}

theorem partStorage_download (h : Under t key) : (partStorage t storage).download key = storage.download key :=
  lookup_restrict (p := fun key => decide (Under t key)) (decide_eq_true h) _

theorem partStorage_upload (h : Under t key) (buffer : Bytes) :
    partStorage t (storage.upload key buffer) = (partStorage t storage).upload key buffer :=
  restrict_insert (p := fun key => decide (Under t key)) (decide_eq_true h) buffer _

theorem partStorage_upload_of_not (h : ¬ Under t key) (buffer : Bytes) :
    partStorage t (storage.upload key buffer) = partStorage t storage :=
  restrict_insert_of_not (p := fun key => decide (Under t key)) (decide_eq_false h) buffer _

theorem partStorage_delete (t key : String) : partStorage t (storage.delete key) = (partStorage t storage).delete key :=
  restrict_erase _

theorem partStorage_delete_of_not (h : ¬ Under t key) : partStorage t (storage.delete key) = partStorage t storage :=
  restrict_erase_of_not (p := fun key => decide (Under t key)) (decide_eq_false h) _

theorem partStorage_list : (partStorage t storage).list (tenantPrefix t) = storage.list (tenantPrefix t) := by
  have hkeys : (partStorage t storage).keys = storage.keys.filter fun key => decide (Under t key) := keys_restrict _
  unfold Storage.list
  rw [hkeys, List.filter_filter]
  refine List.filter_congr fun key _ => ?_
  by_cases h : Under t key
  · rw [decide_eq_true h, Bool.and_true]
  · have hfalse : (tenantPrefix t).toList.isPrefixOf key.toList = false := by
      rw [Bool.eq_false_iff]
      exact fun hp => h (List.isPrefixOf_iff_prefix.mp hp)
    rw [hfalse, Bool.false_and]

variable {storage}

theorem under_of_mem_list (h : key ∈ storage.list (tenantPrefix t)) : Under t key := (Storage.mem_list.mp h).2

end Storage

/-! ### Jobs -/

section Jobs
variable {jobs : ScanQueue} {jobId : String}

/-- A job with the id of its version, and an id of its tenant. -/
structure OfJob (T : String → String) (job : ScanJob) : Prop where
  owner : T job.payload.fileId = job.payload.tenantId
  oneName : OneName job.payload.tenantId
  jobId : job.jobId = buildFileScanJobId job.payload.fileId job.payload.version

/-- It is the id of a job of the tenant. -/
def JobOf (T : String → String) (t jobId : String) : Prop :=
  ∃ fileId version, jobId = buildFileScanJobId fileId version ∧ T fileId = t

theorem OfJob.jobOf {job : ScanJob} (h : OfJob T job) : JobOf T job.payload.tenantId job.jobId :=
  ⟨_, _, h.jobId, h.owner⟩

theorem tenant_of_jobId {job : ScanJob} (hjob : OfJob T job) (h : JobOf T t jobId) (he : job.jobId = jobId) :
    job.payload.tenantId = t := by
  obtain ⟨fileId, version, rfl, rfl⟩ := h
  rw [← hjob.owner, fileId_eq_of_scanJobId (hjob.jobId.symm.trans he)]

theorem partJobs_modify (t : String) (jobs : ScanQueue) (jobId : String) {g : ScanJob → ScanJob}
    (hg : ∀ job, (g job).payload = job.payload) :
    partJobs t (jobs.modify jobId g) = (partJobs t jobs).modify jobId g :=
  filter_updateWhere_of_same fun job _ _ => by rw [hg]

theorem partJobs_modify_of_ne {g : ScanJob → ScanJob} (hg : ∀ job, (g job).payload = job.payload)
    (hjobs : ∀ job ∈ jobs, OfJob T job) (h : JobOf T t' jobId) (hne : t ≠ t') :
    partJobs t (jobs.modify jobId g) = partJobs t jobs := by
  refine filter_updateWhere fun job hm he => ?_
  have ht := tenant_of_jobId (hjobs job hm) h (beq_iff_eq.mp he)
  rw [hg, ht]
  exact ⟨beq_eq_false_iff_ne.mpr (Ne.symm hne), beq_eq_false_iff_ne.mpr (Ne.symm hne)⟩

theorem partJobs_enqueue {payload : ScanFilePayload} (hjobs : ∀ job ∈ jobs, OfJob T job)
    (h : JobOf T payload.tenantId jobId) :
    partJobs payload.tenantId (jobs.enqueue jobId payload) = (partJobs payload.tenantId jobs).enqueue jobId payload := by
  have hany : (partJobs payload.tenantId jobs).any (·.jobId == jobId) = jobs.any (·.jobId == jobId) :=
    any_filter_of_imp fun job hm he => beq_iff_eq.mpr (tenant_of_jobId (hjobs job hm) h (beq_iff_eq.mp he))
  unfold ScanQueue.enqueue
  rw [hany]
  split_ifs
  · rfl
  · exact List.filter_cons_of_pos (beq_self_eq_true _)

theorem partJobs_enqueue_of_ne (jobs : ScanQueue) (jobId : String) (payload : ScanFilePayload)
    (hne : t ≠ payload.tenantId) :
    partJobs t (jobs.enqueue jobId payload) = partJobs t jobs := by
  unfold ScanQueue.enqueue
  split_ifs
  · rfl
  · exact List.filter_cons_of_neg (by simpa using Ne.symm hne)

theorem partJobs_find? (h : ∀ job, (jobs.find? fun job => job.jobId == jobId && job.state == .waiting) = some job →
      job.payload.tenantId = t) (hids : Keyed ScanJob.jobId jobs) :
    ((partJobs t jobs).find? fun job => job.jobId == jobId && job.state == .waiting) =
      jobs.find? fun job => job.jobId == jobId && job.state == .waiting := by
  refine find?_filter_of_imp fun job hm hp => beq_iff_eq.mpr (h job ?_)
  have hsome : (jobs.find? fun job => job.jobId == jobId && job.state == .waiting).isSome = true :=
    List.find?_isSome.mpr ⟨job, hm, hp⟩
  obtain ⟨job', hjob'⟩ := Option.isSome_iff_exists.mp hsome
  simp only [Bool.and_eq_true, beq_iff_eq] at hp
  have hfound : job'.jobId = jobId ∧ job'.state = .waiting := by simpa using List.find?_some hjob'
  rw [hjob', hids.eq_of_key_eq (List.mem_of_find?_eq_some hjob') hm (hfound.1.trans hp.1.symm)]

end Jobs

end Neltrik.FileStorage.TenantParts
