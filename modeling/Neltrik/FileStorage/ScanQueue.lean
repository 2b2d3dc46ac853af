import Neltrik.FileStorage.Rows

/-! # Scans that are not lost

The scan job of a new version is enqueued inside the transaction that adds the version. A worker may
take it before the commit, when it finds the version before, or no file: it then reports success or
burns an attempt. And a job whose id is already in the queue is ignored, so an aborted replace leaves
a finished job that stands in the way of the next one.

`scans_kept_iff`: while the antivirus answers and nothing else fails, each committed `PENDING` file
has a scan job for its last version that has not ended, in every state, exactly when each commit
finds the job of its version not ended (`JobOutlives`). -/

namespace Neltrik.FileStorage.ScanQueue

open Neltrik.Lib Neltrik.Lib.Machine Neltrik.Lib.Table Neltrik.FileStorage.Domain
open Neltrik.FileStorage.Persistence Neltrik.FileStorage.Validation Neltrik.FileStorage.UseCases
open Neltrik.FileStorage.System Neltrik.FileStorage.Steps Neltrik.FileStorage.Rows

/-- The payload of the job of the last version. -/
def payloadOf (f : File) : ScanFilePayload :=
  { tenantId := f.tenantId, fileId := f.id, version := f.latest.version }

/-- A job with the payload that has not ended. -/
def HasJob (jobs : Persistence.ScanQueue) (payload : ScanFilePayload) : Prop :=
  ∃ job ∈ jobs, job.payload = payload ∧ job.isPending = true

/-- Each `PENDING` file has a job for its last version that has not ended. -/
def NoScanLost (st : State) : Prop :=
  ∀ f ∈ st.world.files, f.status = .pending → HasJob st.world.jobs (payloadOf f)

/-- The antivirus does not answer `ERROR` and no attempt fails for want of infrastructure. -/
def Healthy : Label → Prop
  | .act _ .failScan => False
  | .act _ (.saveScan answer _) | .act _ (.saveRescan answer _) => answer.hasError = false
  | _ => True

/-- When a request commits, the job of its version has not ended. -/
def JobOutlives (st : State) (l : Label) : Prop :=
  ∀ i r check now, l = .act i .commit → st.procs[i]? = some (.enqueued r check now) →
    HasJob st.world.jobs r.payload

/-! ## A `PENDING` version has no scans -/

def Unscanned (f : File) : Prop := f.status = .pending → f.latest.scans = []

/-- Only a new version is `PENDING`: what any edit saves is decided. -/
theorem decided_of_apply {f g : File} {edit : Edit} {now : ℕ} (ha : Allowed f edit)
    (he : ∀ answer, edit = .scan answer → answer.hasError = false)
    (h : edit.apply f now = .ok g) : g.status ≠ .pending := by
  cases edit with
  | rename newName =>
    obtain ⟨hs, -, hp⟩ := File.rename_eq_ok.mp h
    have hst : g.status = f.status := by rw [hp]
    rw [hst]; rcases hs with hs | hs <;> rw [hs] <;> exact nofun
  | changeResource resourceType resourceId =>
    obtain ⟨hs, -, -, hp⟩ := File.changeResource_eq_ok.mp h
    have hst : g.status = f.status := by rw [hp]
    rw [hst]; rcases hs with hs | hs <;> rw [hs] <;> exact nofun
  | delete =>
    obtain ⟨-, -, hp⟩ := File.delete_eq_ok.mp h
    rw [hp]; exact nofun
  | scan answer =>
    obtain ⟨g₁, -, ⟨-, h⟩ | ⟨-, -, h⟩ | ⟨hc, hi, -⟩⟩ := scanVerdict_cases h
    · obtain ⟨-, hp⟩ := File.markReady_eq_ok.mp h
      rw [hp]; exact nofun
    · obtain ⟨-, hp⟩ := File.markInfected_eq_ok.mp h
      rw [hp]; exact nofun
    · have herr := he answer rfl
      rcases answer.isClean_or_isInfected_or_hasError with h | h | h
      · rw [hc] at h; cases h
      · rw [hi] at h; cases h
      · rw [herr] at h; cases h
  | rescan answer =>
    obtain ⟨g₁, h₁, ⟨-, h⟩ | ⟨-, rfl⟩⟩ := rescanVerdict_cases h
    · obtain ⟨-, hp⟩ := File.markAsInfectedByRescan_eq_ok.mp h
      rw [hp]; exact nofun
    · have hr : f.status = .ready := ha
      rw [(latest_scans_of_addScan h₁).2, hr]; exact nofun
  | orphan =>
    cases h
    rw [File.markAsOrphan_status]; exact nofun

theorem answer_of_saves {i : ℕ} {a : Action} {edit : Edit} (hl : Healthy (.act i a))
    (hs : Saves a edit) : ∀ answer, edit = .scan answer → answer.hasError = false := by
  rintro answer rfl
  obtain ⟨now, rfl⟩ := hs
  exact hl

theorem known_unscanned_step {ports : Ports} {st st' : State} {l : Label} (h : Known Unscanned st)
    (hl : Healthy l) (hs : step ports st l = some st') : Known Unscanned st' := by
  have hnew : ∀ {ports now r g}, Request.row ports now r = .ok g → Unscanned g :=
    fun hg _ => (requested_of_row hg).latest_scans
  refine h.step (C := Healthy) (fun _ _ _ _ hg => hnew hg) ?_ ?_ hl hs
  · intro input f now g _ hg
    have hu := hnew hg
    exact hu
  · intro f edit now g i a hl _ ha hsv hg hp
    have hd := decided_of_apply ha (answer_of_saves hl hsv) hg
    exact absurd hp hd

/-! ## Jobs and the processes that run them -/

/-- The job a process runs. -/
def jobOf : Proc → Option String
  | .scanning jobId _ _ => some jobId
  | _ => none

/-- The job of a process is active and about the copy the process has read. -/
def Works (w : World) (p : Proc) : Prop :=
  ∀ jobId copy b, p = .scanning jobId copy b →
    ∃ job ∈ w.jobs, job.jobId = jobId ∧ job.state = .active ∧ job.payload = payloadOf copy

/-- Two processes do not run one job. -/
def JobsApart (p q : Proc) : Prop := ∀ jobId, jobOf p = some jobId → jobOf q ≠ some jobId

abbrev Workers : State → Prop :=
  Interleaving.Inv (fun w => Keyed ScanJob.jobId w.jobs) Works JobsApart

section
variable {w w' : World} {p p' q : Proc}

theorem Works.of_subset (h : Works w q) (hs : w.jobs ⊆ w'.jobs) : Works w' q := by
  intro jobId copy b hq
  obtain ⟨job, hj, h⟩ := h jobId copy b hq
  exact ⟨job, hs hj, h⟩

theorem Works.of_modify {jobId : String} {g : ScanJob → ScanJob} (h : Works w q)
    (hne : jobOf q ≠ some jobId) (hw : w'.jobs = w.jobs.modify jobId g) : Works w' q := by
  rintro jobId' copy b rfl
  obtain ⟨job, hj, hid, h⟩ := h jobId' copy b rfl
  refine ⟨job, ?_, hid, h⟩
  rw [hw, ScanQueue.mem_modify]
  exact Or.inr ⟨hj, fun he => hne (by rw [jobOf, ← hid, he])⟩

theorem works_of_none (h : jobOf p = none) : Works w p := by
  rintro jobId copy b rfl
  cases h

/-- A waiting job is run by nobody. -/
theorem jobOf_ne_of_waiting {job : ScanJob} (hk : Keyed ScanJob.jobId w.jobs) (h : Works w q)
    (hj : job ∈ w.jobs) (hw : job.state = .waiting) : jobOf q ≠ some job.jobId := by
  intro hq
  cases q with
  | scanning jobId copy b =>
    cases hq
    obtain ⟨job', hj', hid, hact, -⟩ := h _ copy b rfl
    rw [hk.eq_of_key_eq hj' hj hid, hw] at hact
    cases hact
  | _ => cases hq

/-- What a start does to the queue. -/
theorem starts_jobs {ports : Ports} {s : Start} (h : Starts ports w s w' p) :
    (w'.jobs = w.jobs ∧ jobOf p = none) ∨
    ∃ job ∈ w.jobs, job.state = .waiting ∧
      ((∃ g, (∀ j, (g j).jobId = j.jobId) ∧ w'.jobs = w.jobs.modify job.jobId g ∧ jobOf p = none) ∨
        ∃ copy, w'.jobs = w.jobs.modify job.jobId ScanJob.activate ∧
          p = .scanning job.jobId copy none ∧ job.payload = payloadOf copy) := by
  cases h with
  | scanThrows hj hid hw _ =>
    exact Or.inr ⟨_, hj, hw, Or.inl ⟨ScanJob.failAttempt, fun _ => rfl, by rw [hid], rfl⟩⟩
  | scanReturns hj hid hw _ =>
    exact Or.inr ⟨_, hj, hw, Or.inl ⟨ScanJob.complete, fun _ => rfl, by rw [hid], rfl⟩⟩
  | scan hj hid hw h =>
    rename_i jobId job file
    obtain ⟨hf, ht, -, hv, -⟩ := select_eq_ok.mp h
    refine Or.inr ⟨job, hj, hw, Or.inr ⟨file, by rw [hid], by rw [hid], ?_⟩⟩
    rw [payloadOf, ht, (Files.findById_some hf).2, hv]
  | _ => exact Or.inl ⟨rfl, rfl⟩

theorem saveCopy_jobs {copy : File} {edit : Edit} {now : ℕ} (h : saveCopy w copy edit now = .ok w') :
    w'.jobs = w.jobs := by
  obtain ⟨-, -, -, -, rfl | ⟨-, -, -, rfl⟩⟩ := saveCopy_eq_ok h <;> rfl

/-- What an action does to the queue. -/
theorem acts_jobs {ports : Ports} {procs : List Proc} {a : Action} (h : Acts ports procs w p a w' p') :
    (w.jobs ⊆ w'.jobs ∧ (Keyed ScanJob.jobId w.jobs → Keyed ScanJob.jobId w'.jobs) ∧
      (jobOf p' = none ∨ ∃ jobId copy b, p = .scanning jobId copy none ∧
        p' = .scanning jobId copy (some b))) ∨
    ∃ jobId copy b g, p = .scanning jobId copy b ∧ (∀ j, (g j).jobId = j.jobId) ∧
      w'.jobs = w.jobs.modify jobId g ∧ jobOf p' = none := by
  cases h with
  | enqueue =>
    exact Or.inl ⟨ScanQueue.subset_enqueue _ _ _, fun hk => ScanQueue.keyed_enqueue hk _ _, Or.inl rfl⟩
  | downloadScan =>
    exact Or.inl ⟨List.Subset.refl _, id, Or.inr ⟨_, _, _, rfl, rfl⟩⟩
  | saveScan hs =>
    exact Or.inr ⟨_, _, _, ScanJob.complete, rfl, fun _ => rfl, by dsimp only; rw [saveCopy_jobs hs], rfl⟩
  | scanFails | failScan =>
    exact Or.inr ⟨_, _, _, ScanJob.failAttempt, rfl, fun _ => rfl, rfl, rfl⟩
  | saveEdit hs | saveRescan hs | markOrphan hs =>
    exact Or.inl ⟨by rw [saveCopy_jobs hs]; exact List.Subset.refl _,
      by rw [saveCopy_jobs hs]; exact id, Or.inl rfl⟩
  | _ => exact Or.inl ⟨List.Subset.refl _, id, Or.inl rfl⟩

end

/-- **Each running job has one process.** -/
theorem Workers.step {ports : Ports} {st st' : State} {l : Label} (h : Workers st)
    (hs : step ports st l = some st') : Workers st' := by
  refine Interleaving.Inv.step (G := fun _ _ => True) (fun p q hpq j hq hp => hpq j hp hq)
    ?_ ?_ h trivial hs
  · intro st s w p hi _ hw
    rcases starts_jobs (start_starts hw) with ⟨hj, hp⟩ | ⟨job, hjob, hwait, hcase⟩
    · refine ⟨hj ▸ hi.world, works_of_none hp, fun q hq => ⟨?_, ?_⟩⟩
      · exact (hi.procs q hq).of_subset (by rw [hj]; exact List.Subset.refl _)
      · intro jobId hjob; rw [hp] at hjob; cases hjob
    · have hfree : ∀ q ∈ st.procs, jobOf q ≠ some job.jobId := fun q hq =>
        jobOf_ne_of_waiting hi.world (hi.procs q hq) hjob hwait
      rcases hcase with ⟨g, hg, hj, hp⟩ | ⟨copy, hj, rfl, hpay⟩
      · refine ⟨hj ▸ ScanQueue.keyed_modify hi.world _ hg, works_of_none hp,
          fun q hq => ⟨(hi.procs q hq).of_modify (hfree q hq) hj, ?_⟩⟩
        intro jobId hjob; rw [hp] at hjob; cases hjob
      · refine ⟨hj ▸ ScanQueue.keyed_modify hi.world _ fun _ => rfl, ?_,
          fun q hq => ⟨(hi.procs q hq).of_modify (hfree q hq) hj, ?_⟩⟩
        · rintro jobId copy' b he
          cases he
          refine ⟨job.activate, ?_, rfl, rfl, hpay⟩
          rw [hj, ScanQueue.mem_modify]
          exact Or.inl ⟨job, hjob, rfl, rfl⟩
        · rintro jobId he
          cases he
          exact hfree q hq
  · intro st i a p w p' hi _ hp hw
    have others : ∀ (j : ℕ) q, j ≠ i → st.procs[j]? = some q → JobsApart p q :=
      fun j q hj hq => hi.apart i j p q (Ne.symm hj) hp hq
    rcases acts_jobs (act_acts hw) with ⟨hsub, hk, hp'⟩ | ⟨jobId, copy, b, g, rfl, hg, hj, hp'⟩
    · refine ⟨hk hi.world, ?_, fun j q hj hq => ⟨(hi.proc hq).of_subset hsub, ?_⟩⟩
      · rcases hp' with hp' | ⟨jobId, copy, b, rfl, rfl⟩
        · exact works_of_none hp'
        · rintro jobId' copy' b' he
          cases he
          exact (hi.proc hp).of_subset hsub jobId copy none rfl
      · rcases hp' with hp' | ⟨jobId, copy, b, rfl, rfl⟩
        · intro jobId hjob; rw [hp'] at hjob; cases hjob
        · exact others j q hj hq
    · refine ⟨hj ▸ ScanQueue.keyed_modify hi.world _ hg, works_of_none hp',
        fun j q hjne hq => ⟨(hi.proc hq).of_modify (others j q hjne hq jobId rfl) hj, ?_⟩⟩
      intro jobId' hjob; rw [hp'] at hjob; cases hjob

/-! ## One step -/

section
variable {ports : Ports} {w : World} {f : File} {job : ScanJob}

/-- A verdict keeps the slot of the file. -/
theorem slot_of_scanVerdict {g : File} {answer : AntivirusScan} {now : ℕ}
    (h : ScanFile.verdict f answer now = .ok g) : g.resourceType = f.resourceType ∧
      g.resourceId = f.resourceId ∧ g.purpose = f.purpose := by
  obtain ⟨g₁, h₁, h⟩ := scanVerdict_cases h
  have hp := File.addScanToLatestVersion_eq_ok.mp h₁
  rcases h with ⟨-, h⟩ | ⟨-, -, h⟩ | ⟨-, -, rfl⟩
  · obtain ⟨-, hg⟩ := File.markReady_eq_ok.mp h
    rw [hg, hp]; exact ⟨rfl, rfl, rfl⟩
  · obtain ⟨-, hg⟩ := File.markInfected_eq_ok.mp h
    rw [hg, hp]; exact ⟨rfl, rfl, rfl⟩
  · rw [hp]; exact ⟨rfl, rfl, rfl⟩

/-- The job of a `PENDING` version scans it when a worker takes it. -/
theorem select_of_pending (ht : Tidy w.files) (hf : f ∈ w.files) (hp : f.status = .pending)
    (hu : f.latest.scans = []) (hpay : job.payload = payloadOf f) :
    ScanFile.select (Files.findById w.files (some job.payload.tenantId) job.payload.fileId)
      job.payload = .ok (some f) := by
  rw [select_eq_ok]
  refine ⟨?_, by rw [hpay]; rfl, hp, by rw [hpay]; rfl, hu⟩
  have hself : (f.id == job.payload.fileId && inScope (some job.payload.tenantId) f) = true := by
    rw [hpay]; simp [payloadOf, inScope]
  have hsome : (Files.findById w.files (some job.payload.tenantId) job.payload.fileId).isSome = true :=
    List.find?_isSome.mpr ⟨f, hf, hself⟩
  obtain ⟨g, hg⟩ := Option.isSome_iff_exists.mp hsome
  obtain ⟨hgm, hgid⟩ := Files.findById_some hg
  have hid : g.id = f.id := by rw [hgid, hpay]; rfl
  have heq : g = f := ht.keyed.eq_of_key_eq hgm hf hid
  rw [hg, heq]

/-- A copy that was read for the last version of a `PENDING` row is the row. -/
theorem copy_eq_of_payload {copy : File} (ht : Tidy w.files) (hb : IsBehind w.files copy)
    (hf : f ∈ w.files) (hp : f.status = .pending) (hu : f.latest.scans = [])
    (hpay : payloadOf copy = payloadOf f) : copy = f := by
  obtain ⟨r, hr, hid, hlater⟩ := hb
  have hpay' : copy.id = f.id ∧ copy.latest.version = f.latest.version := by
    simp only [payloadOf, ScanFilePayload.mk.injEq] at hpay
    exact hpay.2
  have hrf : r = f := ht.keyed.eq_of_key_eq hr hf (hid.trans hpay'.1)
  subst hrf
  rcases hlater with h | ⟨-, h | ⟨-, h | h⟩⟩
  · exact h.symm
  · omega
  · exact absurd hp h
  · exact absurd hu h

/-- Nothing stands in the way of the verdict on a row. -/
theorem saveCopy_ok_of_pending {answer : AntivirusScan} {now : ℕ} (ht : Tidy w.files) (hf : f ∈ w.files)
    (hp : f.status = .pending) : ∃ w', saveCopy w f (.scan answer) now = .ok w' := by
  obtain ⟨g₁, h₁⟩ : ∃ g₁, f.addScanToLatestVersion answer now = .ok g₁ := by
    unfold File.addScanToLatestVersion
    rw [File.getLatestVersion_eq]
    exact ⟨_, rfl⟩
  have hst : g₁.status = .pending := by rw [(latest_scans_of_addScan h₁).2, hp]
  obtain ⟨g, hg⟩ : ∃ g, ScanFile.verdict f answer now = .ok g := by
    unfold ScanFile.verdict
    rw [h₁]
    simp only [bind, Except.bind]
    split_ifs
    · unfold File.markReady; rw [if_neg (not_not.mpr hst)]; exact ⟨_, rfl⟩
    · unfold File.markInfected; rw [if_neg (not_not.mpr hst)]; exact ⟨_, rfl⟩
    · exact ⟨_, rfl⟩
  have he := edited_of_apply (show Edit.apply f now (.scan answer) = .ok g from hg)
  have hslot : ∀ r ∈ w.files, r.id ≠ g.id → sameSlot r g = false := by
    intro r hr hne
    have hrf := ht.slots r hr f hf (by rw [← he.id]; exact hne)
    by_contra hsame
    have hsame' : sameSlot r g = true := by simpa using hsame
    have hkeep : g.resourceType = f.resourceType ∧ g.resourceId = f.resourceId ∧
        g.purpose = f.purpose := slot_of_scanVerdict hg
    simp only [sameSlot, Bool.and_eq_true, beq_iff_eq] at hsame'
    obtain ⟨⟨⟨⟨⟨ha, -⟩, h₁⟩, h₂⟩, h₃⟩, h₄⟩ := hsame'
    have : sameSlot r f = true := by
      simp only [sameSlot, Bool.and_eq_true, beq_iff_eq]
      refine ⟨⟨⟨⟨⟨ha, by rw [isActive, hp]; rfl⟩, ?_⟩, ?_⟩, ?_⟩, ?_⟩
      · rw [h₁, he.tenantId]
      · rw [h₂, hkeep.1]
      · rw [h₃, hkeep.2.1]
      · rw [h₄, hkeep.2.2]
    rw [this] at hrf
    cases hrf
  have hu := Files.update_eq_ok.mpr ⟨⟨f, hf, he.id.symm, he.version.symm⟩, hslot, rfl⟩
  refine ⟨{ w with files := OptimisticLock.write (·.id) (·.version) w.files g (Files.bump g) }, ?_⟩
  unfold saveCopy
  rw [show Edit.apply f now (.scan answer) = .ok g from hg]
  simp only [bind, Except.bind, hu]
  rfl

/-- A job that has not ended stays so when another one changes, or when it goes on itself. -/
theorem HasJob.modify {jobs : Persistence.ScanQueue} {payload : ScanFilePayload} {jobId : String}
    {g : ScanJob → ScanJob} (h : HasJob jobs payload)
    (hg : ∀ job ∈ jobs, job.jobId = jobId → job.payload = payload →
      (g job).payload = payload ∧ (g job).isPending = true) :
    HasJob (jobs.modify jobId g) payload := by
  obtain ⟨job, hj, hpay, hpend⟩ := h
  by_cases hid : job.jobId = jobId
  · obtain ⟨hpay', hpend'⟩ := hg job hj hid hpay
    exact ⟨g job, ScanQueue.mem_modify.mpr (Or.inl ⟨job, hj, hid, rfl⟩), hpay', hpend'⟩
  · exact ⟨job, ScanQueue.mem_modify.mpr (Or.inr ⟨hj, hid⟩), hpay, hpend⟩

/-- No start ends the job of a `PENDING` version: a worker that takes it scans. -/
theorem HasJob.start {s : Start} {w' : World} {p : Proc} (h : HasJob w.jobs (payloadOf f))
    (hs : Starts ports w s w' p) (ht : Tidy w.files) (hk : Keyed ScanJob.jobId w.jobs)
    (hf : f ∈ w.files) (hp : f.status = .pending) (hu : f.latest.scans = []) :
    HasJob w'.jobs (payloadOf f) := by
  have scans : ∀ {jobId job o}, job ∈ w.jobs → job.jobId = jobId →
      ScanFile.select (Files.findById w.files (some job.payload.tenantId) job.payload.fileId)
        job.payload = o → o ≠ .ok (some f) →
      ∀ job' ∈ w.jobs, job'.jobId = jobId → job'.payload ≠ payloadOf f := by
    intro jobId job o hj hid hsel ho job' hj' hid' hpay
    have he : job' = job := hk.eq_of_key_eq hj' hj (hid'.trans hid.symm)
    subst he
    rw [select_of_pending ht hf hp hu hpay] at hsel
    exact ho hsel.symm
  cases hs with
  | scanThrows hj hid _ hsel =>
    exact h.modify fun job' hj' hid' hpay => absurd hpay (scans hj hid hsel nofun job' hj' hid')
  | scanReturns hj hid _ hsel =>
    exact h.modify fun job' hj' hid' hpay => absurd hpay (scans hj hid hsel nofun job' hj' hid')
  | scan => exact h.modify fun job' _ _ hpay => ⟨hpay, rfl⟩
  | _ => exact h

/-- No action ends the job of a `PENDING` version that it leaves `PENDING`. -/
theorem HasJob.act {st : State} {i : ℕ} {a : Action} {p p' : Proc} {w' : World}
    (h : HasJob st.world.jobs (payloadOf f)) (ha : Acts ports st.procs st.world p a w' p')
    (hp : st.procs[i]? = some p) (hl : Healthy (.act i a)) (hc : Coherent st) (hw : Workers st)
    (hf : f ∈ st.world.files) (hf' : f ∈ w'.files) (hst : f.status = .pending)
    (hu : f.latest.scans = []) : HasJob w'.jobs (payloadOf f) := by
  -- the job of a worker with another copy is another job
  have other : ∀ {jobId copy b}, p = .scanning jobId copy b → copy ≠ f →
      ∀ job ∈ st.world.jobs, job.jobId = jobId → job.payload ≠ payloadOf f := by
    rintro jobId copy b rfl hne job hj hid hpay
    obtain ⟨job', hj', hid', -, hpay'⟩ := hw.proc hp jobId copy b rfl
    have he : job = job' := hw.world.eq_of_key_eq hj hj' (hid.trans hid'.symm)
    subst he
    have hb : IsBehind st.world.files copy := (hc.proc hp).2 copy (by simp [Proc.copies])
    exact hne (copy_eq_of_payload hc.world hb hf hst hu (hpay'.symm.trans hpay))
  cases ha with
  | enqueue =>
    obtain ⟨job, hj, hjob⟩ := h
    exact ⟨job, ScanQueue.subset_enqueue _ _ _ hj, hjob⟩
  | saveScan hs =>
    obtain ⟨g, files, hg, hupd, rfl⟩ := saveCopy_not_delete hs (fun he => by cases he)
    have he := edited_of_apply hg
    refine h.modify fun job hj hid hpay => absurd hpay (other rfl ?_ job hj hid)
    rintro rfl
    rcases cases_of_update hc.world _ hf he.id he.version hupd hf' with hb | ⟨-, hne⟩
    · have hv := congrArg (·.version) hb
      have hv' := he.version
      simp only [Files.bump_version] at hv
      omega
    · exact hne he.id.symm
  | scanFails hs =>
    refine h.modify fun job hj hid hpay => absurd hpay (other rfl ?_ job hj hid)
    rintro rfl
    obtain ⟨w₁, hok⟩ := saveCopy_ok_of_pending hc.world hf hst
    rw [hok] at hs
    cases hs
  | failScan => exact absurd hl id
  | saveEdit hs | saveRescan hs | markOrphan hs =>
    rw [saveCopy_jobs hs]
    exact h
  | _ => exact h

theorem payload_of_requested {now : ℕ} {r : Request} {g : File} (h : Requested ports now r g) :
    payloadOf g = r.payload := by
  rw [payloadOf, h.tenantId, h.id, h.latest_version]
  rfl

theorem acts_of_enqueued {procs : List Proc} {r : Request} {check : QuotaCheck} {now : ℕ}
    {a : Action} {w' : World} {p' : Proc} (h : Acts ports procs w (.enqueued r check now) a w' p') :
    a = .commit ∨ w' = w := by
  cases h with
  | commit => exact Or.inl rfl
  | abort => exact Or.inr rfl

theorem mem_of_save {files files' : Files} {r : Request} {g : File} (h : r.save files g = .ok files')
    (hf : f ∈ files') : payloadOf f = payloadOf g ∨ f ∈ files := by
  cases r with
  | upload input fileId =>
    obtain ⟨-, rfl⟩ := Files.create_eq_ok.mp h
    rcases List.mem_cons.mp hf with rfl | hf
    · exact Or.inl rfl
    · exact Or.inr hf
  | replace input copy =>
    rcases mem_of_update h hf with rfl | hf
    · exact Or.inl rfl
    · exact Or.inr hf

theorem exists_of_save {files files' : Files} {r : Request} {g : File}
    (h : r.save files g = .ok files') :
    ∃ f ∈ files', payloadOf f = payloadOf g ∧ f.status = g.status := by
  cases r with
  | upload input fileId =>
    obtain ⟨-, rfl⟩ := Files.create_eq_ok.mp h
    exact ⟨g, List.mem_cons_self, rfl, rfl⟩
  | replace input copy =>
    obtain ⟨⟨r, hr, hm⟩, -, rfl⟩ := Files.update_eq_ok.mp h
    refine ⟨Files.bump g, ?_, rfl, rfl⟩
    exact (OptimisticLock.mem_write ⟨r, hr, OptimisticLock.matching_iff.mpr hm⟩).mpr (Or.inl rfl)

/-- A `PENDING` row of the next state was a row, or is the one of the request that commits. -/
theorem pending_of_acts {st : State} {i : ℕ} {a : Action} {p p' : Proc} {w' : World}
    (ha : Acts ports st.procs st.world p a w' p') (hp : st.procs[i]? = some p)
    (hl : Healthy (.act i a)) (hc : Coherent st) (hf : f ∈ w'.files) (hst : f.status = .pending) :
    f ∈ st.world.files ∨
      ∃ r check now, p = .enqueued r check now ∧ a = .commit ∧ payloadOf f = r.payload := by
  rcases acts_files ha (hc.proc hp).1 with he | ⟨r, check, now, g, rfl, hg, hsave⟩ |
    ⟨copy, -, edit, now, g, hall, hsv, hg, hu⟩
  · rw [he] at hf; exact Or.inl hf
  · rcases acts_of_enqueued ha with rfl | rfl
    · rcases mem_of_save hsave hf with hpay | hf
      · exact Or.inr ⟨r, check, now, rfl, rfl, hpay.trans (payload_of_requested (requested_of_row hg))⟩
      · exact Or.inl hf
    · exact Or.inl hf
  · rcases mem_of_update hu hf with rfl | hf
    · have hd := decided_of_apply hall (answer_of_saves hl hsv) hg
      exact absurd hst hd
    · exact Or.inl hf

/-- **One step keeps all scans exactly when** the job of the version it commits has not ended. -/
theorem noScanLost_step_iff {st st' : State} {l : Label} (hc : Coherent st) (hu : Known Unscanned st)
    (hw : Workers st) (hn : NoScanLost st) (hl : Healthy l) (hs : step ports st l = some st') :
    NoScanLost st' ↔ JobOutlives st l := by
  cases l with
  | start s =>
    obtain ⟨w, p, hst, rfl⟩ := Interleaving.step_start.mp hs
    have hst := start_starts hst
    refine iff_of_true (fun f hf hp => ?_) (fun i r check now h => by cases h)
    have hf : f ∈ st.world.files := by
      have he := starts_files hst
      rw [← he]; exact hf
    exact (hn f hf hp).start hst hc.world hw.world hf hp (hu.world f hf hp)
  | act i a =>
    obtain ⟨p, w, p', hp, hact, rfl⟩ := Interleaving.step_act.mp hs
    have ha := act_acts hact
    constructor
    · rintro hn' i' r check now he hr
      cases he
      rw [hp] at hr
      cases hr
      cases ha with
      | commit h =>
        obtain ⟨g, hg, hsave, -⟩ := persist_eq_ok.mp h
        obtain ⟨f, hf, hpay, hst⟩ := exists_of_save hsave
        have hr := requested_of_row hg
        have hj := hn' f hf (hst.trans hr.status)
        rw [hpay, payload_of_requested hr] at hj
        exact hj
    · intro hjob f hf hst
      rcases pending_of_acts ha hp hl hc hf hst with hf₁ | ⟨r, check, now, rfl, rfl, hpay⟩
      · exact (hn f hf₁ hst).act ha hp hl hc hw hf₁ hf hst (hu.world f hf₁ hst)
      · have hj := hjob i r check now rfl hp
        cases ha with
        | commit => rw [hpay]; exact hj

end

/-! ## Runs -/

/-- A state at rest, where every `PENDING` file waits for its scan. -/
structure AtRest (st : State) : Prop where
  idle : st.procs = []
  tidy : Tidy st.world.files
  jobs : Keyed ScanJob.jobId st.world.jobs
  unscanned : ∀ f ∈ st.world.files, Unscanned f
  kept : NoScanLost st

theorem atRest_emptySystem : AtRest emptySystem :=
  { idle := rfl, tidy := tidy_nil, jobs := List.nodup_nil
    unscanned := fun _ h => absurd h List.not_mem_nil
    kept := fun _ h => absurd h List.not_mem_nil }

/-- **No scan is lost exactly when** no job ends before the commit of its version. -/
theorem scans_kept_iff {ports : Ports} {st st' : State} {ls : List Label} (h : AtRest st)
    (hl : ∀ l ∈ ls, Healthy l) (hr : run (step ports) st ls = some st') :
    AllStates (step ports) NoScanLost st ls ↔ AllSteps (step ports) JobOutlives st ls := by
  have hC : AllSteps (step ports) (fun _ l => Healthy l) st ls :=
    allSteps_of_forall (fun l hm _ => hl l hm) st
  have hI : Coherent st ∧ Known Unscanned st ∧ Workers st :=
    ⟨coherent_of_idle h.idle h.tidy, Interleaving.Inv.of_nil h.unscanned h.idle,
      Interleaving.Inv.of_nil h.jobs h.idle⟩
  refine allStates_iff_allSteps (I := fun s => Coherent s ∧ Known Unscanned s ∧ Workers s)
    ?_ ?_ hI h.kept hC hr
  · rintro s l s' ⟨hc, hu, hw⟩ - hl - hs
    exact ⟨hc.step hs, known_unscanned_step hu hl hs, hw.step hs⟩
  · rintro s l s' ⟨hc, hu, hw⟩ hn hl hs
    exact noScanLost_step_iff hc hu hw hn hl hs

/-- `JobOutlives` by evaluation. -/
def jobOutlives (st : State) : Label → Bool
  | .act i .commit =>
    match st.procs[i]? with
    | some (.enqueued r _ _) => st.world.jobs.any fun job => job.payload == r.payload && job.isPending
    | _ => true
  | _ => true

theorem jobOutlives_sound (st : State) (l : Label) (h : jobOutlives st l = true) : JobOutlives st l := by
  rintro i r check now rfl hp
  simp only [jobOutlives, hp, List.any_eq_true, Bool.and_eq_true, beq_iff_eq] at h
  exact h

theorem healthy_readyRun : ∀ l ∈ readyRun, Healthy l := by
  simp [readyRun, uploadRun, Healthy, cleanScan, AntivirusScan.hasError]

theorem scans_kept_iff_readyRun :
    AllStates (step pdfPorts) NoScanLost emptySystem readyRun ∧
      AllSteps (step pdfPorts) JobOutlives emptySystem readyRun := by
  have hrun : (run (step pdfPorts) emptySystem readyRun).isSome = true := by decide
  obtain ⟨st, hst⟩ := Option.isSome_iff_exists.mp hrun
  have hout : checkSteps (step pdfPorts) jobOutlives emptySystem readyRun = true := by decide
  have hsteps := allSteps_of_checkSteps jobOutlives_sound hout
  exact ⟨(scans_kept_iff atRest_emptySystem healthy_readyRun hst).mpr hsteps, hsteps⟩

/-- The worker takes the job of version `2` before the replace commits: it finds the file `READY`
and reports success. -/
def earlyScanRun : List Label :=
  readyRun ++
    [.start (.replace (some "t") (replaceInput pdf₂)), .act 2 .verifyQuota, .act 2 .upload,
      .act 2 (.write 3), .act 2 .enqueue, .start (.scan "file-scan:f:v2"), .act 2 .commit]

/-- A `PENDING` file has no job that has not ended. -/
def lostScan (st : State) : Bool :=
  st.world.files.any fun f => f.status == .pending &&
    st.world.jobs.all fun job => job.payload != payloadOf f || !job.isPending

theorem not_noScanLost_of_lostScan {st : State} (h : lostScan st = true) : ¬ NoScanLost st := by
  intro hn
  simp only [lostScan, List.any_eq_true, Bool.and_eq_true, beq_iff_eq, List.all_eq_true,
    Bool.or_eq_true, bne_iff_ne, Bool.not_eq_true'] at h
  obtain ⟨f, hf, hp, hall⟩ := h
  obtain ⟨job, hj, hpay, hpend⟩ := hn f hf hp
  rcases hall job hj with hne | hend
  · exact hne hpay
  · rw [hend] at hpend; cases hpend

/-- The file is `PENDING` and its job is completed. -/
theorem scan_lost_by_earlyScan : ¬ ∀ (ports : Ports) (st : State) (ls : List Label), AtRest st →
    (∀ l ∈ ls, Healthy l) → AllStates (step ports) NoScanLost st ls := by
  intro h
  have hrun : (run (step pdfPorts) emptySystem earlyScanRun).any lostScan = true := by decide
  obtain ⟨st, hst, hlost⟩ := (Option.any_eq_true _ _).mp hrun
  have hl : ∀ l ∈ earlyScanRun, Healthy l := by
    simp [earlyScanRun, readyRun, uploadRun, Healthy, cleanScan, AntivirusScan.hasError]
  exact not_noScanLost_of_lostScan hlost
    ((h pdfPorts emptySystem earlyScanRun atRest_emptySystem hl).last hst)

end Neltrik.FileStorage.ScanQueue
