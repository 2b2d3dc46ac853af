import Neltrik.FileStorage.Steps
import Mathlib.Tactic.Linarith

/-! # The counter of a quota under interleavings

The counter `usedBytes` has two writers. Commits and deletes move it by an atomic increment or
decrement (`QuotaStep`); an adjustment of the limit writes back the whole row it has read.

* `limit_kept_iff`: while nobody adjusts the limit of a tenant, a commit stays within it exactly when
  what was moved since the quota check of the request leaves room for its size.
* `usage_kept_iff`: the counter is the initial one plus all that was moved, and an adjustment changes
  nothing but the limit, exactly when nothing was moved, in sum, between the read and the write of an
  adjustment. -/

namespace Neltrik.FileStorage.QuotaCounter

open Neltrik.Lib Neltrik.Lib.Machine Neltrik.FileStorage.Domain Neltrik.FileStorage.Persistence
open Neltrik.FileStorage.Validation Neltrik.FileStorage.UseCases Neltrik.FileStorage.System
open Neltrik.FileStorage.Steps

/-- The counter of a tenant. -/
def used (w : World) (tenantId : String) : ℕ := w.quotas.used tenantId

theorem used_of_some {w : World} {t : String} {q : FileQuota} (h : w.quotas t = some q) :
    used w t = q.usedBytes := Quotas.used_of_some h

def Keyed (w : World) : Prop := w.quotas.Keyed

/-! ## The steps of the counter -/

/-- What every action but the write of an adjustment does to the quotas. -/
inductive QuotaStep (w w' : World) : Prop where
  | same (hq : w'.quotas = w.quotas) (hm : w'.moved = w.moved)
  | created (t : String) (q : FileQuota) (hnone : w.quotas t = none) (ht : q.tenantId = t)
      (hu : q.usedBytes = 0) (hq : w'.quotas = Function.update w.quotas t (some q))
      (hm : w'.moved = w.moved)
  | moved (t : String) (q q' : FileQuota) (d : ℤ) (hsome : w.quotas t = some q)
      (hq : w'.quotas = Function.update w.quotas t (some q'))
      (hm : w'.moved = Function.update w.moved t (w.moved t + d))
      (hu : (q'.usedBytes : ℤ) = q.usedBytes + d) (ht : q'.tenantId = q.tenantId)
      (hid : q'.id = q.id) (hl : q'.limitBytes = q.limitBytes) (hc : q'.createdAt = q.createdAt)

theorem quotaStep_of_saveCopy {w w' : World} {copy : File} {edit : Edit} {now : ℕ}
    (h : saveCopy w copy edit now = .ok w') : QuotaStep w w' := by
  obtain ⟨file, files, -, -, rfl | ⟨-, quotas, hq, rfl⟩⟩ := saveCopy_eq_ok h
  · exact .same rfl rfl
  · obtain ⟨q, hsome, hle, rfl⟩ := Quotas.decrementUsedBytes_eq_ok hq
    refine .moved file.tenantId q _ (-file.getTotalSize) hsome rfl ?_ ?_ rfl rfl rfl rfl
    · dsimp only; rw [sub_eq_add_neg]
    · dsimp only; omega

section
variable {ports : Ports} {procs : List Proc} {w w' : World} {p p' : Proc}

/-- The start of a process leaves the quotas. -/
theorem starts_quotas {s : Start} (h : Starts ports w s w' p) : QuotaStep w w' := by
  cases h <;> exact .same rfl rfl

theorem acts_quotas {a : Action} (h : Acts ports procs w p a w' p') : QuotaStep w w' ∨
    ∃ copy newLimitBytes m now quota, p = .adjusting copy newLimitBytes m ∧ a = .saveLimit now ∧
      AdjustQuotaLimit.adjusted copy newLimitBytes now = .ok quota ∧
      Quotas.update w.quotas quota = .ok w'.quotas ∧ w'.moved = w.moved := by
  cases h with
  | createQuota h =>
    left
    rcases Quotas.createOrGet_eq_ok h with rfl | ⟨q, hnone, ht, hu, rfl⟩
    · exact .same rfl rfl
    · exact .created _ q hnone ht hu rfl rfl
  | commit h =>
    left
    obtain ⟨-, -, -, hinc⟩ := persist_eq_ok.mp h
    obtain ⟨q, hsome, rfl⟩ := Quotas.incrementUsedBytes_eq_ok hinc
    exact .moved _ q _ _ hsome rfl rfl (by push_cast; rfl) rfl rfl rfl rfl
  | saveEdit h | saveRescan h | markOrphan h => exact Or.inl (quotaStep_of_saveCopy h)
  | saveScan h =>
    left
    obtain ⟨file, files, -, -, rfl⟩ := saveCopy_not_delete h nofun
    exact .same rfl rfl
  | saveLimit ha hu => exact Or.inr ⟨_, _, _, _, _, rfl, rfl, ha, hu, rfl⟩
  | _ => exact Or.inl (.same rfl rfl)

end

/-- An action of a counter leaves the row of a tenant alone, creates it or moves it. -/
theorem QuotaStep.row {w w' : World} (h : QuotaStep w w') {t : String} {q : FileQuota}
    (hq : w.quotas t = some q) : ∃ q', w'.quotas t = some q' ∧ q'.id = q.id ∧
      q'.tenantId = q.tenantId ∧ q'.createdAt = q.createdAt ∧ q'.limitBytes = q.limitBytes ∧
      (q'.usedBytes : ℤ) - w'.moved t = q.usedBytes - w.moved t := by
  cases h with
  | same hq' hm => exact ⟨q, by rw [hq', hq], rfl, rfl, rfl, rfl, by rw [hm]⟩
  | created t₀ q₀ hnone _ _ hq' hm =>
    have hne : t ≠ t₀ := fun he => by rw [he, hnone] at hq; cases hq
    exact ⟨q, by rw [hq', Function.update_of_ne hne, hq], rfl, rfl, rfl, rfl, by rw [hm]⟩
  | moved t₀ q₀ q₁ d hsome hq' hm hu ht hid hl hc =>
    by_cases hne : t = t₀
    · subst hne
      rw [hsome] at hq; cases hq
      refine ⟨q₁, by rw [hq', Function.update_self], hid, ht, hc, hl, ?_⟩
      rw [hm, Function.update_self]; omega
    · refine ⟨q, by rw [hq', Function.update_of_ne hne, hq], rfl, rfl, rfl, rfl, ?_⟩
      rw [hm, Function.update_of_ne hne]

theorem QuotaStep.used {w w' : World} (h : QuotaStep w w') (t : String) :
    (used w' t : ℤ) - w'.moved t = used w t - w.moved t := by
  cases h with
  | same hq hm => rw [QuotaCounter.used, QuotaCounter.used, Quotas.used, Quotas.used, hq, hm]
  | created t₀ q₀ hnone _ hu hq hm =>
    by_cases hne : t = t₀
    · subst hne
      rw [QuotaCounter.used, QuotaCounter.used, Quotas.used, Quotas.used, hq, hm, Function.update_self, hnone]
      simp [hu]
    · rw [QuotaCounter.used, QuotaCounter.used, Quotas.used, Quotas.used, hq, hm, Function.update_of_ne hne]
  | moved t₀ q₀ q₁ d hsome hq hm hu _ _ _ _ =>
    by_cases hne : t = t₀
    · subst hne
      rw [QuotaCounter.used, QuotaCounter.used, Quotas.used, Quotas.used, hq, hm, Function.update_self,
        Function.update_self,
        hsome]
      simp only [Option.elim_some]; omega
    · rw [QuotaCounter.used, QuotaCounter.used, Quotas.used, Quotas.used, hq, hm, Function.update_of_ne hne,
        Function.update_of_ne hne]

theorem QuotaStep.keyed {w w' : World} (h : QuotaStep w w') (hk : Keyed w) : Keyed w' := by
  unfold Keyed at hk ⊢
  cases h with
  | same hq _ => rw [hq]; exact hk
  | created t q _ ht _ hq _ => rw [hq]; exact hk.update ht
  | moved t q q' d hsome hq _ _ ht _ _ _ => rw [hq]; exact hk.update (ht.trans (hk t q hsome))

/-! ## The write of an adjustment -/

theorem keyed_update {w w' : World} {q : FileQuota} (hk : Keyed w)
    (h : w'.quotas = Function.update w.quotas q.tenantId (some q)) : Keyed w' := by
  rw [Keyed, h]
  exact Quotas.Keyed.update hk rfl

/-! ## The limit -/

/-- The request of a process that has passed its quota check, and what it read there. -/
def admitted : Proc → Option (Request × QuotaCheck)
  | .admitted r check | .uploaded r check | .written r check _ | .enqueued r check _ => some (r, check)
  | _ => none

/-- What a quota check read, brought up to date by what was moved since, is the row. -/
def CheckOk (t : String) (w : World) (p : Proc) : Prop :=
  (∀ r check, admitted p = some (r, check) → r.tenantId = t → ∃ q, w.quotas t = some q ∧
    q.limitBytes = check.limitBytes ∧ (q.usedBytes : ℤ) = check.usedBytes + (w.moved t - check.moved)) ∧
  ∀ copy n m, p = .adjusting copy n m → copy.tenantId ≠ t

theorem admitted_of_acts {ports : Ports} {procs : List Proc} {w w' : World} {p p' : Proc} {a : Action}
    (h : Acts ports procs w p a w' p') {r : Request} {check : QuotaCheck}
    (hp' : admitted p' = some (r, check)) : admitted p = some (r, check) ∨
      w' = w ∧ ∃ q, w.quotas r.tenantId = some q ∧
        check = ⟨q.usedBytes, q.limitBytes, w.moved r.tenantId⟩ := by
  cases h with
  | accept hq _ => cases hp'; exact Or.inr ⟨rfl, _, hq, rfl⟩
  | upload | write | enqueue => exact Or.inl hp'
  | _ => cases hp'

theorem CheckOk.of_quotaStep {t : String} {w w' : World} {p : Proc} (h : CheckOk t w p)
    (hs : QuotaStep w w') : CheckOk t w' p := by
  refine ⟨fun r check hp ht => ?_, h.2⟩
  obtain ⟨q, hq, hl, hu⟩ := h.1 r check hp ht
  obtain ⟨q', hq', -, -, -, hl', hu'⟩ := hs.row hq
  exact ⟨q', hq', hl'.trans hl, by omega⟩

theorem CheckOk.of_update {t : String} {w w' : World} {p : Proc} {q : FileQuota} (h : CheckOk t w p)
    (hne : q.tenantId ≠ t) (hq : w'.quotas = Function.update w.quotas q.tenantId (some q))
    (hm : w'.moved = w.moved) : CheckOk t w' p := by
  refine ⟨fun r check hp ht => ?_, h.2⟩
  rw [hq, hm, Function.update_of_ne (Ne.symm hne)]
  exact h.1 r check hp ht

/-- The checks of the requests of one tenant, whose limit nobody adjusts. -/
abbrev Checked (t : String) : State → Prop :=
  Interleaving.Inv Keyed (CheckOk t) (fun _ _ => True)

theorem Checked.step {ports : Ports} {t : String} {st st' : State} {l : Label} (h : Checked t st)
    (hfix : ∀ n, l ≠ .start (.adjust t n)) (hs : step ports st l = some st') : Checked t st' := by
  refine Interleaving.Inv.step (G := fun _ l => ∀ n, l ≠ .start (.adjust t n))
    (fun _ _ _ => trivial) ?_ ?_ h hfix hs
  · intro st s w p hi hfix hw
    have hw := start_starts hw
    have hstep : QuotaStep st.world w := starts_quotas hw
    refine ⟨hstep.keyed hi.world, ?_, fun q hmem => ⟨(hi.procs q hmem).of_quotaStep hstep, trivial⟩⟩
    refine ⟨fun r check hp _ => ?_, fun copy n m hp => ?_⟩
    · cases hw <;> cases hp
    · cases hw with
      | adjust hquota =>
        cases hp
        rw [hi.world _ _ hquota]
        exact fun he => hfix n (by rw [he])
      | _ => cases hp
  · intro st i a p w p' hi _ hp hw
    have hw := act_acts hw
    have hadj : ∀ copy n m, p' ≠ .adjusting copy n m := by
      intro copy n m he
      cases hw <;> cases he
    rcases acts_quotas hw with hstep | ⟨copy, n, m, now, quota, rfl, rfl, ha, hu, hm⟩
    · refine ⟨hstep.keyed hi.world, ⟨fun r check hp' ht => ?_, fun copy n m he => absurd he (hadj _ _ _)⟩,
        fun j q _ hq => ⟨(hi.proc hq).of_quotaStep hstep, trivial⟩⟩
      rcases admitted_of_acts hw hp' with hadm | ⟨rfl, q, hq, rfl⟩
      · exact ((hi.proc hp).of_quotaStep hstep).1 r check hadm ht
      · subst ht
        exact ⟨q, hq, rfl, by simp⟩
    · obtain ⟨-, -, ht, -, -⟩ := AdjustQuotaLimit.adjusted_eq_ok ha
      obtain ⟨-, -, -, hq⟩ := Quotas.update_eq_ok hu
      have hne : quota.tenantId ≠ t := by rw [ht]; exact (hi.proc hp).2 copy n m rfl
      have hfin : p' = .finished := by cases hw <;> rfl
      refine ⟨keyed_update hi.world hq, ⟨fun r check hp' _ => ?_, fun _ _ _ he => absurd he (hadj _ _ _)⟩,
        fun j q _ hq' => ⟨(hi.proc hq').of_update hne hq hm, trivial⟩⟩
      rw [hfin] at hp'
      cases hp'

/-- A commit of the tenant leaves the counter within the limit. -/
def StaysWithinLimit (ports : Ports) (t : String) (st : State) (l : Label) : Prop :=
  ∀ i r check now st', l = .act i .commit → st.procs[i]? = some (.enqueued r check now) →
    r.tenantId = t → step ports st l = some st' →
    ∀ q, st'.world.quotas t = some q → q.usedBytes ≤ q.limitBytes

/-- When a request of the tenant commits, the bytes moved for the tenant since its quota check leave
room for its size. -/
def HasRoom (t : String) (st : State) (l : Label) : Prop :=
  ∀ i r check now, l = .act i .commit → st.procs[i]? = some (.enqueued r check now) →
    r.tenantId = t →
    (check.usedBytes : ℤ) + (st.world.moved t - check.moved) + r.size ≤ check.limitBytes

/-- One commit, from a state whose checks are up to date. -/
theorem staysWithinLimit_iff {ports : Ports} {t : String} {st st' : State} {l : Label}
    (h : Checked t st) (hs : step ports st l = some st') :
    StaysWithinLimit ports t st l ↔ HasRoom t st l := by
  have key : ∀ i r check now, l = .act i .commit → st.procs[i]? = some (.enqueued r check now) →
      r.tenantId = t → ∃ q', st'.world.quotas t = some q' ∧ q'.limitBytes = check.limitBytes ∧
        (q'.usedBytes : ℤ) = check.usedBytes + (st.world.moved t - check.moved) + r.size := by
    rintro i r check now rfl hp ht
    obtain ⟨p, w, p', hp₁, hw, rfl⟩ := Interleaving.step_act.mp hs
    rw [hp] at hp₁; cases hp₁
    obtain ⟨q, hq, hl, hu⟩ := (h.proc hp).1 r check rfl ht
    cases act_acts hw with
    | commit hpersist =>
      obtain ⟨-, -, -, hinc⟩ := persist_eq_ok.mp hpersist
      obtain ⟨q₀, hq₀, hquotas⟩ := Quotas.incrementUsedBytes_eq_ok hinc
      rw [ht, hq] at hq₀; cases hq₀
      refine ⟨{ q with usedBytes := q.usedBytes + r.size, updatedAt := now }, ?_, hl, ?_⟩
      · dsimp only; rw [hquotas, ht, Function.update_self]
      · push_cast; rw [hu]
  constructor
  · intro hwithin i r check now hl hp ht
    obtain ⟨q', hq', hlim, hu⟩ := key i r check now hl hp ht
    have hle := hwithin i r check now st' hl hp ht hs q' hq'
    rw [← hu, ← hlim]
    exact_mod_cast hle
  · intro hroom i r check now st'' hl hp ht hs' q hq
    rw [hs] at hs'; cases hs'
    obtain ⟨q', hq', hlim, hu⟩ := key i r check now hl hp ht
    rw [hq] at hq'; cases hq'
    have hle := hroom i r check now hl hp ht
    rw [← hu, ← hlim] at hle
    exact_mod_cast hle

/-- **The limit is kept exactly when every commit has room.** In a run in which nobody adjusts the
limit of the tenant, from any counter and limit: each commit leaves the counter within the limit if
and only if, at each commit, the quota read at the check of the request, with all that was moved
since, still has room for its size. -/
theorem limit_kept_iff {ports : Ports} {t : String} {st st' : State} {ls : List Label}
    (hidle : st.procs = []) (hk : Keyed st.world) (hfix : ∀ n, .start (.adjust t n) ∉ ls)
    (hr : run (step ports) st ls = some st') :
    AllSteps (step ports) (StaysWithinLimit ports t) st ls ↔
      AllSteps (step ports) (HasRoom t) st ls := by
  have hc : AllSteps (step ports) (fun _ l => ∀ n, l ≠ .start (.adjust t n)) st ls := by
    refine allSteps_of_forall (fun l hl _ n he => ?_) st
    rw [he] at hl
    exact hfix n hl
  exact allSteps_congr (fun _ _ _ h hfix hs => Checked.step h hfix hs)
    (fun _ _ _ h hs => staysWithinLimit_iff h hs) (Interleaving.Inv.of_nil hk hidle) hc hr

/-- One upload into an empty system. -/
theorem limit_kept_iff_uploadRun :
    AllSteps (step pdfPorts) (StaysWithinLimit pdfPorts "t") emptySystem uploadRun ↔
      AllSteps (step pdfPorts) (HasRoom "t") emptySystem uploadRun := by
  have hrun : (run (step pdfPorts) emptySystem uploadRun).isSome = true := by decide
  obtain ⟨st, hst⟩ := Option.isSome_iff_exists.mp hrun
  exact limit_kept_iff rfl (fun _ _ hq => nomatch hq) (fun n => by simp [uploadRun]) hst

/-! ### Two uploads that pass the check on the same free space -/

/-- The commit of process `i` takes the counter above the limit. -/
def commitExceeds (ports : Ports) (t : String) (i : ℕ) (st : State) : Bool :=
  match st.procs[i]? with
  | some (.enqueued r _ _) => r.tenantId == t && (step ports st (.act i .commit)).any fun st' =>
      (st'.world.quotas t).any fun q => q.limitBytes < q.usedBytes
  | _ => false

theorem not_staysWithinLimit {ports : Ports} {t : String} {i : ℕ} {st : State}
    (h : commitExceeds ports t i st = true) : ¬ StaysWithinLimit ports t st (.act i .commit) := by
  intro hwithin
  unfold commitExceeds at h
  split at h
  · rename_i r check now hp
    rw [Bool.and_eq_true, beq_iff_eq, Option.any_eq_true] at h
    obtain ⟨ht, st', hs, hq⟩ := h
    obtain ⟨q, hq, hlt⟩ := (Option.any_eq_true _ _).mp hq
    have hle := hwithin i r check now st' rfl hp ht hs q hq
    have hlt' : q.limitBytes < q.usedBytes := by simpa using hlt
    omega
  · cases h

/-- A tenant with the default limit and six bytes left. -/
def nearlyFull : State :=
  { emptySystem with
    world := { emptySystem.world with
      quotas := Function.update emptySystem.world.quotas "t"
        (some ⟨"q", "t", defaultFileQuotaLimitBytes, defaultFileQuotaLimitBytes - 6, 0, 0, by decide⟩) } }

def secondInput : UploadFileInput := { firstInput with resourceId := "r2", buffer := pdf₂ }

/-- Both requests check the quota, then both go on; the second is about to commit. -/
def twoUploads : List Label :=
  [.start (.upload firstInput "f"), .start (.upload secondInput "g"),
    .act 0 (.createQuota "q0" 0), .act 1 (.createQuota "q1" 0), .act 0 .verifyQuota, .act 1 .verifyQuota,
    .act 0 .upload, .act 1 .upload, .act 0 (.write 1), .act 0 .enqueue, .act 0 .commit,
    .act 1 (.write 2), .act 1 .enqueue]

/-- The second commit exceeds the limit. -/
theorem limit_exceeded_by_twoUploads : ¬ ∀ (ports : Ports) (t : String) (st st' : State)
    (ls : List Label), st.procs = [] → Keyed st.world → (∀ n, .start (.adjust t n) ∉ ls) →
    run (step ports) st ls = some st' → AllSteps (step ports) (StaysWithinLimit ports t) st ls := by
  intro h
  have hrun : (run (step pdfPorts) nearlyFull twoUploads).any (commitExceeds pdfPorts "t" 1) = true := by
    decide
  have hlast : (run (step pdfPorts) nearlyFull (twoUploads ++ [.act 1 .commit])).isSome = true := by
    decide
  have hk : Keyed nearlyFull.world := by
    intro t q hq
    have hq' : Function.update emptySystem.world.quotas "t" _ t = some q := hq
    by_cases ht : t = "t"
    · rw [ht, Function.update_self] at hq'; cases hq'; exact ht.symm
    · rw [Function.update_of_ne ht] at hq'; cases hq'
  obtain ⟨st₁, hst₁, hex⟩ := (Option.any_eq_true _ _).mp hrun
  obtain ⟨st₂, hst₂⟩ := Option.isSome_iff_exists.mp hlast
  have hall := h pdfPorts "t" nearlyFull st₂ _ rfl hk (fun n => by simp [twoUploads]) hst₂
  exact not_staysWithinLimit hex (hall.of_append hst₁).2.1

/-! ## The usage under adjustments -/

/-- The counter is what it was in `w₀` plus all increments minus all decrements since. -/
def Accounts (w₀ : World) (st : State) : Prop :=
  ∀ t, (used st.world t : ℤ) = used w₀ t + (st.world.moved t - w₀.moved t)

/-- Only the limit and the time of the update differ. -/
def SameButLimit (q q' : FileQuota) : Prop :=
  q'.id = q.id ∧ q'.tenantId = q.tenantId ∧ q'.usedBytes = q.usedBytes ∧ q'.createdAt = q.createdAt

/-- The write of an adjustment changes nothing but the limit and the time of the update. -/
def AdjustsOnlyLimit (ports : Ports) (st : State) (l : Label) : Prop :=
  ∀ i now st', l = .act i (.saveLimit now) → step ports st l = some st' →
    ∀ t q, st.world.quotas t = some q → ∃ q', st'.world.quotas t = some q' ∧ SameButLimit q q'

/-- When an adjustment writes its row, nothing has been moved for the tenant, in sum, since it read
the row. An adjustment below the minimum writes nothing. -/
def NothingMoved (st : State) (l : Label) : Prop :=
  ∀ i now copy newLimitBytes m, l = .act i (.saveLimit now) →
    st.procs[i]? = some (.adjusting copy newLimitBytes m) → minFileQuotaLimitBytes ≤ newLimitBytes →
    st.world.moved copy.tenantId = m

/-- The row an adjustment has read, as it was then. -/
def CopyOk (w₀ : World) (w : World) (p : Proc) : Prop :=
  ∀ copy n m, p = .adjusting copy n m → (copy.usedBytes : ℤ) = used w₀ copy.tenantId + (m - w₀.moved copy.tenantId) ∧
    ∃ q, w.quotas copy.tenantId = some q ∧ q.id = copy.id ∧ q.tenantId = copy.tenantId ∧
      q.createdAt = copy.createdAt

theorem CopyOk.of_quotaStep {w₀ : World} {w w' : World} {p : Proc} (h : CopyOk w₀ w p)
    (hs : QuotaStep w w') : CopyOk w₀ w' p := by
  intro copy n m hp
  obtain ⟨hu, q, hq, hid, ht, hc⟩ := h copy n m hp
  obtain ⟨q', hq', hid', ht', hc', -, -⟩ := hs.row hq
  exact ⟨hu, q', hq', hid'.trans hid, ht'.trans ht, hc'.trans hc⟩

/-- The copies of the adjustments. -/
abbrev Copied (w₀ : World) : State → Prop :=
  Interleaving.Inv Keyed (CopyOk w₀) (fun _ _ => True)

/-- What the write of an adjustment does, when its copy is as `CopyOk` says. -/
theorem saveLimit_eq {ports : Ports} {procs : List Proc} {w w' : World} {p' : Proc}
    {copy : FileQuota} {newLimitBytes now : ℕ} {m : ℤ} {w₀ : World}
    (hcopy : CopyOk w₀ w (.adjusting copy newLimitBytes m))
    (h : Acts ports procs w (.adjusting copy newLimitBytes m) (.saveLimit now) w' p') :
    (minFileQuotaLimitBytes ≤ newLimitBytes ∧ ∃ quota, SameButLimit copy quota ∧
      w'.quotas = Function.update w.quotas copy.tenantId (some quota) ∧ w'.moved = w.moved) ∨
    (newLimitBytes < minFileQuotaLimitBytes ∧ w' = w) := by
  obtain ⟨-, q, hq, hid, -, -⟩ := hcopy copy newLimitBytes m rfl
  cases h with
  | saveLimit ha hu =>
    obtain ⟨hle, hid', ht', hu', hc'⟩ := AdjustQuotaLimit.adjusted_eq_ok ha
    obtain ⟨-, -, -, hquotas⟩ := Quotas.update_eq_ok hu
    exact Or.inl ⟨hle, _, ⟨hid', ht', hu', hc'⟩, by rw [← ht']; exact hquotas, rfl⟩
  | limitFails he =>
    right
    refine ⟨?_, rfl⟩
    by_contra hge
    obtain ⟨quota, ha⟩ := @AdjustQuotaLimit.adjusted_ok_of_le copy _ now (not_lt.mp hge)
    obtain ⟨-, hid', ht', -, -⟩ := AdjustQuotaLimit.adjusted_eq_ok ha
    rw [ha] at he
    have hupd : Quotas.update w.quotas quota = .ok (Function.update w.quotas quota.tenantId (some quota)) := by
      unfold Quotas.update
      rw [ht', hq]
      dsimp only
      rw [if_pos (hid.trans hid'.symm)]
    rw [Except.bind, hupd] at he
    cases he

theorem Copied.step {ports : Ports} {w₀ : World} {st st' : State} {l : Label}
    (h : Copied w₀ st) (ha : Accounts w₀ st) (hs : step ports st l = some st') : Copied w₀ st' := by
  refine Interleaving.Inv.step (G := fun st _ => Accounts w₀ st) (fun _ _ _ => trivial) ?_ ?_ h ha hs
  · intro st s w p hi hacc hw
    have hw := start_starts hw
    have hstep : QuotaStep st.world w := starts_quotas hw
    refine ⟨hstep.keyed hi.world, ?_, fun q hmem => ⟨(hi.procs q hmem).of_quotaStep hstep, trivial⟩⟩
    intro copy n m hp
    cases hw with
    | adjust hquota =>
      cases hp
      have ht := hi.world _ _ hquota
      have hu := hacc copy.tenantId
      rw [used_of_some (by rw [ht]; exact hquota)] at hu
      rw [← ht] at hquota ⊢
      exact ⟨hu, copy, hquota, rfl, rfl, rfl⟩
    | _ => cases hp
  · intro st i a p w p' hi _ hp hw
    have hw := act_acts hw
    have hadj : CopyOk w₀ w p' := by
      intro copy n m he
      cases hw <;> cases he
    rcases acts_quotas hw with hstep | ⟨copy, n, m, now, quota, rfl, rfl, -, -, -⟩
    · exact ⟨hstep.keyed hi.world, hadj, fun j q _ hq => ⟨(hi.proc hq).of_quotaStep hstep, trivial⟩⟩
    · rcases saveLimit_eq (hi.proc hp) hw with ⟨-, quota, hsame, hq, hm⟩ | ⟨-, rfl⟩
      · refine ⟨?_, hadj, fun j q' _ hq' => ⟨?_, trivial⟩⟩
        · rw [← hsame.2.1] at hq; exact keyed_update hi.world hq
        · intro copy' n' m' he
          obtain ⟨hu, row, hrow, hid, ht, hc⟩ := hi.proc hq' copy' n' m' he
          refine ⟨hu, ?_⟩
          rw [hq]
          by_cases hne : copy'.tenantId = copy.tenantId
          · obtain ⟨-, row', hrow', hid', ht', hc'⟩ := hi.proc hp copy n m rfl
            rw [hne] at hrow ht ⊢
            rw [hrow] at hrow'; cases hrow'
            exact ⟨quota, Function.update_self .., hsame.1.trans (hid'.symm.trans hid),
              hsame.2.1, hsame.2.2.2.trans (hc'.symm.trans hc)⟩
          · exact ⟨row, by rw [Function.update_of_ne hne, hrow], hid, ht, hc⟩
      · exact ⟨hi.world, hadj, fun j q _ hq => ⟨hi.proc hq, trivial⟩⟩

theorem accounts_of_same {w₀ : World} {st st' : State} (h : Accounts w₀ st)
    (hs : ∀ t, (used st'.world t : ℤ) - st'.world.moved t = used st.world t - st.world.moved t) :
    Accounts w₀ st' := by
  intro t
  have h₁ := h t
  have h₂ := hs t
  omega

/-- An adjustment writes the counter it has read back: the accounts stay right exactly when it has
missed nothing. -/
theorem accounts_iff_of_written {w₀ w : World} {st : State} {procs : List Proc} {copy quota : FileQuota}
    {m : ℤ} (ha : Accounts w₀ st)
    (hu : (copy.usedBytes : ℤ) = used w₀ copy.tenantId + (m - w₀.moved copy.tenantId))
    (hsame : SameButLimit copy quota) (hm : w.moved = st.world.moved)
    (hq : w.quotas = Function.update st.world.quotas copy.tenantId (some quota)) :
    Accounts w₀ ⟨w, procs⟩ ↔ st.world.moved copy.tenantId = m := by
  have hnew : used w copy.tenantId = copy.usedBytes := by
    rw [used, hq, Quotas.used_update_self]; exact hsame.2.2.1
  constructor
  · intro hacc
    have := hacc copy.tenantId
    dsimp only at this
    rw [hnew, hm] at this
    omega
  · intro hmoved t
    dsimp only
    by_cases ht : t = copy.tenantId
    · subst ht
      rw [hnew, hm]
      omega
    · rw [used, hq, Quotas.used_update_of_ne _ _ ht, hm]
      exact ha t

/-- `NothingMoved` looks at one process. -/
theorem nothingMoved_act {st : State} {i : ℕ} {a : Action} {p : Proc} (hp : st.procs[i]? = some p) :
    NothingMoved st (.act i a) ↔ ∀ copy n m now, p = .adjusting copy n m → a = .saveLimit now →
      minFileQuotaLimitBytes ≤ n → st.world.moved copy.tenantId = m := by
  constructor
  · rintro h copy n m now rfl rfl hle
    exact h i now copy n m rfl hp hle
  · intro h i' now copy n m hl hp' hle
    cases hl
    exact h copy n m now (Option.some.inj (hp.symm.trans hp')) rfl hle

/-- One step: the accounts stay right exactly when an adjustment that writes has missed nothing. -/
theorem accounts_step_iff {ports : Ports} {w₀ : World} {st st' : State} {l : Label}
    (h : Copied w₀ st) (ha : Accounts w₀ st) (hs : step ports st l = some st') :
    Accounts w₀ st' ↔ NothingMoved st l := by
  cases l with
  | start s =>
    obtain ⟨w, p, hw, rfl⟩ := Interleaving.step_start.mp hs
    have hstep : QuotaStep st.world w := starts_quotas (start_starts hw)
    exact ⟨fun _ i now copy n m hl => (nomatch hl), fun _ => accounts_of_same ha hstep.used⟩
  | act i a =>
    obtain ⟨p, w, p', hp, hw, rfl⟩ := Interleaving.step_act.mp hs
    have hw := act_acts hw
    rw [nothingMoved_act hp]
    by_cases hlim : ∃ copy n m now, p = .adjusting copy n m ∧ a = .saveLimit now
    · obtain ⟨copy, n, m, now, rfl, rfl⟩ := hlim
      rcases saveLimit_eq (h.proc hp) hw with ⟨hle, quota, hsame, hq, hm⟩ | ⟨hlt, rfl⟩
      · rw [accounts_iff_of_written ha (h.proc hp copy n m rfl).1 hsame hm hq]
        constructor
        · rintro hmoved _ _ _ _ ⟨⟩ - -
          exact hmoved
        · exact fun hn => hn copy n m now rfl rfl hle
      · -- below the minimum: nothing is written
        refine ⟨?_, fun _ => ha⟩
        rintro - _ _ _ _ ⟨⟩ - hle
        omega
    · have hstep : QuotaStep st.world w := by
        rcases acts_quotas hw with hstep | ⟨copy, n, m, now, quota, rfl, rfl, -⟩
        · exact hstep
        · exact absurd ⟨copy, n, m, now, rfl, rfl⟩ hlim
      refine ⟨fun _ copy n m now he he' _ => ?_, fun _ => accounts_of_same ha hstep.used⟩
      exact absurd ⟨copy, n, m, now, he, he'⟩ hlim

/-- The write of an adjustment that has missed nothing changes only the limit. -/
theorem adjustsOnlyLimit_of_nothingMoved {ports : Ports} {w₀ : World} {st : State} {l : Label}
    (h : Copied w₀ st) (ha : Accounts w₀ st) (hn : NothingMoved st l) :
    AdjustsOnlyLimit ports st l := by
  rintro i now st' rfl hs t q hq
  obtain ⟨p, w, p', hp, hw, rfl⟩ := Interleaving.step_act.mp hs
  have hw := act_acts hw
  have hp' : ∃ copy n m, p = .adjusting copy n m := by
    cases hw <;> exact ⟨_, _, _, rfl⟩
  obtain ⟨copy, n, m, rfl⟩ := hp'
  obtain ⟨hu, row, hrow, hid, hten, hc⟩ := h.proc hp copy n m rfl
  rcases saveLimit_eq (h.proc hp) hw with ⟨hle, quota, hsame, hquotas, -⟩ | ⟨-, rfl⟩
  · by_cases ht : t = copy.tenantId
    · subst ht
      rw [hrow] at hq; cases hq
      have hmoved := hn i now copy n m rfl hp hle
      have hacc := ha copy.tenantId
      rw [used_of_some hrow] at hacc
      refine ⟨quota, by dsimp only; rw [hquotas, Function.update_self], ?_, ?_, ?_, ?_⟩
      · exact hsame.1.trans hid.symm
      · exact hsame.2.1.trans hten.symm
      · have := hsame.2.2.1; omega
      · exact hsame.2.2.2.trans hc.symm
    · exact ⟨q, by dsimp only; rw [hquotas, Function.update_of_ne ht, hq], rfl, rfl, rfl, rfl⟩
  · exact ⟨q, hq, rfl, rfl, rfl, rfl⟩

/-- **No usage is lost exactly when adjustments miss nothing.** In every state of a run the counter
of every tenant is the initial one plus all increments minus all decrements, and every write of an
adjustment changes only the limit and the time of the update, if and only if whenever an adjustment
writes, the increments and decrements committed since it read the row cancel out. -/
theorem usage_kept_iff {ports : Ports} {st st' : State} {ls : List Label} (hidle : st.procs = [])
    (hk : Keyed st.world) (hr : run (step ports) st ls = some st') :
    (AllStates (step ports) (Accounts st.world) st ls ∧
      AllSteps (step ports) (AdjustsOnlyLimit ports) st ls) ↔
    AllSteps (step ports) NothingMoved st ls := by
  have hcopied : Copied st.world st := Interleaving.Inv.of_nil hk hidle
  have hacc : Accounts st.world st := fun t => by omega
  have hiff : AllStates (step ports) (Accounts st.world) st ls ↔
      AllSteps (step ports) NothingMoved st ls :=
    allStates_iff_allSteps (C := fun _ _ => True) (fun _ _ _ h ha _ _ hs => Copied.step h ha hs)
      (fun _ _ _ h ha _ hs => accounts_step_iff h ha hs) hcopied hacc
      (allSteps_of_forall (fun _ _ _ => trivial) st) hr
  refine ⟨fun h => hiff.mp h.1, fun h => ⟨hiff.mpr h, ?_⟩⟩
  have hinv := allSteps_of_inv (I := fun s => Copied st.world s ∧ Accounts st.world s)
    (fun s l s' hi hn hs => ⟨Copied.step hi.1 hi.2 hs, (accounts_step_iff hi.1 hi.2 hs).mpr hn⟩)
    ⟨hcopied, hacc⟩ h
  exact (hinv.and h).mono fun s l hi => adjustsOnlyLimit_of_nothingMoved hi.1.1 hi.1.2 hi.2

/-! ### An upload inside an adjustment -/

/-- Process `1` reads the quota, process `0` commits its upload, process `1` writes the limit. -/
def uploadInsideAdjustment : List Label :=
  [.start (.upload firstInput "f"), .act 0 (.createQuota "q" 0),
    .start (.adjust "t" (2 * 1024 * 1024 * 1024)), .act 0 .verifyQuota, .act 0 .upload, .act 0 (.write 1),
    .act 0 .enqueue, .act 0 .commit, .act 1 (.saveLimit 2)]

/-- An adjustment with nothing beside it keeps the usage. -/
theorem usage_kept_iff_uploadRun :
    (AllStates (step pdfPorts) (Accounts emptySystem.world) emptySystem
        (uploadRun ++ [.start (.adjust "t" (2 * 1024 * 1024 * 1024)), .act 1 (.saveLimit 2)]) ∧
      AllSteps (step pdfPorts) (AdjustsOnlyLimit pdfPorts) emptySystem
        (uploadRun ++ [.start (.adjust "t" (2 * 1024 * 1024 * 1024)), .act 1 (.saveLimit 2)])) ↔
    AllSteps (step pdfPorts) NothingMoved emptySystem
      (uploadRun ++ [.start (.adjust "t" (2 * 1024 * 1024 * 1024)), .act 1 (.saveLimit 2)]) := by
  have hrun : (run (step pdfPorts) emptySystem
      (uploadRun ++ [.start (.adjust "t" (2 * 1024 * 1024 * 1024)), .act 1 (.saveLimit 2)])).isSome =
      true := by decide
  obtain ⟨st, hst⟩ := Option.isSome_iff_exists.mp hrun
  exact usage_kept_iff rfl (fun _ _ hq => nomatch hq) hst

/-- The six bytes of the upload are lost. -/
theorem usage_lost_by_uploadInsideAdjustment : ¬ ∀ (ports : Ports) (st st' : State)
    (ls : List Label), st.procs = [] → Keyed st.world → run (step ports) st ls = some st' →
    AllStates (step ports) (Accounts st.world) st ls ∧
      AllSteps (step ports) (AdjustsOnlyLimit ports) st ls := by
  intro h
  have hrun : (run (step pdfPorts) emptySystem uploadInsideAdjustment).any (fun st =>
      used st.world "t" == 0 && st.world.moved "t" == 6) = true := by decide
  obtain ⟨st, hst, hlost⟩ := (Option.any_eq_true _ _).mp hrun
  rw [Bool.and_eq_true, beq_iff_eq, beq_iff_eq] at hlost
  have hacc := (h pdfPorts emptySystem st _ rfl (fun _ _ hq => nomatch hq) hst).1.last hst "t"
  rw [hlost.1, hlost.2] at hacc
  exact absurd hacc (by decide)

end Neltrik.FileStorage.QuotaCounter
