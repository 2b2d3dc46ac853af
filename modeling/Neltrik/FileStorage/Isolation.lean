import Neltrik.FileStorage.TenantSteps

/-! # Tenants are alone

Between any actions of the processes of all tenants, a tenant has what its own processes would have made of
its part alone, and each of its processes can do what it could do alone (`tenants_apart`). So nothing that
other tenants do is ever seen (`others_unseen`), nor can it stand in the way: no lock, no full quota, no
row of another. -/

namespace Neltrik.FileStorage.Isolation

open Neltrik.Lib Neltrik.Lib.Machine Neltrik.Lib.Parts
open Neltrik.FileStorage.Validation Neltrik.FileStorage.UseCases Neltrik.FileStorage.System
open Neltrik.FileStorage.Steps Neltrik.FileStorage.TenantParts Neltrik.FileStorage.Tenants
open Neltrik.FileStorage.TenantSteps

variable {T : String → String} {t : String} {ports : Ports}

/-- The steps for the tenant in a run, its processes counted without the others. -/
def labelsOf (ports : Ports) (t : String) (w : World) (ls : List Label) : List Label :=
  trace (ownedStep (start ports) (act ports) owner) (labelOf owner t) ⟨w, []⟩ ls

theorem separate (ht : OneName t) :
    Separate (start ports) (act ports) owner t (part T t) (Whole T) (Assigned T) where
  inv _ _ _ h hG hs := h.step hG hs
  starts st s h _ hk := by
    subst hk
    exact start_part h.world s
  startsOther _ _ _ _ h _ hk hw := start_other h.world (start_starts hw) (Ne.symm hk)
  acts _ _ _ a h hp := act_part h.world h.procs (h.proc hp) a
  actsOther _ _ _ _ _ _ h hp hk hw := act_other h.world (h.proc hp) (act_acts hw) ht (Ne.symm hk)

/-- **Every tenant runs as if it were alone.** -/
theorem tenants_apart {w : World} {ls : List Label} {st : State} (hw : Placed T w) (hls : ∀ l ∈ ls, Assigned T l)
    (ht : OneName t) (hr : run (step ports) ⟨w, []⟩ ls = some st) :
    ∃ procs : List (String × Proc), procs.map Prod.snd = st.procs ∧
      run (step ports) ⟨part T t w, []⟩ (labelsOf ports t w ls) =
        some ⟨part T t st.world, procsOf t procs⟩ ∧
      (∀ s, owner st.world s = t →
        start ports (part T t st.world) s = (start ports st.world s).map (inPart T t)) ∧
      ∀ (i : ℕ) p a, procs[i]? = some (t, p) →
        act ports (procsOf t procs) (part T t st.world) p a =
          (act ports st.procs st.world p a).map (inPart T t) := by
  have hi : Whole T ⟨w, []⟩ := Interleaving.Inv.of_nil hw rfl
  have hforget := run_forget (start ports) (act ports) owner ⟨w, []⟩ ls
  have hsome : (run (ownedStep (start ports) (act ports) owner) ⟨w, []⟩ ls).map forget = some st :=
    hforget.symm.trans hr
  obtain ⟨st', hr', rfl⟩ := Option.map_eq_some_iff.mp hsome
  obtain ⟨hpart, hi'⟩ := run_part (separate ht) hi hls hr'
  refine ⟨st'.procs, rfl, hpart, fun s hs => ?_, fun i p a hp => ?_⟩
  · subst hs
    exact start_part hi'.world s
  · exact (separate ht).acts st' i p a hi' hp

/-- What others do is not seen. -/
theorem others_unseen {w w' : World} {ls ls' : List Label} {st st' : State} (hw : Placed T w) (hw' : Placed T w')
    (hls : ∀ l ∈ ls, Assigned T l) (hls' : ∀ l ∈ ls', Assigned T l) (ht : OneName t)
    (hr : run (step ports) ⟨w, []⟩ ls = some st) (hr' : run (step ports) ⟨w', []⟩ ls' = some st')
    (hpart : part T t w = part T t w') (hlabels : labelsOf ports t w ls = labelsOf ports t w' ls') :
    part T t st.world = part T t st'.world := by
  obtain ⟨procs, -, hrun, -⟩ := tenants_apart hw hls ht hr
  obtain ⟨procs', -, hrun', -⟩ := tenants_apart hw' hls' ht hr'
  rw [hpart, hlabels, hrun'] at hrun
  exact (congrArg Interleaving.State.world (Option.some.inj hrun)).symm

/-! ### Two tenants -/

/-- The file `g` is of `s`, the others are of `t`. -/
def twoTenants (fileId : String) : String := if fileId = "g" then "s" else "t"

/-- Process `0` uploads a file for `t`, process `1` one for `s` in the meantime. -/
def twoTenantsRun : List Label :=
  [.start (.upload firstInput "f"), .start (.upload { firstInput with tenantId := "s", buffer := pdf₂ } "g"),
    .act 1 (.createQuota "p" 0), .act 0 (.createQuota "q" 0), .act 0 .verifyQuota, .act 1 .verifyQuota,
    .act 1 .upload, .act 0 .upload, .act 0 (.write 1), .act 1 (.write 1), .act 0 .enqueue, .act 1 .enqueue,
    .act 0 .commit, .act 1 .commit]

theorem placed_emptySystem : Placed T emptySystem.world where
  ids := List.nodup_nil
  files := fun _ hf => absurd hf List.not_mem_nil
  quotas := fun _ _ hq => absurd hq (Option.some_ne_none _).symm
  jobIds := List.nodup_nil
  jobs := fun _ hj => absurd hj List.not_mem_nil

theorem tenants_apart_twoTenantsRun : (labelsOf pdfPorts "t" emptySystem.world twoTenantsRun).length = 7 ∧
    ∃ st procs, run (step pdfPorts) emptySystem twoTenantsRun = some st ∧
      run (step pdfPorts) ⟨part twoTenants "t" emptySystem.world, []⟩
        (labelsOf pdfPorts "t" emptySystem.world twoTenantsRun) = some ⟨part twoTenants "t" st.world, procs⟩ := by
  have hlength : (labelsOf pdfPorts "t" emptySystem.world twoTenantsRun).length = 7 := by decide
  have hrun : (run (step pdfPorts) emptySystem twoTenantsRun).isSome = true := by decide
  obtain ⟨st, hst⟩ := Option.isSome_iff_exists.mp hrun
  have hls : ∀ l ∈ twoTenantsRun, Assigned twoTenants l := by decide
  have ht : OneName "t" := by decide
  obtain ⟨procs, -, hpart, -⟩ := tenants_apart placed_emptySystem hls ht hst
  exact ⟨hlength, st, procsOf "t" procs, hst, hpart⟩

end Neltrik.FileStorage.Isolation
