import Neltrik.FileStorage.Binaries
import Neltrik.Lib.Trace

/-! # Reconciliation and live files

A reconcile reads the rows before it lists the storage, and a request stores its binary before its
row is there. A binary stored between the two looks like an orphan: the request commits, and the
reconcile deletes the binary of a live version (`live_binary_swept`).

`reconcile_spares_live_files` is the law that holds: while every key that is swept is one no request
is about to commit and no version of a live file names, and nobody stores a binary for a file that is
about to be marked (`SparesLive`), no version of a live file names a binary a reconcile deleted, and
a file is marked only when none of its binaries is there. `storageCalls` records who changed a key
last. A purge sweeps as a reconcile does; it is held to the same condition. -/

namespace Neltrik.FileStorage.Reconciliation

open Neltrik.Lib Neltrik.Lib.Machine Neltrik.Lib.OptimisticLock Neltrik.FileStorage.Domain
open Neltrik.FileStorage.Persistence Neltrik.FileStorage.Validation Neltrik.FileStorage.UseCases
open Neltrik.FileStorage.System Neltrik.FileStorage.Steps Neltrik.FileStorage.Rows
open Neltrik.FileStorage.Binaries

/-! ## Who changed a key last -/

/-- A call that changes the storage at a key. -/
structure StorageCall where
  key : String
  sweeps : Bool

def storageCall (st : State) : Label → Option StorageCall
  | .act i .upload =>
    match st.procs[i]? with
    | some (.admitted r _) => some ⟨r.key, false⟩
    | _ => none
  | .act i (.compensate true) =>
    match st.procs[i]? with
    | some (.aborted r) => some ⟨r.key, false⟩
    | _ => none
  | .act i .sweep =>
    match st.procs[i]? with
    | some (.sweeping (key :: _) _) => some ⟨key, true⟩
    | _ => none
  | _ => none

def storageCalls (ports : Ports) (st : State) (ls : List Label) : List StorageCall :=
  trace (step ports) storageCall st ls

/-- The last call at the key was a delete of a reconcile. -/
def sweptLast (calls : List StorageCall) (key : String) : Bool :=
  (calls.filter (·.key == key)).getLast?.any (·.sweeps)

theorem sweptLast_append (calls : List StorageCall) (c : StorageCall) (key : String) :
    sweptLast (calls ++ [c]) key = if c.key = key then c.sweeps else sweptLast calls key := by
  unfold sweptLast
  rw [List.filter_append]
  by_cases h : c.key = key
  · simp [h]
  · simp [h]

/-! ## Conditions and properties -/

/-- The files a reconcile is about to mark. -/
def orphans : Proc → List File
  | .sweeping _ orphans => orphans
  | _ => []

/-- A swept key is neither held by a request that may still commit nor named by a live file. -/
def SweepsSpare (st : State) (l : Label) : Prop :=
  ∀ i key keys files, l = .act i .sweep → st.procs[i]? = some (.sweeping (key :: keys) files) →
    (∀ q ∈ st.procs, ∀ r, q.pending = some r → r.key ≠ key) ∧ Unnamed st.world.files key

/-- A request stores no binary of a file that is about to be marked. -/
def UploadsElsewhere (st : State) (l : Label) : Prop :=
  ∀ i r check, l = .act i .upload → st.procs[i]? = some (.admitted r check) →
    ∀ q ∈ st.procs, ∀ f ∈ orphans q, ∀ v ∈ f.versions, v.storageKey ≠ r.key

/-- The condition on the runs. -/
def SparesLive (st : State) (l : Label) : Prop := SweepsSpare st l ∧ UploadsElsewhere st l

/-- No version of a live file refers to a binary a reconcile deleted. -/
def Unharmed (files : Files) (calls : List StorageCall) : Prop :=
  ∀ f ∈ files, f.status ≠ .deleted → ∀ v ∈ f.versions, sweptLast calls v.storageKey = false

/-- A step of a reconcile that sets a file to `DELETED` finds none of its binaries in the storage. -/
def MarksMissing (ports : Ports) (st : State) (l : Label) : Prop :=
  ∀ i now st', l = .act i (.markOrphan now) → step ports st l = some st' →
    ∀ f ∈ st.world.files, f.status ≠ .deleted → ∀ g ∈ st'.world.files, g.id = f.id →
      g.status = .deleted → ∀ v ∈ f.versions, st.world.storage.download v.storageKey = none

/-- Nothing left to do. -/
def isDone : Proc → Bool
  | .finished | .sweeping [] [] => true
  | _ => false

/-! ## The directory of a tenant -/

/-- The binaries of a file are in the directory of its tenant. -/
def InDirectory (f : File) : Prop :=
  ∀ v ∈ f.versions, (tenantPrefix f.tenantId).toList <+: v.storageKey.toList

theorem tenantPrefix_isPrefix_key (r : Request) :
    (tenantPrefix r.tenantId).toList <+: r.key.toList :=
  tenantPrefix_isPrefix_storageKey r.tenantId r.fileId r.version r.name

theorem inDirectory_of_edited {f g : File} (h : InDirectory f) (he : Edited f g) : InDirectory g := by
  intro v hv
  obtain ⟨u, hu, huv⟩ := he.exists_version hv
  have hkey : (core u).storageKey = (core v).storageKey := by rw [huv]
  have hu' := h u hu
  rw [he.tenantId]
  exact (show u.storageKey = v.storageKey from hkey) ▸ hu'

theorem inDirectory_of_row {ports : Ports} {r : Request} {now : ℕ} {g : File}
    (hr : Requested ports now r g) (hc : ∀ c ∈ r.copies, InDirectory c) : InDirectory g := by
  obtain ⟨u, extension, mimeType, hp, hvers⟩ := hr.versions
  have hkey : u.storageKey = r.key := by rw [hp]; rfl
  have hnew : (tenantPrefix g.tenantId).toList <+: u.storageKey.toList := by
    rw [hkey, hr.tenantId]
    exact tenantPrefix_isPrefix_key r
  intro v hv
  rw [hvers] at hv
  rcases List.mem_append.mp hv with hv | hv
  · cases r with
    | upload input fileId => exact absurd hv List.not_mem_nil
    | replace input f =>
      rw [hr.tenantId]
      exact hc f (by simp [Request.copies]) v hv
  · rw [List.mem_singleton.mp hv]
    exact hnew

theorem known_inDirectory_step {ports : Ports} {st st' : State} {l : Label} (h : Known InDirectory st)
    (hs : step ports st l = some st') : Known InDirectory st' := by
  refine h.step (C := fun _ => True) ?_ ?_ ?_ trivial hs
  · intro input fileId now g hg
    exact inDirectory_of_row (requested_of_row hg) fun c hc => absurd hc List.not_mem_nil
  · intro input f now g hf hg
    have hd : InDirectory g :=
      inDirectory_of_row (requested_of_row hg) (List.forall_mem_singleton.mpr hf)
    exact hd
  · intro f edit now g i a _ hf _ _ hg
    have hd : InDirectory g := inDirectory_of_edited hf (edited_of_apply hg)
    exact hd

/-! ## The invariant -/

/-- What a process needs of the storage and of the calls so far. -/
structure Spared (calls : List StorageCall) (w : World) (p : Proc) : Prop where
  pending : ∀ r, p.pending = some r → sweptLast calls r.key = false
  missing : ∀ f ∈ orphans p, ∀ v ∈ f.versions, w.storage.download v.storageKey = none
  listed : ∀ tenantId files purge, p = .listing tenantId files purge → ∀ f ∈ files, f.tenantId = tenantId

/-- The invariant of a state and the calls that led to it. -/
abbrev Reconciled (calls : List StorageCall) : State → Prop :=
  Interleaving.Inv (fun w => Unharmed w.files calls) (Spared calls) (fun _ _ => True)

/-- A request saves its file under its own key. -/
theorem unharmed_of_save {ports : Ports} {r : Request} {now : ℕ} {files files' : Files} {g : File}
    {calls : List StorageCall} (ht : Tidy files) (hb : ∀ c ∈ r.copies, IsBehind files c)
    (hg : r.row ports now = .ok g) (hs : r.save files g = .ok files') (hu : Unharmed files calls)
    (hkey : sweptLast calls r.key = false) : Unharmed files' calls := by
  have hr := requested_of_row hg
  obtain ⟨u, extension, mimeType, hp, hv⟩ := hr.versions
  have hnew : sweptLast calls u.storageKey = false := by rw [hp]; exact hkey
  intro f hf hlive v hmem
  cases r with
  | upload input fileId =>
    obtain ⟨-, rfl⟩ := Files.create_eq_ok.mp hs
    rcases List.mem_cons.mp hf with rfl | hf
    · rw [hv] at hmem
      have hvu : v = u := by simpa using hmem
      rw [hvu]; exact hnew
    · exact hu f hf hlive v hmem
  | replace input copy =>
    have hc : copy ∈ files :=
      ht.mem_of_update (hb copy (by simp [Request.copies])) hr.id hr.version hs
    rcases cases_of_update ht copy hc hr.id hr.version hs hf with rfl | ⟨hf, -⟩
    · rw [Files.bump_versions, hv] at hmem
      rcases List.mem_append.mp hmem with hmem | hmem
      · have hclive : copy.status ≠ .deleted := by
          obtain ⟨v', -, hadd⟩ := Effect.except_bind_eq_ok.mp hg
          obtain ⟨hst, -, -⟩ := File.addVersion_eq_ok.mp hadd
          rcases hst with hst | hst <;> rw [hst] <;> decide
        exact hu copy hc hclive v hmem
      · have hvu : v = u := by simpa using hmem
        rw [hvu]; exact hnew
    · exact hu f hf hlive v hmem

theorem unharmed_of_edit {files files' : Files} {copy g : File} {calls : List StorageCall}
    (ht : Tidy files) (hc : copy ∈ files) (he : Edited copy g) (hs : Files.update files g = .ok files')
    (hu : Unharmed files calls) : Unharmed files' calls := by
  intro f hf hlive v hv
  rcases cases_of_update ht copy hc he.id he.version hs hf with rfl | ⟨hf, -⟩
  · obtain ⟨hclive, u, hu', -, hkey⟩ := version_of_edited he hlive hv
    rw [← hkey]
    exact hu copy hc hclive u hu'
  · exact hu f hf hlive v hv

/-- A call at a key that is not named, or not a sweep, harms nobody. -/
theorem unharmed_append {files : Files} {calls : List StorageCall} {c : StorageCall}
    (hu : Unharmed files calls) (hc : c.sweeps = true → Unnamed files c.key) :
    Unharmed files (calls ++ [c]) := by
  intro f hf hlive v hv
  rw [sweptLast_append]
  split_ifs with hkey
  · by_contra hsw
    exact hc ((Bool.not_eq_false _).mp hsw) f hf hlive v hv hkey.symm
  · exact hu f hf hlive v hv

theorem Spared.append {calls : List StorageCall} {w w' : World} {p : Proc} {c : StorageCall}
    (h : Spared calls w p) (hc : c.sweeps = true → ∀ r, p.pending = some r → r.key ≠ c.key)
    (hm : ∀ f ∈ orphans p, ∀ v ∈ f.versions, w'.storage.download v.storageKey = none) :
    Spared (calls ++ [c]) w' p := by
  refine ⟨fun r hr => ?_, hm, h.listed⟩
  rw [sweptLast_append]
  split_ifs with hkey
  · by_contra hsw
    exact hc ((Bool.not_eq_false _).mp hsw) r hr hkey.symm
  · exact h.pending r hr

theorem Spared.of_storage {calls : List StorageCall} {w w' : World} {p : Proc} (h : Spared calls w p)
    (hs : w'.storage = w.storage) : Spared calls w' p :=
  ⟨h.pending, by rw [hs]; exact h.missing, h.listed⟩

theorem spared_of_not_sweeps {calls : List StorageCall} {w : World} {p : Proc}
    (hpending : ∀ r, p.pending = some r → sweptLast calls r.key = false) (hs : p.sweeps = false) :
    Spared calls w p := by
  refine ⟨hpending, ?_, ?_⟩
  · cases p with
    | sweeping => cases hs
    | _ => exact fun f hf => absurd hf List.not_mem_nil
  · rintro tenantId files purge rfl
    cases hs

/-- A process that is neither a request under way nor a reconcile needs nothing. -/
theorem spared_of_none {calls : List StorageCall} {w : World} {p : Proc} (hp : p.pending = none)
    (hs : p.sweeps = false) : Spared calls w p := by
  refine spared_of_not_sweeps ?_ hs
  rw [hp]
  exact fun _ hr => nomatch hr

theorem spared_of_pending {calls : List StorageCall} {w : World} {p p' : Proc} (h : Spared calls w p)
    (hp : p'.pending = p.pending) (hs : p'.sweeps = false) : Spared calls w p' := by
  refine spared_of_not_sweeps ?_ hs
  rw [hp]
  exact h.pending

theorem spared_listing {calls : List StorageCall} {w : World} {tenantId : String} {files : List File}
    {purge : Bool} (h : ∀ f ∈ files, f.tenantId = tenantId) :
    Spared calls w (.listing tenantId files purge) := by
  refine ⟨(fun _ hr => nomatch hr), fun f hf => absurd hf List.not_mem_nil, ?_⟩
  rintro _ _ _ ⟨⟩
  exact h

theorem spared_sweeping {calls : List StorageCall} {w : World} {keys : List String} {files : List File}
    (h : ∀ f ∈ files, ∀ v ∈ f.versions, w.storage.download v.storageKey = none) :
    Spared calls w (.sweeping keys files) :=
  ⟨(fun _ hr => nomatch hr), h, nofun⟩

theorem download_delete_eq_none {storage : Storage} {key key' : String}
    (h : storage.download key' = none) : (storage.delete key).download key' = none := by
  rw [Storage.download_delete, h, ite_self]

/-- A reconcile lists as orphans only files without binaries. -/
theorem missing_of_listed {storage : Storage} {tenantId : String} {files : List File} {f : File}
    (hl : ∀ f ∈ files, f.tenantId = tenantId) (hd : ∀ f ∈ files, InDirectory f)
    (hf : f ∈ ReconcileStorage.orphanFiles files (storage.list (tenantPrefix tenantId)))
    {v : FileVersion} (hv : v ∈ f.versions) : storage.download v.storageKey = none := by
  obtain ⟨hf, hall⟩ := List.mem_filter.mp hf
  have hmem := (List.mem_filter.mp hf).1
  have hnot : v.storageKey ∉ storage.list (tenantPrefix tenantId) := by
    have := List.all_eq_true.mp hall v hv
    simpa using this
  by_contra hne
  refine hnot (Storage.mem_list.mpr ⟨hne, ?_⟩)
  rw [← hl f hmem]
  exact hd f hmem v hv

/-- What an action that changes no binary leaves. -/
structure Leaves (calls : List StorageCall) (st : State) (w : World) (p' : Proc) : Prop where
  unharmed : Unharmed w.files calls
  storage : w.storage = st.world.storage
  spared : Spared calls st.world p'

section Step
variable {ports : Ports} {st st' : State} {l : Label} {calls : List StorageCall}

theorem starts_spared {w w' : World} {s : Start} {p : Proc} (h : Starts ports w s w' p) :
    Spared calls w' p := by
  cases h with
  | reconcile => exact spared_listing fun f hf => by simpa using (List.mem_filter.mp hf).2
  | purge =>
    refine spared_listing fun f hf => ?_
    have := (List.mem_filter.mp hf).2
    simp only [Bool.and_eq_true, beq_iff_eq] at this
    exact this.1.1
  | _ => exact spared_of_none rfl rfl

theorem leaves_of_saveCopy {copy : File} {edit : Edit} {now : ℕ} {w w₁ : World} {p' : Proc}
    (hi : Reconciled calls st) (hc : Coherent st) (hb : IsBehind st.world.files copy)
    (hs : saveCopy st.world copy edit now = .ok w₁) (hf : w.files = w₁.files)
    (hst : w.storage = w₁.storage) (hp' : Spared calls st.world p') : Leaves calls st w p' := by
  obtain ⟨g, files, hg, hu, hw₁⟩ := saveCopy_eq_ok hs
  have he := edited_of_apply hg
  have hmem : copy ∈ st.world.files := hc.world.mem_of_update hb he.id he.version hu
  have hfiles : w₁.files = files ∧ w₁.storage = st.world.storage := by
    rcases hw₁ with rfl | ⟨-, quotas, -, rfl⟩ <;> exact ⟨rfl, rfl⟩
  refine ⟨?_, hst.trans hfiles.2, hp'⟩
  rw [hf, hfiles.1]
  exact unharmed_of_edit hc.world hmem he hu hi.world

/-- **The actions that change no binary.** -/
theorem leaves_of_acts {i : ℕ} {a : Action} {p p' : Proc} {w : World} (hi : Reconciled calls st)
    (hc : Coherent st) (hd : Known InDirectory st) (hp : st.procs[i]? = some p)
    (hw : Acts ports st.procs st.world p a w p') (hup : a ≠ .upload)
    (hcomp : a ≠ .compensate true) (hsw : a ≠ .sweep) : Leaves calls st w p' := by
  have hps := hi.proc hp
  have hbehind := (hc.proc hp).2
  cases hw with
  | upload => exact absurd rfl hup
  | compensate => exact absurd rfl hcomp
  | sweep => exact absurd rfl hsw
  | commit hpersist =>
    obtain ⟨g, hg, hsave, -⟩ := persist_eq_ok.mp hpersist
    exact ⟨unharmed_of_save hc.world hbehind hg hsave hi.world (hps.pending _ rfl), rfl,
      spared_of_none rfl rfl⟩
  | saveEdit h | saveScan h | saveRescan h =>
    exact leaves_of_saveCopy hi hc (hbehind _ (by simp [Proc.copies])) h rfl rfl (spared_of_none rfl rfl)
  | markOrphan h =>
    exact leaves_of_saveCopy hi hc (hbehind _ (by simp [Proc.copies])) h rfl rfl
      (spared_sweeping fun f hf => hps.missing f (List.mem_cons_of_mem _ hf))
  | listReconcile =>
    exact ⟨hi.world, rfl, spared_sweeping fun f hf v hv =>
      missing_of_listed (hps.listed _ _ _ rfl) (hd.proc hp).2 hf hv⟩
  | listPurge => exact ⟨hi.world, rfl, spared_sweeping fun f hf => absurd hf List.not_mem_nil⟩
  | write | enqueue => exact ⟨hi.world, rfl, spared_of_pending hps rfl rfl⟩
  | _ => exact ⟨hi.world, rfl, spared_of_none rfl rfl⟩

/-- **One step keeps the invariant**, if it spares what is live. -/
theorem Reconciled.step (hi : Reconciled calls st) (hc : Coherent st) (hd : Known InDirectory st)
    (hk : SparesLive st l) (hs : step ports st l = some st') :
    Reconciled (calls ++ (storageCall st l).toList) st' := by
  refine Interleaving.Inv.of_step (fun _ _ _ => trivial) hi.apart ?_ ?_ hs
  · rintro s w p rfl hw
    have hw := start_starts hw
    have hst : w.storage = st.world.storage := by cases hw <;> rfl
    rw [show storageCall st (.start s) = none from rfl, Option.toList_none, List.append_nil,
      starts_files hw]
    exact ⟨hi.world, starts_spared hw, fun q hq => ⟨(hi.procs q hq).of_storage hst, trivial⟩⟩
  · rintro i a p w p' rfl hp hw
    have hw := act_acts hw
    -- an action that changes no binary shows no call
    have hquiet : storageCall st (.act i a) = none → a ≠ .upload → a ≠ .compensate true → a ≠ .sweep →
        Unharmed w.files (calls ++ (storageCall st (.act i a)).toList) ∧
          Spared (calls ++ (storageCall st (.act i a)).toList) w p' ∧
          ∀ (j : ℕ) q, j ≠ i → st.procs[j]? = some q →
            Spared (calls ++ (storageCall st (.act i a)).toList) w q ∧ True := by
      intro hnone hup hcomp hsw
      rw [hnone, Option.toList_none, List.append_nil]
      have hl := leaves_of_acts hi hc hd hp hw hup hcomp hsw
      exact ⟨hl.unharmed, hl.spared.of_storage hl.storage,
        fun j q _ hq => ⟨(hi.proc hq).of_storage hl.storage, trivial⟩⟩
    cases hw with
    | @upload r check =>
      have hcall : storageCall st (.act i .upload) = some ⟨r.key, false⟩ := by rw [storageCall, hp]
      rw [hcall]
      refine ⟨unharmed_append hi.world nofun, ⟨fun r' hr' => ?_,
        fun f hf => absurd hf List.not_mem_nil, nofun⟩,
        fun j q _ hq => ⟨(hi.proc hq).append nofun fun f hf v hv => ?_, trivial⟩⟩
      · cases hr'
        rw [Option.toList_some, sweptLast_append, if_pos rfl]
      · have hne := hk.2 i r check rfl hp q (Pool.mem_of_getElem? hq) f hf v hv
        rw [Storage.download_upload, if_neg hne]
        exact (hi.proc hq).missing f hf v hv
    | @compensate r =>
      have hcall : storageCall st (.act i (.compensate true)) = some ⟨r.key, false⟩ := by
        rw [storageCall, hp]
      rw [hcall]
      refine ⟨unharmed_append hi.world nofun, spared_of_none rfl rfl,
        fun j q _ hq => ⟨(hi.proc hq).append nofun fun f hf v hv => ?_, trivial⟩⟩
      exact download_delete_eq_none ((hi.proc hq).missing f hf v hv)
    | @sweep key keys files =>
      have hcall : storageCall st (.act i .sweep) = some ⟨key, true⟩ := by rw [storageCall, hp]
      obtain ⟨hpending, hunnamed⟩ := hk.1 i key keys files rfl hp
      have hps := hi.proc hp
      rw [hcall]
      refine ⟨unharmed_append hi.world fun _ => hunnamed, spared_sweeping fun f hf v hv => ?_,
        fun j q _ hq => ⟨(hi.proc hq).append (fun _ => hpending q (Pool.mem_of_getElem? hq))
          fun f hf v hv => ?_, trivial⟩⟩
      · exact download_delete_eq_none (hps.missing f hf v hv)
      · exact download_delete_eq_none ((hi.proc hq).missing f hf v hv)
    | _ => exact hquiet rfl nofun nofun nofun

end Step

/-! ## The law -/

/-- A system at rest whose binaries are in the directories of their tenants. -/
structure Deployed (st : State) : Prop where
  idle : st.procs = []
  tidy : Tidy st.world.files
  directory : ∀ f ∈ st.world.files, InDirectory f

theorem deployed_emptySystem : Deployed emptySystem :=
  ⟨rfl, tidy_nil, fun _ h => absurd h List.not_mem_nil⟩

/-- A file that a reconcile marks has kept its row since it was listed. -/
theorem marksMissing_of_reconciled {ports : Ports} {st : State} {l : Label} {calls : List StorageCall}
    (hi : Reconciled calls st) (hc : Coherent st) : MarksMissing ports st l := by
  rintro i now st' rfl hs f hf hlive g hg hid hdel v hv
  obtain ⟨p, w, p', hp, hw, rfl⟩ := Interleaving.step_act.mp hs
  have hsame : g ∈ st.world.files → False := fun hg' => by
    rw [hc.world.keyed.eq_of_key_eq hg' hf hid] at hdel
    exact hlive hdel
  have hps := hi.proc hp
  have hbehind := (hc.proc hp).2
  cases act_acts hw with
  | @markOrphan copy orphans now w' h =>
    obtain ⟨g₁, files, hg₁, hu, hw₁⟩ := saveCopy_eq_ok h
    have he := edited_of_apply hg₁
    have hmem := hc.world.mem_of_update (hbehind copy (by simp [Proc.copies])) he.id he.version hu
    have hfiles : w.files = files := by
      rcases hw₁ with rfl | ⟨-, quotas, -, rfl⟩ <;> rfl
    rw [hfiles] at hg
    rcases cases_of_update hc.world copy hmem he.id he.version hu hg with rfl | ⟨hg', -⟩
    · have hcf : f = copy := hc.world.keyed.eq_of_key_eq hf hmem (hid.symm.trans he.id)
      rw [hcf] at hv
      exact hps.missing copy List.mem_cons_self v hv
    · exact absurd hg' hsame
  | markFails => exact absurd hg hsame

/-- **Reconciliation spares live files.** In every run in which each swept key is neither held by a
request that may still commit nor named by a live file, and no binary is stored for a file a reconcile
is about to mark, no version of a live file refers to a binary that a reconcile deleted, and a
reconcile sets to `DELETED` only files without any binary. -/
theorem reconcile_spares_live_files {ports : Ports} {st st' : State} {ls : List Label}
    (h : Deployed st) (hk : AllSteps (step ports) SparesLive st ls)
    (hr : run (step ports) st ls = some st') :
    Unharmed st'.world.files (storageCalls ports st ls) ∧
      AllSteps (step ports) (MarksMissing ports) st ls := by
  have hstep : ∀ s l s' calls, (Reconciled calls s ∧ Coherent s ∧ Known InDirectory s) →
      SparesLive s l → step ports s l = some s' → Reconciled (calls ++ (storageCall s l).toList) s' ∧
        Coherent s' ∧ Known InDirectory s' := fun s l s' calls hi hk hs =>
    ⟨hi.1.step hi.2.1 hi.2.2 hk hs, hi.2.1.step hs, known_inDirectory_step hi.2.2 hs⟩
  have hinit : Reconciled [] st ∧ Coherent st ∧ Known InDirectory st :=
    ⟨Interleaving.Inv.of_nil (fun _ _ _ _ _ => rfl) h.idle, coherent_of_idle h.idle h.tidy,
      Interleaving.Inv.of_nil h.directory h.idle⟩
  constructor
  · exact (trace_inv (J := fun s calls => Reconciled calls s ∧ Coherent s ∧ Known InDirectory s)
      (fun s l s' calls hi hk hs => hstep s l s' calls hi hk hs) hinit hk hr).1.world
  · refine (allSteps_of_inv (I := fun s => ∃ calls, Reconciled calls s ∧ Coherent s ∧ Known InDirectory s)
      (fun s l s' hi hk hs => ?_) ⟨[], hinit⟩ hk).mono fun s l hi => ?_
    · obtain ⟨calls, hi⟩ := hi
      exact ⟨_, hstep s l s' calls hi hk hs⟩
    · obtain ⟨calls, hi, hc, -⟩ := hi
      exact marksMissing_of_reconciled hi hc

/-! ### A binary that is swept -/

/-- A second upload, of another resource, is rolled back and its compensation fails; a reconcile finds
the binary. -/
def orphanRun : List Label :=
  uploadRun ++
    [.start (.upload { firstInput with resourceId := "s" } "g"), .act 1 (.createQuota "q" 2),
      .act 1 .verifyQuota, .act 1 .upload, .act 1 .abort, .act 1 (.compensate false),
      .start (.reconcile "t"), .act 2 .listStorage, .act 2 .sweep]

/-- `SparesLive` by evaluation. -/
def sparesLive (st : State) : Label → Bool
  | .act i .sweep =>
    match st.procs[i]? with
    | some (.sweeping (key :: _) _) =>
      (st.procs.all fun q => q.pending.all fun r => r.key != key) && st.world.files.all fun f =>
        f.status == .deleted || f.versions.all (·.storageKey != key)
    | _ => true
  | .act i .upload =>
    match st.procs[i]? with
    | some (.admitted r _) => st.procs.all fun q => (orphans q).all fun f =>
        f.versions.all (·.storageKey != r.key)
    | _ => true
  | _ => true

theorem sparesLive_sound (st : State) (l : Label) (h : sparesLive st l = true) : SparesLive st l := by
  constructor
  · rintro i key keys files rfl hp
    simp only [sparesLive, hp, Bool.and_eq_true, List.all_eq_true, Option.all_eq_true, Bool.or_eq_true,
      bne_iff_ne, beq_iff_eq] at h
    refine ⟨fun q hq r hr => h.1 q hq r hr, fun f hf hlive => ?_⟩
    rcases h.2 f hf with hd | hv
    · exact absurd hd hlive
    · exact hv
  · rintro i r check rfl hp
    simp only [sparesLive, hp, List.all_eq_true, bne_iff_ne] at h
    exact h

theorem reconcile_spares_live_files_orphanRun : ∃ st, run (step pdfPorts) emptySystem orphanRun = some st ∧
    Unharmed st.world.files (storageCalls pdfPorts emptySystem orphanRun) ∧
    AllSteps (step pdfPorts) (MarksMissing pdfPorts) emptySystem orphanRun := by
  have hrun : (run (step pdfPorts) emptySystem orphanRun).isSome = true := by decide
  have hspares : checkSteps (step pdfPorts) sparesLive emptySystem orphanRun = true := by decide
  obtain ⟨st, hst⟩ := Option.isSome_iff_exists.mp hrun
  exact ⟨st, hst, reconcile_spares_live_files deployed_emptySystem
    (allSteps_of_checkSteps sparesLive_sound hspares) hst⟩

/-- The reconcile reads the rows before the upload commits and lists the storage after it has stored
its binary. -/
def sweptRun : List Label :=
  [.start (.upload firstInput "f"), .act 0 (.createQuota "q" 0), .act 0 .verifyQuota,
    .start (.reconcile "t"), .act 0 .upload, .act 1 .listStorage, .act 0 (.write 1), .act 0 .enqueue,
    .act 0 .commit, .act 1 .sweep]

/-- All are done, and a live file names a key that was swept. -/
def harmed (calls : List StorageCall) (st : State) : Bool :=
  st.procs.all isDone && st.world.files.any fun f => f.status != .deleted &&
    f.versions.any fun v => sweptLast calls v.storageKey

/-- The reconcile deletes the binary of a file that has just been uploaded. -/
theorem live_binary_swept : ¬ ∀ (ports : Ports) (st st' : State) (ls : List Label), Deployed st →
    run (step ports) st ls = some st' → (∀ p ∈ st'.procs, isDone p = true) →
    Unharmed st'.world.files (storageCalls ports st ls) ∧
      AllSteps (step ports) (MarksMissing ports) st ls := by
  intro h
  have hrun : (run (step pdfPorts) emptySystem sweptRun).any
      (harmed (storageCalls pdfPorts emptySystem sweptRun)) = true := by decide
  obtain ⟨st, hst, hharm⟩ := (Option.any_eq_true _ _).mp hrun
  simp only [harmed, Bool.and_eq_true, List.all_eq_true, List.any_eq_true, bne_iff_ne] at hharm
  obtain ⟨hdone, f, hf, hlive, v, hv, hswept⟩ := hharm
  have hnot := (h pdfPorts emptySystem st sweptRun deployed_emptySystem hst hdone).1 f hf hlive v hv
  rw [hnot] at hswept
  cases hswept

end Neltrik.FileStorage.Reconciliation
