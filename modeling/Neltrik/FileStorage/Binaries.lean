import Neltrik.FileStorage.Rows

/-! # The binaries of the committed versions

A request stores its binary before it knows that it will commit, under a key made of the file, the
next version number and the name. Two replaces that start from the same version with the same name
compute the same key: the one that loses the optimistic lock has overwritten the binary of the other
and then deletes it (`binary_lost_by_sameName`).

`binaries_match` is the law that holds: while every upload of a binary goes to a key that no other
request holds and no version of a live file names (`FreshKey`), each version of each live file has
the binary its checksum was computed from, in every state of every interleaving. The invariant also
says that each request that has not failed finds its own binary under its key, and that no two
requests hold one key. -/

namespace Neltrik.FileStorage.Binaries

open Neltrik.Lib Neltrik.Lib.Machine Neltrik.Lib.OptimisticLock Neltrik.FileStorage.Domain
open Neltrik.FileStorage.Persistence Neltrik.FileStorage.Validation Neltrik.FileStorage.UseCases
open Neltrik.FileStorage.System Neltrik.FileStorage.Steps Neltrik.FileStorage.Rows

/-- The version has, under its key, the bytes its checksum was computed from. -/
def HasBinary (w : World) (fileId : String) (v : FileVersionParams) : Prop :=
  ∃ b, w.origins fileId v.version = some b ∧ w.storage.download v.storageKey = some b

/-- Every version of every live file has its binary. -/
def Matched (w : World) : Prop :=
  ∀ f ∈ w.files, f.status ≠ .deleted → ∀ v ∈ f.versions, HasBinary w f.id v.toFileVersionParams

/-- No version of a live file names the key. -/
def Unnamed (files : Files) (key : String) : Prop :=
  ∀ f ∈ files, f.status ≠ .deleted → ∀ v ∈ f.versions, v.storageKey ≠ key

/-- No request is between its upload and its commit or compensation. -/
def Quiescent (st : State) : Prop := ∀ p ∈ st.procs, p.heldKey = none

/-- The last version has the greatest number. -/
def Ordered (f : File) : Prop := ∀ v ∈ f.versions, v.version ≤ f.latest.version

/-- The condition on the runs: a binary is stored under a key that no request holds and no version of
a live file names. -/
def FreshKey (st : State) (l : Label) : Prop :=
  ∀ i r check, l = .act i .upload → st.procs[i]? = some (.admitted r check) →
    (∀ q ∈ st.procs, q.heldKey ≠ some r.key) ∧ Unnamed st.world.files r.key

/-! ## The numbers of the versions -/

section
variable {f g : File}

theorem ordered_of_edited (h : Ordered f) (he : Edited f g) : Ordered (Files.bump g) := by
  intro v hv
  obtain ⟨u, hu, huv⟩ := he.exists_version hv
  have hle := h u hu
  have hnum : v.version = u.version := by
    have : (core u).version = (core v).version := by rw [huv]
    exact this.symm
  rw [Files.bump_latest, he.latest_version]
  omega

theorem ordered_of_upload {ports : Ports} {input : UploadFileInput} {fileId : String} {now : ℕ}
    (h : (Request.upload input fileId).row ports now = .ok g) : Ordered g := by
  have hr := requested_of_row h
  obtain ⟨v, extension, mimeType, hp, hv⟩ := hr.versions
  intro u hu
  rw [hv] at hu
  have hu' : u = v := by simpa using hu
  rw [hu', hr.latest_version, hp]
  exact le_refl _

theorem ordered_of_replace {ports : Ports} {input : ReplaceFileInput} {now : ℕ} (h : Ordered f)
    (hrow : (Request.replace input f).row ports now = .ok g) : Ordered (Files.bump g) := by
  have hr := requested_of_row hrow
  obtain ⟨v, extension, mimeType, hp, hv⟩ := hr.versions
  have hlast : g.latest.version = f.latest.version + 1 := hr.latest_version
  intro u hu
  rw [Files.bump_versions, hv] at hu
  rw [Files.bump_latest]
  rcases List.mem_append.mp hu with hu | hu
  · have := h u hu; omega
  · have hu' : u = v := by simpa using hu
    rw [hu', hlast, hp]
    exact le_refl _

end

theorem known_ordered_step {ports : Ports} {st st' : State} {l : Label} (h : Known Ordered st)
    (hs : step ports st l = some st') : Known Ordered st' :=
  h.step (C := fun _ => True) (fun _ _ _ _ hg => ordered_of_upload hg)
    (fun _ _ _ _ hf hg => ordered_of_replace hf hg)
    (fun _ _ _ _ _ _ _ hf _ _ hg => ordered_of_edited hf (edited_of_apply hg)) trivial hs

/-! ## The invariant -/

/-- A request that has not failed finds its binary, what it holds is not named by a live file, and
there is no reconcile and no purge. -/
structure Holds (w : World) (p : Proc) : Prop where
  stored : ∀ r, p.pending = some r → w.storage.download r.key = some r.buffer
  unnamed : ∀ key, p.heldKey = some key → Unnamed w.files key
  sweeps : p.sweeps = false

/-- Two processes do not hold one key. -/
def KeysApart (p q : Proc) : Prop := ∀ key, p.heldKey = some key → q.heldKey ≠ some key

theorem keysApart_symm (p q : Proc) (h : KeysApart p q) : KeysApart q p :=
  fun _ hq hp => h _ hp hq

abbrev Stored : State → Prop := Interleaving.Inv (fun w => Matched w) Holds KeysApart

theorem heldKey_of_pending {p : Proc} {r : Request} (h : p.pending = some r) :
    p.heldKey = some r.key := by
  cases p with
  | uploaded | written | enqueued => cases h; rfl
  | _ => cases h

/-- Nothing the invariant looks at has changed. -/
structure Quiet (w w' : World) : Prop where
  files : w'.files = w.files
  storage : w'.storage = w.storage
  origins : w'.origins = w.origins

section
variable {w w' : World} {p q : Proc}

theorem Quiet.matched (h : Quiet w w') (hm : Matched w) : Matched w' := by
  unfold Matched HasBinary
  rw [h.files, h.storage, h.origins]
  exact hm

theorem Quiet.holds (h : Quiet w w') (hp : Holds w p) : Holds w' p :=
  ⟨by rw [h.storage]; exact hp.stored, by rw [h.files]; exact hp.unnamed, hp.sweeps⟩

/-! ### An upload and a compensation -/

/-- A change of the storage at one key that no live version and no other request uses. -/
theorem matched_of_key {storage : Storage} {key : String} (hm : Matched w) (hu : Unnamed w.files key)
    (hs : ∀ key', key' ≠ key → storage.download key' = w.storage.download key') :
    Matched { w with storage } := by
  intro f hf hlive v hv
  obtain ⟨b, ho, hd⟩ := hm f hf hlive v hv
  exact ⟨b, ho, (hs _ (hu f hf hlive v hv)).trans hd⟩

theorem holds_of_key {storage : Storage} {key : String} (hq : Holds w q) (hk : q.heldKey ≠ some key)
    (hs : ∀ key', key' ≠ key → storage.download key' = w.storage.download key') :
    Holds { w with storage } q := by
  refine ⟨fun r hr => ?_, hq.unnamed, hq.sweeps⟩
  have hne : r.key ≠ key := fun he => hk (he ▸ heldKey_of_pending hr)
  exact (hs _ hne).trans (hq.stored r hr)

/-! ### A saved edit -/

/-- An edit of a row: keys and numbers stay, and a deleted file stays deleted. -/
theorem version_of_edited {copy g : File} (he : Edited copy g) (hlive : g.status ≠ .deleted)
    {v : FileVersion} (hv : v ∈ g.versions) : copy.status ≠ .deleted ∧
      ∃ u ∈ copy.versions, u.version = v.version ∧ u.storageKey = v.storageKey := by
  obtain ⟨u, hu, huv⟩ := he.exists_version hv
  refine ⟨fun hd => hlive (he.deleted hd), u, hu, ?_, ?_⟩
  · have : (core u).version = (core v).version := by rw [huv]
    exact this
  · have : (core u).storageKey = (core v).storageKey := by rw [huv]
    exact this

theorem matched_of_edit {files' : Files} {copy g : File} (hm : Matched w) (ht : Tidy w.files)
    (hc : copy ∈ w.files) (he : Edited copy g) (hu : Files.update w.files g = .ok files') :
    Matched { w with files := files' } := by
  intro f hf hlive v hv
  rcases cases_of_update ht copy hc he.id he.version hu hf with rfl | ⟨hf, -⟩
  · obtain ⟨hlive', u, hu', hnum, hkey⟩ := version_of_edited he hlive hv
    obtain ⟨b, ho, hd⟩ := hm copy hc hlive' u hu'
    exact ⟨b, by rw [← hnum, Files.bump_id, he.id]; exact ho, by rw [← hkey]; exact hd⟩
  · exact hm f hf hlive v hv

theorem unnamed_of_edit {files files' : Files} {copy g : File} {key : String} (ht : Tidy files)
    (hc : copy ∈ files) (he : Edited copy g) (hu : Files.update files g = .ok files')
    (hk : Unnamed files key) : Unnamed files' key := by
  intro f hf hlive v hv
  rcases cases_of_update ht copy hc he.id he.version hu hf with rfl | ⟨hf, -⟩
  · obtain ⟨hlive', u, hu', -, hkey⟩ := version_of_edited he hlive hv
    rw [← hkey]
    exact hk copy hc hlive' u hu'
  · exact hk f hf hlive v hv

/-! ### A commit -/

/-- The rows after the commit of a request: its file, with the new version under the key of the
request and the old ones of the row it read, and the rows of other files. -/
def Committed (r : Request) (files files' : Files) : Prop :=
  ∀ f ∈ files', (f.id = r.fileId ∧ ∀ v ∈ f.versions,
      (v.version = r.version ∧ v.storageKey = r.key) ∨
        ∃ copy ∈ files, copy.id = f.id ∧ copy.status ≠ .deleted ∧ v ∈ copy.versions ∧
          v.version ≠ r.version) ∨
    (f ∈ files ∧ f.id ≠ r.fileId)

theorem committed_of_save {ports : Ports} {r : Request} {now : ℕ} {files files' : Files} {g : File}
    (ht : Tidy files) (hb : ∀ c ∈ r.copies, IsBehind files c) (hord : ∀ c ∈ r.copies, Ordered c)
    (hg : r.row ports now = .ok g) (hs : r.save files g = .ok files') : Committed r files files' := by
  intro f hf
  have hr := requested_of_row hg
  obtain ⟨u, extension, mimeType, hp, hv⟩ := hr.versions
  have hnew : u.version = r.version ∧ u.storageKey = r.key := by rw [hp]; exact ⟨rfl, rfl⟩
  cases r with
  | upload input fileId =>
    obtain ⟨hfresh, rfl⟩ := Files.create_eq_ok.mp hs
    rcases List.mem_cons.mp hf with rfl | hf
    · refine Or.inl ⟨hr.id, fun v hmem => Or.inl ?_⟩
      rw [hv] at hmem
      have hvu : v = u := by simpa using hmem
      rw [hvu]; exact hnew
    · exact Or.inr ⟨hf, by rw [← hr.id]; exact (hfresh f hf).1⟩
  | replace input copy =>
    have hbc := hb copy (by simp [Request.copies])
    have hc : copy ∈ files := ht.mem_of_update hbc hr.id hr.version hs
    rcases cases_of_update ht copy hc hr.id hr.version hs hf with rfl | ⟨hf, hne⟩
    · refine Or.inl ⟨hr.id, fun v hmem => ?_⟩
      rw [Files.bump_versions, hv] at hmem
      rcases List.mem_append.mp hmem with hmem | hmem
      · have hle := hord copy (by simp [Request.copies]) v hmem
        have hlive : copy.status ≠ .deleted := by
          obtain ⟨v', -, hadd⟩ := Effect.except_bind_eq_ok.mp hg
          obtain ⟨hst, -, -⟩ := File.addVersion_eq_ok.mp hadd
          rcases hst with hst | hst <;> rw [hst] <;> decide
        refine Or.inr ⟨copy, hc, hr.id.symm, hlive, hmem, ?_⟩
        have : (Request.replace input copy).version = copy.latest.version + 1 := rfl
        omega
      · have hvu : v = u := by simpa using hmem
        exact Or.inl (hvu ▸ hnew)
    · exact Or.inr ⟨hf, by rw [← hr.id]; exact hne⟩

/-- The new version has the binary of the request, and the older ones keep theirs. -/
theorem Committed.matched {r : Request} {files : Files} (h : Committed r w.files files)
    (hm : Matched w) (hstored : w.storage.download r.key = some r.buffer)
    (hf : w'.files = files) (hst : w'.storage = w.storage)
    (hor : w'.origins = Function.update w.origins r.fileId
      (Function.update (w.origins r.fileId) r.version (some r.buffer))) : Matched w' := by
  intro f hmem hlive v hv
  rw [hf] at hmem
  unfold HasBinary
  rw [hst, hor]
  rcases h f hmem with ⟨hid, hvers⟩ | ⟨hmem, hne⟩
  · rw [hid, Function.update_self]
    rcases hvers v hv with ⟨hnum, hkey⟩ | ⟨copy, hcm, hcid, hclive, hcv, hne⟩
    · refine ⟨r.buffer, by rw [hnum, Function.update_self], ?_⟩
      rw [hkey]
      exact hstored
    · obtain ⟨b, ho, hd⟩ := hm copy hcm hclive v hcv
      exact ⟨b, by rw [Function.update_of_ne hne, ← hid, ← hcid]; exact ho, hd⟩
  · obtain ⟨b, ho, hd⟩ := hm f hmem hlive v hv
    exact ⟨b, by rw [Function.update_of_ne hne]; exact ho, hd⟩

/-- A key that is not the one of the request is named by no more files than before. -/
theorem Committed.unnamed {r : Request} {files files' : Files} {key : String}
    (h : Committed r files files') (hk : Unnamed files key) (hne : r.key ≠ key) :
    Unnamed files' key := by
  intro f hf hlive v hv
  rcases h f hf with ⟨-, hvers⟩ | ⟨hmem, -⟩
  · rcases hvers v hv with ⟨-, hvk⟩ | ⟨copy, hcm, -, hclive, hcv, -⟩
    · rw [hvk]
      exact hne
    · exact hk copy hcm hclive v hcv
  · exact hk f hmem hlive v hv

end

/-! ## The law -/

/-- Reconciles and purges, which delete binaries on their own account. -/
def startsSweep : Label → Bool
  | .start (.reconcile _) | .start (.purge _ _) => true
  | _ => false

/-- The invariant of the world and the process that an action of process `i` leaves: the process does
not interfere with the others. -/
def Undisturbed (st : State) (i : ℕ) (w : World) (p' : Proc) : Prop :=
  Matched w ∧ Holds w p' ∧ ∀ (j : ℕ) q, j ≠ i → st.procs[j]? = some q → Holds w q ∧ KeysApart p' q

theorem keysApart_of_none {p q : Proc} (h : p.heldKey = none) : KeysApart p q := by
  intro key hp
  rw [h] at hp
  cases hp

theorem holds_of_none {w : World} {p : Proc} (hheld : p.heldKey = none) (hpend : p.pending = none)
    (hsweep : p.sweeps = false) : Holds w p := by
  refine ⟨?_, ?_, hsweep⟩
  · rw [hpend]; exact fun _ hr => nomatch hr
  · rw [hheld]; exact fun _ hkey => nomatch hkey

section
variable {st : State} {i : ℕ} {p p' : Proc} {w : World}

/-- What the process held and stored, it may keep or give up. -/
theorem Stored.undisturbed_of_quiet (hi : Stored st) (hp : st.procs[i]? = some p)
    (hq : Quiet st.world w) (hheld : p'.heldKey = p.heldKey ∨ p'.heldKey = none)
    (hpend : p'.pending = p.pending ∨ p'.pending = none) (hsweep : p'.sweeps = false) :
    Undisturbed st i w p' := by
  obtain ⟨hstored, hunnamed, -⟩ := hi.proc hp
  refine ⟨hq.matched hi.world, hq.holds ⟨?_, ?_, hsweep⟩,
    fun j q hj hjq => ⟨hq.holds (hi.proc hjq), ?_⟩⟩
  · rcases hpend with hpend | hpend <;> rw [hpend]
    · exact hstored
    · exact fun _ hr => nomatch hr
  · rcases hheld with hheld | hheld <;> rw [hheld]
    · exact hunnamed
    · exact fun _ hkey => nomatch hkey
  · rcases hheld with hheld | hheld
    · intro key hkey
      rw [hheld] at hkey
      exact hi.apart i j p q (Ne.symm hj) hp hjq key hkey
    · exact keysApart_of_none hheld

/-- An edit is saved by a process that holds nothing. -/
theorem Stored.undisturbed_of_saveCopy {copy : File} {edit : Edit} {now : ℕ} {w₁ : World}
    (hi : Stored st) (hc : Tidy st.world.files) (hb : IsBehind st.world.files copy)
    (hsave : saveCopy st.world copy edit now = .ok w₁) (hw : Quiet w₁ w) (hheld : p'.heldKey = none)
    (hpend : p'.pending = none) (hsweep : p'.sweeps = false) : Undisturbed st i w p' := by
  obtain ⟨g, files, hg, hu, hw₁⟩ := saveCopy_eq_ok hsave
  have he := edited_of_apply hg
  have hmem : copy ∈ st.world.files := hc.mem_of_update hb he.id he.version hu
  have hquiet : Quiet { st.world with files } w := by
    refine ⟨hw.files.trans ?_, hw.storage.trans ?_, hw.origins.trans ?_⟩ <;>
      rcases hw₁ with rfl | ⟨-, quotas, -, rfl⟩ <;> rfl
  refine ⟨hquiet.matched (matched_of_edit hi.world hc hmem he hu), holds_of_none hheld hpend hsweep,
    fun j q _ hjq => ⟨hquiet.holds ?_, keysApart_of_none hheld⟩⟩
  have hq := hi.proc hjq
  exact ⟨hq.stored, fun key hkey => unnamed_of_edit hc hmem he hu (hq.unnamed key hkey), hq.sweeps⟩

/-- An upload puts the binary under a key nobody else uses. -/
theorem Stored.undisturbed_of_upload {r : Request} {check : QuotaCheck} (hi : Stored st)
    (hfree : ∀ q ∈ st.procs, q.heldKey ≠ some r.key) (hun : Unnamed st.world.files r.key) :
    Undisturbed st i { st.world with storage := st.world.storage.upload r.key r.buffer }
      (.uploaded r check) := by
  have hkeep : ∀ key', key' ≠ r.key → (st.world.storage.upload r.key r.buffer).download key' =
      st.world.storage.download key' := fun key' hne => by
    rw [Storage.download_upload, if_neg hne]
  refine ⟨matched_of_key hi.world hun hkeep, ⟨?_, ?_, rfl⟩, fun j q _ hjq => ⟨?_, ?_⟩⟩
  · rintro r' hr'
    cases hr'
    rw [Storage.download_upload, if_pos rfl]
  · rintro key hkey
    cases hkey
    exact hun
  · exact holds_of_key (hi.proc hjq) (hfree q (Pool.mem_of_getElem? hjq)) hkeep
  · rintro key hkey
    cases hkey
    exact hfree q (Pool.mem_of_getElem? hjq)

/-- A compensation deletes the binary the process holds. -/
theorem Stored.undisturbed_of_compensate {r : Request} (hi : Stored st)
    (hp : st.procs[i]? = some p) (hheld : p.heldKey = some r.key) (hp' : p'.heldKey = none)
    (hpend : p'.pending = none) (hsweep : p'.sweeps = false) :
    Undisturbed st i { st.world with storage := st.world.storage.delete r.key } p' := by
  have hkeep : ∀ key', key' ≠ r.key → (st.world.storage.delete r.key).download key' =
      st.world.storage.download key' := fun key' hne => by
    rw [Storage.download_delete, if_neg hne]
  refine ⟨matched_of_key hi.world ((hi.proc hp).unnamed r.key hheld) hkeep,
    holds_of_none hp' hpend hsweep, fun j q hj hjq => ⟨?_, keysApart_of_none hp'⟩⟩
  exact holds_of_key (hi.proc hjq) (hi.apart i j p q (Ne.symm hj) hp hjq r.key hheld) hkeep

/-- A commit names the key of the request, which the others do not hold. -/
theorem Stored.undisturbed_of_commit {ports : Ports} {r : Request} {check : QuotaCheck} {now : ℕ}
    {files : Files} {quotas : Quotas} (hi : Stored st) (hc : Coherent st) (ho : Known Ordered st)
    (hp : st.procs[i]? = some (.enqueued r check now))
    (hpersist : persist ports st.world r now = .ok (files, quotas)) :
    Undisturbed st i
      { st.world with
        files, quotas
        moved := Function.update st.world.moved r.tenantId (st.world.moved r.tenantId + r.size)
        origins := Function.update st.world.origins r.fileId
          (Function.update (st.world.origins r.fileId) r.version (some r.buffer)) }
      .finished := by
  obtain ⟨g, hg, hsave, -⟩ := persist_eq_ok.mp hpersist
  have hcom : Committed r st.world.files files :=
    committed_of_save hc.world (hc.proc hp).2 (ho.proc hp).2 hg hsave
  have hstored := (hi.proc hp).stored r rfl
  refine ⟨hcom.matched hi.world hstored rfl rfl rfl, holds_of_none rfl rfl rfl,
    fun j q hj hjq => ⟨?_, keysApart_of_none rfl⟩⟩
  have hq := hi.proc hjq
  refine ⟨hq.stored, fun key hkey => hcom.unnamed (hq.unnamed key hkey) ?_, hq.sweeps⟩
  intro he
  exact hi.apart i j _ q (Ne.symm hj) hp hjq r.key rfl (he ▸ hkey)

end

/-- **One step keeps the invariant**, if it stores no binary under a key in use. -/
theorem Stored.step {ports : Ports} {st st' : State} {l : Label} (h : Stored st)
    (hc : Coherent st) (ho : Known Ordered st) (hk : FreshKey st l) (hl : startsSweep l = false)
    (hs : step ports st l = some st') : Stored st' := by
  refine Interleaving.Inv.step
    (G := fun st l => Coherent st ∧ Known Ordered st ∧ FreshKey st l ∧ startsSweep l = false)
    keysApart_symm ?_ ?_ h ⟨hc, ho, hk, hl⟩ hs
  · rintro st s w p hi ⟨-, -, -, hl⟩ hw
    have hw := start_starts hw
    have hquiet : Quiet st.world w := by cases hw <;> exact ⟨rfl, rfl, rfl⟩
    have hheld : p.heldKey = none := by cases hw <;> rfl
    have hpend : p.pending = none := by cases hw <;> rfl
    have hsweep : p.sweeps = false := by
      cases hw with
      | reconcile | purge => cases hl
      | _ => rfl
    exact ⟨hquiet.matched hi.world, holds_of_none hheld hpend hsweep,
      fun q hq => ⟨hquiet.holds (hi.procs q hq), keysApart_of_none hheld⟩⟩
  · rintro st i a p w p' hi ⟨hc, ho, hk, -⟩ hp hw
    have hw := act_acts hw
    have hi : Stored st := hi
    have hsweeps := (hi.proc hp).sweeps
    have hbehind := (hc.proc hp).2
    -- the three actions on the storage, the saved edits, and what touches no binary and no row
    cases hw with
    | upload =>
      rename_i r check
      obtain ⟨hfree, hun⟩ := hk i r check rfl hp
      exact hi.undisturbed_of_upload hfree hun
    | commit hpersist => exact hi.undisturbed_of_commit hc ho hp hpersist
    | compensate => exact hi.undisturbed_of_compensate hp rfl rfl rfl rfl
    | abort hr =>
      refine hi.undisturbed_of_quiet hp ⟨rfl, rfl, rfl⟩ (Or.inl ?_) (Or.inr rfl) rfl
      rw [heldKey_of_pending hr]; rfl
    | saveEdit h | saveScan h | saveRescan h =>
      exact hi.undisturbed_of_saveCopy hc.world (hbehind _ (by simp [Proc.copies])) h
        ⟨rfl, rfl, rfl⟩ rfl rfl rfl
    | listPurge | listReconcile | sweep | markOrphan | markFails => cases hsweeps
    | createQuota | accept | refuse | write | enqueue | resourceTaken | resourceFree | editFails |
      downloadScan | downloadRescan | scanFails | failScan | rescanFails | saveLimit | limitFails |
      compensationFails | writeFails =>
      exact hi.undisturbed_of_quiet hp ⟨rfl, rfl, rfl⟩ (by first | exact Or.inl rfl | exact Or.inr rfl)
        (by first | exact Or.inl rfl | exact Or.inr rfl) rfl

/-- A system at rest, as the tables and the storage of a deployment are between requests. -/
structure Settled (st : State) : Prop where
  idle : st.procs = []
  tidy : Tidy st.world.files
  ordered : ∀ f ∈ st.world.files, Ordered f
  matched : Matched st.world

theorem settled_emptySystem : Settled emptySystem :=
  ⟨rfl, tidy_nil, fun _ h => absurd h List.not_mem_nil, fun _ h => absurd h List.not_mem_nil⟩

/-- **Stored binaries match the committed versions.** In every run without reconcile and purge in
which each binary is stored under a key that no other request holds and no version of a live file
names, every version of every live file has the binary its checksum was computed from, in every state
and so in those in which no request is under way. -/
theorem binaries_match {ports : Ports} {st : State} {ls : List Label} (h : Settled st)
    (hl : ∀ l ∈ ls, startsSweep l = false) (hk : AllSteps (step ports) FreshKey st ls) :
    AllStates (step ports) (fun s => Quiescent s → Matched s.world) st ls := by
  have hsweep : AllSteps (step ports) (fun _ l => startsSweep l = false) st ls :=
    allSteps_of_forall (fun l hm _ => hl l hm) st
  have hinv : AllStates (step ports) (fun s => Stored s ∧ Coherent s ∧ Known Ordered s) st ls :=
    allStates_of_allSteps
      (fun s l s' hi hg hs => ⟨hi.1.step hi.2.1 hi.2.2 hg.1 hg.2 hs, hi.2.1.step hs,
        known_ordered_step hi.2.2 hs⟩)
      ⟨Interleaving.Inv.of_nil h.matched h.idle, coherent_of_idle h.idle h.tidy,
        Interleaving.Inv.of_nil h.ordered h.idle⟩
      (hk.and hsweep)
  exact hinv.mono fun s hs _ => hs.1.world

/-! ### Two replaces with one name -/

/-- A replace alone. -/
def replaceRun : List Label :=
  readyRun ++ [.start (.replace (some "t") (replaceInput pdf₂)), .act 2 .verifyQuota, .act 2 .upload,
    .act 2 (.write 3), .act 2 .enqueue, .act 2 .commit]

/-- `FreshKey` by evaluation. -/
def freshKey (st : State) : Label → Bool
  | .act i .upload =>
    match st.procs[i]? with
    | some (.admitted r _) => st.procs.all (·.heldKey != some r.key) && st.world.files.all fun f =>
        f.status == .deleted || f.versions.all (·.storageKey != r.key)
    | _ => true
  | _ => true

theorem freshKey_sound (st : State) (l : Label) (h : freshKey st l = true) : FreshKey st l := by
  rintro i r check rfl hp
  simp only [freshKey, hp, Bool.and_eq_true, List.all_eq_true, Bool.or_eq_true, bne_iff_ne,
    beq_iff_eq] at h
  refine ⟨h.1, fun f hf hlive => ?_⟩
  rcases h.2 f hf with hd | hv
  · exact absurd hd hlive
  · exact hv

/-- After an upload, a scan and a replace, both versions have their binaries. -/
theorem binaries_match_replaceRun : (∃ st, run (step pdfPorts) emptySystem replaceRun = some st) ∧
    AllStates (step pdfPorts) (fun s => Quiescent s → Matched s.world) emptySystem replaceRun := by
  have hrun : (run (step pdfPorts) emptySystem replaceRun).isSome = true := by decide
  have hfresh : checkSteps (step pdfPorts) freshKey emptySystem replaceRun = true := by decide
  exact ⟨Option.isSome_iff_exists.mp hrun, binaries_match settled_emptySystem (by decide)
    (allSteps_of_checkSteps freshKey_sound hfresh)⟩

/-- Processes `2` and `3` read version `1` and store their binaries under one key; `2` commits, `3`
loses the optimistic lock and compensates. -/
def sameNameRun : List Label :=
  readyRun ++
    [.start (.replace (some "t") (replaceInput pdf₂)), .start (.replace (some "t") (replaceInput pdf₁)),
      .act 2 .verifyQuota, .act 3 .verifyQuota, .act 2 .upload, .act 3 .upload, .act 2 (.write 3),
      .act 2 .enqueue, .act 2 .commit, .act 3 (.write 4), .act 3 (.compensate true)]

/-- At rest, a live file has a version without a binary. -/
def lostBinary (st : State) : Bool :=
  st.procs.all (·.heldKey == none) && st.world.files.any fun f => f.status != .deleted &&
    f.versions.any fun v => st.world.storage.download v.storageKey == none

theorem not_matched_of_lostBinary {st : State} (h : lostBinary st = true) :
    ¬ (Quiescent st → Matched st.world) := by
  intro hm
  simp only [lostBinary, Bool.and_eq_true, List.all_eq_true, List.any_eq_true, beq_iff_eq,
    bne_iff_ne] at h
  obtain ⟨hq, f, hf, hlive, v, hv, hnone⟩ := h
  obtain ⟨b, -, hb⟩ := hm hq f hf hlive v hv
  rw [hnone] at hb
  cases hb

/-- The compensation deletes the binary of the committed version. -/
theorem binary_lost_by_sameName : ¬ ∀ (ports : Ports) (st : State) (ls : List Label), Settled st →
    (∀ l ∈ ls, startsSweep l = false) →
    AllStates (step ports) (fun s => Quiescent s → Matched s.world) st ls := by
  intro h
  have hrun : (run (step pdfPorts) emptySystem sameNameRun).any lostBinary = true := by decide
  obtain ⟨st, hst, hlost⟩ := (Option.any_eq_true _ _).mp hrun
  exact not_matched_of_lostBinary hlost
    ((h pdfPorts emptySystem sameNameRun settled_emptySystem (by decide)).last hst)

end Neltrik.FileStorage.Binaries
