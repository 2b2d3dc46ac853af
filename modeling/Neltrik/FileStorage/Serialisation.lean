import Neltrik.FileStorage.Rows
import Neltrik.Lib.Trace

/-! # The file as a sequential object

An `Operation` is what a run does to a file between its read of the row and its conditional update:
one of the edits, or the new version of a replace. `committed` says which operation a step commits,
by which run and to which file, and `history` lists them for one file in the order of the commits.

A run that commits has read the row that is there (`Tidy.mem_of_update`), so the concurrent system
takes each row where the operations of its history take it one after the other: `file_serialised`. -/

namespace Neltrik.FileStorage.Serialisation

open Neltrik.Lib Neltrik.Lib.Machine Neltrik.Lib.Table Neltrik.Lib.OptimisticLock
open Neltrik.FileStorage.Domain Neltrik.FileStorage.Persistence Neltrik.FileStorage.Validation
open Neltrik.FileStorage.UseCases Neltrik.FileStorage.System Neltrik.FileStorage.Steps
open Neltrik.FileStorage.Rows

/-! ## Operations -/

inductive Operation where
  | edit (change : Edit)
  | replace (input : ReplaceFileInput)

/-- The operation alone: the entity is changed, its row gets the next version. -/
def Operation.apply (ports : Ports) (file : File) (now : ℕ) : Operation → Except FileError File
  | .edit change => (change.apply file now).map Files.bump
  | .replace input => ((Request.replace input file).row ports now).map Files.bump

theorem Operation.apply_version {ports : Ports} {file row : File} {now : ℕ} {operation : Operation}
    (h : operation.apply ports file now = .ok row) :
    row.id = file.id ∧ row.version = file.version + 1 := by
  cases operation with
  | edit change =>
    obtain ⟨g, hg, rfl⟩ := Effect.except_map_eq_ok.mp h
    have he := edited_of_apply hg
    exact ⟨he.id, congrArg (· + 1) he.version⟩
  | replace input =>
    obtain ⟨g, hg, rfl⟩ := Effect.except_map_eq_ok.mp h
    have hr := requested_of_row hg
    exact ⟨hr.id, congrArg (· + 1) hr.version⟩

/-! ## Commits -/

/-- A run has changed a file. -/
structure Committed where
  run : ℕ
  fileId : String
  operation : Operation
  now : ℕ

/-- The sequential specification of one file. -/
def Committed.apply (ports : Ports) (file : File) (c : Committed) : Except FileError File :=
  c.operation.apply ports file c.now

/-- The copy a process saves with an action, and the operation on it. -/
def saving : Proc → Action → Option (File × Operation × ℕ)
  | .enqueued (.replace input copy) _ now, .commit => some (copy, .replace input, now)
  | .editing copy edit, .saveEdit now => some (copy, .edit edit, now)
  | .scanning _ copy (some _), .saveScan answer now => some (copy, .edit (.scan answer), now)
  | .rescanning (copy :: _) (some _), .saveRescan answer now => some (copy, .edit (.rescan answer), now)
  | .sweeping [] (copy :: _), .markOrphan now => some (copy, .edit .orphan, now)
  | _, _ => none

/-- The transaction that saves the copy goes through. -/
def succeeds (ports : Ports) (w : World) (copy : File) (now : ℕ) : Operation → Bool
  | .edit change => (saveCopy w copy change now).isOk
  | .replace input => (persist ports w (.replace input copy) now).isOk

/-- What a step commits, if it does. -/
def committed (ports : Ports) (st : State) : Label → Option Committed
  | .start _ => none
  | .act i a => st.procs[i]?.bind fun p => (saving p a).bind fun (copy, operation, now) =>
      if succeeds ports st.world copy now operation then some ⟨i, copy.id, operation, now⟩ else none

def committedTo (ports : Ports) (fileId : String) (st : State) (l : Label) : Option Committed :=
  (committed ports st l).filter fun c => c.fileId == fileId

/-- The commits of a run to one file, in their order. -/
def history (ports : Ports) (fileId : String) (st : State) (ls : List Label) : List Committed :=
  trace (step ports) (committedTo ports fileId) st ls

/-- The row of a file. -/
def rowOf (st : State) (fileId : String) : Option File :=
  st.world.files.find? fun f => f.id == fileId

theorem rowOf_eq_some {st : State} (h : Tidy st.world.files) {fileId : String} {f : File} :
    rowOf st fileId = some f ↔ f ∈ st.world.files ∧ f.id = fileId := by
  constructor
  · intro hf
    exact ⟨List.mem_of_find?_eq_some hf, by simpa using List.find?_some hf⟩
  · rintro ⟨hf, hid⟩
    cases hr : rowOf st fileId with
    | none =>
      have hn := List.find?_eq_none.mp hr f hf
      exact absurd (by simpa using hid) hn
    | some g =>
      have hg := List.mem_of_find?_eq_some hr
      have hgid : g.id = fileId := by simpa using List.find?_some hr
      rw [h.keyed.eq_of_key_eq hg hf (hgid.trans hid.symm)]

/-! ## What a step does to the rows -/

/-- An action that saves an edit is `saveUnlocked`. -/
theorem act_of_saving_edit (ports : Ports) (procs : List Proc) (w : World) {p : Proc} {a : Action}
    {copy : File} {edit : Edit} {now : ℕ} (h : saving p a = some (copy, .edit edit, now)) :
    ∃ done failed, act ports procs w p a = saveUnlocked ports procs w copy edit now done failed ∧
      (∀ w', (done w').1.files = w'.files) ∧ failed.1.files = w.files := by
  unfold saving at h
  split at h
  · cases h
  · cases h; exact ⟨_, _, rfl, fun _ => rfl, rfl⟩
  · cases h; exact ⟨_, _, rfl, fun _ => rfl, rfl⟩
  · cases h; exact ⟨_, _, rfl, fun _ => rfl, rfl⟩
  · cases h; exact ⟨_, _, rfl, fun _ => rfl, rfl⟩
  · cases h

theorem eq_enqueued_of_saving_replace {p : Proc} {a : Action} {copy : File} {input : ReplaceFileInput}
    {now : ℕ} (h : saving p a = some (copy, .replace input, now)) :
    ∃ check, p = .enqueued (.replace input copy) check now ∧ a = .commit := by
  unfold saving at h
  split at h
  · cases h; exact ⟨_, rfl, rfl⟩
  · cases h
  · cases h
  · cases h
  · cases h
  · cases h

theorem saving_mem {p : Proc} {a : Action} {copy : File} {operation : Operation} {now : ℕ}
    (h : saving p a = some (copy, operation, now)) : copy ∈ p.copies := by
  unfold saving at h
  split at h
  · cases h; exact List.mem_singleton_self _
  · cases h; exact List.mem_singleton_self _
  · cases h; exact List.mem_singleton_self _
  · cases h; exact List.mem_cons_self
  · cases h; exact List.mem_cons_self
  · cases h

/-- An action that saves no copy leaves the rows as they are. -/
theorem subset_files_of_saving_none {ports : Ports} {procs : List Proc} {w w' : World} {p p' : Proc}
    {a : Action} (h : Acts ports procs w p a w' p') (hs : saving p a = none) : w.files ⊆ w'.files := by
  cases h with
  | @commit r check now files quotas h =>
    obtain ⟨g, -, hsave, -⟩ := persist_eq_ok.mp h
    cases r with
    | upload input fileId =>
      obtain ⟨-, rfl⟩ := Files.create_eq_ok.mp hsave
      exact List.subset_cons_self _ _
    | replace input copy => cases hs
  | saveEdit | saveScan | saveRescan | markOrphan => cases hs
  | _ => exact List.Subset.refl _

/-- What the table becomes: the copy that was a row is changed by the operation. -/
structure Applied (ports : Ports) (files files' : Files) (copy : File) (operation : Operation) (now : ℕ) :
    Prop where
  mem : copy ∈ files
  applied : ∃ row ∈ files', operation.apply ports copy now = .ok row
  others : ∀ f ∈ files, f.id ≠ copy.id → f ∈ files'

theorem applied_of_update {ports : Ports} {files files' : Files} {copy g : File} {operation : Operation}
    {now : ℕ} (ht : Tidy files) (hb : IsBehind files copy)
    (hg : operation.apply ports copy now = .ok (Files.bump g)) (hu : Files.update files g = .ok files') :
    Applied ports files files' copy operation now := by
  obtain ⟨hid, hver⟩ := Operation.apply_version hg
  have hid' : g.id = copy.id := hid
  have hver' : g.version = copy.version := by
    rw [Files.bump_version] at hver; omega
  have hc := ht.mem_of_update hb hid' hver' hu
  obtain ⟨-, -, rfl⟩ := Files.update_eq_ok.mp hu
  have hm : ∃ r ∈ files, matching (fun f : File => f.id) (fun f : File => f.version) g r = true :=
    ⟨copy, hc, matching_iff.mpr ⟨hid'.symm, hver'.symm⟩⟩
  refine ⟨hc, ⟨_, (mem_write hm).mpr (Or.inl rfl), hg⟩, fun f hf hne => ?_⟩
  refine (mem_write hm).mpr (Or.inr ⟨hf, ?_⟩)
  by_contra hmatch
  have := (matching_iff.mp ((Bool.not_eq_false _).mp hmatch)).1
  exact hne (this.trans hid')

/-- **A step that saves a copy** commits the operation on the row, or leaves the rows as they are. -/
theorem files_of_saving {ports : Ports} {st : State} {i : ℕ} {a : Action} {p p' : Proc} {w : World}
    (hi : Coherent st) (hp : st.procs[i]? = some p)
    (ha : act ports st.procs st.world p a = some (w, p')) {copy : File} {operation : Operation} {now : ℕ}
    (hs : saving p a = some (copy, operation, now)) :
    (succeeds ports st.world copy now operation = true ∧
        Applied ports st.world.files w.files copy operation now) ∨
      (succeeds ports st.world copy now operation = false ∧ w.files = st.world.files) := by
  have hb := (hi.proc hp).2 copy (saving_mem hs)
  cases operation with
  | edit change =>
    obtain ⟨done, failed, hact, hdone, hfailed⟩ := act_of_saving_edit ports st.procs st.world hs
    rw [hact] at ha
    rcases saveUnlocked_eq_some ha with ⟨w₁, hsave, he⟩ | ⟨⟨e, hsave⟩, he⟩
    · left
      refine ⟨by rw [succeeds, hsave]; rfl, ?_⟩
      have hw : w.files = w₁.files := by rw [← hdone w₁, he]
      obtain ⟨g, files, hg, hu, hw₁⟩ := saveCopy_eq_ok hsave
      have hfiles : w₁.files = files := by
        rcases hw₁ with rfl | ⟨-, quotas, -, rfl⟩ <;> rfl
      rw [hw, hfiles]
      refine applied_of_update hi.world hb ?_ hu
      show (change.apply copy now).map Files.bump = .ok (Files.bump g)
      rw [hg]; rfl
    · right
      refine ⟨by rw [succeeds, hsave]; rfl, ?_⟩
      rw [← hfailed, he]
  | replace input =>
    obtain ⟨check, rfl, rfl⟩ := eq_enqueued_of_saving_replace hs
    cases act_acts ha with
    | commit h =>
      left
      refine ⟨by rw [succeeds, h]; rfl, ?_⟩
      obtain ⟨g, hg, hsave, -⟩ := persist_eq_ok.mp h
      refine applied_of_update hi.world hb ?_ hsave
      show ((Request.replace input copy).row ports now).map Files.bump = .ok (Files.bump g)
      rw [hg]; rfl

section Step
variable {ports : Ports} {st st' : State} {l : Label}

theorem committed_act {i : ℕ} {a : Action} {p : Proc} (hp : st.procs[i]? = some p) :
    committed ports st (.act i a) = (saving p a).bind fun (copy, operation, now) =>
      if succeeds ports st.world copy now operation then some ⟨i, copy.id, operation, now⟩ else none := by
  rw [committed, hp]; rfl

/-- **What a step does to the rows**, by what it commits. -/
theorem step_rows (hi : Coherent st) (hs : step ports st l = some st') :
    (committed ports st l = none ∧ st.world.files ⊆ st'.world.files) ∨
      ∃ c copy, committed ports st l = some c ∧ c.fileId = copy.id ∧
        Applied ports st.world.files st'.world.files copy c.operation c.now := by
  cases l with
  | start s =>
    obtain ⟨w, p, hw, rfl⟩ := Interleaving.step_start.mp hs
    refine Or.inl ⟨rfl, ?_⟩
    rw [starts_files (start_starts hw)]
    exact List.Subset.refl _
  | act i a =>
    obtain ⟨p, w, p', hp, hw, rfl⟩ := Interleaving.step_act.mp hs
    rw [committed_act hp]
    cases hsv : saving p a with
    | none => exact Or.inl ⟨rfl, subset_files_of_saving_none (act_acts hw) hsv⟩
    | some s =>
      obtain ⟨copy, operation, now⟩ := s
      rcases files_of_saving hi hp hw hsv with ⟨hok, happ⟩ | ⟨hfail, hf⟩
      · refine Or.inr ⟨⟨i, copy.id, operation, now⟩, copy, ?_, rfl, happ⟩
        show (if _ then _ else _) = _
        rw [if_pos hok]
      · refine Or.inl ⟨?_, ?_⟩
        · show (if _ then _ else _) = _
          rw [hfail]; rfl
        · rw [hf]; exact List.Subset.refl _

variable {fileId : String} {f : File}

/-- **A run that commits nothing to the file leaves its row unchanged.** -/
theorem rowOf_of_silent (hi : Coherent st) (hs : step ports st l = some st')
    (hr : rowOf st fileId = some f) (hc : committedTo ports fileId st l = none) :
    rowOf st' fileId = some f := by
  obtain ⟨hf, hid⟩ := (rowOf_eq_some hi.world).mp hr
  refine (rowOf_eq_some (hi.step hs).world).mpr ⟨?_, hid⟩
  rcases step_rows hi hs with ⟨-, hsub⟩ | ⟨c, copy, hc', hcid, happ⟩
  · exact hsub hf
  · refine happ.others f hf fun he => ?_
    rw [committedTo, hc'] at hc
    have hne : ¬ (c.fileId == fileId) = true := by simpa [Option.filter] using hc
    exact hne (by rw [hcid, ← he, hid]; exact beq_self_eq_true _)

/-- **A commit takes the row along its operation.** -/
theorem rowOf_of_committed (hi : Coherent st) (hs : step ports st l = some st')
    (hr : rowOf st fileId = some f) {c : Committed} (hc : committedTo ports fileId st l = some c) :
    ∃ row, c.apply ports f = .ok row ∧ rowOf st' fileId = some row := by
  obtain ⟨hf, hid⟩ := (rowOf_eq_some hi.world).mp hr
  obtain ⟨hc₁, hcid⟩ := Option.filter_eq_some_iff.mp hc
  rcases step_rows hi hs with ⟨hn, -⟩ | ⟨c', copy, hc', hcopy, happ⟩
  · rw [hn] at hc₁; cases hc₁
  · rw [hc'] at hc₁
    cases hc₁
    have he : copy = f := by
      refine hi.world.keyed.eq_of_key_eq happ.mem hf ?_
      rw [← hcopy, hid]
      exact beq_iff_eq.mp hcid
    subst he
    obtain ⟨row, hrow, hop⟩ := happ.applied
    exact ⟨row, hop, (rowOf_eq_some (hi.step hs).world).mpr
      ⟨hrow, (Operation.apply_version hop).1.trans hid⟩⟩

end Step

/-! ## Each run commits at most once to a file -/

/-- No process holds two copies of one file. -/
abbrev ReadOnce : State → Prop :=
  Interleaving.Inv (fun _ => True) (fun _ p => Keyed (fun f : File => f.id) p.copies) (fun _ _ => True)

theorem starts_read_once {ports : Ports} {w w' : World} {s : Start} {p : Proc}
    (h : Starts ports w s w' p) (ht : Tidy w.files) : Keyed (fun f : File => f.id) p.copies := by
  cases h with
  | replace | rename | changeResource | delete | scan => exact keyed_singleton _ _
  | rescan | reconcile | purge => exact ht.keyed.sublist List.filter_sublist
  | _ => exact List.nodup_nil

theorem ReadOnce.step {ports : Ports} {st st' : State} {l : Label} (h : ReadOnce st)
    (ht : Tidy st.world.files) (hs : step ports st l = some st') : ReadOnce st' := by
  refine Interleaving.Inv.step (G := fun st _ => Tidy st.world.files) (fun _ _ _ => trivial) ?_ ?_ h ht hs
  · intro st s w p hi ht hw
    exact ⟨trivial, starts_read_once (start_starts hw) ht, fun q hq => ⟨hi.procs q hq, trivial⟩⟩
  · intro st i a p w p' hi _ hp hw
    exact ⟨trivial, (hi.proc hp).sublist (acts_copies_sublist (act_acts hw)),
      fun j q _ hq => ⟨hi.proc hq, trivial⟩⟩

/-- The process `i` holds no copy of the file. -/
def Through (fileId : String) (i : ℕ) (st : State) : Prop :=
  ∃ p, st.procs[i]? = some p ∧ ∀ c ∈ p.copies, c.id ≠ fileId

theorem Through.step {ports : Ports} {st st' : State} {l : Label} {fileId : String} {i : ℕ}
    (h : Through fileId i st) (hs : step ports st l = some st') : Through fileId i st' := by
  obtain ⟨p, hp, hc⟩ := h
  cases l with
  | start s =>
    obtain ⟨w, q, hw, rfl⟩ := Interleaving.step_start.mp hs
    refine ⟨p, ?_, hc⟩
    rw [List.getElem?_append_left (List.getElem?_eq_some_iff.mp hp).1, hp]
  | act j a =>
    obtain ⟨q, w, q', hq, hw, rfl⟩ := Interleaving.step_act.mp hs
    by_cases hij : j = i
    · subst hij
      rw [hp] at hq
      cases hq
      refine ⟨q', ?_, fun c hc' => hc c (acts_copies (act_acts hw) hc')⟩
      rw [List.getElem?_set_self (List.getElem?_eq_some_iff.mp hp).1]
    · exact ⟨p, by rw [List.getElem?_set_ne hij, hp], hc⟩

/-- What an action that saves a copy leaves to its process. -/
theorem copies_of_saving {ports : Ports} {procs : List Proc} {w w' : World} {p p' : Proc} {a : Action}
    {copy : File} {operation : Operation} {now : ℕ} (hs : saving p a = some (copy, operation, now))
    (h : Acts ports procs w p a w' p') : p'.copies = [] ∨ p.copies = copy :: p'.copies := by
  cases h with
  | commit | abort | saveEdit | editFails | saveScan | scanFails | failScan | rescanFails | markFails =>
    exact Or.inl rfl
  | saveRescan | markOrphan => cases hs; exact Or.inr rfl
  | _ => cases hs

theorem committed_eq_some {ports : Ports} {st : State} {i : ℕ} {a : Action} {c : Committed} {p : Proc}
    (hp : st.procs[i]? = some p) (hc : committed ports st (.act i a) = some c) :
    ∃ copy, saving p a = some (copy, c.operation, c.now) ∧ c.run = i ∧ c.fileId = copy.id := by
  rw [committed_act hp, Option.bind_eq_some_iff] at hc
  obtain ⟨⟨copy, operation, now⟩, hs, hc⟩ := hc
  dsimp only at hc
  split_ifs at hc
  cases hc
  exact ⟨copy, hs, rfl, rfl⟩

theorem through_of_committed {ports : Ports} {st st' : State} {l : Label} {fileId : String}
    {c : Committed} (hi : ReadOnce st) (hs : step ports st l = some st')
    (hc : committedTo ports fileId st l = some c) : Through fileId c.run st' := by
  obtain ⟨hc, hid⟩ := Option.filter_eq_some_iff.mp hc
  cases l with
  | start s => cases hc
  | act i a =>
    obtain ⟨p, w, p', hp, hw, rfl⟩ := Interleaving.step_act.mp hs
    obtain ⟨copy, hsv, rfl, hcid⟩ := committed_eq_some hp hc
    refine ⟨p', List.getElem?_set_self (List.getElem?_eq_some_iff.mp hp).1, ?_⟩
    have hk := hi.proc hp
    rcases copies_of_saving hsv (act_acts hw) with he | he
    · rw [he]; exact fun c hc => absurd hc List.not_mem_nil
    · rw [he] at hk
      have hne := (List.nodup_cons.mp hk).1
      intro c' hc' he'
      exact hne (List.mem_map.mpr ⟨c', hc', he'.trans ((beq_iff_eq.mp hid).symm.trans hcid)⟩)

theorem run_ne_of_through {ports : Ports} {st : State} {l : Label} {fileId : String} {i : ℕ}
    {c : Committed} (h : Through fileId i st) (hc : committedTo ports fileId st l = some c) :
    c.run ≠ i := by
  rintro rfl
  obtain ⟨hc, hid⟩ := Option.filter_eq_some_iff.mp hc
  obtain ⟨p, hp, hcopies⟩ := h
  cases l with
  | start s => cases hc
  | act j a =>
    cases hq : st.procs[j]? with
    | none => rw [committed, hq] at hc; cases hc
    | some q =>
      obtain ⟨copy, hsv, rfl, hcid⟩ := committed_eq_some hq hc
      rw [hp] at hq
      cases hq
      exact hcopies copy (saving_mem hsv) (by rw [← hcid]; exact beq_iff_eq.mp hid)

/-! ## Runs -/

section Run
variable {ports : Ports} {st st' : State} {ls : List Label} {file : File}

/-- **The runs that commit to a file are different runs.** -/
theorem history_runs_nodup {fileId : String} (hi : Coherent st) (ho : ReadOnce st)
    (hr : run (step ports) st ls = some st') : ((history ports fileId st ls).map Committed.run).Nodup := by
  refine List.nodup_iff_count_le_one.mpr fun i => ?_
  rw [List.count_eq_countP, List.countP_map]
  refine trace_once_of_key (I := fun s => Coherent s ∧ ReadOnce s) (C := Through fileId)
    (G := fun _ _ => True) Committed.run ?_ ?_ ?_ ⟨hi, ho⟩ (allSteps_of_forall (fun _ _ _ => trivial) st)
    hr i
  · exact fun s l s' h _ hs => ⟨h.1.step hs, h.2.step h.1.world hs⟩
  · exact fun _ s l s' _ _ hs ht => ht.step hs
  · intro s l s' c h _ hs hc
    exact ⟨fun ht => run_ne_of_through ht hc rfl, through_of_committed h.2 hs hc⟩

theorem version_of_foldlM {h : List Committed} {row : File}
    (hf : h.foldlM (Committed.apply ports) file = .ok row) : row.version = file.version + h.length := by
  induction h generalizing file with
  | nil => cases hf; rfl
  | cons c h ih =>
    obtain ⟨file₁, h₁, hf⟩ := Effect.except_bind_eq_ok.mp hf
    have hv := (Operation.apply_version h₁).2
    rw [ih hf, hv, List.length_cons]
    omega

/-- **Optimistic locking serialises the file.** After any interleaving of any number of runs, the row
is the first one taken along the operations of the runs that committed to the file, in the order of
their commits; each of these runs is counted once; its version tells their number; and a step that
commits nothing to the file leaves its row as it was. -/
theorem file_serialised (hidle : st.procs = []) (ht : Tidy st.world.files) (hf : file ∈ st.world.files)
    (hr : run (step ports) st ls = some st') :
    (∃ row, rowOf st' file.id = some row ∧
      (history ports file.id st ls).foldlM (Committed.apply ports) file = .ok row ∧
      row.version = file.version + (history ports file.id st ls).length) ∧
    ((history ports file.id st ls).map Committed.run).Nodup ∧
    AllSteps (step ports) (fun s l => ∀ s', step ports s l = some s' →
      committedTo ports file.id s l = none → rowOf s' file.id = rowOf s file.id) st ls := by
  have hi : Coherent st := coherent_of_idle hidle ht
  have ho : ReadOnce st := Interleaving.Inv.of_nil trivial hidle
  have hV : rowOf st file.id = some file := (rowOf_eq_some ht).mpr ⟨hf, rfl⟩
  have hG : AllSteps (step ports) (fun _ _ => True) st ls := allSteps_of_forall (fun _ _ _ => trivial) st
  refine ⟨?_, history_runs_nodup hi ho hr, ?_⟩
  · obtain ⟨row, hfold, hrow⟩ := trace_refines (I := Coherent) (V := fun s f => rowOf s file.id = some f)
      (f := Committed.apply ports) (fun _ _ _ h _ hs => h.step hs)
      (fun _ _ _ _ h _ hs hV hc => rowOf_of_silent h hs hV hc)
      (fun _ _ _ _ _ h _ hs hV hc => rowOf_of_committed h hs hV hc) hi hV hG hr
    exact ⟨row, hrow, hfold, version_of_foldlM hfold⟩
  · have hrows : ∀ s, Coherent s ∧ (rowOf s file.id).isSome → ∀ l s', step ports s l = some s' →
        Coherent s' ∧ (rowOf s' file.id).isSome := by
      intro s h l s' hs
      obtain ⟨f, hf⟩ := Option.isSome_iff_exists.mp h.2
      refine ⟨h.1.step hs, ?_⟩
      cases hc : committedTo ports file.id s l with
      | none => rw [rowOf_of_silent h.1 hs hf hc]; rfl
      | some c =>
        obtain ⟨row, -, hrow⟩ := rowOf_of_committed h.1 hs hf hc
        rw [hrow]; rfl
    refine (allSteps_of_inv (G := fun _ _ => True) (fun s l s' h _ hs => hrows s h l s' hs)
      ⟨hi, by rw [hV]; rfl⟩ hG).mono fun s l h s' hs hc => ?_
    obtain ⟨f, hf⟩ := Option.isSome_iff_exists.mp h.2
    rw [rowOf_of_silent h.1 hs hf hc, hf]

end Run

/-! ### A race -/

/-- The system after `readyRun`, at rest. -/
def readySystem : State :=
  ⟨((run (step pdfPorts) emptySystem readyRun).getD emptySystem).world, []⟩

/-- A rename and a delete that have read the same row: the first one commits. The second delete reads
the renamed row. -/
def renameDeleteRun : List Label :=
  [.start (.rename (some "t") "f" "a.pdf"), .start (.delete (some "t") "f"), .act 0 (.saveEdit 3),
    .act 1 (.saveEdit 4), .start (.delete (some "t") "f"), .act 2 (.saveEdit 5)]

theorem tidy_readySystem : Tidy readySystem.world.files := by
  have hsome : (run (step pdfPorts) emptySystem readyRun).isSome = true := by decide
  obtain ⟨st, hst⟩ := Option.isSome_iff_exists.mp hsome
  have hi : Coherent st := run_inv (fun _ _ _ h hs => h.step hs) (coherent_of_idle rfl tidy_nil) hst
  have he : readySystem.world = st.world := by rw [readySystem, hst]; rfl
  rw [he]
  exact hi.world

theorem file_serialised_renameDeleteRun : ∃ file st', file ∈ readySystem.world.files ∧
    run (step pdfPorts) readySystem renameDeleteRun = some st' ∧
    (history pdfPorts file.id readySystem renameDeleteRun).length = 2 ∧
    ∃ row, rowOf st' file.id = some row ∧
      (history pdfPorts file.id readySystem renameDeleteRun).foldlM (Committed.apply pdfPorts) file =
        .ok row ∧ row.version = file.version + 2 := by
  have hfile : (rowOf readySystem "f").any (fun file => file.id == "f" &&
      (history pdfPorts "f" readySystem renameDeleteRun).length == 2) = true := by decide
  have hrun : (run (step pdfPorts) readySystem renameDeleteRun).isSome = true := by decide
  obtain ⟨file, hf, hlen⟩ := (Option.any_eq_true _ _).mp hfile
  obtain ⟨st', hst'⟩ := Option.isSome_iff_exists.mp hrun
  obtain ⟨hmem, hid⟩ := (rowOf_eq_some tidy_readySystem).mp hf
  obtain ⟨⟨row, hrow, hfold, hver⟩, -, -⟩ := file_serialised rfl tidy_readySystem hmem hst'
  have hlen' : (history pdfPorts file.id readySystem renameDeleteRun).length = 2 := by
    rw [hid]; simpa [hid] using hlen
  exact ⟨file, st', hmem, hst', hlen', row, hrow, hfold, by rw [hver, hlen']⟩

end Neltrik.FileStorage.Serialisation
