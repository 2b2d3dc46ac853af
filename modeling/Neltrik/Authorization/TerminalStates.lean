import Neltrik.Authorization.RegistrationSteps
import Neltrik.Lib.Trace

/-! # What has become of an invitation

`Invitation.use` and `Invitation.revoke` look at the copy in memory, and `update` writes the whole
row, so of two runs that have read a pending invitation the later one decides: a revoked invitation
becomes used, and both runs succeed (`used_after_revoked`). And an invitation that is stored as
`EXPIRED` passes `ensureIsPending`: with a date that is not past it is used.

`terminal_states_permanent_iff`: the status of an invitation changes from `PENDING` only, and at most
one run on it succeeds, exactly when every write finds its row `PENDING`. The instants of use and
revocation agree with the status in any run. -/

namespace Neltrik.Authorization.Registration.TerminalStates

open Neltrik.Lib Neltrik.Lib.Machine Neltrik.Lib.Table

/-! ## Conditions and properties -/

/-- The instants agree with the status. -/
structure Agrees (i : Invitation) : Prop where
  usedAt : i.usedAt.isSome = true ↔ i.status = .used
  revokedAt : i.revokedAt.isSome = true ↔ i.status = .revoked

/-- An invitation that is not pending has the status it had. -/
def Permanent (st st' : State) : Prop :=
  ∀ i ∈ st.world.db.invitations, ∀ i' ∈ st'.world.db.invitations, i'.id = i.id →
    i.status ≠ .pending → i'.status = i.status

/-- The invitation a run succeeds on. -/
def succeeded (st : State) : Label → Option String
  | .act i .save => (st.procs[i]?.bind Proc.copy).map (·.id)
  | _ => none

/-- A write finds its row pending. -/
def findsPending (st : State) : Label → Bool
  | .act i .save =>
    (st.procs[i]?.bind Proc.copy).all fun copy =>
      st.world.db.invitations.all fun row => row.id != copy.id || row.isPending
  | _ => true

theorem pending_of_findsPending {st : State} {i : ℕ} {p : Proc} {copy row : Invitation}
    (h : findsPending st (.act i .save) = true) (hp : st.procs[i]? = some p) (hc : p.copy = some copy)
    (hrow : row ∈ st.world.db.invitations) (hid : row.id = copy.id) : row.status = .pending := by
  simp only [findsPending, hp, Option.bind_some, hc, Option.all_some, List.all_eq_true] at h
  have hr := h row hrow
  simpa [hid, Invitation.isPending] using hr

/-! ## Copies -/

/-- What a run makes of the row it has read. -/
inductive Settles (row : Invitation) : Invitation → Prop
  | used (now : ℕ) : Settles row { row with status := .used, usedAt := some now, updatedAt := now }
  | revoked (now : ℕ) : Settles row { row with status := .revoked, revokedAt := some now, updatedAt := now }

namespace Settles
variable {row copy : Invitation}

theorem fixed_eq (h : Settles row copy) : fixed copy = fixed row := by
  cases h <;> rfl

theorem status (h : Settles row copy) : copy.status = .used ∨ copy.status = .revoked := by
  cases h
  · exact Or.inl rfl
  · exact Or.inr rfl

theorem agrees (h : Settles row copy) (ha : Agrees row) (hu : row.status ≠ .used)
    (hr : row.status ≠ .revoked) : Agrees copy := by
  have husedAt : ¬ row.usedAt.isSome = true := fun hs => hu (ha.usedAt.mp hs)
  have hrevokedAt : ¬ row.revokedAt.isSome = true := fun hs => hr (ha.revokedAt.mp hs)
  cases h with
  | used now => exact ⟨⟨fun _ => rfl, fun _ => rfl⟩, ⟨fun hs => absurd hs hrevokedAt, nofun⟩⟩
  | revoked now => exact ⟨⟨fun hs => absurd hs husedAt, nofun⟩, ⟨fun _ => rfl, fun _ => rfl⟩⟩

end Settles

/-- The copy was made of a row that is neither used nor revoked. -/
def Taken (db : Db) (copy : Invitation) : Prop :=
  ∃ token row, Opens db token row ∧ Settles row copy

theorem taken_of_consumed {db : Db} {token : String} {now : ℕ} {copy : Invitation}
    (h : consumed db token now = .ok copy) : Taken db copy := by
  obtain ⟨row, hrow, rfl⟩ := consumed_eq_ok h
  exact ⟨token, row, hrow, .used now⟩

theorem taken_of_revoked {db : Db} {scope : Option String} {token : String} {now : ℕ}
    {copy : Invitation} (h : revoked db scope token now = .ok copy) : Taken db copy := by
  obtain ⟨row, hrow, rfl⟩ := revoked_eq_ok h
  exact ⟨token, row, hrow, .revoked now⟩

theorem taken_of_starts {s s' : Store} {l : Start} {p : Proc} {copy : Invitation}
    (h : Starts s l s' p) (hc : p.copy = some copy) : Taken s.db copy := by
  cases h <;> cases hc
  · exact taken_of_consumed ‹_›
  · exact taken_of_revoked ‹_›

/-- A run has a copy after an action only if the action has read it. -/
theorem taken_of_acts {s s' : Store} {p p' : Proc} {a : Action} {copy : Invitation}
    (h : Acts s p a s' p') (hc : p'.copy = some copy) : Taken s.db copy := by
  cases h with
  | consume _ hu => cases hc; exact taken_of_consumed hu
  | save => cases p <;> cases hc
  | fail ht => cases p <;> cases ht <;> cases hc
  | findUser | createUser | createAccount | deleteAccount | deleteUser => cases hc

/-- Only `save` writes an invitation. -/
theorem invitations_of_acts {s s' : Store} {p p' : Proc} {a : Action} (h : Acts s p a s' p') :
    s'.db.invitations = s.db.invitations ∨
      a = .save ∧ ∃ copy, p.copy = some copy ∧ s'.db = withInvitation s.db copy := by
  cases h with
  | save hc => exact Or.inr ⟨rfl, _, hc, rfl⟩
  | _ => exact Or.inl rfl

theorem db_of_starts {s s' : Store} {l : Start} {p : Proc} (h : Starts s l s' p) : s'.db = s.db := by
  cases h <;> rfl

/-! ## The invariant -/

/-- The copy is one of a stored row, its instants agree with its status and it is not pending. -/
structure Sound (db : Db) (copy : Invitation) : Prop where
  mem : fixed copy ∈ db.invitations.map fixed
  agrees : Agrees copy
  status : copy.status = .used ∨ copy.status = .revoked

/-- What the stored invitations have. -/
structure Rows (db : Db) : Prop where
  keyed : Keyed (·.id) db.invitations
  agree : ∀ i ∈ db.invitations, Agrees i

/-- What every state has. -/
abbrev Inv : State → Prop :=
  Interleaving.Inv (fun s => Rows s.db) (fun s p => ∀ copy, p.copy = some copy → Sound s.db copy) fun _ _ => True

theorem Taken.sound {db : Db} {copy : Invitation} (h : Taken db copy)
    (ha : ∀ i ∈ db.invitations, Agrees i) : Sound db copy := by
  obtain ⟨token, row, hrow, hs⟩ := h
  exact ⟨hs.fixed_eq ▸ List.mem_map_of_mem hrow.mem,
    hs.agrees (ha row hrow.mem) hrow.not_used hrow.not_revoked, hs.status⟩

section Rows
variable {db : Db} {copy : Invitation}

/-- The row of a copy has its id. -/
theorem Sound.row (h : Sound db copy) :
    ∃ row ∈ db.invitations, row.id = copy.id ∧ fixed copy = fixed row := by
  obtain ⟨row, hrow, he⟩ := List.mem_map.mp h.mem
  exact ⟨row, hrow, (sameInvitation_of_fixed he).id, he.symm⟩

theorem Sound.fixed_withInvitation (h : Sound db copy) (hk : Keyed (·.id) db.invitations) :
    (withInvitation db copy).invitations.map fixed = db.invitations.map fixed := by
  obtain ⟨row, hrow, hid, he⟩ := h.row
  exact hk.map_updateWhere hrow (fun r hr => (beq_iff_eq.mp hr).trans hid.symm) he

theorem Sound.stored (h : Sound db copy) : copy ∈ (withInvitation db copy).invitations := by
  obtain ⟨row, hrow, hid, -⟩ := h.row
  exact mem_updateWhere.mpr (Or.inl ⟨row, hrow, beq_iff_eq.mpr hid, rfl⟩)

theorem mem_withInvitation {i : Invitation} (h : i ∈ (withInvitation db copy).invitations) :
    i = copy ∨ i ∈ db.invitations ∧ i.id ≠ copy.id := by
  rcases mem_updateWhere.mp h with ⟨-, -, -, rfl⟩ | ⟨hi, hne⟩
  · exact Or.inl rfl
  · exact Or.inr ⟨hi, by simpa using hne⟩

theorem mem_withInvitation_of_ne {i : Invitation} (h : i ∈ db.invitations) (hne : i.id ≠ copy.id) :
    i ∈ (withInvitation db copy).invitations :=
  mem_updateWhere.mpr (Or.inr ⟨h, by simpa using hne⟩)

theorem Sound.rows (h : Sound db copy) (hr : Rows db) : Rows (withInvitation db copy) := by
  obtain ⟨row, hrow, hid, -⟩ := h.row
  refine ⟨hr.keyed.updateWhere fun r _ hp => (beq_iff_eq.mp hp).symm, fun i hi => ?_⟩
  rcases mem_withInvitation hi with rfl | ⟨hi, -⟩
  · exact h.agrees
  · exact hr.agree i hi

end Rows

section Steps
variable {st st' : State} {l : Label}

theorem Inv.step (hi : Inv st) (hs : step st l = some st') : Inv st' := by
  refine Interleaving.Inv.step (G := fun _ _ => True) (fun _ _ _ => trivial) ?_ ?_ hi trivial hs
  · intro st l s p hi _ hw
    have hw := start_starts hw
    have hdb := db_of_starts hw
    refine ⟨hdb ▸ hi.world, fun copy hc => ?_, fun q hq => ⟨?_, trivial⟩⟩
    · rw [hdb]
      exact (taken_of_starts hw hc).sound hi.world.agree
    · rw [hdb]
      exact hi.procs q hq
  · intro st i a p s p' hi _ hp hw
    have hw := act_acts hw
    rcases invitations_of_acts hw with hsame | ⟨rfl, copy, hc, hdb⟩
    · have hsound : ∀ copy, Sound st.world.db copy → Sound s.db copy :=
        fun copy h => ⟨hsame ▸ h.mem, h.agrees, h.status⟩
      exact ⟨⟨hsame ▸ hi.world.keyed, hsame ▸ hi.world.agree⟩,
        fun copy hc => hsound copy ((taken_of_acts hw hc).sound hi.world.agree),
        fun j q _ hq => ⟨fun copy hc => hsound copy (hi.proc hq copy hc), trivial⟩⟩
    · have hcopy := hi.proc hp copy hc
      have hfixed := hcopy.fixed_withInvitation hi.world.keyed
      have hsound : ∀ copy', Sound st.world.db copy' → Sound s.db copy' := by
        intro copy' h
        rw [hdb]
        exact ⟨hfixed ▸ h.mem, h.agrees, h.status⟩
      exact ⟨hdb ▸ hcopy.rows hi.world,
        fun copy' hc' => hsound copy' ((taken_of_acts hw hc').sound hi.world.agree),
        fun j q _ hq => ⟨fun copy' hc' => hsound copy' (hi.proc hq copy' hc'), trivial⟩⟩

/-- **What a step writes**: nothing, or the copy of the run that succeeds. -/
theorem rows_of_step (hi : Inv st) (hs : step st l = some st') :
    (succeeded st l = none ∧ st'.world.db.invitations = st.world.db.invitations) ∨
      ∃ i p copy, l = .act i .save ∧ st.procs[i]? = some p ∧ p.copy = some copy ∧
        Sound st.world.db copy ∧ succeeded st l = some copy.id ∧
        st'.world.db.invitations = (withInvitation st.world.db copy).invitations := by
  cases l with
  | start s =>
    obtain ⟨s', p, hw, rfl⟩ := Interleaving.step_start.mp hs
    exact Or.inl ⟨rfl, congrArg (·.invitations) (db_of_starts (start_starts hw))⟩
  | act i a =>
    obtain ⟨p, s', p', hp, hw, rfl⟩ := Interleaving.step_act.mp hs
    have hw := act_acts hw
    by_cases hsave : a = .save
    · subst hsave
      right
      cases hw with
      | save hc =>
        refine ⟨i, p, _, rfl, hp, hc, hi.proc hp _ hc, ?_, rfl⟩
        show ((st.procs[i]?.bind Proc.copy).map fun c => c.id) = _
        rw [hp, Option.bind_some, hc]
        rfl
    · left
      rcases invitations_of_acts hw with hsame | ⟨ha, -⟩
      · refine ⟨?_, hsame⟩
        unfold succeeded
        split
        · exact absurd (Interleaving.Label.act.inj ‹_›).2 hsave
        · rfl
      · exact absurd ha hsave

/-- A row that is not pending stays when each write finds its row pending. -/
theorem mem_of_step {i : Invitation} (hi : Inv st) (hf : findsPending st l = true)
    (hs : step st l = some st') (hm : i ∈ st.world.db.invitations) (hne : i.status ≠ .pending) :
    i ∈ st'.world.db.invitations := by
  rcases rows_of_step hi hs with ⟨-, hsame⟩ | ⟨j, p, copy, rfl, hp, hc, -, -, hrows⟩
  · rw [hsame]; exact hm
  · rw [hrows]
    exact mem_withInvitation_of_ne hm fun hid => hne (pending_of_findsPending hf hp hc hm hid)

end Steps

/-! ## The law -/

section Law
variable {st st' : State} {ls : List Label}

/-- When each write finds its row pending, a row that is not pending is there for good. -/
theorem permanent_of_findsPending (hi : Inv st)
    (hf : AllSteps step (fun s l => findsPending s l = true) st ls) : AllPairs step Permanent st ls := by
  intro l₁ l₂ hpre s₁ s₂ h₁ h₂
  have hi₁ : Inv s₁ := run_inv (fun _ _ _ hi hs => hi.step hs) hi h₁
  have hf₂ := ((hf.of_isPrefix hpre).of_append h₁).2
  have hlast : Inv s₂ ∧ ∀ i ∈ s₁.world.db.invitations, i.status ≠ .pending →
      i ∈ s₂.world.db.invitations := by
    refine run_inv_of_allSteps (I := fun s => Inv s ∧ ∀ i ∈ s₁.world.db.invitations,
      i.status ≠ .pending → i ∈ s.world.db.invitations) ?_ ⟨hi₁, fun _ hm _ => hm⟩ hf₂ h₂
    rintro s l s' ⟨hs, hm⟩ hf hl
    exact ⟨hs.step hl, fun i him hne => mem_of_step hs hf hl (hm i him hne) hne⟩
  intro i hm i' hm' hid hne
  rw [hlast.1.world.keyed.eq_of_key_eq hm' (hlast.2 i hm hne) hid]

/-- A row with the id is not pending. -/
def Settled (id : String) (st : State) : Prop :=
  ∃ row ∈ st.world.db.invitations, row.id = id ∧ row.status ≠ .pending

/-- When each write finds its row pending, at most one succeeds. -/
theorem once_of_findsPending (hi : Inv st)
    (hf : AllSteps step (fun s l => findsPending s l = true) st ls) (hr : run step st ls = some st')
    (id : String) : (trace step succeeded st ls).countP (· == id) ≤ 1 := by
  refine trace_once_of_key (I := Inv) (C := Settled) (fun id => id)
    (fun _ _ _ hi _ hs => hi.step hs) ?_ ?_ hi hf hr id
  · rintro id s l s' hi hf hs ⟨row, hrow, hid, hne⟩
    exact ⟨row, mem_of_step hi hf hs hrow hne, hid, hne⟩
  · intro s l s' b hi hf hs hb
    rcases rows_of_step hi hs with ⟨hnone, -⟩ | ⟨i, p, copy, rfl, hp, hc, hsound, hsome, hrows⟩
    · rw [hnone] at hb
      cases hb
    · rw [hsome] at hb
      cases hb
      refine ⟨?_, copy, hrows ▸ hsound.stored, rfl, ?_⟩
      · rintro ⟨row, hrow, hid, hne⟩
        exact hne (pending_of_findsPending hf hp hc hrow hid)
      · rcases hsound.status with h | h <;> rw [h] <;> nofun

/-- A copy that is about to be written over a settled row is of an invitation a run has succeeded on. -/
def Shown (st : State) (h : List String) : Prop :=
  ∀ p ∈ st.procs, ∀ copy, p.copy = some copy → ∀ row ∈ st.world.db.invitations, row.id = copy.id →
    row.status = .used ∨ row.status = .revoked → copy.id ∈ h

theorem Shown.step {l : Label} {h : List String} (hi : Inv st) (hh : Shown st h)
    (hs : step st l = some st') : Shown st' (h ++ (succeeded st l).toList) := by
  have hnew : ∀ copy, Taken st.world.db copy → ∀ row ∈ st.world.db.invitations, row.id = copy.id →
      ¬ (row.status = .used ∨ row.status = .revoked) := by
    rintro copy ⟨token, row', hopen, hsettles⟩ row hrow hid hstatus
    have hrow_eq : row = row' :=
      hi.world.keyed.eq_of_key_eq hrow hopen.mem
        (hid.trans (sameInvitation_of_fixed hsettles.fixed_eq).id)
    rw [hrow_eq] at hstatus
    exact hstatus.elim hopen.not_used hopen.not_revoked
  -- the copies after the step: those that were there, and one that the step has read
  have hcopies : ∀ q ∈ st'.procs, ∀ copy, q.copy = some copy →
      Taken st.world.db copy ∨ q ∈ st.procs := by
    intro q hq copy hc
    cases l with
    | start s =>
      obtain ⟨s', p, hw, rfl⟩ := Interleaving.step_start.mp hs
      rcases List.mem_append.mp hq with hq | hq
      · exact Or.inr hq
      · rw [List.mem_singleton.mp hq] at hc
        exact Or.inl (taken_of_starts (start_starts hw) hc)
    | act i a =>
      obtain ⟨p, s', p', hp, hw, rfl⟩ := Interleaving.step_act.mp hs
      rcases List.mem_or_eq_of_mem_set hq with hq | rfl
      · exact Or.inr hq
      · exact Or.inl (taken_of_acts (act_acts hw) hc)
  rcases rows_of_step hi hs with ⟨hnone, hsame⟩ | ⟨i, p, copy, rfl, hp, hc, -, hsome, hrows⟩
  · intro q hq copy hc row hrow hid hstatus
    rw [hsame] at hrow
    rw [hnone]
    rcases hcopies q hq copy hc with ht | hq
    · exact absurd hstatus (hnew copy ht row hrow hid)
    · exact List.mem_append_left _ (hh q hq copy hc row hrow hid hstatus)
  · intro q hq copy' hc' row hrow hid hstatus
    rw [hsome]
    rw [hrows] at hrow
    rcases mem_withInvitation hrow with rfl | ⟨hrow, -⟩
    · rw [hid]
      exact List.mem_append_right _ (List.mem_singleton_self _)
    · rcases hcopies q hq copy' hc' with ht | hq
      · exact absurd hstatus (hnew copy' ht row hrow hid)
      · exact List.mem_append_left _ (hh q hq copy' hc' row hrow hid hstatus)

/-- A write over a row that is not pending changes its status, or is the second success. -/
theorem findsPending_of_step {l : Label} {h : List String} (hi : Inv st) (hh : Shown st h)
    (hperm : Permanent st st') (hs : step st l = some st')
    (hcount : ∀ id, (h ++ (succeeded st l).toList).countP (· == id) ≤ 1) :
    findsPending st l = true := by
  rcases rows_of_step hi hs with ⟨hnone, -⟩ | ⟨i, p, copy, rfl, hp, hc, hsound, hsome, hrows⟩
  · cases l with
    | start s => rfl
    | act i a =>
      by_cases ha : a = .save
      · subst ha
        have hcopy : st.procs[i]?.bind Proc.copy = none := Option.map_eq_none_iff.mp hnone
        simp only [findsPending, hcopy, Option.all_none]
      · unfold findsPending
        split
        · exact absurd (Interleaving.Label.act.inj ‹_›).2 ha
        · rfl
  · simp only [findsPending, hp, Option.bind_some, hc, Option.all_some, List.all_eq_true]
    intro row hrow
    by_contra hbad
    obtain ⟨hid, hne⟩ : row.id = copy.id ∧ row.status ≠ .pending := by
      simpa [Invitation.isPending] using hbad
    have hstatus := hperm row hrow copy (hrows ▸ hsound.stored) hid.symm hne
    have hmem : copy.id ∈ h :=
      hh p (Pool.mem_of_getElem? hp) copy hc row hrow hid (hstatus ▸ hsound.status)
    have hle := hcount copy.id
    have hpos : 0 < h.countP (· == copy.id) := List.countP_pos_iff.mpr ⟨_, hmem, beq_self_eq_true _⟩
    have hlast : (some copy.id).toList.countP (· == copy.id) = 1 := by simp
    rw [hsome, List.countP_append] at hle
    omega

theorem findsPending_of_law {h : List String} (hi : Inv st) (hh : Shown st h)
    (hperm : AllPairs step Permanent st ls) (hr : run step st ls = some st')
    (hcount : ∀ id, (h ++ trace step succeeded st ls).countP (· == id) ≤ 1) :
    AllSteps step (fun s l => findsPending s l = true) st ls := by
  induction ls generalizing st h with
  | nil => trivial
  | cons l ls ih =>
    obtain ⟨s₁, h₁, hr₁⟩ := run_cons_eq_some.mp hr
    obtain ⟨hstep, hrest⟩ := hperm.of_step h₁
    rw [trace_cons_of_step h₁, ← List.append_assoc] at hcount
    refine (allSteps_cons_of_step h₁).mpr ⟨findsPending_of_step hi hh hstep h₁ fun id => ?_, ?_⟩
    · have hle := hcount id
      rw [List.countP_append] at hle
      omega
    · exact ih (hi.step h₁) (hh.step hi h₁) hrest hr₁ hcount

/-- **Terminal states are permanent exactly when** every write finds its row pending: in a run of
registrations, consumptions and revocations the status of an invitation changes from `PENDING` only,
its instants agree with it in every state, and at most one run on it succeeds. -/
theorem terminal_states_permanent_iff (hidle : st.procs = [])
    (hk : Keyed (·.id) st.world.db.invitations) (ha : ∀ i ∈ st.world.db.invitations, Agrees i)
    (hr : run step st ls = some st') :
    (AllPairs step Permanent st ls ∧
      AllStates step (fun s => ∀ i ∈ s.world.db.invitations, Agrees i) st ls ∧
      ∀ id, (trace step succeeded st ls).countP (· == id) ≤ 1) ↔
    AllSteps step (fun s l => findsPending s l = true) st ls := by
  have hi : Inv st := Interleaving.Inv.of_nil ⟨hk, ha⟩ hidle
  constructor
  · rintro ⟨hperm, -, hcount⟩
    refine findsPending_of_law (h := []) hi ?_ hperm hr hcount
    rw [Shown, hidle]
    exact fun p hp => absurd hp List.not_mem_nil
  · intro hf
    refine ⟨permanent_of_findsPending hi hf, fun l hl s hs => ?_, once_of_findsPending hi hf hr⟩
    have hlast : Inv s := run_inv (fun _ _ _ hi hs => hi.step hs) hi hs
    exact hlast.world.agree

end Law

/-! ### One invitation -/

theorem agrees_exampleInvitation : Agrees exampleInvitation := by
  constructor <;> decide

/-- The invitation is revoked, and a consumption that has read it before fails. -/
def revokedRun : List Label :=
  [.start (.consume exampleInvitation.token 1), .start (.revoke (some "t1") exampleInvitation.token 1),
    .act 1 .save, .act 0 .fail]

theorem terminal_states_permanent_iff_revokedRun : ∃ st,
    run step exampleState revokedRun = some st ∧
    (AllPairs step Permanent exampleState revokedRun ∧
      AllStates step (fun s => ∀ i ∈ s.world.db.invitations, Agrees i) exampleState revokedRun ∧
      ∀ id, (trace step succeeded exampleState revokedRun).countP (· == id) ≤ 1) := by
  have hrun : (run step exampleState revokedRun).isSome = true := by decide
  have hfinds : checkSteps step findsPending exampleState revokedRun = true := by decide
  obtain ⟨st, hst⟩ := Option.isSome_iff_exists.mp hrun
  have hagree : ∀ i ∈ exampleState.world.db.invitations, Agrees i := by
    intro i hi
    rw [List.mem_singleton.mp hi]
    exact agrees_exampleInvitation
  exact ⟨st, hst, (terminal_states_permanent_iff rfl (keyed_singleton _ _) hagree hst).mpr
    (allSteps_of_checkSteps (fun _ _ h => h) hfinds)⟩

/-- A consumption and a revocation have both read the invitation. -/
def consumeRevokeRun : List Label :=
  [.start (.consume exampleInvitation.token 1), .start (.revoke (some "t1") exampleInvitation.token 1),
    .act 1 .save, .act 0 .save]

/-- Both succeed: the revoked invitation is used. -/
theorem used_after_revoked : ¬ ∀ (st st' : State) (ls : List Label), st.procs = [] →
    Keyed (·.id) st.world.db.invitations → (∀ i ∈ st.world.db.invitations, Agrees i) →
    run step st ls = some st' →
    (AllPairs step Permanent st ls ∧
      AllStates step (fun s => ∀ i ∈ s.world.db.invitations, Agrees i) st ls ∧
      ∀ id, (trace step succeeded st ls).countP (· == id) ≤ 1) := by
  intro h
  have hrun : (run step exampleState consumeRevokeRun).isSome = true := by decide
  have htrace : (trace step succeeded exampleState consumeRevokeRun).countP (· == "i1") = 2 := by decide
  obtain ⟨st, hst⟩ := Option.isSome_iff_exists.mp hrun
  have hagree : ∀ i ∈ exampleState.world.db.invitations, Agrees i := by
    intro i hi
    rw [List.mem_singleton.mp hi]
    exact agrees_exampleInvitation
  have hle := (h exampleState st consumeRevokeRun rfl (keyed_singleton _ _) hagree hst).2.2 "i1"
  rw [htrace] at hle
  omega

end Neltrik.Authorization.Registration.TerminalStates
