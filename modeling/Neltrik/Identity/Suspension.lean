import Neltrik.Identity.Serialisation
import Neltrik.Lib.Ownership

/-! # Who suspends whom

`SuspendUser` compares the codes of two roles it has read one after the other, and saves the target some
time later. Roles are never removed and keep their codes, so what was compared is still true at the save
(`Orderly`).

* `suspensions_lawful`: every suspension in an interleaving is one by a role above that of the user;
* `suspensions_audited`: the records of success are the suspensions, no more and no less. -/

namespace Neltrik.Identity

open Neltrik.Lib Neltrik.Lib.Machine Neltrik.Lib.Serial Neltrik.Lib.Pool Neltrik.Authorization
open Neltrik.Audit (CreateAuditEventInput AuditStatus)

/-! ## The order of the roles -/

theorem Rank.gt_irrefl (r : Rank) : r.gt r = false := by
  cases r with
  | number n => exact decide_eq_false (lt_irrefl n)
  | text s => exact decide_eq_false (String.lt_irrefl s)

/-- Nobody is above a platform admin. -/
theorem not_canSuspend_platformAdmin (actorRole : String) :
    UserSuspensionPolicy.canSuspend actorRole "PLATFORM_ADMIN" = false := by
  have hrank : getRoleHierarchy "PLATFORM_ADMIN" = .number 3 := rfl
  unfold UserSuspensionPolicy.canSuspend isRoleHigherThan
  rw [hrank]
  unfold getRoleHierarchy
  split_ifs <;> rfl

theorem canSuspend_irrefl (role : String) : UserSuspensionPolicy.canSuspend role role = false :=
  Rank.gt_irrefl _

/-! ## What a run has compared -/

/-- There is a role of the id with the code. -/
def HasCode (w : World) (id code : String) : Prop := ∃ r ∈ w.db.roles, r.id = id ∧ r.code = code

/-- What a suspension has compared holds in the world. -/
def Proc.Licensed (w : World) : Proc → Prop
  | .comparingWith scope actor _ actorRole => scope = none ∧ HasCode w actor.roleId actorRole.code
  | .permitted scope actor target => scope = none ∧ ∃ a t, HasCode w actor.roleId a ∧ HasCode w target.roleId t ∧
      UserSuspensionPolicy.canSuspend a t = true
  | _ => True

theorem Proc.Licensed.mono {w w' : World} {p : Proc} (h : p.Licensed w)
    (hcode : ∀ id code, HasCode w id code → HasCode w' id code) : p.Licensed w' := by
  cases p with
  | comparingWith => exact ⟨h.1, hcode _ _ h.2⟩
  | permitted =>
    obtain ⟨hscope, a, t, ha, ht, hcan⟩ := h
    exact ⟨hscope, a, t, hcode _ _ ha, hcode _ _ ht, hcan⟩
  | _ => trivial

theorem Starts.licensed {w w' : World} {s : Start} {p : Proc} (h : Starts w s w' p) : p.Licensed w := by
  cases h <;> trivial

theorem Acts.licensed {w w' : World} {p p' : Proc} {a : Action} (h : Acts w p a w' p') (hp : p.Licensed w) :
    p'.Licensed w := by
  cases h with
  | findActorRole h =>
    obtain ⟨hr, hid, hscope⟩ := mem_of_findRole h
    exact ⟨hscope, _, hr, hid, rfl⟩
  | permit h hcan =>
    obtain ⟨hr, hid, -⟩ := mem_of_findRole h
    exact ⟨hp.1, _, _, hp.2, ⟨_, hr, hid, rfl⟩, hcan⟩
  | record => split_ifs <;> trivial
  | _ => trivial

/-- The copies are in order, and what has been permitted was. -/
structure Orderly (st : System) : Prop where
  users : Tidy users (fun st => st.world.db.users) userCopies (fun st => st.world.users) st
  roles : Tidy roles (fun st => st.world.db.roles) roleCopies (fun st => st.world.roles) st
  licensed : ∀ p ∈ st.procs, p.Licensed st.world

theorem Consistent.orderly {st : System} (h : Consistent st.world) (hidle : st.procs = []) : Orderly st :=
  ⟨h.tidy_users hidle, h.tidy_roles hidle, hidle ▸ List.forall_mem_nil _⟩

theorem roleCommit_ne_remove (st : System) (l : Label) (id : String) : roleCommit st l ≠ some (.remove id) := by
  unfold roleCommit
  split <;> intro h
  · obtain ⟨_, -, h⟩ := Option.map_eq_some_iff.mp h
    cases h
  · simp only [Option.bind_eq_bind, Option.bind_eq_some_iff] at h
    obtain ⟨_, -, _, -, h⟩ := h
    split_ifs at h
    cases h
  · cases h

/-- Roles stay, with their codes. -/
theorem Orderly.hasCode {st st' : System} {l : Label} (h : Orderly st) (hs : step st l = some st')
    {id code : String} (hcode : HasCode st.world id code) : HasCode st'.world id code := by
  obtain ⟨r, hr, rfl, rfl⟩ := hcode
  rcases h.roles.row_before_step locked_roles hs hr with hr | hremove | ⟨r', hr', op, -, happly⟩
  · exact ⟨r, hr, rfl, rfl⟩
  · exact absurd hremove (roleCommit_ne_remove st l _)
  · obtain ⟨r₁, hr₁, rfl⟩ := Effect.except_map_eq_ok.mp happly
    obtain ⟨hid, -, hcode⟩ := RoleEdit.apply_eq_ok hr₁
    exact ⟨_, hr', hid, hcode⟩

theorem Orderly.step {st st' : System} {l : Label} (h : Orderly st) (hs : step st l = some st') : Orderly st' := by
  refine ⟨h.users.after_step locked_users hs, h.roles.after_step locked_roles hs, fun p hp => ?_⟩
  suffices hlic : p.Licensed st.world from hlic.mono fun id code => h.hasCode hs
  cases l with
  | start s =>
    obtain ⟨w, p, hw, rfl⟩ := Interleaving.step_start.mp hs
    exact forall_mem_concat h.licensed (start_starts hw).licensed _ hp
  | act i a =>
    obtain ⟨q, w, q', hq, hw, rfl⟩ := Interleaving.step_act.mp hs
    rcases List.mem_or_eq_of_mem_set hp with hp | rfl
    · exact h.licensed p hp
    · exact (act_acts hw).licensed (h.licensed q (mem_of_getElem? hq))

/-! ## Suspensions are lawful -/

/-- The run that is to save `actor`'s suspension of the user `id`. -/
structure Lawful (st : System) (l : Label) (id : String) (actor target : User) : Prop where
  /-- It is not one within a tenant. -/
  run : ∃ i now, l = .act i (.save now) ∧ st.procs[i]? = some (.permitted none actor target)
  stored : target ∈ st.world.db.users ∧ target.id = id
  /-- The codes of the roles they have been read with. -/
  above : ∃ a t, HasCode st.world actor.roleId a ∧ HasCode st.world target.roleId t ∧
    UserSuspensionPolicy.canSuspend a t = true
  /-- The actor was stored so, and may have changed since. -/
  read : ∀ r ∈ st.world.db.users, r.id = actor.id → r = actor ∨ actor.version < r.version
  notAdmin : ¬ HasCode st.world target.roleId "PLATFORM_ADMIN"
  /-- Who suspends themselves has another role by now. -/
  other : actor.id = id → actor.version < target.version

theorem userCommit_suspend {st : System} {l : Label} {id : String} {now : ℕ}
    (h : userCommit st l = some (.edit id (.suspend, now))) : ∃ i scope actor target, l = .act i (.save now) ∧
      st.procs[i]? = some (.permitted scope actor target) ∧ target.id = id ∧
      (saveUser st.world scope target .suspend now).isSome = true := by
  unfold userCommit at h
  split at h
  · obtain ⟨_, -, h⟩ := Option.map_eq_some_iff.mp h
    cases h
  · cases h
  · rename_i i now'
    simp only [Option.bind_eq_bind, Option.bind_eq_some_iff] at h
    obtain ⟨p, hp, ⟨scope, user, edit⟩, hedit, h⟩ := h
    split_ifs at h with hsave
    cases h
    cases p with
    | permitted =>
      cases hedit
      exact ⟨i, _, _, _, rfl, hp, rfl, hsave⟩
    | _ => cases hedit
  · cases h

theorem Orderly.code_unique {st : System} (h : Orderly st) {id a b : String} (ha : HasCode st.world id a)
    (hb : HasCode st.world id b) : a = b := by
  obtain ⟨r, hr, rfl, rfl⟩ := ha
  obtain ⟨r', hr', hid, rfl⟩ := hb
  rw [h.roles.keyed.eq_of_key_eq hr hr' hid.symm]

theorem Orderly.lawful {st : System} {l : Label} (h : Orderly st) {id : String} {now : ℕ}
    (hc : userCommit st l = some (.edit id (.suspend, now))) : ∃ actor target, Lawful st l id actor target := by
  obtain ⟨i, scope, actor, target, rfl, hp, rfl, hsave⟩ := userCommit_suspend hc
  obtain ⟨rfl, a, t, ha, ht, hcan⟩ := h.licensed _ (mem_of_getElem? hp)
  have hactor : actor ∈ userCopies st := List.mem_flatMap.mpr ⟨_, mem_of_getElem? hp, List.mem_cons_self⟩
  have htarget : target ∈ userCopies st :=
    List.mem_flatMap.mpr ⟨_, mem_of_getElem? hp, List.mem_cons_of_mem _ List.mem_cons_self⟩
  have hstored : target ∈ st.world.db.users := by
    obtain ⟨w, hw⟩ := Option.isSome_iff_exists.mp hsave
    obtain ⟨target', happly, ⟨r, hr, hsel⟩, -⟩ := saveUser_eq_some.mp hw
    obtain ⟨hid, hver, -⟩ := UserEdit.apply_eq_ok happly
    obtain ⟨hk, hv⟩ := OptimisticLock.matching_iff.mp (Bool.and_eq_true _ _ ▸ hsel).1
    have he := h.users.eq_of_matching htarget hr
      (OptimisticLock.matching_iff.mpr ⟨hk.trans hid, hv.trans hver⟩)
    exact he ▸ hr
  refine ⟨actor, target, ⟨i, now, rfl, hp⟩, ⟨hstored, rfl⟩, ⟨a, t, ha, ht, hcan⟩,
    fun r hr hid => h.users.behind actor hactor r hr hid, fun hadmin => ?_, fun hid => ?_⟩
  · rw [h.code_unique ht hadmin, not_canSuspend_platformAdmin] at hcan
    cases hcan
  · rcases h.users.behind actor hactor target hstored hid.symm with rfl | hlt
    · rw [h.code_unique ht ha, canSuspend_irrefl] at hcan
      cases hcan
    · exact hlt

/-- **Every suspension is lawful**, in any interleaving: it is committed by a run outside of any tenant, for an
actor whose role is above that of the user who is stored; so never for a platform admin. -/
theorem suspensions_lawful {st : System} (h : Consistent st.world) (hidle : st.procs = []) (ls : List Label) :
    AllSteps step (fun s l => ∀ id now, userCommit s l = some (.edit id (.suspend, now)) →
      ∃ actor target, Lawful s l id actor target) st ls := by
  have horderly : AllSteps step (fun s _ => Orderly s) st ls :=
    allSteps_of_inv (fun _ _ _ h _ hs => h.step hs) (h.orderly hidle)
      (allSteps_of_forall (G := fun _ _ => True) (fun _ _ _ => trivial) st)
  refine horderly.mono fun s l hs id now hc => ?_
  exact hs.lawful hc

/-- The commit suspends the user. -/
def isSuspension (id : String) : Commit User String (UserEdit × ℕ) → Bool
  | .edit k (.suspend, _) => k == id
  | _ => false

theorem eq_of_isSuspension {id : String} {c : Commit User String (UserEdit × ℕ)} (h : isSuspension id c = true) :
    ∃ now, c = .edit id (.suspend, now) := by
  unfold isSuspension at h
  split at h
  · exact ⟨_, by rw [eq_of_beq h]⟩
  · cases h

theorem suspensions_lawful_suspensions :
    (trace step userCommit office suspensions).any (isSuspension "u2") = true ∧
    AllSteps step (fun s l => ∀ id now, userCommit s l = some (.edit id (.suspend, now)) →
      ∃ actor target, Lawful s l id actor target) office suspensions :=
  ⟨by decide +kernel, suspensions_lawful office_consistent rfl suspensions⟩

/-! ## Suspensions are audited -/

/-- It tells of a success. -/
def isSuccess (input : CreateAuditEventInput) : Bool := input.status == .success

/-- The records of success that are still to be made. -/
def Proc.pending : Proc → List CreateAuditEventInput
  | .recording input => [input].filter isSuccess
  | _ => []

/-- The successes that have been recorded, or are about to be. -/
def recorded (st : System) : List CreateAuditEventInput :=
  st.world.audits.filter isSuccess ++ st.procs.flatMap Proc.pending

/-- The record of the suspension that a step commits. -/
def suspended (st : System) : Label → Option CreateAuditEventInput
  | .act i (.save now) =>
    match st.procs[i]? with
    | some (.permitted _ actor target) =>
      match userCommit st (.act i (.save now)) with
      | some (.edit _ (.suspend, _)) => some (suspension actor target .success)
      | _ => none
    | _ => none
  | _ => none

theorem suspended_of_commit {st : System} {l : Label} {id : String} {now : ℕ}
    (h : userCommit st l = some (.edit id (.suspend, now))) :
    ∃ input, suspended st l = some input ∧ input.resourceId = some id := by
  obtain ⟨i, scope, actor, target, rfl, hp, rfl, -⟩ := userCommit_suspend h
  exact ⟨suspension actor target .success, by simp only [suspended, hp, h], rfl⟩

theorem Wrote.audits {w w' : World} {write : Write} (h : Wrote w write w') : w'.audits = w.audits := by
  cases h <;> rfl

theorem recorded_start {w w' : World} {s : Start} {p : Proc} (h : Starts w s w' p) :
    w'.audits.filter isSuccess = w.audits.filter isSuccess ∧ p.pending = [] := by
  cases h with
  | write h => exact ⟨by rw [h.audits], rfl⟩
  | _ => exact ⟨rfl, rfl⟩

theorem suspended_of_permitted {st : System} {i : ℕ} {scope : Option String} {actor target : User} {now : ℕ}
    (hp : st.procs[i]? = some (.permitted scope actor target)) : suspended st (.act i (.save now)) =
      if (saveUser st.world scope target .suspend now).isSome then some (suspension actor target .success)
      else none := by
  have hcommit : userCommit st (.act i (.save now)) =
      if (saveUser st.world scope target .suspend now).isSome then some (.edit target.id (.suspend, now))
      else none := by
    simp [userCommit, hp, Proc.userEdit]
  simp only [suspended, hp, hcommit]
  split_ifs <;> rfl

theorem suspended_of_ne {st : System} {i : ℕ} {a : Action} {p : Proc} (hp : st.procs[i]? = some p)
    (hne : ∀ scope actor target, p ≠ .permitted scope actor target) : suspended st (.act i a) = none := by
  cases a with
  | save now =>
    simp only [suspended, hp]
    split
    · rename_i h
      cases h
      exact absurd rfl (hne _ _ _)
    · rfl
  | _ => rfl

/-- What an action adds to the records is what it shows. -/
theorem recorded_act {st : System} {i : ℕ} {a : Action} {p p' : Proc} {w' : World} (hp : st.procs[i]? = some p)
    (h : Acts st.world p a w' p') : List.Perm (w'.audits.filter isSuccess ++ p'.pending)
      (st.world.audits.filter isSuccess ++ p.pending ++ (suspended st (.act i a)).toList) := by
  have hquiet : ∀ {q : Proc}, (∀ scope actor target, p ≠ .permitted scope actor target) →
      w'.audits.filter isSuccess = st.world.audits.filter isSuccess → p.pending = [] → q.pending = [] →
      List.Perm (w'.audits.filter isSuccess ++ q.pending)
        (st.world.audits.filter isSuccess ++ p.pending ++ (suspended st (.act i a)).toList) := by
    intro q hne haudits hpending hpending'
    rw [suspended_of_ne hp hne, haudits, hpending, hpending']
    exact List.Perm.of_eq (List.append_nil _).symm
  cases h with
  | withoutTarget | findTarget | findActorRole | permit | validate | validateForTenant =>
    exact hquiet (fun _ _ _ => nofun) rfl rfl rfl
  | reactivate hsave | changeRole hsave =>
    obtain ⟨_, -, -, rfl⟩ := saveUser_eq_some.mp hsave
    exact hquiet (fun _ _ _ => nofun) rfl rfl rfl
  | editTenant hsave =>
    obtain ⟨_, -, -, rfl⟩ := saveTenant_eq_some.mp hsave
    exact hquiet (fun _ _ _ => nofun) rfl rfl rfl
  | editRole hsave =>
    obtain ⟨_, -, -, rfl⟩ := saveRole_eq_some.mp hsave
    exact hquiet (fun _ _ _ => nofun) rfl rfl rfl
  | fail hrecorded =>
    refine hquiet (fun _ _ _ he => ?_) rfl ?_ rfl
    · rw [he] at hrecorded; cases hrecorded
    · cases p <;> first | rfl | cases hrecorded
  | refuse hp' hsave =>
    have hnone : suspended st (.act i a) = none := by
      rcases hp' with rfl | ⟨role, rfl⟩ | rfl
      · exact suspended_of_ne hp fun _ _ _ => nofun
      · exact suspended_of_ne hp fun _ _ _ => nofun
      · cases a with
        | save now => rw [suspended_of_permitted hp, hsave now rfl]; rfl
        | _ => rfl
    have hpending : p.pending = [] := by rcases hp' with rfl | ⟨role, rfl⟩ | rfl <;> rfl
    rw [hnone, hpending]
    exact List.Perm.of_eq (List.append_nil _).symm
  | suspend hsave =>
    have hshown := (suspended_of_permitted hp).trans (if_pos (by rw [hsave]; rfl))
    obtain ⟨_, -, -, rfl⟩ := saveUser_eq_some.mp hsave
    rw [hshown]
    exact List.Perm.of_eq (by simp [Proc.pending, isSuccess, suspension])
  | @record input =>
    have hnone := suspended_of_ne (a := .record) hp fun _ _ _ => nofun
    have hdone : Proc.pending (if input.status = .success then .done else .failed) = [] := by split_ifs <;> rfl
    have haudits : (record st.world input).audits = [input] ++ st.world.audits := rfl
    rw [hnone, hdone, haudits, List.filter_append]
    simp only [List.append_nil, Option.toList_none, Proc.pending]
    exact List.perm_append_comm

theorem recorded_step {st st' : System} {l : Label} (hs : step st l = some st') :
    List.Perm (recorded st') (recorded st ++ (suspended st l).toList) := by
  cases l with
  | start s =>
    obtain ⟨w, p, hw, rfl⟩ := Interleaving.step_start.mp hs
    obtain ⟨haudits, hpending⟩ := recorded_start (start_starts hw)
    simp [recorded, haudits, hpending, suspended]
  | act i a =>
    obtain ⟨p, w, p', hp, hw, rfl⟩ := Interleaving.step_act.mp hs
    have hact := recorded_act hp (act_acts hw)
    have hset : List.Perm ((st.procs.set i p').flatMap Proc.pending ++ p.pending)
        (st.procs.flatMap Proc.pending ++ p'.pending) := flatMap_set_perm hp Proc.pending
    refine (List.perm_append_right_iff p.pending).mp ?_
    simp only [recorded]
    calc List.Perm (w.audits.filter isSuccess ++ (st.procs.set i p').flatMap Proc.pending ++ p.pending)
          (w.audits.filter isSuccess ++ p'.pending ++ st.procs.flatMap Proc.pending) := by
            rw [List.append_assoc, List.append_assoc]
            exact (hset.trans List.perm_append_comm).append_left _
      List.Perm _ (st.world.audits.filter isSuccess ++ p.pending ++ (suspended st (.act i a)).toList ++
          st.procs.flatMap Proc.pending) := hact.append_right _
      List.Perm _ (st.world.audits.filter isSuccess ++ st.procs.flatMap Proc.pending ++
          (suspended st (.act i a)).toList ++ p.pending) := by
            simp only [List.append_assoc]
            refine List.Perm.append_left _ ?_
            refine List.perm_append_comm.trans ?_
            rw [List.append_assoc]
            exact List.perm_append_comm_assoc _ _ _

/-- **The records of success are the suspensions**: those that are made or still to be made in the end are those
from before and one for each suspension that the run commits. -/
theorem suspensions_audited {st st' : System} {ls : List Label} (hr : run step st ls = some st') :
    List.Perm (recorded st') (recorded st ++ trace step suspended st ls) ∧
    ∀ s l id now, userCommit s l = some (.edit id (.suspend, now)) →
      ∃ input, suspended s l = some input ∧ input.resourceId = some id := by
  refine ⟨?_, fun _ _ _ _ h => suspended_of_commit h⟩
  have hstep : ∀ s l s' shown, List.Perm (recorded s) (recorded st ++ shown) → True → step s l = some s' →
      List.Perm (recorded s') (recorded st ++ (shown ++ (suspended s l).toList)) := by
    intro s l s' shown hinv _ hs
    rw [← List.append_assoc]
    exact (recorded_step hs).trans (hinv.append_right _)
  have hinv := trace_inv (J := fun s h => List.Perm (recorded s) (recorded st ++ h)) (G := fun _ _ => True) hstep
    (List.Perm.of_eq (List.append_nil _).symm) (allSteps_of_forall (fun _ _ _ => trivial) st) hr
  rwa [List.nil_append] at hinv

theorem suspensions_audited_suspensions : ∃ st', run step office suspensions = some st' ∧
    (trace step suspended office suspensions).length = 1 ∧
    List.Perm (recorded st') (recorded office ++ trace step suspended office suspensions) := by
  have hrun : (run step office suspensions).isSome = true := by decide +kernel
  obtain ⟨st', hst'⟩ := Option.isSome_iff_exists.mp hrun
  exact ⟨st', hst', by decide +kernel, (suspensions_audited hst').1⟩

end Neltrik.Identity
