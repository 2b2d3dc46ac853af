import Neltrik.Identity.Steps
import Neltrik.Lib.Serial

/-! # Users, tenants and roles as sequential objects

The three tables are edited under optimistic locks, each by several use cases. `userCommit`, `tenantCommit`
and `roleCommit` say what a step commits to them; the steps keep to the locks (`locked_users`,
`locked_tenants`, `locked_roles`), so each user, tenant and role is in every interleaving where its commits
take it one after the other (`identities_serialised`). -/

namespace Neltrik.Identity

open Neltrik.Lib Neltrik.Lib.Machine Neltrik.Lib.Table Neltrik.Lib.Serial Neltrik.Lib.Pool Neltrik.Authorization

/-! ## Edits and versions -/

theorem UserEdit.apply_eq_ok {e : UserEdit} {u u' : User} {now : ℕ} (h : e.apply u now = .ok u') :
    u'.id = u.id ∧ u'.version = u.version ∧ u'.tenantId = u.tenantId := by
  cases e with
  | suspend =>
    unfold UserEdit.apply User.suspend at h
    split_ifs at h
    cases h
    exact ⟨rfl, rfl, rfl⟩
  | reactivate =>
    unfold UserEdit.apply User.reactivate at h
    split_ifs at h
    cases h
    exact ⟨rfl, rfl, rfl⟩
  | changeRole roleId =>
    cases h
    exact ⟨rfl, rfl, rfl⟩

theorem TenantEdit.apply_eq_ok {e : TenantEdit} {t t' : Tenant} {now : ℕ} (h : e.apply t now = .ok t') :
    t'.id = t.id ∧ t'.version = t.version := by
  cases e with
  | update name =>
    have hp := Tenant.ofProps_eq_ok h
    exact ⟨by rw [hp], by rw [hp]⟩
  | suspend =>
    unfold TenantEdit.apply Tenant.suspend at h
    split_ifs at h
    cases h
    exact ⟨rfl, rfl⟩
  | reactivate =>
    unfold TenantEdit.apply Tenant.reactivate at h
    split_ifs at h
    cases h
    exact ⟨rfl, rfl⟩

theorem RoleEdit.apply_eq_ok {e : RoleEdit} {r r' : Role} {now : ℕ} (h : e.apply r now = .ok r') :
    r'.id = r.id ∧ r'.version = r.version ∧ r'.code = r.code := by
  have hp := Role.ofProps_eq_ok h
  exact ⟨by rw [hp], by rw [hp], by rw [hp]⟩

/-- A user and the edits of one, each with its instant; the row gets the next version. -/
def users : Versioned User String (UserEdit × ℕ) AccessError where
  key u := u.id
  ver u := u.version
  apply u e := (e.1.apply u e.2).map UserRepository.bump
  key_apply h := by
    obtain ⟨u', hu, rfl⟩ := Effect.except_map_eq_ok.mp h
    exact (UserEdit.apply_eq_ok hu).1
  ver_apply h := by
    obtain ⟨u', hu, rfl⟩ := Effect.except_map_eq_ok.mp h
    exact Nat.lt_succ_of_le (UserEdit.apply_eq_ok hu).2.1.ge

/-- Tenants by their ids, with the versions that updates give them. -/
def tenants : Versioned Tenant String (TenantEdit × ℕ) AccessError where
  key t := t.id
  ver t := t.version
  apply t e := (e.1.apply t e.2).map TenantRepository.bump
  key_apply h := by
    obtain ⟨t', ht, rfl⟩ := Effect.except_map_eq_ok.mp h
    exact (TenantEdit.apply_eq_ok ht).1
  ver_apply h := by
    obtain ⟨t', ht, rfl⟩ := Effect.except_map_eq_ok.mp h
    exact Nat.lt_succ_of_le (TenantEdit.apply_eq_ok ht).2.ge

/-- Roles by their ids, with the versions that updates give them. -/
def roles : Versioned Role String (RoleEdit × ℕ) AccessError where
  key r := r.id
  ver r := r.version
  apply r e := (e.1.apply r e.2).map RoleRepository.bump
  key_apply h := by
    obtain ⟨r', hr, rfl⟩ := Effect.except_map_eq_ok.mp h
    exact (RoleEdit.apply_eq_ok hr).1
  ver_apply h := by
    obtain ⟨r', hr, rfl⟩ := Effect.except_map_eq_ok.mp h
    exact Nat.lt_succ_of_le (RoleEdit.apply_eq_ok hr).2.1.ge

/-! ## Copies and commits -/

/-- The users a run holds. -/
def Proc.users : Proc → List User
  | .suspending _ actor _ => [actor]
  | .comparing _ actor target | .comparingWith _ actor target _ | .permitted _ actor target => [actor, target]
  | .reactivating _ user | .changingRole _ user _ | .validated _ user _ | .enabled _ user _ => [user]
  | _ => []

/-- The tenants a run has read and may write. -/
def Proc.tenants : Proc → List Tenant
  | .editingTenant tenant _ => [tenant]
  | _ => []

/-- The roles a run has read and may write. -/
def Proc.roles : Proc → List Role
  | .comparingWith _ _ _ role | .editingRole role _ => [role]
  | _ => []

/-- The copy a run saves next, and the edit of it. -/
def Proc.userEdit : Proc → Option (Option String × User × UserEdit)
  | .permitted scope _ target => some (scope, target, .suspend)
  | .reactivating scope user => some (scope, user, .reactivate)
  | .enabled scope user roleId => some (scope, user, .changeRole roleId)
  | _ => none

/-- The tenant a run is to write, and how. -/
def Proc.tenantEdit : Proc → Option (Tenant × TenantEdit)
  | .editingTenant tenant edit => some (tenant, edit)
  | _ => none

/-- The role a run is to write, and how. -/
def Proc.roleEdit : Proc → Option (Role × RoleEdit)
  | .editingRole role edit => some (role, edit)
  | _ => none

/-- What a step commits to the users. -/
def userCommit (st : System) : Label → Option (Commit User String (UserEdit × ℕ))
  | .start (.write (.createUser p)) => (User.create p).toOption.map .create
  | .start (.write (.deleteUser id)) => some (.remove id)
  | .act i (.save now) => do
    let p ← st.procs[i]?
    let (scope, user, edit) ← p.userEdit
    if (saveUser st.world scope user edit now).isSome then some (.edit user.id (edit, now)) else none
  | _ => none

/-- What a step commits to the tenants. -/
def tenantCommit (st : System) : Label → Option (Commit Tenant String (TenantEdit × ℕ))
  | .start (.write (.createTenant p)) => (Tenant.create p).toOption.map .create
  | .act i (.save now) => do
    let p ← st.procs[i]?
    let (tenant, edit) ← p.tenantEdit
    if (saveTenant st.world tenant edit now).isSome then some (.edit tenant.id (edit, now)) else none
  | _ => none

/-- What a step commits to the roles. -/
def roleCommit (st : System) : Label → Option (Commit Role String (RoleEdit × ℕ))
  | .start (.write (.createRole p)) => (Role.create p).toOption.map .create
  | .act i (.save now) => do
    let p ← st.procs[i]?
    let (role, edit) ← p.roleEdit
    if (saveRole st.world role edit now).isSome then some (.edit role.id (edit, now)) else none
  | _ => none

/-- The users that runs hold. -/
def userCopies (st : System) : List User := st.procs.flatMap Proc.users

/-- The tenants that runs hold. -/
def tenantCopies (st : System) : List Tenant := st.procs.flatMap Proc.tenants

/-- The roles that runs hold. -/
def roleCopies (st : System) : List Role := st.procs.flatMap Proc.roles

/-! ## What the processes hold -/

theorem mem_of_get {db : Db} {scope : Option String} {id : String} {u : User}
    (h : UserRepository.get db scope id = some u) : u ∈ db.users ∧ u.id = id ∧ UserRepository.inScope scope u = true := by
  have hu := List.find?_some h
  rw [Bool.and_eq_true, beq_iff_eq] at hu
  exact ⟨List.mem_of_find?_eq_some h, hu.1, hu.2⟩

theorem mem_of_findRole {w : World} {scope : Option String} {id : String} {r : Role}
    (h : findRole w scope id = some r) : r ∈ w.db.roles ∧ r.id = id ∧ scope = none := by
  unfold findRole RoleRepository.get at h
  cases scope with
  | some t => cases h
  | none =>
    have hr := List.find?_some h
    exact ⟨List.mem_of_find?_eq_some h, by simpa using hr, rfl⟩

section Held
variable {w w' : World} {p p' : Proc}

/-- A run holds what it has read. -/
theorem Starts.held {s : Start} (h : Starts w s w' p) : (∀ u ∈ p.users, u ∈ w.db.users) ∧
    (∀ t ∈ p.tenants, t ∈ w.db.tenants) ∧ ∀ r ∈ p.roles, r ∈ w.db.roles := by
  cases h with
  | withoutActor | write => exact ⟨List.forall_mem_nil _, List.forall_mem_nil _, List.forall_mem_nil _⟩
  | suspendUser h | reactivateUser h | changeRole h =>
    exact ⟨fun u hu => List.mem_singleton.mp hu ▸ (mem_of_get h).1, List.forall_mem_nil _, List.forall_mem_nil _⟩
  | editTenant h =>
    exact ⟨List.forall_mem_nil _, fun t ht => List.mem_singleton.mp ht ▸ List.mem_of_find?_eq_some h, List.forall_mem_nil _⟩
  | updateRole h => exact ⟨List.forall_mem_nil _, List.forall_mem_nil _, fun r hr => List.mem_singleton.mp hr ▸ (mem_of_findRole h).1⟩

theorem Acts.held {a : Action} (h : Acts w p a w' p') : (∀ u ∈ p'.users, u ∈ p.users ∨ u ∈ w.db.users) ∧
    (∀ t ∈ p'.tenants, t ∈ p.tenants ∨ t ∈ w.db.tenants) ∧ ∀ r ∈ p'.roles, r ∈ p.roles ∨ r ∈ w.db.roles := by
  cases h with
  | withoutTarget | suspend | refuse | reactivate | changeRole | editTenant | editRole | fail =>
    exact ⟨List.forall_mem_nil _, List.forall_mem_nil _, List.forall_mem_nil _⟩
  | record => split_ifs <;> exact ⟨List.forall_mem_nil _, List.forall_mem_nil _, List.forall_mem_nil _⟩
  | findTarget h =>
    refine ⟨fun u hu => ?_, List.forall_mem_nil _, List.forall_mem_nil _⟩
    rcases List.mem_cons.mp hu with rfl | hu
    · exact Or.inl List.mem_cons_self
    · exact Or.inr (List.mem_singleton.mp hu ▸ (mem_of_get h).1)
  | findActorRole h =>
    exact ⟨fun u hu => Or.inl hu, List.forall_mem_nil _,
      fun r hr => Or.inr (List.mem_singleton.mp hr ▸ (mem_of_findRole h).1)⟩
  | permit | validate | validateForTenant => exact ⟨fun u hu => Or.inl hu, List.forall_mem_nil _, List.forall_mem_nil _⟩

end Held

/-! ## The locks -/

/-- The row that is selected is the only one with its key, so the scope makes no difference. -/
theorem updateWhere_selects {rows : List User} (h : Keyed users.key rows) {scope : Option String} {user r₀ new : User}
    (hr₀ : r₀ ∈ rows) (hs : selects scope user r₀ = true) : updateWhere (selects scope user) (fun _ => new) rows =
      OptimisticLock.write users.key users.ver rows user new :=
  updateWhere_eq_write h (fun _ hsel => (Bool.and_eq_true _ _ ▸ hsel).1) hr₀ hs

section Touches
variable {st : System} {w : World} {p p' : Proc}

theorem userCommit_start {s : Start} (h : Starts st.world s w p) : Touches users st.world.db.users
    st.world.users (userCopies st) w.db.users w.users (userCommit st (.start s)) := by
  cases h with
  | withoutActor | suspendUser | reactivateUser | changeRole | editTenant | updateRole => exact .silent rfl rfl
  | write h =>
    cases h with
    | @createUser p user hcreate hnew =>
      have hcommit : userCommit st (.start (.write (.createUser p))) = some (.create user) := by
        simp [userCommit, hcreate, Except.toOption]
      rw [hcommit]
      exact .create hnew rfl rfl
    | deleteUser hstored => exact .remove hstored (fun _ => rfl) rfl
    | createTenant | createRole => exact .silent rfl rfl
    | link husers => exact .silent husers rfl

theorem tenantCommit_start {s : Start} (h : Starts st.world s w p) : Touches tenants st.world.db.tenants
    st.world.tenants (tenantCopies st) w.db.tenants w.tenants (tenantCommit st (.start s)) := by
  cases h with
  | withoutActor | suspendUser | reactivateUser | changeRole | editTenant | updateRole => exact .silent rfl rfl
  | write h =>
    cases h with
    | createUser | deleteUser | createRole => exact .silent rfl rfl
    | @createTenant p tenant hcreate hnew =>
      have hcommit : tenantCommit st (.start (.write (.createTenant p))) = some (.create tenant) := by
        simp [tenantCommit, hcreate, Except.toOption]
      rw [hcommit]
      exact .create hnew rfl rfl
    | link _ htenants => exact .silent htenants rfl

theorem roleCommit_start {s : Start} (h : Starts st.world s w p) : Touches roles st.world.db.roles
    st.world.roles (roleCopies st) w.db.roles w.roles (roleCommit st (.start s)) := by
  cases h with
  | withoutActor | suspendUser | reactivateUser | changeRole | editTenant | updateRole => exact .silent rfl rfl
  | write h =>
    cases h with
    | createUser | deleteUser | createTenant => exact .silent rfl rfl
    | @createRole p role hcreate hnew =>
      have hcommit : roleCommit st (.start (.write (.createRole p))) = some (.create role) := by
        simp [roleCommit, hcreate, Except.toOption]
      rw [hcommit]
      exact .create hnew rfl rfl
    | link _ _ hroles => exact .silent hroles rfl

variable {i : ℕ} {a : Action}

/-- A run that edits no user commits nothing to the users. -/
theorem userCommit_of_none (hp : st.procs[i]? = some p) (h : ∀ now, a = .save now → p.userEdit = none) :
    userCommit st (.act i a) = none := by
  cases a with
  | save now => simp [userCommit, hp, h now rfl]
  | _ => rfl

theorem tenantCommit_of_none (hp : st.procs[i]? = some p) (h : p.tenantEdit = none) :
    tenantCommit st (.act i a) = none := by
  cases a with
  | save now => simp [tenantCommit, hp, h]
  | _ => rfl

theorem roleCommit_of_none (hp : st.procs[i]? = some p) (h : p.roleEdit = none) :
    roleCommit st (.act i a) = none := by
  cases a with
  | save now => simp [roleCommit, hp, h]
  | _ => rfl

/-- The save of a user goes through on the row that the copy was read from. -/
theorem touches_saveUser (hp : st.procs[i]? = some p) {scope : Option String} {user : User} {edit : UserEdit}
    {now : ℕ} (hedit : p.userEdit = some (scope, user, edit)) (hcopy : user ∈ p.users)
    (hsave : saveUser st.world scope user edit now = some w) :
    Touches users st.world.db.users st.world.users (userCopies st) w.db.users
      w.users (userCommit st (.act i (.save now))) := by
  have hcommit : userCommit st (.act i (.save now)) = some (.edit (users.key user) (edit, now)) := by
    simp [userCommit, hp, hedit, hsave, users]
  obtain ⟨user', happly, ⟨r, hr, hsel⟩, rfl⟩ := saveUser_eq_some.mp hsave
  obtain ⟨hid, hver, -⟩ := UserEdit.apply_eq_ok happly
  rw [hcommit]
  refine .edit (List.mem_flatMap.mpr ⟨p, mem_of_getElem? hp, hcopy⟩)
    (Effect.except_map_eq_ok.mpr ⟨user', happly, rfl⟩) ⟨r, hr, ?_⟩ (fun hkeyed => ?_) rfl
  · obtain ⟨hk, hv⟩ := OptimisticLock.matching_iff.mp (Bool.and_eq_true _ _ ▸ hsel).1
    exact OptimisticLock.matching_iff.mpr ⟨hk.trans hid, hv.trans hver⟩
  · exact (updateWhere_selects hkeyed hr hsel).trans (OptimisticLock.write_congr hid hver)

theorem userCommit_act (hp : st.procs[i]? = some p) (h : Acts st.world p a w p') : Touches users st.world.db.users
    st.world.users (userCopies st) w.db.users w.users (userCommit st (.act i a)) := by
  cases h with
  | withoutTarget | findTarget | findActorRole | permit | record | validate | validateForTenant | fail =>
    exact .silent rfl rfl
  | refuse hp' hsave =>
    have hcommit : userCommit st (.act i a) = none := by
      cases a with
      | save now =>
        rcases hp' with rfl | ⟨role, rfl⟩ | rfl
        · exact userCommit_of_none hp fun _ _ => rfl
        · exact userCommit_of_none hp fun _ _ => rfl
        · simp [userCommit, hp, Proc.userEdit, hsave now rfl]
      | _ => rfl
    rw [hcommit]
    exact .silent rfl rfl
  | suspend hsave => exact touches_saveUser hp rfl (List.mem_cons_of_mem _ List.mem_cons_self) hsave
  | reactivate hsave | changeRole hsave => exact touches_saveUser hp rfl List.mem_cons_self hsave
  | editTenant hsave =>
    obtain ⟨_, -, -, rfl⟩ := saveTenant_eq_some.mp hsave
    rw [userCommit_of_none hp fun _ _ => rfl]
    exact .silent rfl rfl
  | editRole hsave =>
    obtain ⟨_, -, -, rfl⟩ := saveRole_eq_some.mp hsave
    rw [userCommit_of_none hp fun _ _ => rfl]
    exact .silent rfl rfl

theorem tenantCommit_act (hp : st.procs[i]? = some p) (h : Acts st.world p a w p') :
    Touches tenants st.world.db.tenants st.world.tenants (tenantCopies st) w.db.tenants w.tenants
      (tenantCommit st (.act i a)) := by
  cases h with
  | withoutTarget | findTarget | findActorRole | permit | record | validate | validateForTenant | fail =>
    exact .silent rfl rfl
  | refuse hp' =>
    rw [tenantCommit_of_none hp (by rcases hp' with rfl | ⟨role, rfl⟩ | rfl <;> rfl)]
    exact .silent rfl rfl
  | suspend hsave | reactivate hsave | changeRole hsave =>
    obtain ⟨_, -, -, rfl⟩ := saveUser_eq_some.mp hsave
    rw [tenantCommit_of_none hp rfl]
    exact .silent rfl rfl
  | @editTenant tenant edit now _ hsave =>
    have hcommit : tenantCommit st (.act i (.save now)) = some (.edit (tenants.key tenant) (edit, now)) := by
      simp [tenantCommit, hp, Proc.tenantEdit, hsave, tenants]
    obtain ⟨tenant', happly, ⟨r, hr, hm⟩, rfl⟩ := saveTenant_eq_some.mp hsave
    obtain ⟨hid, hver⟩ := TenantEdit.apply_eq_ok happly
    rw [hcommit]
    refine .edit (List.mem_flatMap.mpr ⟨_, mem_of_getElem? hp, List.mem_cons_self⟩)
      (Effect.except_map_eq_ok.mpr ⟨tenant', happly, rfl⟩) ⟨r, hr, ?_⟩
      (fun _ => OptimisticLock.write_congr hid hver) rfl
    obtain ⟨hk, hv⟩ := OptimisticLock.matching_iff.mp hm
    exact OptimisticLock.matching_iff.mpr ⟨hk.trans hid, hv.trans hver⟩
  | editRole hsave =>
    obtain ⟨_, -, -, rfl⟩ := saveRole_eq_some.mp hsave
    rw [tenantCommit_of_none hp rfl]
    exact .silent rfl rfl

theorem roleCommit_act (hp : st.procs[i]? = some p) (h : Acts st.world p a w p') :
    Touches roles st.world.db.roles st.world.roles (roleCopies st) w.db.roles
      w.roles (roleCommit st (.act i a)) := by
  cases h with
  | withoutTarget | findTarget | findActorRole | permit | record | validate | validateForTenant | fail =>
    exact .silent rfl rfl
  | refuse hp' =>
    rw [roleCommit_of_none hp (by rcases hp' with rfl | ⟨role, rfl⟩ | rfl <;> rfl)]
    exact .silent rfl rfl
  | suspend hsave | reactivate hsave | changeRole hsave =>
    obtain ⟨_, -, -, rfl⟩ := saveUser_eq_some.mp hsave
    rw [roleCommit_of_none hp rfl]
    exact .silent rfl rfl
  | editTenant hsave =>
    obtain ⟨_, -, -, rfl⟩ := saveTenant_eq_some.mp hsave
    rw [roleCommit_of_none hp rfl]
    exact .silent rfl rfl
  | @editRole role edit now _ hsave =>
    have hcommit : roleCommit st (.act i (.save now)) = some (.edit (roles.key role) (edit, now)) := by
      simp [roleCommit, hp, Proc.roleEdit, hsave, roles]
    obtain ⟨role', happly, ⟨r, hr, hm⟩, rfl⟩ := saveRole_eq_some.mp hsave
    obtain ⟨hid, hver, -⟩ := RoleEdit.apply_eq_ok happly
    rw [hcommit]
    refine .edit (List.mem_flatMap.mpr ⟨_, mem_of_getElem? hp, List.mem_cons_self⟩)
      (Effect.except_map_eq_ok.mpr ⟨role', happly, rfl⟩) ⟨r, hr, ?_⟩
      (fun _ => OptimisticLock.write_congr hid hver) rfl
    obtain ⟨hk, hv⟩ := OptimisticLock.matching_iff.mp hm
    exact OptimisticLock.matching_iff.mpr ⟨hk.trans hid, hv.trans hver⟩

end Touches

theorem locked_users : Locked users step (fun st => st.world.db.users) userCopies
    (fun st => st.world.users) userCommit :=
  locked_of_processes (fun w => w.db.users) (fun w => w.users) Proc.users
    (fun h => ⟨userCommit_start (start_starts h), (start_starts h).held.1⟩)
    fun hp h => ⟨userCommit_act hp (act_acts h), (act_acts h).held.1⟩

theorem locked_tenants : Locked tenants step (fun st => st.world.db.tenants) tenantCopies
    (fun st => st.world.tenants) tenantCommit :=
  locked_of_processes (fun w => w.db.tenants) (fun w => w.tenants) Proc.tenants
    (fun h => ⟨tenantCommit_start (start_starts h), (start_starts h).held.2.1⟩)
    fun hp h => ⟨tenantCommit_act hp (act_acts h), (act_acts h).held.2.1⟩

theorem locked_roles : Locked roles step (fun st => st.world.db.roles) roleCopies
    (fun st => st.world.roles) roleCommit :=
  locked_of_processes (fun w => w.db.roles) (fun w => w.roles) Proc.roles
    (fun h => ⟨roleCommit_start (start_starts h), (start_starts h).held.2.2⟩)
    fun hp h => ⟨roleCommit_act hp (act_acts h), (act_acts h).held.2.2⟩

/-! ## The theorem -/

/-- Primary keys, and the ids are those that have been generated. -/
structure Consistent (w : World) : Prop where
  userKeys : Keyed (fun u : User => u.id) w.db.users
  tenantKeys : Keyed (fun t : Tenant => t.id) w.db.tenants
  roleKeys : Keyed (fun r : Role => r.id) w.db.roles
  userIds : ∀ u ∈ w.db.users, u.id ∈ w.users
  tenantIds : ∀ t ∈ w.db.tenants, t.id ∈ w.tenants
  roleIds : ∀ r ∈ w.db.roles, r.id ∈ w.roles

section Idle
variable {st : System} (h : Consistent st.world) (hidle : st.procs = [])
include h hidle

theorem Consistent.tidy_users : Tidy users (fun st => st.world.db.users) userCopies
    (fun st => st.world.users) st :=
  .of_no_copies h.userKeys h.userIds (by rw [userCopies, hidle]; rfl)

theorem Consistent.tidy_tenants : Tidy tenants (fun st => st.world.db.tenants) tenantCopies
    (fun st => st.world.tenants) st :=
  .of_no_copies h.tenantKeys h.tenantIds (by rw [tenantCopies, hidle]; rfl)

theorem Consistent.tidy_roles : Tidy roles (fun st => st.world.db.roles) roleCopies
    (fun st => st.world.roles) st :=
  .of_no_copies h.roleKeys h.roleIds (by rw [roleCopies, hidle]; rfl)

end Idle

/-- The row that its commits lead to, one after the other. -/
def Leads {α Op : Type} (V : Versioned α String Op AccessError) (rows rows' : List α)
    (commits : List (Commit α String Op)) (id : String) : Prop :=
  commits.foldlM (Commit.apply V) (rowOf V rows id) = .ok (rowOf V rows' id)

/-- **No update of a user, a tenant or a role is lost**, in any interleaving: each of them is where its commits
lead to one after the other, each made on what the one before it has left. -/
theorem identities_serialised {st st' : System} {ls : List Label} (h : Consistent st.world) (hidle : st.procs = [])
    (hr : run step st ls = some st') (id : String) :
    Leads users st.world.db.users st'.world.db.users (trace step (commitsTo users userCommit id) st ls) id ∧
    Leads tenants st.world.db.tenants st'.world.db.tenants (trace step (commitsTo tenants tenantCommit id) st ls) id ∧
    Leads roles st.world.db.roles st'.world.db.roles (trace step (commitsTo roles roleCommit id) st ls) id :=
  ⟨commits_serialised locked_users (h.tidy_users hidle) hr id,
    commits_serialised locked_tenants (h.tidy_tenants hidle) hr id,
    commits_serialised locked_roles (h.tidy_roles hidle) hr id⟩

/-! ### A race -/

section Race

/-- A customer. -/
def acmeTenant : Tenant :=
  ⟨⟨"acme", "Acme Office", "acme-office", .customer, .active, 0, 0, 0, none⟩, by decide, by decide⟩

/-- The role at the top. -/
def platformAdmin : Role :=
  ⟨⟨"r1", "PLATFORM_ADMIN", "Admin", "Runs the platform", [], .platform, 0, 0, 0⟩, by decide, by decide, by decide⟩

/-- The role below it. -/
def tenantOwner : Role :=
  ⟨⟨"r2", "TENANT_OWNER", "Owner", "Runs a tenant", [], .tenant, 0, 0, 0⟩, by decide, by decide, by decide⟩

/-- A platform admin. -/
def ada : User :=
  ⟨⟨"u1", "Ada", "Stone", "ada@neltrik.io", "acme", "r1", .active, 0, 0, 0, none⟩, by decide, by decide⟩

/-- An owner of the customer. -/
def bob : User :=
  ⟨⟨"u2", "Bob", "Moss", "bob@acme.io", "acme", "r2", .active, 0, 0, 0, none⟩, by decide, by decide⟩

/-- Both of them, and nothing under way. -/
def office : System where
  world :=
    { db :=
        { tenants := [acmeTenant], roles := [platformAdmin, tenantOwner], permissions := [],
          rolePermissions := [], roleTenants := [], invitations := [], users := [ada, bob], accounts := [] }
      audits := []
      users := ["u1", "u2"]
      tenants := ["acme"]
      roles := ["r1", "r2"] }
  procs := []

theorem office_consistent : Consistent office.world :=
  ⟨by decide, by decide, by decide, by decide, by decide, by decide⟩

/-- Two suspensions of `bob` that have both read him, a suspension within a tenant, and a reactivation. -/
def suspensions : List Label :=
  [.start (.suspendUser none "u1" "u2"), .act 0 .findTarget, .start (.suspendUser none "u1" "u2"),
    .act 1 .findTarget, .act 0 .findActorRole, .act 1 .findActorRole, .act 0 .findTargetRole,
    .act 1 .findTargetRole, .act 0 (.save 7), .act 1 (.save 8), .act 1 .record,
    .start (.suspendUser (some "acme") "u1" "u2"), .act 2 .findTarget, .act 2 .findActorRole,
    .start (.reactivateUser none "u2"), .act 3 (.save 9)]

theorem identities_serialised_suspensions : ∃ st', run step office suspensions = some st' ∧
    (trace step (commitsTo users userCommit "u2") office suspensions).length = 2 ∧
    Leads users office.world.db.users st'.world.db.users
      (trace step (commitsTo users userCommit "u2") office suspensions) "u2" := by
  have hrun : (run step office suspensions).isSome = true := by decide +kernel
  obtain ⟨st', hst'⟩ := Option.isSome_iff_exists.mp hrun
  exact ⟨st', hst', by decide +kernel, (identities_serialised office_consistent rfl hst' "u2").1⟩

end Race

end Neltrik.Identity
