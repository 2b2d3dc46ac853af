import Neltrik.Identity.System

/-! # What a step does to the users, the tenants and the roles

`Starts` and `Acts` invert `start` and `act`. The writes are given by what they make of the tables
(`saveUser_eq_some`, `saveTenant_eq_some`, `saveRole_eq_some`, `Write.run_frame`). -/

namespace Neltrik.Identity

open Neltrik.Lib Neltrik.Lib.Table Neltrik.Authorization
open Neltrik.Lib.Effect (toOption_eq_some)

/-! ## Writes -/

theorem commit_change {g : Db → Except AccessError Db} {db : Db} :
    commit (Effect.change g) db = (g db).toOption := by
  unfold commit Effect.change
  cases g db <;> rfl

/-- The rows that an update of a user writes. -/
def selects (scope : Option String) (user r : User) : Bool :=
  OptimisticLock.matching (fun u : User => u.id) (fun u => u.version) user r && UserRepository.inScope scope r

theorem saveUser_eq_some {w w' : World} {scope : Option String} {user : User} {edit : UserEdit} {now : ℕ} :
    saveUser w scope user edit now = some w' ↔ ∃ user', edit.apply user now = .ok user' ∧
      (∃ r ∈ w.db.users, selects scope user' r = true) ∧
      w' = { w with db := { w.db with
        users := updateWhere (selects scope user') (fun _ => UserRepository.bump user') w.db.users } } := by
  unfold saveUser
  simp only [Option.bind_eq_bind, Option.bind_eq_some_iff, toOption_eq_some, UserRepository.update,
    commit_change, pure, Option.some.injEq]
  refine exists_congr fun user' => and_congr_right fun _ => ?_
  constructor
  · rintro ⟨db, hdb, rfl⟩
    split_ifs at hdb with hany
    cases hdb
    exact ⟨List.any_eq_true.mp hany, rfl⟩
  · rintro ⟨hany, rfl⟩
    exact ⟨_, if_pos (List.any_eq_true.mpr hany), rfl⟩

theorem saveTenant_eq_some {w w' : World} {tenant : Tenant} {edit : TenantEdit} {now : ℕ} :
    saveTenant w tenant edit now = some w' ↔ ∃ tenant', edit.apply tenant now = .ok tenant' ∧
      (∃ r ∈ w.db.tenants, OptimisticLock.matching (·.id) (·.version) tenant' r = true) ∧
      w' = { w with db := { w.db with
        tenants := OptimisticLock.write (·.id) (·.version) w.db.tenants tenant' (TenantRepository.bump tenant') } } := by
  unfold saveTenant
  simp only [Option.bind_eq_bind, Option.bind_eq_some_iff, toOption_eq_some, TenantRepository.update,
    commit_change, pure, Option.some.injEq]
  refine exists_congr fun tenant' => and_congr_right fun _ => ?_
  constructor
  · rintro ⟨db, hdb, rfl⟩
    split_ifs at hdb with hany
    cases hdb
    exact ⟨List.any_eq_true.mp hany, rfl⟩
  · rintro ⟨hany, rfl⟩
    exact ⟨_, if_pos (List.any_eq_true.mpr hany), rfl⟩

theorem saveRole_eq_some {w w' : World} {role : Role} {edit : RoleEdit} {now : ℕ} :
    saveRole w role edit now = some w' ↔ ∃ role', edit.apply role now = .ok role' ∧
      (∃ r ∈ w.db.roles, OptimisticLock.matching (·.id) (·.version) role' r = true) ∧
      w' = { w with db := { w.db with
        roles := OptimisticLock.write (·.id) (·.version) w.db.roles role' (RoleRepository.bump role') } } := by
  unfold saveRole
  simp only [Option.bind_eq_bind, Option.bind_eq_some_iff, toOption_eq_some, RoleRepository.update,
    commit_change, pure, Option.some.injEq]
  refine exists_congr fun role' => and_congr_right fun _ => ?_
  constructor
  · rintro ⟨db, hdb, rfl⟩
    split_ifs at hdb with hany
    cases hdb
    exact ⟨List.any_eq_true.mp hany, rfl⟩
  · rintro ⟨hany, rfl⟩
    exact ⟨_, if_pos (List.any_eq_true.mpr hany), rfl⟩

/-- What a write makes of the three tables and of the ids. -/
inductive Wrote (w : World) : Write → World → Prop
  | createUser {p : UserProps} {user : User} (hcreate : User.create p = .ok user)
      (hnew : user.id ∉ w.users) :
      Wrote w (.createUser p)
        { w with db := { w.db with users := user :: w.db.users }, users := user.id :: w.users }
  | deleteUser {id : String} (hstored : ∃ r ∈ w.db.users, r.id = id) :
      Wrote w (.deleteUser id) { w with db := { w.db with users := w.db.users.filter (·.id != id) } }
  | createTenant {p : TenantProps} {tenant : Tenant} (hcreate : Tenant.create p = .ok tenant)
      (hnew : tenant.id ∉ w.tenants) :
      Wrote w (.createTenant p)
        { w with db := { w.db with tenants := tenant :: w.db.tenants }, tenants := tenant.id :: w.tenants }
  | createRole {p : RoleProps} {role : Role} (hcreate : Role.create p = .ok role)
      (hnew : role.id ∉ w.roles) :
      Wrote w (.createRole p)
        { w with db := { w.db with roles := role :: w.db.roles }, roles := role.id :: w.roles }
  | link {write : LinkWrite} {db : Db} (husers : db.users = w.db.users) (htenants : db.tenants = w.db.tenants)
      (hroles : db.roles = w.db.roles) : Wrote w (.link write) { w with db }

theorem commit_eq_some {write : UseCase Unit} {db db' : Db} : commit write db = some db' ↔
    write db = (.ok (), db') := by
  unfold commit
  rcases write db with ⟨e | u, db''⟩
  · simp
  · simp

theorem LinkWrite.frame {write : LinkWrite} {db db' : Db} (h : commit write.effect db = some db') :
    db'.users = db.users ∧ db'.tenants = db.tenants ∧ db'.roles = db.roles := by
  cases write with
  | removePermissions | disassociateRoles =>
    cases h
    exact ⟨rfl, rfl, rfl⟩
  | createPermission | updatePermission | assignPermissions | associateRoles =>
    simp only [LinkWrite.effect, PermissionRepository.create, PermissionRepository.update,
      RoleRepository.assignPermissions, RoleTenantRepository.associateRoles, commit_change, toOption_eq_some] at h
    split_ifs at h
    cases h
    exact ⟨rfl, rfl, rfl⟩

theorem Write.wrote {w w' : World} {write : Write} (h : write.run w = some w') : Wrote w write w' := by
  cases write with
  | createUser p =>
    obtain ⟨user, hcreate, h⟩ := Option.bind_eq_some_iff.mp h
    split_ifs at h with hany
    obtain ⟨db, hdb, h⟩ := Option.bind_eq_some_iff.mp h
    cases h
    rw [UserRepository.create, commit_change, toOption_eq_some] at hdb
    split_ifs at hdb
    cases hdb
    exact .createUser (toOption_eq_some.mp hcreate) (by simpa using hany)
  | deleteUser id =>
    obtain ⟨db, hdb, rfl⟩ := Option.map_eq_some_iff.mp h
    rw [UserRepository.delete, commit_change, toOption_eq_some] at hdb
    split_ifs at hdb with hany
    cases hdb
    exact .deleteUser (by simpa using hany)
  | createTenant p =>
    obtain ⟨tenant, hcreate, h⟩ := Option.bind_eq_some_iff.mp h
    split_ifs at h with hany
    obtain ⟨db, hdb, h⟩ := Option.bind_eq_some_iff.mp h
    cases h
    rw [TenantRepository.create, commit_change, toOption_eq_some] at hdb
    split_ifs at hdb
    cases hdb
    exact .createTenant (toOption_eq_some.mp hcreate) (by simpa using hany)
  | createRole p =>
    obtain ⟨role, hcreate, h⟩ := Option.bind_eq_some_iff.mp h
    split_ifs at h with hany
    obtain ⟨db, hdb, h⟩ := Option.bind_eq_some_iff.mp h
    cases h
    rw [RoleRepository.create, commit_change, toOption_eq_some] at hdb
    split_ifs at hdb
    cases hdb
    exact .createRole (toOption_eq_some.mp hcreate) (by simpa using hany)
  | link write =>
    obtain ⟨db, hdb, rfl⟩ := Option.map_eq_some_iff.mp h
    obtain ⟨husers, htenants, hroles⟩ := LinkWrite.frame hdb
    exact .link husers htenants hroles

/-! ## Starts and actions -/

/-- `SuspendUser` once it is within `recordWithFn`. -/
def Proc.isRecorded : Proc → Bool
  | .comparing .. | .comparingWith .. | .permitted .. | .recording _ => true
  | _ => false

/-- What a start does, one rule for each case. -/
inductive Starts (w : World) : Start → World → Proc → Prop
  | withoutActor {scope actorUserId targetUserId} (h : UserRepository.get w.db scope actorUserId = none) :
      Starts w (.suspendUser scope actorUserId targetUserId)
        (record w (notFound actorUserId targetUserId none "actor_not_found")) .failed
  | suspendUser {scope actorUserId targetUserId actor}
      (h : UserRepository.get w.db scope actorUserId = some actor) :
      Starts w (.suspendUser scope actorUserId targetUserId) w (.suspending scope actor targetUserId)
  | reactivateUser {scope id user} (h : UserRepository.get w.db scope id = some user) :
      Starts w (.reactivateUser scope id) w (.reactivating scope user)
  | changeRole {scope id roleId user} (h : UserRepository.get w.db scope id = some user) :
      Starts w (.changeRole scope id roleId) w (.changingRole scope user roleId)
  | editTenant {id edit tenant} (h : TenantRepository.get w.db id = some tenant) :
      Starts w (.editTenant id edit) w (.editingTenant tenant edit)
  | updateRole {scope id edit role} (h : findRole w scope id = some role) :
      Starts w (.updateRole scope id edit) w (.editingRole role edit)
  | write {write w'} (h : Wrote w write w') : Starts w (.write write) w' .done

theorem start_starts {w w' : World} {s : Start} {p : Proc} (h : start w s = some (w', p)) :
    Starts w s w' p := by
  unfold start at h
  split at h
  · split at h
    · cases h; exact .withoutActor ‹_›
    · cases h; exact .suspendUser ‹_›
  · obtain ⟨_, hu, h⟩ := Option.map_eq_some_iff.mp h
    cases h; exact .reactivateUser hu
  · obtain ⟨_, hu, h⟩ := Option.map_eq_some_iff.mp h
    cases h; exact .changeRole hu
  · obtain ⟨_, ht, h⟩ := Option.map_eq_some_iff.mp h
    cases h; exact .editTenant ht
  · obtain ⟨_, hr, h⟩ := Option.map_eq_some_iff.mp h
    cases h; exact .updateRole hr
  · obtain ⟨_, hw, h⟩ := Option.map_eq_some_iff.mp h
    cases h; exact .write (Write.wrote hw)

/-- What an action does, one rule for each case. -/
inductive Acts (w : World) : Proc → Action → World → Proc → Prop
  | withoutTarget {scope actor targetUserId} (h : UserRepository.get w.db scope targetUserId = none) :
      Acts w (.suspending scope actor targetUserId) .findTarget
        (record w (notFound actor.id targetUserId (some actor) "target_not_found")) .failed
  | findTarget {scope actor targetUserId target} (h : UserRepository.get w.db scope targetUserId = some target) :
      Acts w (.suspending scope actor targetUserId) .findTarget w (.comparing scope actor target)
  | findActorRole {scope actor target actorRole} (h : findRole w scope actor.roleId = some actorRole) :
      Acts w (.comparing scope actor target) .findActorRole w (.comparingWith scope actor target actorRole)
  | permit {scope actor target actorRole targetRole} (h : findRole w scope target.roleId = some targetRole)
      (hcan : UserSuspensionPolicy.canSuspend actorRole.code targetRole.code = true) :
      Acts w (.comparingWith scope actor target actorRole) .findTargetRole w (.permitted scope actor target)
  | suspend {scope actor target now w'} (h : saveUser w scope target .suspend now = some w') :
      Acts w (.permitted scope actor target) (.save now) w' (.recording (suspension actor target .success))
  /-- `fn` has thrown. -/
  | refuse {p a scope actor target}
      (hp : p = .comparing scope actor target ∨ (∃ role, p = .comparingWith scope actor target role) ∨
        p = .permitted scope actor target)
      (hsave : ∀ now, a = .save now → saveUser w scope target .suspend now = none) :
      Acts w p a w (.recording (suspension actor target .failed))
  | record {input} : Acts w (.recording input) .record (record w input)
      (if input.status = .success then .done else .failed)
  | reactivate {scope user now w'} (h : saveUser w scope user .reactivate now = some w') :
      Acts w (.reactivating scope user) (.save now) w' .done
  | validate {scope user roleId role} (h : findRole w scope roleId = some role) :
      Acts w (.changingRole scope user roleId) .validate w (.validated scope user roleId)
  | validateForTenant {scope user roleId}
      (h : (AuthorizationRoleApi.validateForTenant roleId user.tenantId w.db).1.isOk = true) :
      Acts w (.validated scope user roleId) .validateForTenant w (.enabled scope user roleId)
  | changeRole {scope user roleId now w'} (h : saveUser w scope user (.changeRole roleId) now = some w') :
      Acts w (.enabled scope user roleId) (.save now) w' .done
  | editTenant {tenant edit now w'} (h : saveTenant w tenant edit now = some w') :
      Acts w (.editingTenant tenant edit) (.save now) w' .done
  | editRole {role edit now w'} (h : saveRole w role edit now = some w') :
      Acts w (.editingRole role edit) (.save now) w' .done
  /-- The run ends before anything is recorded for it. -/
  | fail {p} (hp : p.isRecorded = false) : Acts w p .fail w .failed

theorem act_acts {procs : List Proc} {w w' : World} {p p' : Proc} {a : Action}
    (h : act procs w p a = some (w', p')) : Acts w p a w' p' := by
  unfold act at h
  split at h
  · split at h
    · cases h; exact .withoutTarget ‹_›
    · cases h; exact .findTarget ‹_›
  · split at h
    · cases h; exact .refuse (Or.inl rfl) nofun
    · cases h; exact .findActorRole ‹_›
  · split at h
    · cases h; exact .refuse (Or.inr (Or.inl ⟨_, rfl⟩)) nofun
    · split at h
      · cases h; exact .permit ‹_› ‹_›
      · cases h; exact .refuse (Or.inr (Or.inl ⟨_, rfl⟩)) nofun
  · split at h
    · cases h; exact .suspend ‹_›
    · rename_i hnone
      cases h
      refine .refuse (Or.inr (Or.inr rfl)) fun now hnow => ?_
      cases hnow
      exact hnone
  · cases h; exact .record
  · obtain ⟨_, hw, h⟩ := Option.map_eq_some_iff.mp h
    cases h; exact .reactivate hw
  · obtain ⟨_, hr, h⟩ := Option.map_eq_some_iff.mp h
    cases h; exact .validate hr
  · split at h
    · cases h; exact .validateForTenant ‹_›
    · cases h
  · obtain ⟨_, hw, h⟩ := Option.map_eq_some_iff.mp h
    cases h; exact .changeRole hw
  · obtain ⟨_, hw, h⟩ := Option.map_eq_some_iff.mp h
    cases h; exact .editTenant hw
  · obtain ⟨_, hw, h⟩ := Option.map_eq_some_iff.mp h
    cases h; exact .editRole hw
  · cases h; exact .refuse (Or.inl rfl) nofun
  · cases h; exact .refuse (Or.inr (Or.inl ⟨_, rfl⟩)) nofun
  · cases h; exact .refuse (Or.inr (Or.inr rfl)) nofun
  · cases h
  · cases h
  · cases h
  · rename_i hcomparing hwith hpermitted hrecording _ _
    cases h
    refine .fail ?_
    cases p with
    | comparing scope actor target => exact absurd rfl (hcomparing scope actor target)
    | comparingWith scope actor target role => exact absurd rfl (hwith scope actor target role)
    | permitted scope actor target => exact absurd rfl (hpermitted scope actor target)
    | recording input => exact absurd rfl (hrecording input)
    | _ => rfl
  · cases h

end Neltrik.Identity
