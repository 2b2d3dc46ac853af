import Neltrik.Audit.Events
import Neltrik.Authorization.UseCases
import Neltrik.Lib.Interleaving

/-! # Users, tenants and roles in time

The runs that read a user, a tenant or a role, change it in memory and write it back, `SuspendUser`,
`ReactivateUser`, `ChangeRoleUser`, `UpdateTenant`, `SuspendTenant`, `ReactivateTenant` and `UpdateRole`, as
processes over the tables. An action is one access to the database with what the code computes after it
until the next one. The use cases that write in one access are one step each (`Write`), with any data.

`scope` is the tenant of a request, `none` for a platform admin and outside of a request. Within one the queries
for roles throw (`tenantless`).

`IdGenerator` returns no id twice; the lists of the ids there have been are for that, and nothing else reads
them. -/

namespace Neltrik.Authorization.User

/-- An active user only. -/
def suspend (u : User) (now : ℕ) : Except AccessError User :=
  if u.status = .suspended then .error .userAlreadySuspended
  else .ok { u with status := .suspended, suspendedAt := some now, updatedAt := now }

/-- A suspended user only, who loses the date of the suspension. -/
def reactivate (u : User) (now : ℕ) : Except AccessError User :=
  if u.status = .active then .error .userAlreadyActive
  else .ok { u with status := .active, suspendedAt := none, updatedAt := now }

end Neltrik.Authorization.User

namespace Neltrik.Identity

open Neltrik.Lib Neltrik.Authorization
open Neltrik.Audit (CreateAuditEventInput AuditStatus)
open Neltrik.Shared (inheritedKeys)

/-! ## The policy -/

/-- What `ROLE_HIERARCHY[roleCode] ?? 0` is compared as. Every object has `inheritedKeys`; a function is
compared by its source text. -/
inductive Rank where
  | number (n : ℕ)
  | text (s : String)
  deriving DecidableEq

/-- The source text of an inherited member; `__proto__` is an object. -/
def inheritedText (key : String) : String :=
  if key = "__proto__" then "[object Object]"
  else if key = "constructor" then "function Object() \x7b [native code] \x7d"
  else "function " ++ key ++ "() \x7b [native code] \x7d"

/-- `ROLE_HIERARCHY[roleCode] ?? 0`. -/
def getRoleHierarchy (roleCode : String) : Rank :=
  if roleCode = "PLATFORM_ADMIN" then .number 3
  else if roleCode = "TENANT_OWNER" then .number 2
  else if roleCode = "TENANT_ADMIN" then .number 1
  else if inheritedKeys.contains roleCode then .text (inheritedText roleCode)
  else .number 0

/-- A text is not comparable with a number. -/
def Rank.gt : Rank → Rank → Bool
  | .number a, .number b => b < a
  | .text a, .text b => b < a
  | _, _ => false

/-- `>` on the ranks of the codes. -/
def isRoleHigherThan (actorRole targetRole : String) : Bool :=
  (getRoleHierarchy actorRole).gt (getRoleHierarchy targetRole)

/-- The actor has to be above the target. -/
def UserSuspensionPolicy.canSuspend (actorRole targetRole : String) : Bool :=
  isRoleHigherThan actorRole targetRole

/-! ## Edits -/

/-- What is done to a user that has been read. -/
inductive UserEdit where
  | suspend
  | reactivate
  | changeRole (roleId : String)
  deriving DecidableEq

/-- The method of the entity. -/
def UserEdit.apply (u : User) (now : ℕ) : UserEdit → Except AccessError User
  | .suspend => u.suspend now
  | .reactivate => u.reactivate now
  | .changeRole roleId => .ok (u.update roleId now)

/-- What is done to a tenant that has been read. -/
inductive TenantEdit where
  | update (name : String)
  | suspend
  | reactivate
  deriving DecidableEq

/-- The method of the entity. -/
def TenantEdit.apply (t : Tenant) (now : ℕ) : TenantEdit → Except AccessError Tenant
  | .update name => t.update name now
  | .suspend => t.suspend now
  | .reactivate => t.reactivate now

/-- The texts that are given. -/
structure RoleEdit where
  defaultDisplayName : Option String
  description : Option String
  deriving DecidableEq

/-- The method of the entity. -/
def RoleEdit.apply (r : Role) (now : ℕ) (e : RoleEdit) : Except AccessError Role :=
  r.update e.defaultDisplayName e.description now

/-! ## The world -/

/-- The tables, and the calls of the audit. -/
structure World where
  db : Db
  /-- The calls of `CreateAuditEventOhsUseCase`, the last one first. -/
  audits : List CreateAuditEventInput
  /-- The ids there have been. -/
  users : List String
  tenants : List String
  roles : List String

/-- The write of a repository, if it goes through. -/
def commit (write : UseCase Unit) (db : Db) : Option Db :=
  match write db with
  | (.ok _, db) => some db
  | (.error _, _) => none

/-- The edit of a copy and the update with it, when both go through. -/
def saveUser (w : World) (scope : Option String) (user : User) (edit : UserEdit) (now : ℕ) : Option World := do
  let user ← (edit.apply user now).toOption
  let db ← commit (UserRepository.update scope user) w.db
  return { w with db }

/-- The edit of a copy and the update with it, when both go through. -/
def saveTenant (w : World) (tenant : Tenant) (edit : TenantEdit) (now : ℕ) : Option World := do
  let tenant ← (edit.apply tenant now).toOption
  let db ← commit (TenantRepository.update tenant) w.db
  return { w with db }

/-- The edit of a copy and the update with it, when both go through. -/
def saveRole (w : World) (role : Role) (edit : RoleEdit) (now : ℕ) : Option World := do
  let role ← (edit.apply role now).toOption
  let db ← commit (RoleRepository.update role) w.db
  return { w with db }

/-- `RoleRepository.get`, unless it throws. -/
def findRole (w : World) (scope : Option String) (id : String) : Option Role :=
  (RoleRepository.get w.db scope id).toOption.join

/-- The writes of permissions and of what roles are linked to. -/
inductive LinkWrite where
  | createPermission (permission : Permission)
  | updatePermission (permission : Permission)
  | assignPermissions (roleId : String) (permissionIds : List String)
  | removePermissions (roleId : String) (permissionIds : List String)
  | associateRoles (roleIds : List String) (tenantId : String)
  | disassociateRoles (roleIds : List String) (tenantId : String)
  deriving DecidableEq

/-- The write as the repository makes it. -/
def LinkWrite.effect : LinkWrite → UseCase Unit
  | .createPermission permission => PermissionRepository.create permission
  | .updatePermission permission => PermissionRepository.update permission
  | .assignPermissions roleId permissionIds => RoleRepository.assignPermissions roleId permissionIds
  | .removePermissions roleId permissionIds => RoleRepository.removePermissions roleId permissionIds
  | .associateRoles roleIds tenantId => RoleTenantRepository.associateRoles roleIds tenantId
  | .disassociateRoles roleIds tenantId => RoleTenantRepository.disassociateRoles roleIds tenantId

/-- The use cases that write in one access. -/
inductive Write where
  | createUser (p : UserProps)
  | deleteUser (id : String)
  | createTenant (p : TenantProps)
  | createRole (p : RoleProps)
  | link (write : LinkWrite)
  deriving DecidableEq

/-- The entity is built and written; an id that has been used is not generated again. -/
def Write.run (w : World) : Write → Option World
  | .createUser p => do
    let user ← (User.create p).toOption
    if w.users.contains user.id then none
    else
      let db ← commit (UserRepository.create user) w.db
      return { w with db, users := user.id :: w.users }
  | .deleteUser id => (commit (UserRepository.delete id) w.db).map fun db => { w with db }
  | .createTenant p => do
    let tenant ← (Tenant.create p).toOption
    if w.tenants.contains tenant.id then none
    else
      let db ← commit (TenantRepository.create tenant) w.db
      return { w with db, tenants := tenant.id :: w.tenants }
  | .createRole p => do
    let role ← (Role.create p).toOption
    if w.roles.contains role.id then none
    else
      let db ← commit (RoleRepository.create role) w.db
      return { w with db, roles := role.id :: w.roles }
  | .link write => (commit write.effect w.db).map fun db => { w with db }

/-! ## Processes -/

/-- A run at the access that comes next. -/
inductive Proc where
  /-- `SuspendUser` with the actor, and within `recordWithFn`: before the roles are read, after the first of
  them, after both, and when the outcome is to be recorded. -/
  | suspending (scope : Option String) (actor : User) (targetUserId : String)
  | comparing (scope : Option String) (actor target : User)
  | comparingWith (scope : Option String) (actor target : User) (actorRole : Role)
  | permitted (scope : Option String) (actor target : User)
  | recording (input : CreateAuditEventInput)
  | reactivating (scope : Option String) (user : User)
  /-- `ChangeRoleUser` before `validate`, before `validateForTenant` and before the update. -/
  | changingRole (scope : Option String) (user : User) (roleId : String)
  | validated (scope : Option String) (user : User) (roleId : String)
  | enabled (scope : Option String) (user : User) (roleId : String)
  | editingTenant (tenant : Tenant) (edit : TenantEdit)
  | editingRole (role : Role) (edit : RoleEdit)
  | done
  | failed
  deriving DecidableEq

/-- A use case with its input. -/
inductive Start where
  | suspendUser (scope : Option String) (actorUserId targetUserId : String)
  | reactivateUser (scope : Option String) (id : String)
  | changeRole (scope : Option String) (id roleId : String)
  | editTenant (id : String) (edit : TenantEdit)
  | updateRole (scope : Option String) (id : String) (edit : RoleEdit)
  | write (write : Write)
  deriving DecidableEq

/-- The next access of a run, which may fail. -/
inductive Action where
  | findTarget
  | findActorRole
  | findTargetRole
  | record
  | validate
  | validateForTenant
  | save (now : ℕ)
  | fail
  deriving DecidableEq

/-- The record of a `SuspendUser` without an actor or a target. -/
def notFound (actorUserId targetUserId : String) (actor : Option User) (reason : String) : CreateAuditEventInput :=
  { action := "USER_SUSPENDED", resource := "USER", resourceId := some targetUserId, userId := some actorUserId,
    userEmail := actor.map (·.email), tenantId := actor.map (·.tenantId), status := .failed,
    metadata := [("targetUserId", targetUserId), ("reason", reason)] }

/-- The record `recordWithFn` makes. -/
def suspension (actor target : User) (status : AuditStatus) : CreateAuditEventInput :=
  { action := "USER_SUSPENDED", resource := "USER", resourceId := some target.id, userId := some actor.id,
    userEmail := some actor.email, tenantId := some actor.tenantId, status,
    metadata := [("actorRoleId", actor.roleId), ("targetUserId", target.id), ("targetRoleId", target.roleId)] }

/-- One more call of the audit. -/
def record (w : World) (input : CreateAuditEventInput) : World := { w with audits := input :: w.audits }

/-- A run up to its first access. -/
def start (w : World) : Start → Option (World × Proc)
  | .suspendUser scope actorUserId targetUserId =>
    match UserRepository.get w.db scope actorUserId with
    | none => some (record w (notFound actorUserId targetUserId none "actor_not_found"), .failed)
    | some actor => some (w, .suspending scope actor targetUserId)
  | .reactivateUser scope id => (UserRepository.get w.db scope id).map fun user => (w, .reactivating scope user)
  | .changeRole scope id roleId =>
    (UserRepository.get w.db scope id).map fun user => (w, .changingRole scope user roleId)
  | .editTenant id edit => (TenantRepository.get w.db id).map fun tenant => (w, .editingTenant tenant edit)
  | .updateRole scope id edit => (findRole w scope id).map fun role => (w, .editingRole role edit)
  | .write write => (write.run w).map fun w => (w, .done)

/-- The next access of a run, and what the code computes after it. -/
def act (_ : List Proc) (w : World) : Proc → Action → Option (World × Proc)
  | .suspending scope actor targetUserId, .findTarget =>
    match UserRepository.get w.db scope targetUserId with
    | none => some (record w (notFound actor.id targetUserId (some actor) "target_not_found"), .failed)
    | some target => some (w, .comparing scope actor target)
  | .comparing scope actor target, .findActorRole =>
    match findRole w scope actor.roleId with
    | none => some (w, .recording (suspension actor target .failed))
    | some actorRole => some (w, .comparingWith scope actor target actorRole)
  | .comparingWith scope actor target actorRole, .findTargetRole =>
    match findRole w scope target.roleId with
    | none => some (w, .recording (suspension actor target .failed))
    | some targetRole =>
      if UserSuspensionPolicy.canSuspend actorRole.code targetRole.code then some (w, .permitted scope actor target)
      else some (w, .recording (suspension actor target .failed))
  | .permitted scope actor target, .save now =>
    match saveUser w scope target .suspend now with
    | some w => some (w, .recording (suspension actor target .success))
    | none => some (w, .recording (suspension actor target .failed))
  | .recording input, .record => some (record w input, if input.status = .success then .done else .failed)
  | .reactivating scope user, .save now => (saveUser w scope user .reactivate now).map fun w => (w, .done)
  | .changingRole scope user roleId, .validate =>
    (findRole w scope roleId).map fun _ => (w, .validated scope user roleId)
  | .validated scope user roleId, .validateForTenant =>
    if (AuthorizationRoleApi.validateForTenant roleId user.tenantId w.db).1.isOk then
      some (w, .enabled scope user roleId)
    else none
  | .enabled scope user roleId, .save now => (saveUser w scope user (.changeRole roleId) now).map fun w => (w, .done)
  | .editingTenant tenant edit, .save now => (saveTenant w tenant edit now).map fun w => (w, .done)
  | .editingRole role edit, .save now => (saveRole w role edit now).map fun w => (w, .done)
  | .comparing _ actor target, .fail | .comparingWith _ actor target _, .fail | .permitted _ actor target, .fail =>
    some (w, .recording (suspension actor target .failed))
  | .recording _, .fail | .done, .fail | .failed, .fail => none
  | _, .fail => some (w, .failed)
  | _, _ => none

/-- A step of the system. -/
abbrev Label := Interleaving.Label Start Action

/-- The world and the runs. -/
abbrev System := Interleaving.State World Proc

/-- The runs interleaved. -/
abbrev step : System → Label → Option System := Interleaving.step start act

end Neltrik.Identity
