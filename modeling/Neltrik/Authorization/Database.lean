import Neltrik.Authorization.Domain
import Neltrik.Lib.Effect
import Neltrik.Lib.OptimisticLock

/-! # The tables and the repositories

The tables of the entities with what the migrations declare of them: primary keys, unique columns and
foreign keys. `users.role_id` and `invitations.role_id` are not foreign keys.

`scope` is the tenant of the request, `none` for a platform admin and outside of a request. The tenant client
filters the users by it, and its queries for roles and permissions throw within one (`tenantless`). -/

namespace Neltrik.Authorization

open Neltrik.Lib

/-- A row of `role_permissions`. -/
structure RolePermission where
  roleId : String
  permissionId : String
  deriving DecidableEq

/-- A row of `role_tenants`. -/
structure RoleTenant where
  roleId : String
  tenantId : String
  deriving DecidableEq

/-- The tables that the use cases of the module and of its neighbours read and write. -/
structure Db where
  tenants : List Tenant
  roles : List Role
  permissions : List Permission
  rolePermissions : List RolePermission
  roleTenants : List RoleTenant
  invitations : List Invitation
  users : List User
  accounts : List AuthenticationAccount

/-- A use case, or one of its calls: it returns or throws, and may write first. -/
abbrev UseCase := Effect Db AccessError

/-- `TransactionManager.execute`. -/
def transaction {α : Type} (operation : UseCase α) : UseCase α :=
  Effect.atomically (fun before _ => before) operation

/-- `createMany` with `skipDuplicates`. -/
def insertMissing {α : Type} [DecidableEq α] (rows new : List α) : List α :=
  rows ++ new.filter fun row => !rows.contains row

theorem mem_insertMissing {α : Type} [DecidableEq α] {rows new : List α} {a : α}
    (ha : a ∈ insertMissing rows new) : a ∈ rows ∨ a ∈ new :=
  (List.mem_append.mp ha).imp_right fun h => (List.mem_filter.mp h).1

/-- A row, or an error when there is none. -/
def orElse {α : Type} (row : Option α) (e : AccessError) : UseCase α :=
  match row with
  | some a => return a
  | none => Effect.throw e

/-- A query of the tenant client for roles or permissions. `TENANT_MODELS` names both, and neither has a tenant: in
the scope of one the query has a condition on a column that is not there, and throws. -/
def tenantless {α : Type} (scope : Option String) (rows : α) : Except AccessError α :=
  if scope.isSome then .error .clientValidation else .ok rows

theorem tenantless_eq_ok {α : Type} {scope : Option String} {rows a : α} :
    tenantless scope rows = .ok a ↔ scope = none ∧ rows = a := by
  cases scope <;> simp [tenantless]

namespace TenantRepository

/-- `findUnique` by the id; tenants are in no scope. -/
def get (db : Db) (id : String) : Option Tenant := db.tenants.find? (·.id == id)

/-- `create`, with the primary key and the unique `slug`. -/
def create (tenant : Tenant) : UseCase Unit :=
  Effect.change fun db =>
    if db.tenants.any fun t => t.id == tenant.id || t.slug == tenant.slug then .error .uniqueViolation
    else .ok { db with tenants := tenant :: db.tenants }

/-- The row an update writes. -/
def bump (tenant : Tenant) : Tenant := { tenant with version := tenant.version + 1 }

/-- `updateMany` of the version that has been read. -/
def update (tenant : Tenant) : UseCase Unit :=
  Effect.change fun db =>
    if db.tenants.any (OptimisticLock.matching (·.id) (·.version) tenant) then
      .ok { db with
        tenants := OptimisticLock.write (·.id) (·.version) db.tenants tenant (bump tenant) }
    else .error .optimisticLock

end TenantRepository

namespace RoleRepository

/-- The row of an id, as a relation or a foreign key finds it. -/
def row (db : Db) (id : String) : Option Role := db.roles.find? (·.id == id)

/-- `findUnique` by the id. -/
def get (db : Db) (scope : Option String) (id : String) : Except AccessError (Option Role) :=
  tenantless scope (row db id)

/-- `findMany` with `id: { in: ids }`. -/
def getByIds (db : Db) (scope : Option String) (ids : List String) : Except AccessError (List Role) :=
  tenantless scope (db.roles.filter fun r => ids.contains r.id)

/-- `findUnique` by the code. -/
def existsByCode (db : Db) (scope : Option String) (code : String) : Except AccessError Bool :=
  tenantless scope (db.roles.any (·.code == code))

/-- `create`, which the client leaves as it is, with the primary key and the unique `code`. -/
def create (role : Role) : UseCase Unit :=
  Effect.change fun db =>
    if db.roles.any fun r => r.id == role.id || r.code == role.code then .error .uniqueViolation
    else .ok { db with roles := role :: db.roles }

/-- The row an update writes; the ids of the permissions are not a column. -/
def bump (role : Role) : Role := { role with permissionIds := [], version := role.version + 1 }

/-- `updateMany` of the version that has been read; within a scope the read has thrown before. -/
def update (role : Role) : UseCase Unit :=
  Effect.change fun db =>
    if db.roles.any (OptimisticLock.matching (·.id) (·.version) role) then
      .ok { db with roles := OptimisticLock.write (·.id) (·.version) db.roles role (bump role) }
    else .error .optimisticLock

/-- `createMany` with `skipDuplicates`, and the foreign keys. -/
def assignPermissions (roleId : String) (permissionIds : List String) : UseCase Unit :=
  Effect.change fun db =>
    if db.roles.any (·.id == roleId) && permissionIds.all fun id => db.permissions.any (·.id == id) then
      .ok { db with
        rolePermissions := insertMissing db.rolePermissions (permissionIds.map fun id => ⟨roleId, id⟩) }
    else .error .foreignKeyViolation

/-- `deleteMany`, which may find nothing. -/
def removePermissions (roleId : String) (permissionIds : List String) : UseCase Unit :=
  Effect.change fun db => .ok
    { db with
      rolePermissions := db.rolePermissions.filter fun rp =>
        !(rp.roleId == roleId && permissionIds.contains rp.permissionId) }

end RoleRepository

namespace PermissionRepository

/-- The row of an id, as a relation finds it. -/
def row (db : Db) (id : String) : Option Permission := db.permissions.find? (·.id == id)

/-- `findUnique` by the id. -/
def get (db : Db) (scope : Option String) (id : String) : Except AccessError (Option Permission) :=
  tenantless scope (row db id)

/-- `findMany` with `id: { in: ids }`. -/
def getByIds (db : Db) (scope : Option String) (ids : List String) : Except AccessError (List Permission) :=
  tenantless scope (db.permissions.filter fun p => ids.contains p.id)

/-- `findUnique` by the code. -/
def existsByCode (db : Db) (scope : Option String) (code : String) : Except AccessError Bool :=
  tenantless scope (db.permissions.any (·.code == code))

/-- `create`, which the client leaves as it is, with the primary key and the unique `code`. -/
def create (permission : Permission) : UseCase Unit :=
  Effect.change fun db =>
    if db.permissions.any fun p => p.id == permission.id || p.code == permission.code then
      .error .uniqueViolation
    else .ok { db with permissions := permission :: db.permissions }

/-- `update` by the id; within a scope the read has thrown before. -/
def update (permission : Permission) : UseCase Unit :=
  Effect.change fun db =>
    if db.permissions.any (·.id == permission.id) then
      .ok { db with
        permissions := Table.updateWhere (·.id == permission.id) (fun _ => permission) db.permissions }
    else .error .recordNotFound

end PermissionRepository

namespace RoleTenantRepository

/-- `createMany` with `skipDuplicates`, and the foreign keys. -/
def associateRoles (roleIds : List String) (tenantId : String) : UseCase Unit :=
  Effect.change fun db =>
    if db.tenants.any (·.id == tenantId) && roleIds.all fun id => db.roles.any (·.id == id) then
      .ok { db with
        roleTenants := insertMissing db.roleTenants (roleIds.map fun id => ⟨id, tenantId⟩) }
    else .error .foreignKeyViolation

/-- `deleteMany`, which may find nothing. -/
def disassociateRoles (roleIds : List String) (tenantId : String) : UseCase Unit :=
  Effect.change fun db => .ok
    { db with
      roleTenants := db.roleTenants.filter fun rt =>
        !(roleIds.contains rt.roleId && rt.tenantId == tenantId) }

/-- The query is for `role_tenants`, which are in no scope, and includes the roles. -/
def getRolesByTenant (db : Db) (tenantId : String) : List Role :=
  (db.roleTenants.filter (·.tenantId == tenantId)).filterMap fun rt => RoleRepository.row db rt.roleId

end RoleTenantRepository

namespace InvitationRepository

/-- `create`, with the primary key, the unique `token` and the foreign key of the tenant. -/
def create (invitation : Invitation) : UseCase Unit :=
  Effect.change fun db =>
    if db.invitations.any fun i => i.id == invitation.id || i.token == invitation.token then
      .error .uniqueViolation
    else if db.tenants.any (·.id == invitation.tenantId) then
      .ok { db with invitations := invitation :: db.invitations }
    else .error .foreignKeyViolation

/-- `update` by the id. -/
def update (invitation : Invitation) : UseCase Unit :=
  Effect.change fun db =>
    if db.invitations.any (·.id == invitation.id) then
      .ok { db with
        invitations := Table.updateWhere (·.id == invitation.id) (fun _ => invitation) db.invitations }
    else .error .recordNotFound

/-- The condition that the tenant client adds. -/
def inScope (scope : Option String) (i : Invitation) : Bool := scope.all (· == i.tenantId)

/-- `findUnique` by the token, in the scope; the entity it restores may be past its date. -/
def getByToken (db : Db) (scope : Option String) (token : String) (now : ℕ) : Option Invitation :=
  (db.invitations.find? fun i => i.token == token && inScope scope i).map (·.restore now)

/-- `findFirst` by the stored status, which nothing sets to `EXPIRED`. -/
def findPendingByTenantAndRecipient (db : Db) (tenantId recipient : String) (now : ℕ) :
    Option Invitation :=
  (db.invitations.find? fun i => i.tenantId == tenantId && i.recipient == recipient &&
    i.status == .pending).map (·.restore now)

end InvitationRepository

namespace UserRepository

/-- The condition that the tenant client adds. -/
def inScope (scope : Option String) (u : User) : Bool := scope.all (· == u.tenantId)

/-- `findUnique` by the id, in the scope. -/
def get (db : Db) (scope : Option String) (id : String) : Option User :=
  db.users.find? fun u => u.id == id && inScope scope u

/-- `findUnique` by the email, which registrations ask for outside of any scope. -/
def existsByEmail (db : Db) (email : String) : Bool := db.users.any (·.email == email)

/-- `create`, with the primary key, the unique `email` and the foreign key of the tenant. -/
def create (user : User) : UseCase Unit :=
  Effect.change fun db =>
    if db.users.any fun u => u.id == user.id || u.email == user.email then .error .uniqueViolation
    else if db.tenants.any (·.id == user.tenantId) then .ok { db with users := user :: db.users }
    else .error .foreignKeyViolation

/-- The row an update writes. -/
def bump (user : User) : User := { user with version := user.version + 1 }

/-- `updateMany` of the version that has been read, in the scope. -/
def update (scope : Option String) (user : User) : UseCase Unit :=
  Effect.change fun db =>
    if db.users.any fun u => OptimisticLock.matching (·.id) (·.version) user u && inScope scope u then
      .ok { db with
        users := Table.updateWhere
          (fun u => OptimisticLock.matching (·.id) (·.version) user u && inScope scope u)
          (fun _ => bump user) db.users }
    else .error .optimisticLock

/-- `delete` by the id. -/
def delete (id : String) : UseCase Unit :=
  Effect.change fun db =>
    if db.users.any (·.id == id) then .ok { db with users := db.users.filter (·.id != id) }
    else .error .recordNotFound

end UserRepository

namespace AuthenticationAccountRepository

/-- `create`, with the primary key and the unique `userId`. -/
def create (account : AuthenticationAccount) : UseCase Unit :=
  Effect.change fun db =>
    if db.accounts.any fun a => a.id == account.id || a.userId == account.userId then
      .error .uniqueViolation
    else .ok { db with accounts := account :: db.accounts }

/-- `delete` by the id. -/
def delete (id : String) : UseCase Unit :=
  Effect.change fun db =>
    if db.accounts.any (·.id == id) then .ok { db with accounts := db.accounts.filter (·.id != id) }
    else .error .recordNotFound

end AuthenticationAccountRepository

end Neltrik.Authorization
