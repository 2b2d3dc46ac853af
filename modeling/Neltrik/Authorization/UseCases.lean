import Neltrik.Authorization.Database
import Neltrik.Shared.Saga

/-! # The use cases that give rights

Roles, permissions, tenants, the links between them, invitations, registrations and the change of a
user's role, each as the sequence of its calls. New ids, the clock, the slug generator and what the
provider makes of the credentials are arguments.

`scope` is the tenant of the request. The use cases that ask for roles or permissions throw within one.
Registrations come by a public route, so there is none for them. -/

namespace Neltrik.Authorization

open Neltrik.Lib Neltrik.Shared

/-! ## The APIs of other modules -/

namespace TenantApi

/-- `GetTenantOhsUseCase.execute`. -/
def getById (id : String) : UseCase Tenant := do
  orElse (TenantRepository.get (← Effect.read) id) .tenantNotFound

/-- The tenant has to be there. -/
def validate (id : String) : UseCase Unit := do
  let _ ← getById id
  return ()

/-- It throws when the tenant is not there. -/
def isPlatformTenant (id : String) : UseCase Bool := do
  let tenant ← getById id
  return tenant.type == .platform

end TenantApi

namespace AuthorizationRoleApi

/-- `GetRoleOhsUseCase.execute`. -/
def validate (scope : Option String) (id : String) : UseCase Unit := do
  let role ← Effect.lift (RoleRepository.get (← Effect.read) scope id)
  let _ ← orElse role .roleNotFound
  return ()

/-- `CanAssignRoleToTenantOhsUseCase.execute`. -/
def validateForTenant (roleId tenantId : String) : UseCase Unit := do
  let roles := RoleTenantRepository.getRolesByTenant (← Effect.read) tenantId
  if roles.any (·.id == roleId) then return ()
  else Effect.throw .roleNotEnabledForTenant

end AuthorizationRoleApi

/-! ## Roles and permissions -/

/-- `CreateRoleUseCase.execute`. -/
def CreateRole.execute (tenantScope : Option String) (id code defaultDisplayName description : String)
    (scope : RoleScope) (now : ℕ) : UseCase Unit := do
  let taken ← Effect.lift (RoleRepository.existsByCode (← Effect.read) tenantScope code)
  if taken then Effect.throw .codeAlreadyExists
  else
    let role ← Effect.lift (Role.create
      { id, code, defaultDisplayName, description, permissionIds := [], scope, version := 0,
        createdAt := now, updatedAt := now })
    RoleRepository.create role

/-- `UpdateRoleUseCase.execute`. -/
def UpdateRole.execute (tenantScope : Option String) (id : String) (defaultDisplayName description : Option String)
    (now : ℕ) : UseCase Unit := do
  let role ← Effect.lift (RoleRepository.get (← Effect.read) tenantScope id)
  let role ← orElse role .roleNotFound
  let role ← Effect.lift (role.update defaultDisplayName description now)
  RoleRepository.update role

/-- `CreatePermissionUseCase.execute`. -/
def CreatePermission.execute (tenantScope : Option String) (id code description : String) (scope : PermissionScope)
    (now : ℕ) : UseCase Unit := do
  let taken ← Effect.lift (PermissionRepository.existsByCode (← Effect.read) tenantScope code)
  if taken then Effect.throw .codeAlreadyExists
  else
    let permission ← Effect.lift (Permission.create
      { id, code, description, scope, createdAt := now, updatedAt := now })
    PermissionRepository.create permission

/-- `UpdatePermissionUseCase.execute`. -/
def UpdatePermission.execute (tenantScope : Option String) (id : String) (description : Option String) (now : ℕ) :
    UseCase Unit := do
  let permission ← Effect.lift (PermissionRepository.get (← Effect.read) tenantScope id)
  let permission ← orElse permission .permissionNotFound
  let permission ← Effect.lift (permission.update description now)
  PermissionRepository.update permission

/-- A permission of the platform in a role that is not. -/
def hasIncompatibleScope (role : Role) (permissions : List Permission) : Bool :=
  permissions.any fun permission => permission.scope == .platform && role.scope != .platform

/-- `AssignPermissionsToRoleUseCase.execute`. -/
def AssignPermissionsToRole.execute (tenantScope : Option String) (roleId : String) (permissionIds : List String) :
    UseCase Unit :=
  let permissionIds := permissionIds.eraseDups
  transaction do
    let role ← Effect.lift (RoleRepository.get (← Effect.read) tenantScope roleId)
    let role ← orElse role .roleNotFound
    let permissions ← Effect.lift (PermissionRepository.getByIds (← Effect.read) tenantScope permissionIds)
    if permissions.length ≠ permissionIds.length then Effect.throw .permissionNotFound
    else if hasIncompatibleScope role permissions then Effect.throw .incompatiblePermissionScope
    else RoleRepository.assignPermissions roleId permissionIds

/-- `RemovePermissionsFromRoleUseCase.execute`. -/
def RemovePermissionsFromRole.execute (tenantScope : Option String) (roleId : String) (permissionIds : List String) :
    UseCase Unit :=
  let permissionIds := permissionIds.eraseDups
  transaction do
    let role ← Effect.lift (RoleRepository.get (← Effect.read) tenantScope roleId)
    let _ ← orElse role .roleNotFound
    let permissions ← Effect.lift (PermissionRepository.getByIds (← Effect.read) tenantScope permissionIds)
    if permissions.length ≠ permissionIds.length then Effect.throw .permissionNotFound
    else RoleRepository.removePermissions roleId permissionIds

/-! ## Roles of a tenant -/

/-- `AssociateRolesToTenantUseCase.execute`. -/
def AssociateRolesToTenant.execute (tenantScope : Option String) (actorTenantId targetTenantId : String)
    (roleIds : List String) : UseCase Unit :=
  let roleIds := roleIds.eraseDups
  transaction do
    let isPlatformActor ← TenantApi.isPlatformTenant actorTenantId
    if isPlatformActor = false then Effect.throw .cannotManageRoleTenant
    else
      TenantApi.validate targetTenantId
      let roles ← Effect.lift (RoleRepository.getByIds (← Effect.read) tenantScope roleIds)
      if roles.length ≠ roleIds.length then Effect.throw .roleNotFound
      else
        let isPlatformTenant ← TenantApi.isPlatformTenant targetTenantId
        if roles.any fun role => role.scope == .platform && !isPlatformTenant then
          Effect.throw .invalidRoleScope
        else RoleTenantRepository.associateRoles roleIds targetTenantId

/-- `DisassociateRolesFromTenantUseCase.execute`; it asks for no role. -/
def DisassociateRolesFromTenant.execute (actorTenantId targetTenantId : String)
    (roleIds : List String) : UseCase Unit :=
  let roleIds := roleIds.eraseDups
  transaction do
    let isPlatformActor ← TenantApi.isPlatformTenant actorTenantId
    if isPlatformActor = false then Effect.throw .cannotManageRoleTenant
    else
      TenantApi.validate targetTenantId
      RoleTenantRepository.disassociateRoles roleIds targetTenantId

/-! ## Tenants -/

/-- `CreateTenantUseCase.execute`. -/
def CreateTenant.execute (slugGenerator : String → String → String) (id name : String)
    (type : TenantType) (now : ℕ) : UseCase Unit := do
  let tenant ← Effect.lift (Tenant.create
    { id, name, slug := slugGenerator name id, type, status := .active, version := 0, createdAt := now,
      updatedAt := now, suspendedAt := none })
  TenantRepository.create tenant

/-- `UpdateTenantUseCase.execute`. -/
def UpdateTenant.execute (id name : String) (now : ℕ) : UseCase Unit := do
  let tenant ← TenantApi.getById id
  let tenant ← Effect.lift (tenant.update name now)
  TenantRepository.update tenant

/-- `SuspendTenantUseCase.execute`. -/
def SuspendTenant.execute (id : String) (now : ℕ) : UseCase Unit := do
  let tenant ← TenantApi.getById id
  let tenant ← Effect.lift (tenant.suspend now)
  TenantRepository.update tenant

/-- `ReactivateTenantUseCase.execute`. -/
def ReactivateTenant.execute (id : String) (now : ℕ) : UseCase Unit := do
  let tenant ← TenantApi.getById id
  let tenant ← Effect.lift (tenant.reactivate now)
  TenantRepository.update tenant

/-! ## Invitations -/

/-- `calculateExpirationDate`: seven days. -/
def calculateExpirationDate (now : ℕ) : ℕ := now + 7 * 24 * 60 * 60 * 1000

/-- What the request asks for; the tenant is that of the actor. -/
structure CreateInvitationInput where
  tenantId : String
  roleId : String
  recipient : String
  mechanism : String

namespace CreateInvitation

/-- The new invitation, when its texts are in order. -/
def build (input : CreateInvitationInput) (id newToken : String) (now : ℕ) :
    Except AccessError Invitation := do
  let recipient ← Recipient.create input.recipient
  let token ← Token.create newToken
  let expirationDate ← ExpirationDate.create (calculateExpirationDate now) now
  return { id, tenantId := input.tenantId, roleId := input.roleId, recipient, token, expirationDate,
           mechanism := input.mechanism, status := .pending, usedAt := none, revokedAt := none,
           createdAt := now, updatedAt := now }

/-- The delivery of the link comes last and writes nothing. -/
def execute (input : CreateInvitationInput) (id newToken : String) (now : ℕ) : UseCase Unit := do
  if input.tenantId = "" then Effect.throw .unauthorized
  else
    TenantApi.validate input.tenantId
    AuthorizationRoleApi.validateForTenant input.roleId input.tenantId
    if input.mechanism ≠ "manual" then Effect.throw .unsupportedDeliveryMechanism
    else if (InvitationRepository.findPendingByTenantAndRecipient (← Effect.read) input.tenantId
        input.recipient now).isSome then Effect.throw .invitationAlreadyExists
    else
      let invitation ← Effect.lift (build input id newToken now)
      InvitationRepository.create invitation

end CreateInvitation

/-- `RevokeInvitationUseCase.execute`. -/
def RevokeInvitation.execute (scope : Option String) (token : String) (now : ℕ) : UseCase Unit := do
  let invitation ← orElse (InvitationRepository.getByToken (← Effect.read) scope token now) .invitationNotFound
  if invitation.isUsed then Effect.throw .invitationAlreadyUsed
  else if invitation.isRevoked then Effect.throw .invitationAlreadyRevoked
  else if invitation.isExpired now then Effect.throw .invitationExpired
  else
    let invitation ← Effect.lift (invitation.revoke now)
    InvitationRepository.update invitation

namespace InvitationApi

/-- `ValidateInvitationOhsUseCase.execute`. -/
def validate (token : String) (now : ℕ) : UseCase Invitation := do
  let invitation ← orElse (InvitationRepository.getByToken (← Effect.read) none token now) .invitationNotFound
  if invitation.isRevoked then Effect.throw .invitationAlreadyRevoked
  else if invitation.isExpired now then Effect.throw .invitationExpired
  else if invitation.isPending = false then Effect.throw .invitationAlreadyUsed
  else return invitation

/-- `ConsumeInvitationOhsUseCase.execute`. -/
def consume (token : String) (now : ℕ) : UseCase Unit := do
  let invitation ← orElse (InvitationRepository.getByToken (← Effect.read) none token now) .invitationNotFound
  if invitation.isUsed then Effect.throw .invitationAlreadyUsed
  else if invitation.isRevoked then Effect.throw .invitationAlreadyRevoked
  else if invitation.isExpired now then Effect.throw .invitationExpired
  else
    let invitation ← Effect.lift (invitation.use now)
    InvitationRepository.update invitation

end InvitationApi

/-! ## Users -/

namespace UserApi

/-- `RegisterUserOhsUseCase.execute`. -/
def create (id firstName lastName email tenantId roleId : String) (now : ℕ) : UseCase Unit := do
  let email ← Effect.lift (Email.create email)
  if UserRepository.existsByEmail (← Effect.read) email then Effect.throw .emailAlreadyExists
  else
    let user ← Effect.lift (User.create
      { id, firstName, lastName, email, tenantId, roleId, status := .active, version := 0,
        createdAt := now, updatedAt := now, suspendedAt := none })
    UserRepository.create user

/-- `DeleteUserOhsUseCase.execute`. -/
def delete (id : String) : UseCase Unit := do
  let user ← orElse (UserRepository.get (← Effect.read) none id) .userNotFound
  UserRepository.delete user.id

end UserApi

/-- `ChangeRoleUserUseCase.execute`. -/
def ChangeRoleUser.execute (scope : Option String) (id roleId : String) (now : ℕ) : UseCase Unit := do
  let user ← orElse (UserRepository.get (← Effect.read) scope id) .userNotFound
  AuthorizationRoleApi.validate scope roleId
  AuthorizationRoleApi.validateForTenant roleId user.tenantId
  UserRepository.update scope (user.update roleId now)

/-! ## Registration -/

/-- The request but for the credentials, which only the provider reads. -/
structure RegisterInput where
  invitationToken : String
  email : String
  firstName : String
  lastName : String
  provider : String

/-- What the steps leave for their compensations. -/
structure RegisterSagaContext where
  userId : Option String
  id : Option String
  deriving DecidableEq

namespace Register

/-- A step of the saga, or a compensation. -/
abbrev Step := Effect (Db × RegisterSagaContext) AccessError Unit

/-- A call that leaves the context as it is. -/
def call (m : UseCase Unit) : Step := fun s => ((m s.1).1, (m s.1).2, s.2)

/-- A write of the context. -/
def setContext (g : RegisterSagaContext → RegisterSagaContext) : Step :=
  Effect.change fun s => .ok (s.1, g s.2)

/-- The compensation with the id that a step has left in the context. -/
def compensateWith (field : RegisterSagaContext → Option String) (m : String → UseCase Unit) : Step :=
  fun s => match field s.2 with
    | some id => call (m id) s
    | none => (.ok (), s)

/-- The account of the new user, with the hash the provider has made. -/
def account (input : RegisterInput) (id : String) (userId : String) (passwordHash : Option String)
    (now : ℕ) : Except AccessError AuthenticationAccount := do
  let passwordHash ← match passwordHash with
    | none => pure none
    | some value => some <$> PasswordHash.create value
  AuthenticationAccount.create
    { id, userId, provider := input.provider, email := input.email, emailVerified := false,
      passwordHash, createdAt := now, updatedAt := now }

/-- `UserApi.create`, whose id goes into the context. -/
def createUser (input : RegisterInput) (invitation : Invitation) (userId : String) (now : ℕ) : Step := do
  call (UserApi.create userId input.firstName input.lastName input.email invitation.tenantId
    invitation.roleId now)
  setContext fun context => { context with userId := some userId }

/-- The provider's part, and the account, whose id goes into the context. -/
def createAccount (registered : Except AccessError (Option String)) (input : RegisterInput)
    (userId accountId : String) (now : ℕ) : Step := do
  let passwordHash ← Effect.lift registered
  let account ← Effect.lift (account input accountId userId passwordHash now)
  call (AuthenticationAccountRepository.create account)
  setContext fun context => { context with id := some accountId }

/-- User, account, invitation; the last one cannot be taken back. -/
def steps (registered : Except AccessError (Option String)) (input : RegisterInput)
    (invitation : Invitation) (userId accountId : String) (now : ℕ) :
    List (SagaStep (Db × RegisterSagaContext) AccessError) :=
  [ { execute := createUser input invitation userId now
      compensate := some (compensateWith (·.userId) UserApi.delete) },
    { execute := createAccount registered input userId accountId now
      compensate := some (compensateWith (·.id) AuthenticationAccountRepository.delete) },
    { execute := call (InvitationApi.consume input.invitationToken now)
      compensate := none } ]

/-- The saga on a fresh context. -/
def runSaga (steps : List (SagaStep (Db × RegisterSagaContext) AccessError)) : UseCase Unit := fun db =>
  let r := SagaOrchestrator.execute steps (db, ⟨none, none⟩)
  (r.1, r.2.1)

/-- `registered` is what `strategy.register(input.credentials)` returns or throws. -/
def execute (registered : Except AccessError (Option String)) (input : RegisterInput)
    (userId accountId : String) (now : ℕ) : UseCase Unit := do
  let invitation ← InvitationApi.validate input.invitationToken now
  if input.email ≠ invitation.recipient then Effect.throw .emailMismatch
  else if input.provider ≠ "email-password" then Effect.throw .unsupportedProvider
  else runSaga (steps registered input invitation userId accountId now)

end Register

end Neltrik.Authorization
