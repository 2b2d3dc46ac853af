import Neltrik.Shared.Text
import Mathlib.Data.Nat.Notation
import Mathlib.Tactic.SplitIfs

/-! # Roles, permissions, tenants, invitations and users

The entities a right depends on, from the modules `authorization`, `tenant` and `identity`, and the
account that a registration adds. Each entity carries what its private constructor checks; `now` is
the instant `new Date()` returns, in milliseconds. -/

namespace Neltrik.Authorization

open Neltrik.Shared

/-- The errors of these modules, by the class the source throws. -/
inductive AccessError where
  | invalidRoleCode | invalidRoleDisplayName | invalidRoleDescription
  | invalidPermissionCode | invalidPermissionDescription
  | invalidTenantName | invalidTenantSlug | tenantAlreadySuspended | tenantAlreadyActive
  | emptyRecipient | invalidRecipient | emptyToken | invalidTokenFormat | expirationDateInPast
  | invitationAlreadyUsed | invitationAlreadyRevoked | invitationExpired
  | invalidFirstName | invalidLastName | invalidEmail | userAlreadySuspended | userAlreadyActive
  | emptyUserId | emptyProvider | emptyEmail | emptyPasswordHash
  | codeAlreadyExists | roleNotFound | permissionNotFound | incompatiblePermissionScope
  | cannotManageRoleTenant | invalidRoleScope | roleNotEnabledForTenant
  | emptyDisplayName | displayNameTooLong
  | tenantRoleConfigurationAlreadyExists | tenantRoleConfigurationNotFound
  | tenantNotFound | invitationNotFound | invitationAlreadyExists | unsupportedDeliveryMechanism
  | unauthorized | userNotFound | emailAlreadyExists | emailMismatch | unsupportedProvider
  | invalidCredentials
  | optimisticLock | uniqueViolation | foreignKeyViolation | recordNotFound | clientValidation
  deriving DecidableEq, Repr

/-! ## Roles and permissions -/

/-- `ROLE_SCOPE`. -/
inductive RoleScope where
  | platform | tenant
  deriving DecidableEq, Repr

/-- `PERMISSION_SCOPE`. -/
inductive PermissionScope where
  | platform | tenant
  deriving DecidableEq, Repr

/-- The fields of a role. `permissionIds` is no column: the permissions are in `role_permissions`. -/
structure RoleProps where
  id : String
  code : String
  defaultDisplayName : String
  description : String
  permissionIds : List String
  scope : RoleScope
  version : ℕ
  createdAt : ℕ
  updatedAt : ℕ
  deriving DecidableEq

/-- A role, whose texts are not blank. -/
structure Role extends RoleProps where
  code_ne : isBlank code = false
  displayName_ne : isBlank defaultDisplayName = false
  description_ne : isBlank description = false
  deriving DecidableEq

namespace Role

/-- The private constructor, with the errors in the order of its checks. -/
def ofProps (p : RoleProps) : Except AccessError Role :=
  if hc : isBlank p.code = false then
    if hn : isBlank p.defaultDisplayName = false then
      if hd : isBlank p.description = false then .ok ⟨p, hc, hn, hd⟩
      else .error .invalidRoleDescription
    else .error .invalidRoleDisplayName
  else .error .invalidRoleCode

/-- A new role starts at version `0`. -/
def create (p : RoleProps) : Except AccessError Role := ofProps { p with version := 0 }

/-- `update`: the texts that are given. -/
def update (r : Role) (defaultDisplayName description : Option String) (now : ℕ) :
    Except AccessError Role :=
  ofProps
    { r.toRoleProps with
      defaultDisplayName := defaultDisplayName.getD r.defaultDisplayName
      description := description.getD r.description, updatedAt := now }

/-- The permissions are added, each once. -/
def assignPermissions (r : Role) (permissionIds : List String) : Role :=
  { r with permissionIds := (r.permissionIds ++ permissionIds).eraseDups }

/-- The permissions are taken away; one that is not there is no error. -/
def removePermissions (r : Role) (permissionIds : List String) : Role :=
  { r with permissionIds := r.permissionIds.filter fun id => !permissionIds.contains id }

theorem ofProps_eq_ok {p : RoleProps} {r : Role} (h : ofProps p = .ok r) : r.toRoleProps = p := by
  unfold ofProps at h
  split_ifs at h
  cases h
  rfl

end Role

/-- The fields of a permission. -/
structure PermissionProps where
  id : String
  code : String
  description : String
  scope : PermissionScope
  createdAt : ℕ
  updatedAt : ℕ
  deriving DecidableEq

/-- A permission, whose texts are not blank. -/
structure Permission extends PermissionProps where
  code_ne : isBlank code = false
  description_ne : isBlank description = false
  deriving DecidableEq

namespace Permission

/-- The checks of the constructor, in their order. -/
def create (p : PermissionProps) : Except AccessError Permission :=
  if hc : isBlank p.code = false then
    if hd : isBlank p.description = false then .ok ⟨p, hc, hd⟩
    else .error .invalidPermissionDescription
  else .error .invalidPermissionCode

/-- The description, if it is given; the code and the scope stay. -/
def update (p : Permission) (description : Option String) (now : ℕ) : Except AccessError Permission :=
  create
    { p.toPermissionProps with description := description.getD p.description, updatedAt := now }

theorem create_eq_ok {p : PermissionProps} {q : Permission} (h : create p = .ok q) :
    q.toPermissionProps = p := by
  unfold create at h
  split_ifs at h
  cases h
  rfl

end Permission

/-! ## Tenants -/

/-- `TENANT_TYPE`. -/
inductive TenantType where
  | platform | customer
  deriving DecidableEq, Repr

/-- `RESOURCE_STATUS`. -/
inductive ResourceStatus where
  | active | suspended
  deriving DecidableEq, Repr

/-- The fields of a tenant. -/
structure TenantProps where
  id : String
  name : String
  slug : String
  type : TenantType
  status : ResourceStatus
  version : ℕ
  createdAt : ℕ
  updatedAt : ℕ
  suspendedAt : Option ℕ
  deriving DecidableEq

/-- A tenant, whose name and slug are not blank. -/
structure Tenant extends TenantProps where
  name_ne : isBlank name = false
  slug_ne : isBlank slug = false
  deriving DecidableEq

namespace Tenant

/-- The private constructor, with the errors in the order of its checks. -/
def ofProps (p : TenantProps) : Except AccessError Tenant :=
  if hn : isBlank p.name = false then
    if hs : isBlank p.slug = false then .ok ⟨p, hn, hs⟩
    else .error .invalidTenantSlug
  else .error .invalidTenantName

/-- A new tenant is active and starts at version `0`. -/
def create (p : TenantProps) : Except AccessError Tenant :=
  ofProps { p with status := .active, version := 0 }

/-- A new name; the slug stays. -/
def update (t : Tenant) (name : String) (now : ℕ) : Except AccessError Tenant :=
  ofProps { t.toTenantProps with name, updatedAt := now }

/-- An active tenant only. -/
def suspend (t : Tenant) (now : ℕ) : Except AccessError Tenant :=
  if t.status = .suspended then .error .tenantAlreadySuspended
  else .ok { t with status := .suspended, suspendedAt := some now, updatedAt := now }

/-- A suspended tenant only, which loses the date of its suspension. -/
def reactivate (t : Tenant) (now : ℕ) : Except AccessError Tenant :=
  if t.status = .active then .error .tenantAlreadyActive
  else .ok { t with status := .active, suspendedAt := none, updatedAt := now }

theorem ofProps_eq_ok {p : TenantProps} {t : Tenant} (h : ofProps p = .ok t) : t.toTenantProps = p := by
  unfold ofProps at h
  split_ifs at h
  cases h
  rfl

end Tenant

/-! ## Invitations -/

/-- `INVITATION_STATUS`. -/
inductive InvitationStatus where
  | pending | used | revoked | expired
  deriving DecidableEq, Repr

/-- An email or a phone number, without the spaces around it. -/
def Recipient.create (value : String) : Except AccessError String :=
  let normalizedValue := trim value
  if normalizedValue = "" then .error .emptyRecipient
  else if isEmail normalizedValue || isPhone normalizedValue then .ok normalizedValue
  else .error .invalidRecipient

/-- A UUID, without the spaces around it. -/
def Token.create (value : String) : Except AccessError String :=
  let normalizedValue := trim value
  if normalizedValue = "" then .error .emptyToken
  else if isUuid normalizedValue then .ok normalizedValue
  else .error .invalidTokenFormat

/-- A date that is still to come. -/
def ExpirationDate.create (value now : ℕ) : Except AccessError ℕ :=
  if value ≤ now then .error .expirationDateInPast else .ok value

/-- The fields of an invitation, as its value objects have made them. -/
structure Invitation where
  id : String
  tenantId : String
  roleId : String
  recipient : String
  token : String
  expirationDate : ℕ
  mechanism : String
  status : InvitationStatus
  usedAt : Option ℕ
  revokedAt : Option ℕ
  createdAt : ℕ
  updatedAt : ℕ
  deriving DecidableEq

namespace Invitation

/-- By the status alone. -/
def isPending (i : Invitation) : Bool := i.status == .pending

/-- By the status alone. -/
def isUsed (i : Invitation) : Bool := i.status == .used

/-- By the status alone. -/
def isRevoked (i : Invitation) : Bool := i.status == .revoked

/-- By the date alone. -/
def isExpired (i : Invitation) (now : ℕ) : Bool := i.expirationDate ≤ now

/-- The constructor: a `PENDING` invitation that is past its date is `EXPIRED`. -/
def restore (i : Invitation) (now : ℕ) : Invitation :=
  if i.isExpired now && i.isPending then { i with status := .expired } else i

/-- An `EXPIRED` invitation passes; the check of the date comes after. -/
def ensureIsPending (i : Invitation) : Except AccessError Unit :=
  if i.isPending then .ok ()
  else if i.isUsed then .error .invitationAlreadyUsed
  else if i.isRevoked then .error .invitationAlreadyRevoked
  else .ok ()

/-- The check of the date. -/
def ensureIsNotExpired (i : Invitation) (now : ℕ) : Except AccessError Unit :=
  if i.isExpired now then .error .invitationExpired else .ok ()

/-- From `PENDING` to `USED`, before the date. -/
def use (i : Invitation) (now : ℕ) : Except AccessError Invitation := do
  i.ensureIsPending
  i.ensureIsNotExpired now
  return { i with status := .used, usedAt := some now, updatedAt := now }

/-- From `PENDING` to `REVOKED`, before the date. -/
def revoke (i : Invitation) (now : ℕ) : Except AccessError Invitation := do
  i.ensureIsPending
  i.ensureIsNotExpired now
  if i.isRevoked then throw .invitationAlreadyRevoked
  return { i with status := .revoked, revokedAt := some now, updatedAt := now }

end Invitation

/-! ## Users and accounts -/

/-- In lower case and without the spaces around it. -/
def Email.create (value : String) : Except AccessError String :=
  let normalizedValue := (trim value).toLower
  if isEmail normalizedValue then .ok normalizedValue else .error .invalidEmail

/-- The fields of a user. -/
structure UserProps where
  id : String
  firstName : String
  lastName : String
  email : String
  tenantId : String
  roleId : String
  status : ResourceStatus
  version : ℕ
  createdAt : ℕ
  updatedAt : ℕ
  suspendedAt : Option ℕ
  deriving DecidableEq

/-- A user, whose names are not blank. -/
structure User extends UserProps where
  firstName_ne : isBlank firstName = false
  lastName_ne : isBlank lastName = false
  deriving DecidableEq

namespace User

/-- A new user is active and starts at version `0`. -/
def create (p : UserProps) : Except AccessError User :=
  if hf : isBlank p.firstName = false then
    if hl : isBlank p.lastName = false then
      .ok ⟨{ p with status := .active, version := 0 }, hf, hl⟩
    else .error .invalidLastName
  else .error .invalidFirstName

/-- A new role. -/
def update (u : User) (roleId : String) (now : ℕ) : User := { u with roleId, updatedAt := now }

theorem create_eq_ok {p : UserProps} {u : User} (h : create p = .ok u) :
    u.toUserProps = { p with status := .active, version := 0 } := by
  unfold create at h
  split_ifs at h
  cases h
  rfl

end User

/-- Not blank, and without the spaces around it. -/
def PasswordHash.create (value : String) : Except AccessError String :=
  let normalizedValue := trim value
  if normalizedValue = "" then .error .emptyPasswordHash else .ok normalizedValue

/-- The fields of an account; one without a hash has no password. -/
structure AuthenticationAccount where
  id : String
  userId : String
  provider : String
  email : String
  emailVerified : Bool
  passwordHash : Option String
  createdAt : ℕ
  updatedAt : ℕ
  deriving DecidableEq

/-- The checks of a new account, whose email is not verified yet. -/
def AuthenticationAccount.create (a : AuthenticationAccount) : Except AccessError AuthenticationAccount :=
  if isBlank a.userId then .error .emptyUserId
  else if isBlank a.provider then .error .emptyProvider
  else if isBlank a.email then .error .emptyEmail
  else .ok { a with emailVerified := false }

/-- A new hash, if it is given. -/
def AuthenticationAccount.update (a : AuthenticationAccount) (passwordHash : Option String) (now : ℕ) :
    AuthenticationAccount :=
  { a with passwordHash := passwordHash.orElse fun _ => a.passwordHash, updatedAt := now }

end Neltrik.Authorization
