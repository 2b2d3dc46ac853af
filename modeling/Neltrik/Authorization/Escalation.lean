import Neltrik.Authorization.Preservation
import Neltrik.Lib.Machine

/-! # No escalation of rights

The use cases one after the other, in any order and with any input, also the ones that throw. `Secure`
holds in every state (`secure_step`); from consistent rows it is what `NoEscalation` says, read off
the rows (`Consistent.secure`, `Secure.noEscalation`). -/

namespace Neltrik.Authorization

open Neltrik.Lib Neltrik.Lib.Effect Neltrik.Lib.Machine Neltrik.Lib.Table Neltrik.Shared

/-! ## Sequences of use cases -/

/-- A use case with its input. -/
inductive Op where
  | createRole (tenantScope : Option String) (id code defaultDisplayName description : String) (scope : RoleScope)
      (now : ℕ)
  | updateRole (tenantScope : Option String) (id : String) (defaultDisplayName description : Option String) (now : ℕ)
  | createPermission (tenantScope : Option String) (id code description : String) (scope : PermissionScope) (now : ℕ)
  | updatePermission (tenantScope : Option String) (id : String) (description : Option String) (now : ℕ)
  | assignPermissionsToRole (tenantScope : Option String) (roleId : String) (permissionIds : List String)
  | removePermissionsFromRole (tenantScope : Option String) (roleId : String) (permissionIds : List String)
  | associateRolesToTenant (tenantScope : Option String) (actorTenantId targetTenantId : String) (roleIds : List String)
  | disassociateRolesFromTenant (actorTenantId targetTenantId : String) (roleIds : List String)
  | createTenant (slugGenerator : String → String → String) (id name : String) (type : TenantType)
      (now : ℕ)
  | updateTenant (id name : String) (now : ℕ)
  | suspendTenant (id : String) (now : ℕ)
  | reactivateTenant (id : String) (now : ℕ)
  | createInvitation (input : CreateInvitationInput) (id newToken : String) (now : ℕ)
  | revokeInvitation (scope : Option String) (token : String) (now : ℕ)
  | register (registered : Except AccessError (Option String)) (input : RegisterInput)
      (userId accountId : String) (now : ℕ)
  | changeRoleUser (scope : Option String) (id roleId : String) (now : ℕ)

/-- The use case run on its input. -/
def Op.execute : Op → UseCase Unit
  | .createRole tenantScope id code defaultDisplayName description scope now =>
    CreateRole.execute tenantScope id code defaultDisplayName description scope now
  | .updateRole tenantScope id defaultDisplayName description now =>
    UpdateRole.execute tenantScope id defaultDisplayName description now
  | .createPermission tenantScope id code description scope now =>
    CreatePermission.execute tenantScope id code description scope now
  | .updatePermission tenantScope id description now => UpdatePermission.execute tenantScope id description now
  | .assignPermissionsToRole tenantScope roleId permissionIds =>
    AssignPermissionsToRole.execute tenantScope roleId permissionIds
  | .removePermissionsFromRole tenantScope roleId permissionIds =>
    RemovePermissionsFromRole.execute tenantScope roleId permissionIds
  | .associateRolesToTenant tenantScope actorTenantId targetTenantId roleIds =>
    AssociateRolesToTenant.execute tenantScope actorTenantId targetTenantId roleIds
  | .disassociateRolesFromTenant actorTenantId targetTenantId roleIds =>
    DisassociateRolesFromTenant.execute actorTenantId targetTenantId roleIds
  | .createTenant slugGenerator id name type now => CreateTenant.execute slugGenerator id name type now
  | .updateTenant id name now => UpdateTenant.execute id name now
  | .suspendTenant id now => SuspendTenant.execute id now
  | .reactivateTenant id now => ReactivateTenant.execute id now
  | .createInvitation input id newToken now => CreateInvitation.execute input id newToken now
  | .revokeInvitation scope token now => RevokeInvitation.execute scope token now
  | .register registered input userId accountId now =>
    Register.execute registered input userId accountId now
  | .changeRoleUser scope id roleId now => ChangeRoleUser.execute scope id roleId now

/-- The use case may throw: what it wrote before stays unless a transaction takes it back. -/
def opStep (db : Db) (op : Op) : Option Db := some (op.execute db).2

/-- **Every use case keeps the database secure.** -/
theorem Op.keeps_execute {db : Db} (h : db.Secure) : (op : Op) → Keeps db op.execute
  | .createRole .. => CreateRole.keeps_execute h _ _ _ _ _ _ _
  | .updateRole .. => UpdateRole.keeps_execute h _ _ _ _ _
  | .createPermission .. => CreatePermission.keeps_execute h _ _ _ _ _ _
  | .updatePermission .. => UpdatePermission.keeps_execute h _ _ _ _
  | .assignPermissionsToRole .. => AssignPermissionsToRole.keeps_execute h _ _ _
  | .removePermissionsFromRole .. => RemovePermissionsFromRole.keeps_execute h _ _ _
  | .associateRolesToTenant .. => AssociateRolesToTenant.keeps_execute h _ _ _ _
  | .disassociateRolesFromTenant .. => DisassociateRolesFromTenant.keeps_execute h _ _ _
  | .createTenant .. => CreateTenant.keeps_execute h _ _ _ _ _
  | .updateTenant .. => UpdateTenant.keeps_execute h _ _ _
  | .suspendTenant .. => SuspendTenant.keeps_execute h _ _
  | .reactivateTenant .. => ReactivateTenant.keeps_execute h _ _
  | .createInvitation .. => CreateInvitation.keeps_execute h _ _ _ _
  | .revokeInvitation .. => RevokeInvitation.keeps_execute h _ _ _
  | .register .. => Register.keeps_execute h _ _ _ _ _
  | .changeRoleUser .. => ChangeRoleUser.keeps_execute h _ _ _ _

theorem secure_step {db db' : Db} {op : Op} (h : db.Secure) (hs : opStep db op = some db') :
    db'.Secure := by
  obtain rfl := Option.some.inj hs
  exact ((op.keeps_execute h).snd rfl).secure

/-! ## The result -/

namespace Db

/-- What the keys and foreign keys of the schema say. -/
structure Consistent (db : Db) : Prop where
  tenants : Keyed (·.id) db.tenants
  roles : Keyed (·.id) db.roles
  permissions : Keyed (·.id) db.permissions
  rolePermissions : ∀ rp ∈ db.rolePermissions,
    (∃ r ∈ db.roles, r.id = rp.roleId) ∧ ∃ p ∈ db.permissions, p.id = rp.permissionId
  roleTenants : ∀ rt ∈ db.roleTenants,
    (∃ r ∈ db.roles, r.id = rt.roleId) ∧ ∃ t ∈ db.tenants, t.id = rt.tenantId
  invitations : ∀ i ∈ db.invitations, ∃ t ∈ db.tenants, t.id = i.tenantId
  users : ∀ u ∈ db.users, ∃ t ∈ db.tenants, t.id = u.tenantId

/-- No user of a customer holds a role with a permission of the platform, and each link of a role with
a permission or a tenant is one that its use case allows. -/
structure NoEscalation (db : Db) : Prop where
  users : ∀ u ∈ db.users, ∀ t ∈ db.tenants, t.id = u.tenantId → t.type = .customer →
    ∀ rp ∈ db.rolePermissions, rp.roleId = u.roleId →
      ∀ p ∈ db.permissions, p.id = rp.permissionId → p.scope ≠ .platform
  rolePermissions : ∀ rp ∈ db.rolePermissions, ∀ r ∈ db.roles, r.id = rp.roleId →
    ∀ p ∈ db.permissions, p.id = rp.permissionId → p.scope = .platform → r.scope = .platform
  roleTenants : ∀ rt ∈ db.roleTenants, ∀ r ∈ db.roles, r.id = rt.roleId →
    ∀ t ∈ db.tenants, t.id = rt.tenantId → r.scope = .platform → t.type = .platform

/-- Users and pending invitations of customers name roles of tenant scope. -/
structure TenantRolesOnly (db : Db) : Prop where
  users : ∀ u ∈ db.users, ∀ t ∈ db.tenants, t.id = u.tenantId → t.type = .customer →
    ∃ r ∈ db.roles, r.id = u.roleId ∧ r.scope = .tenant
  invitations : ∀ i ∈ db.invitations, i.status = .pending → ∀ t ∈ db.tenants, t.id = i.tenantId →
    t.type = .customer → ∃ r ∈ db.roles, r.id = i.roleId ∧ r.scope = .tenant

/-- The invariant from what the schema and the three properties say. -/
theorem Consistent.secure {db : Db} (hc : db.Consistent) (hn : db.NoEscalation)
    (ht : db.TenantRolesOnly) : db.Secure where
  tenants := by rw [Keyed, tenantTypes, List.map_map]; exact hc.tenants
  roles := by rw [Keyed, roleScopes, List.map_map]; exact hc.roles
  permissions := by rw [Keyed, permissionScopes, List.map_map]; exact hc.permissions
  rolePermissions rp hrp := by
    obtain ⟨⟨r, hr, her⟩, p, hp, hep⟩ := hc.rolePermissions rp hrp
    exact ⟨r.scope, her ▸ mem_roleScopes hr, p.scope, hep ▸ mem_permissionScopes hp,
      hn.rolePermissions rp hrp r hr her p hp hep⟩
  roleTenants rt hrt := by
    obtain ⟨⟨r, hr, her⟩, t, ht', het⟩ := hc.roleTenants rt hrt
    exact ⟨r.scope, her ▸ mem_roleScopes hr, t.type, het ▸ mem_tenantTypes ht',
      hn.roleTenants rt hrt r hr her t ht' het⟩
  invitations i hi hs := by
    obtain ⟨t, ht', het⟩ := hc.invitations i hi
    refine ⟨t.type, het ▸ mem_tenantTypes ht', fun hcust => ?_⟩
    obtain ⟨r, hr, her, hscope⟩ := ht.invitations i hi hs t ht' het hcust
    exact her ▸ hscope ▸ mem_roleScopes hr
  users u hu := by
    obtain ⟨t, ht', het⟩ := hc.users u hu
    refine ⟨t.type, het ▸ mem_tenantTypes ht', fun hcust => ?_⟩
    obtain ⟨r, hr, her, hscope⟩ := ht.users u hu t ht' het hcust
    exact her ▸ hscope ▸ mem_roleScopes hr

section Secure
variable {db : Db} (h : db.Secure)
include h

/-- A role that a user of a customer may hold is of tenant scope. -/
theorem Secure.tenant_of_holdable {tenantId roleId : String} (hh : db.Holdable tenantId roleId)
    {t : Tenant} (ht : t ∈ db.tenants) (het : t.id = tenantId) (hc : t.type = .customer) :
    (roleId, .tenant) ∈ db.roleScopes := by
  obtain ⟨type, hm, hr⟩ := hh
  rw [← het] at hm
  exact hr ((h.type_eq ht hm).symm.trans hc)

theorem Secure.tenantRolesOnly : db.TenantRolesOnly where
  users u hu t ht het hc := by
    obtain ⟨r, hr, he⟩ := List.mem_map.mp (h.tenant_of_holdable (h.users u hu) ht het hc)
    exact ⟨r, hr, congrArg Prod.fst he, congrArg Prod.snd he⟩
  invitations i hi hs t ht het hc := by
    obtain ⟨r, hr, he⟩ := List.mem_map.mp (h.tenant_of_holdable (h.invitations i hi hs) ht het hc)
    exact ⟨r, hr, congrArg Prod.fst he, congrArg Prod.snd he⟩

theorem Secure.noEscalation : db.NoEscalation where
  rolePermissions rp hrp r hr her p hp hep hps := by
    obtain ⟨scope, hmr, permissionScope, hmp, hs⟩ := h.rolePermissions rp hrp
    rw [← her] at hmr
    rw [← hep] at hmp
    rw [h.scope_eq hr hmr]
    exact hs ((h.permissionScope_eq hp hmp).symm.trans hps)
  roleTenants rt hrt r hr her t ht het hrs := by
    obtain ⟨scope, hmr, type, hmt, hs⟩ := h.roleTenants rt hrt
    rw [← her] at hmr
    rw [← het] at hmt
    rw [h.type_eq ht hmt]
    exact hs ((h.scope_eq hr hmr).symm.trans hrs)
  -- the scope of the role is `tenant` for the user and `platform` for the permission
  users u hu t ht het hc rp hrp her p hp hep hps := by
    obtain ⟨scope, hmr, permissionScope, hmp, hs⟩ := h.rolePermissions rp hrp
    rw [← hep] at hmp
    rw [her] at hmr
    have hplatform : scope = .platform := hs ((h.permissionScope_eq hp hmp).symm.trans hps)
    have htenant := h.tenant_of_holdable (h.users u hu) ht het hc
    have he := h.roles.eq_of_key_eq hmr htenant rfl
    rw [hplatform] at he
    exact absurd (congrArg Prod.snd he) nofun

end Secure

end Db

/-- **No use case escalates a right**: from a database in which the users and the pending invitations
of customers name roles of tenant scope. -/
theorem rights_never_escalate {db : Db} (hc : db.Consistent) (hn : db.NoEscalation)
    (ht : db.TenantRolesOnly) (ops : List Op) :
    AllStates opStep (fun db' => db'.NoEscalation ∧ db'.TenantRolesOnly) db ops := by
  intro pre _ db' hr
  have h : db'.Secure := run_inv (fun _ _ _ h hs => secure_step h hs) (hc.secure hn ht) hr
  exact ⟨h.noEscalation, h.tenantRolesOnly⟩

/-! ### A customer next to the platform -/

section Example

/-- The platform. -/
def platformTenant : Tenant :=
  ⟨⟨"platform", "Platform", "platform", .platform, .active, 0, 0, 0, none⟩, by decide, by decide⟩

/-- A customer. -/
def customerTenant : Tenant :=
  ⟨⟨"acme", "Acme", "acme", .customer, .active, 0, 0, 0, none⟩, by decide, by decide⟩

/-- A role of the platform. -/
def adminRole : Role :=
  ⟨⟨"admin", "ADMIN", "Admin", "Runs the platform", [], .platform, 0, 0, 0⟩, by decide, by decide,
    by decide⟩

/-- A role of tenants. -/
def memberRole : Role :=
  ⟨⟨"member", "MEMBER", "Member", "Works for a tenant", [], .tenant, 0, 0, 0⟩, by decide, by decide,
    by decide⟩

/-- A permission of the platform. -/
def manageTenants : Permission :=
  ⟨⟨"manage", "tenants.manage", "Manage tenants", .platform, 0, 0⟩, by decide, by decide⟩

/-- A user of the customer. -/
def customerUser (roleId : String) : User :=
  ⟨⟨"bob", "Bob", "Stone", "bob@acme.io", "acme", roleId, .active, 0, 0, 0, none⟩,
    show isBlank "Bob" = false by decide, show isBlank "Stone" = false by decide⟩

/-- A member of the customer, and the role of the platform with its permission. -/
def seeded : Db where
  tenants := [platformTenant, customerTenant]
  roles := [adminRole, memberRole]
  permissions := [manageTenants]
  rolePermissions := [⟨"admin", "manage"⟩]
  roleTenants := [⟨"admin", "platform"⟩, ⟨"member", "acme"⟩]
  invitations := []
  users := [customerUser "member"]
  accounts := []

/-- Four attempts on the rights of the platform around one registration. -/
def attempts : List Op :=
  [ .assignPermissionsToRole none "member" ["manage"],
    .associateRolesToTenant none "platform" "acme" ["admin"],
    .createInvitation ⟨"acme", "admin", "eve@acme.io", "manual"⟩ "i1"
      "6f1c2b9e-3f5a-4c1d-9a77-0c2f4f6d8e10" 1,
    .createInvitation ⟨"acme", "member", "eve@acme.io", "manual"⟩ "i2"
      "6f1c2b9e-3f5a-4c1d-9a77-0c2f4f6d8e11" 1,
    .register (.ok (some "hash"))
      ⟨"6f1c2b9e-3f5a-4c1d-9a77-0c2f4f6d8e11", "eve@acme.io", "Eve", "Moss", "email-password"⟩ "eve" "a1" 2,
    .changeRoleUser none "eve" "admin" 3 ]

theorem rights_never_escalate_attempts :
    (run opStep seeded attempts).any (fun db => db.users.map (fun u => (u.id, u.roleId)) ==
      [("eve", "member"), ("bob", "member")] && db.rolePermissions == [⟨"admin", "manage"⟩]) = true ∧
    AllStates opStep (fun db' => db'.NoEscalation ∧ db'.TenantRolesOnly) seeded attempts := by
  refine ⟨by decide +kernel, rights_never_escalate ?_ ?_ ?_ attempts⟩
  · exact ⟨by decide, by decide, by decide, by decide, by decide, by decide, by decide⟩
  · exact ⟨by decide, by decide, by decide⟩
  · exact ⟨by decide, by decide⟩

/-- The user of the customer holds a role of the platform that has no permission yet. -/
def misassigned : Db :=
  { seeded with rolePermissions := [], users := [customerUser "admin"] }

/-- Without that condition the permission can still be given to the role. -/
theorem right_escalates_by_assignment : ¬ ∀ db : Db, db.Consistent → db.NoEscalation →
    ∀ ops, AllStates opStep Db.NoEscalation db ops := by
  intro hall
  have hc : misassigned.Consistent :=
    ⟨by decide, by decide, by decide, by decide, by decide, by decide, by decide⟩
  have hn : misassigned.NoEscalation := ⟨by decide, by decide, by decide⟩
  have hafter := (hall misassigned hc hn [.assignPermissionsToRole none "admin" ["manage"]]).last rfl
  exact absurd hafter.users (by decide +kernel)

end Example

end Neltrik.Authorization
