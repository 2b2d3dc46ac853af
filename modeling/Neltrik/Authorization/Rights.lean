import Neltrik.Authorization.UseCases

/-! # What the stored rows say about rights

A right goes from a permission to a role, from the role to a tenant, and from both to a user. What
decides about it are the types of the tenants and the scopes of the roles and permissions, and these
never change: every write extends them (`Extends`).

`Secure` is the invariant of the writes. It says of each link that it may exist, with the rows at both
of its ends. The section on the repositories gives for each write what has to be known before it. -/

namespace Neltrik.Authorization

open Neltrik.Lib Neltrik.Lib.Table Neltrik.Lib.Effect

namespace Db

/-- The type of each tenant. -/
def tenantTypes (db : Db) : List (String × TenantType) := db.tenants.map fun t => (t.id, t.type)

/-- The scope of each role. -/
def roleScopes (db : Db) : List (String × RoleScope) := db.roles.map fun r => (r.id, r.scope)

/-- The scope of each permission. -/
def permissionScopes (db : Db) : List (String × PermissionScope) :=
  db.permissions.map fun p => (p.id, p.scope)

/-- The role may be given to users of the tenant: a customer gets roles of tenant scope only. -/
def Holdable (db : Db) (tenantId roleId : String) : Prop :=
  ∃ type, (tenantId, type) ∈ db.tenantTypes ∧
    (type = .customer → (roleId, .tenant) ∈ db.roleScopes)

/-- The rule of `AssignPermissionsToRole`. -/
def Compatible (db : Db) (rp : RolePermission) : Prop :=
  ∃ scope, (rp.roleId, scope) ∈ db.roleScopes ∧ ∃ permissionScope,
    (rp.permissionId, permissionScope) ∈ db.permissionScopes ∧
      (permissionScope = .platform → scope = .platform)

/-- The rule of `AssociateRolesToTenant`. -/
def Associable (db : Db) (rt : RoleTenant) : Prop :=
  ∃ scope, (rt.roleId, scope) ∈ db.roleScopes ∧ ∃ type, (rt.tenantId, type) ∈ db.tenantTypes ∧
    (scope = .platform → type = .platform)

/-- The keys are unique, and every link is one that may be. -/
structure Secure (db : Db) : Prop where
  tenants : Keyed Prod.fst db.tenantTypes
  roles : Keyed Prod.fst db.roleScopes
  permissions : Keyed Prod.fst db.permissionScopes
  rolePermissions : ∀ rp ∈ db.rolePermissions, db.Compatible rp
  roleTenants : ∀ rt ∈ db.roleTenants, db.Associable rt
  invitations : ∀ i ∈ db.invitations, i.status = .pending → db.Holdable i.tenantId i.roleId
  users : ∀ u ∈ db.users, db.Holdable u.tenantId u.roleId

/-- No tenant, role or permission has gone or changed its type or scope. -/
structure Extends (db db' : Db) : Prop where
  tenants : db.tenantTypes ⊆ db'.tenantTypes
  roles : db.roleScopes ⊆ db'.roleScopes
  permissions : db.permissionScopes ⊆ db'.permissionScopes

theorem Extends.of_eq {db db' : Db} (ht : db'.tenants = db.tenants) (hr : db'.roles = db.roles)
    (hp : db'.permissions = db.permissions) : Extends db db' := by
  refine ⟨?_, ?_, ?_⟩
  · unfold tenantTypes; rw [ht]; exact List.Subset.refl _
  · unfold roleScopes; rw [hr]; exact List.Subset.refl _
  · unfold permissionScopes; rw [hp]; exact List.Subset.refl _

/-- What a write of a secure database has to do. -/
structure Kept (db db' : Db) : Prop where
  secure : Secure db'
  grown : Extends db db'

theorem Secure.kept {db : Db} (h : Secure db) : Kept db db := ⟨h, .of_eq rfl rfl rfl⟩

theorem Kept.trans {db db' db'' : Db} (h : Kept db db') (h' : Kept db' db'') : Kept db db'' where
  secure := h'.secure
  grown :=
    ⟨List.Subset.trans h.grown.tenants h'.grown.tenants,
      List.Subset.trans h.grown.roles h'.grown.roles,
      List.Subset.trans h.grown.permissions h'.grown.permissions⟩

theorem Secure.type_eq {db : Db} (h : Secure db) {t : Tenant} (ht : t ∈ db.tenants) {type : TenantType}
    (hm : (t.id, type) ∈ db.tenantTypes) : t.type = type :=
  congrArg Prod.snd (h.tenants.eq_of_key_eq (List.mem_map.mpr ⟨t, ht, rfl⟩) hm rfl)

theorem Secure.scope_eq {db : Db} (h : Secure db) {r : Role} (hr : r ∈ db.roles) {scope : RoleScope}
    (hm : (r.id, scope) ∈ db.roleScopes) : r.scope = scope :=
  congrArg Prod.snd (h.roles.eq_of_key_eq (List.mem_map.mpr ⟨r, hr, rfl⟩) hm rfl)

theorem Secure.permissionScope_eq {db : Db} (h : Secure db) {p : Permission} (hp : p ∈ db.permissions)
    {scope : PermissionScope} (hm : (p.id, scope) ∈ db.permissionScopes) : p.scope = scope :=
  congrArg Prod.snd (h.permissions.eq_of_key_eq (List.mem_map.mpr ⟨p, hp, rfl⟩) hm rfl)

theorem mem_tenantTypes {db : Db} {t : Tenant} (ht : t ∈ db.tenants) : (t.id, t.type) ∈ db.tenantTypes :=
  List.mem_map.mpr ⟨t, ht, rfl⟩

theorem mem_roleScopes {db : Db} {r : Role} (hr : r ∈ db.roles) : (r.id, r.scope) ∈ db.roleScopes :=
  List.mem_map.mpr ⟨r, hr, rfl⟩

theorem mem_permissionScopes {db : Db} {p : Permission} (hp : p ∈ db.permissions) :
    (p.id, p.scope) ∈ db.permissionScopes :=
  List.mem_map.mpr ⟨p, hp, rfl⟩

/-! ## Links in a larger database -/

section Extends
variable {db db' : Db} (hx : Extends db db')
include hx

theorem Holdable.mono {tenantId roleId : String} (h : db.Holdable tenantId roleId) :
    db'.Holdable tenantId roleId := by
  obtain ⟨type, ht, hr⟩ := h
  exact ⟨type, hx.tenants ht, fun hc => hx.roles (hr hc)⟩

theorem Compatible.mono {rp : RolePermission} (h : db.Compatible rp) : db'.Compatible rp := by
  obtain ⟨scope, hr, permissionScope, hp, hs⟩ := h
  exact ⟨scope, hx.roles hr, permissionScope, hx.permissions hp, hs⟩

theorem Associable.mono {rt : RoleTenant} (h : db.Associable rt) : db'.Associable rt := by
  obtain ⟨scope, hr, type, ht, hs⟩ := h
  exact ⟨scope, hx.roles hr, type, hx.tenants ht, hs⟩

omit hx in
/-- **A role that a tenant is given** may be given to its users. -/
theorem Associable.holdable {roleId tenantId : String} (h : db.Associable ⟨roleId, tenantId⟩) :
    db.Holdable tenantId roleId := by
  obtain ⟨scope, hr, type, ht, hs⟩ := h
  refine ⟨type, ht, fun hc => ?_⟩
  cases scope with
  | platform => rw [hs rfl] at hc; cases hc
  | tenant => exact hr

/-- More tenants, roles or permissions, each under an id of its own, and the same links. -/
theorem Secure.kept_of_extends (h : Secure db) (ht : Keyed Prod.fst db'.tenantTypes)
    (hr : Keyed Prod.fst db'.roleScopes) (hp : Keyed Prod.fst db'.permissionScopes)
    (hrp : db'.rolePermissions = db.rolePermissions) (hrt : db'.roleTenants = db.roleTenants)
    (hi : db'.invitations = db.invitations) (hu : db'.users = db.users) : Kept db db' where
  grown := hx
  secure :=
    { tenants := ht
      roles := hr
      permissions := hp
      rolePermissions := fun rp h' => (h.rolePermissions rp (hrp ▸ h')).mono hx
      roleTenants := fun rt h' => (h.roleTenants rt (hrt ▸ h')).mono hx
      invitations := fun i h' hs => (h.invitations i (hi ▸ h') hs).mono hx
      users := fun u h' => (h.users u (hu ▸ h')).mono hx }

end Extends

/-! ## One table replaced -/

section Tables
variable {db : Db} (h : Secure db)
include h

theorem Secure.kept_tenants {rows : List Tenant}
    (hs : db.tenantTypes ⊆ rows.map fun t => (t.id, t.type)) (hk : Keyed (·.id) rows) :
    Kept db { db with tenants := rows } := by
  refine h.kept_of_extends ⟨hs, List.Subset.refl _, List.Subset.refl _⟩ ?_ h.roles h.permissions
    rfl rfl rfl rfl
  rw [Keyed, tenantTypes, List.map_map]; exact hk

theorem Secure.kept_roles {rows : List Role} (hs : db.roleScopes ⊆ rows.map fun r => (r.id, r.scope))
    (hk : Keyed (·.id) rows) : Kept db { db with roles := rows } := by
  refine h.kept_of_extends ⟨List.Subset.refl _, hs, List.Subset.refl _⟩ h.tenants ?_ h.permissions
    rfl rfl rfl rfl
  rw [Keyed, roleScopes, List.map_map]; exact hk

theorem Secure.kept_permissions {rows : List Permission}
    (hs : db.permissionScopes ⊆ rows.map fun p => (p.id, p.scope)) (hk : Keyed (·.id) rows) :
    Kept db { db with permissions := rows } := by
  refine h.kept_of_extends ⟨List.Subset.refl _, List.Subset.refl _, hs⟩ h.tenants h.roles ?_
    rfl rfl rfl rfl
  rw [Keyed, permissionScopes, List.map_map]; exact hk

theorem Secure.kept_rolePermissions {rows : List RolePermission}
    (hs : ∀ rp ∈ rows, rp ∈ db.rolePermissions ∨ db.Compatible rp) :
    Kept db { db with rolePermissions := rows } where
  grown := .of_eq rfl rfl rfl
  secure := { h with rolePermissions := fun rp hrp => (hs rp hrp).elim (h.rolePermissions rp) id }

theorem Secure.kept_roleTenants {rows : List RoleTenant}
    (hs : ∀ rt ∈ rows, rt ∈ db.roleTenants ∨ db.Associable rt) :
    Kept db { db with roleTenants := rows } where
  grown := .of_eq rfl rfl rfl
  secure := { h with roleTenants := fun rt hrt => (hs rt hrt).elim (h.roleTenants rt) id }

theorem Secure.kept_invitations {rows : List Invitation}
    (hs : ∀ i ∈ rows, i ∈ db.invitations ∨ (i.status = .pending → db.Holdable i.tenantId i.roleId)) :
    Kept db { db with invitations := rows } where
  grown := .of_eq rfl rfl rfl
  secure := { h with invitations := fun i hi => (hs i hi).elim (h.invitations i) id }

theorem Secure.kept_users {rows : List User}
    (hs : ∀ u ∈ rows, u ∈ db.users ∨ db.Holdable u.tenantId u.roleId) :
    Kept db { db with users := rows } where
  grown := .of_eq rfl rfl rfl
  secure := { h with users := fun u hu => (hs u hu).elim (h.users u) id }

theorem Secure.kept_accounts (rows : List AuthenticationAccount) :
    Kept db { db with accounts := rows } where
  grown := .of_eq rfl rfl rfl
  secure := { h with }

theorem Secure.keyed_tenants : Keyed (·.id) db.tenants := by
  have := h.tenants; rwa [Keyed, tenantTypes, List.map_map] at this

theorem Secure.keyed_roles : Keyed (·.id) db.roles := by
  have := h.roles; rwa [Keyed, roleScopes, List.map_map] at this

theorem Secure.keyed_permissions : Keyed (·.id) db.permissions := by
  have := h.permissions; rwa [Keyed, permissionScopes, List.map_map] at this

end Tables

end Db

/-! ## The repositories -/

/-- From `db`, whatever happens, the operation does what a write has to do. -/
def Keeps {α : Type} (db : Db) (m : UseCase α) : Prop :=
  Triple (fun s => s = db) m (fun _ => db.Kept) fun _ => db.Kept

namespace Keeps
variable {α β : Type} {db : Db} (h : db.Secure) {m m' : UseCase α}
include h

theorem change {g : Db → Except AccessError Db} (hg : ∀ db', g db = .ok db' → db.Kept db') :
    Keeps db (Effect.change g) := by
  refine Triple.change ?_ ?_
  · rintro s db' rfl hs; exact hg db' hs
  · rintro s e rfl -; exact h.kept

theorem bind_reads {R : α → Prop} {f : α → UseCase β} (hm : Reads db m R)
    (hf : ∀ a, R a → Keeps db (f a)) : Keeps db (m >>= f) :=
  Triple.bind_reads hm (fun _ => h.kept) hf

theorem throw (e : AccessError) : Keeps db (Effect.throw e : UseCase α) :=
  Triple.throw fun _ hs => hs ▸ h.kept

theorem transaction (hm : Keeps db m) : Keeps db (transaction m) := by
  refine Triple.atomically (F := fun _ _ _ => True) ?_ ?_
  · rintro s rfl
    exact hm.conseq (fun _ hs => hs) (fun _ _ hk => hk) fun _ _ _ => trivial
  · rintro s e s' rfl -; exact h.kept

end Keeps

section Repositories
variable {db : Db} (h : db.Secure)
include h

theorem TenantRepository.keeps_create (tenant : Tenant) : Keeps db (create tenant) := by
  refine Keeps.change h fun db' hg => ?_
  split_ifs at hg with hany
  cases hg
  refine h.kept_tenants (fun _ hx => List.mem_cons_of_mem _ hx) (h.keyed_tenants.cons fun t ht he => ?_)
  exact hany (List.any_eq_true.mpr ⟨t, ht, by simp [he]⟩)

theorem TenantRepository.keeps_update {tenant t : Tenant} (ht : t ∈ db.tenants)
    (hid : tenant.id = t.id) (htype : tenant.type = t.type) : Keeps db (update tenant) := by
  refine Keeps.change h fun db' hg => ?_
  split_ifs at hg
  cases hg
  have hp : ∀ r, OptimisticLock.matching (·.id) (·.version) tenant r = true → r.id = t.id :=
    fun r hr => (OptimisticLock.matching_iff.mp hr).1.trans hid
  refine h.kept_tenants ?_ ?_
  · rw [OptimisticLock.write, h.keyed_tenants.map_updateWhere ht hp (by simp [bump, hid, htype])]
    exact List.Subset.refl _
  · rw [Keyed, OptimisticLock.write, h.keyed_tenants.map_updateWhere ht hp (by simp [bump, hid])]
    exact h.keyed_tenants

theorem RoleRepository.keeps_create (role : Role) : Keeps db (create role) := by
  refine Keeps.change h fun db' hg => ?_
  split_ifs at hg with hany
  cases hg
  refine h.kept_roles (fun _ hx => List.mem_cons_of_mem _ hx) (h.keyed_roles.cons fun r hr he => ?_)
  exact hany (List.any_eq_true.mpr ⟨r, hr, by simp [he]⟩)

theorem RoleRepository.keeps_update {role r : Role} (hr : r ∈ db.roles) (hid : role.id = r.id)
    (hscope : role.scope = r.scope) : Keeps db (update role) := by
  refine Keeps.change h fun db' hg => ?_
  split_ifs at hg
  cases hg
  have hp : ∀ r', OptimisticLock.matching (·.id) (·.version) role r' = true → r'.id = r.id :=
    fun r' hr' => (OptimisticLock.matching_iff.mp hr').1.trans hid
  refine h.kept_roles ?_ ?_
  · rw [OptimisticLock.write, h.keyed_roles.map_updateWhere hr hp (by simp [bump, hid, hscope])]
    exact List.Subset.refl _
  · rw [Keyed, OptimisticLock.write, h.keyed_roles.map_updateWhere hr hp (by simp [bump, hid])]
    exact h.keyed_roles

theorem PermissionRepository.keeps_create (permission : Permission) : Keeps db (create permission) := by
  refine Keeps.change h fun db' hg => ?_
  split_ifs at hg with hany
  cases hg
  refine h.kept_permissions (fun _ hx => List.mem_cons_of_mem _ hx)
    (h.keyed_permissions.cons fun p hp he => ?_)
  exact hany (List.any_eq_true.mpr ⟨p, hp, by simp [he]⟩)

theorem PermissionRepository.keeps_update {permission p : Permission} (hp : p ∈ db.permissions)
    (hid : permission.id = p.id) (hscope : permission.scope = p.scope) :
    Keeps db (update permission) := by
  refine Keeps.change h fun db' hg => ?_
  split_ifs at hg
  cases hg
  have hk : ∀ r : Permission, (r.id == permission.id) = true → r.id = p.id :=
    fun r hr => (beq_iff_eq.mp hr).trans hid
  refine h.kept_permissions ?_ ?_
  · rw [h.keyed_permissions.map_updateWhere hp hk (by simp [hid, hscope])]
    exact List.Subset.refl _
  · rw [Keyed, h.keyed_permissions.map_updateWhere hp hk hid]
    exact h.keyed_permissions

theorem RoleRepository.keeps_assignPermissions {roleId : String} {permissionIds : List String}
    (hc : ∀ p ∈ db.permissions, p.id ∈ permissionIds → db.Compatible ⟨roleId, p.id⟩) :
    Keeps db (assignPermissions roleId permissionIds) := by
  refine Keeps.change h fun db' hg => ?_
  split_ifs at hg with hkeys
  cases hg
  refine h.kept_rolePermissions fun rp hrp => (mem_insertMissing hrp).imp_right fun hnew => ?_
  obtain ⟨id, hid, rfl⟩ := List.mem_map.mp hnew
  rw [Bool.and_eq_true, List.all_eq_true] at hkeys
  obtain ⟨p, hp, he⟩ := List.any_eq_true.mp (hkeys.2 id hid)
  obtain rfl : p.id = id := by simpa using he
  exact hc p hp hid

theorem RoleRepository.keeps_removePermissions (roleId : String) (permissionIds : List String) :
    Keeps db (removePermissions roleId permissionIds) := by
  refine Keeps.change h fun db' hg => ?_
  cases hg
  exact h.kept_rolePermissions fun rp hrp => Or.inl (List.mem_of_mem_filter hrp)

theorem RoleTenantRepository.keeps_associateRoles {roleIds : List String} {tenantId : String}
    (ha : ∀ r ∈ db.roles, r.id ∈ roleIds → db.Associable ⟨r.id, tenantId⟩) :
    Keeps db (associateRoles roleIds tenantId) := by
  refine Keeps.change h fun db' hg => ?_
  split_ifs at hg with hkeys
  cases hg
  refine h.kept_roleTenants fun rt hrt => (mem_insertMissing hrt).imp_right fun hnew => ?_
  obtain ⟨id, hid, rfl⟩ := List.mem_map.mp hnew
  rw [Bool.and_eq_true, List.all_eq_true] at hkeys
  obtain ⟨r, hr, he⟩ := List.any_eq_true.mp (hkeys.2 id hid)
  obtain rfl : r.id = id := by simpa using he
  exact ha r hr hid

theorem RoleTenantRepository.keeps_disassociateRoles (roleIds : List String) (tenantId : String) :
    Keeps db (disassociateRoles roleIds tenantId) := by
  refine Keeps.change h fun db' hg => ?_
  cases hg
  exact h.kept_roleTenants fun rt hrt => Or.inl (List.mem_of_mem_filter hrt)

theorem InvitationRepository.keeps_create {invitation : Invitation}
    (hi : db.Holdable invitation.tenantId invitation.roleId) : Keeps db (create invitation) := by
  refine Keeps.change h fun db' hg => ?_
  split_ifs at hg
  cases hg
  refine h.kept_invitations fun i hm => ?_
  rcases List.mem_cons.mp hm with rfl | hm
  · exact Or.inr fun _ => hi
  · exact Or.inl hm

theorem InvitationRepository.keeps_update {invitation : Invitation}
    (hs : invitation.status ≠ .pending) : Keeps db (update invitation) := by
  refine Keeps.change h fun db' hg => ?_
  split_ifs at hg
  cases hg
  refine h.kept_invitations fun i hm => ?_
  rcases mem_updateWhere.mp hm with ⟨-, -, -, rfl⟩ | ⟨hm, -⟩
  · exact Or.inr fun hp => absurd hp hs
  · exact Or.inl hm

theorem UserRepository.keeps_create {user : User} (hu : db.Holdable user.tenantId user.roleId) :
    Keeps db (create user) := by
  refine Keeps.change h fun db' hg => ?_
  split_ifs at hg
  cases hg
  refine h.kept_users fun u hm => ?_
  rcases List.mem_cons.mp hm with rfl | hm
  · exact Or.inr hu
  · exact Or.inl hm

theorem UserRepository.keeps_update {scope : Option String} {user : User}
    (hu : db.Holdable user.tenantId user.roleId) : Keeps db (update scope user) := by
  refine Keeps.change h fun db' hg => ?_
  split_ifs at hg
  cases hg
  refine h.kept_users fun u hm => ?_
  rcases mem_updateWhere.mp hm with ⟨-, -, -, rfl⟩ | ⟨hm, -⟩
  · exact Or.inr hu
  · exact Or.inl hm

theorem UserRepository.keeps_delete (id : String) : Keeps db (delete id) := by
  refine Keeps.change h fun db' hg => ?_
  split_ifs at hg
  cases hg
  exact h.kept_users fun u hm => Or.inl (List.mem_of_mem_filter hm)

theorem AuthenticationAccountRepository.keeps_create (account : AuthenticationAccount) :
    Keeps db (create account) := by
  refine Keeps.change h fun db' hg => ?_
  split_ifs at hg
  cases hg
  exact h.kept_accounts _

theorem AuthenticationAccountRepository.keeps_delete (id : String) : Keeps db (delete id) := by
  refine Keeps.change h fun db' hg => ?_
  split_ifs at hg
  cases hg
  exact h.kept_accounts _

end Repositories

end Neltrik.Authorization
