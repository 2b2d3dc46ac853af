import Neltrik.Authorization.Rights

/-! # The use cases keep the rights

Each use case keeps `Secure`: what a lookup returns is a stored row, each check of a scope is the
rule of one link, and the last call of a use case is its one write. -/

namespace Neltrik.Authorization

open Neltrik.Lib Neltrik.Lib.Effect Neltrik.Shared

/-! ## What the lookups find -/

section Lookups
variable {db : Db}

theorem reads_orElse {α : Type} {row : Option α} {e : AccessError} :
    Reads db (orElse row e) fun a => row = some a := by
  cases row with
  | none => exact Reads.throw
  | some a => exact Reads.pure rfl

/-- A row found by its id. -/
theorem reads_find {α : Type} (key : α → String) {rows : List α} {id : String} {e : AccessError} :
    Reads db (orElse (rows.find? (key · == id)) e) fun a => a ∈ rows ∧ key a = id := by
  refine reads_orElse.mono fun a ha => ?_
  have hk := List.find?_some (p := fun a => key a == id) ha
  exact ⟨List.mem_of_find?_eq_some ha, by simpa using hk⟩

theorem reads_tenantless {α : Type} {scope : Option String} {rows : α} :
    Reads db (Effect.lift (tenantless scope rows)) fun a => a = rows :=
  Reads.lift fun _ ha => (tenantless_eq_ok.mp ha).2.symm

theorem TenantApi.reads_getById (id : String) :
    Reads db (getById id) fun t => t ∈ db.tenants ∧ t.id = id :=
  Triple.bind_read (reads_find fun t : Tenant => t.id)

theorem TenantApi.reads_validate (id : String) : Reads db (validate id) fun _ => True :=
  (reads_getById id).bind fun _ _ => Reads.pure trivial

theorem TenantApi.reads_isPlatformTenant (id : String) : Reads db (isPlatformTenant id) fun b =>
    ∃ type, (id, type) ∈ db.tenantTypes ∧ b = (type == .platform) := by
  refine (reads_getById id).bind fun t ht => Reads.pure ⟨t.type, ?_, rfl⟩
  rw [← ht.2]; exact Db.mem_tenantTypes ht.1

/-- **A role that is valid for a tenant** is one that the tenant has been given. -/
theorem AuthorizationRoleApi.reads_validateForTenant (roleId tenantId : String) :
    Reads db (validateForTenant roleId tenantId) fun _ => ⟨roleId, tenantId⟩ ∈ db.roleTenants := by
  refine Triple.bind_read ?_
  refine Reads.ite (fun hany => Reads.pure ?_) fun _ => Reads.throw
  obtain ⟨r, hr, he⟩ := List.any_eq_true.mp hany
  obtain ⟨rt, hrt, hget⟩ := List.mem_filterMap.mp hr
  obtain ⟨hmem, ht⟩ := List.mem_filter.mp hrt
  have hr' := List.find?_some (p := fun r : Role => r.id == rt.roleId) hget
  obtain rfl : rt.tenantId = tenantId := by simpa using ht
  obtain rfl : r.id = roleId := by simpa using he
  obtain he : r.id = rt.roleId := by simpa using hr'
  rw [he]; exact hmem

theorem AuthorizationRoleApi.reads_validate (scope : Option String) (id : String) :
    Reads db (validate scope id) fun _ => True := by
  refine Triple.bind_read (Reads.bind reads_tenantless fun _ _ => ?_)
  exact Reads.bind reads_orElse fun _ _ => Reads.pure trivial

/-- An invitation as it is read, with the row it was read from. -/
theorem InvitationRepository.reads_getByToken (scope : Option String) (token : String) (now : ℕ) (e : AccessError) :
    Reads db (orElse (getByToken db scope token now) e) fun i =>
      ∃ row ∈ db.invitations, i = row.restore now := by
  refine reads_orElse.mono fun i hi => ?_
  obtain ⟨row, hrow, rfl⟩ := Option.map_eq_some_iff.mp hi
  exact ⟨row, List.mem_of_find?_eq_some hrow, rfl⟩

theorem Invitation.restore_of_isPending {i : Invitation} {now : ℕ}
    (h : (i.restore now).isPending = true) :
    i.status = .pending ∧ (i.restore now).tenantId = i.tenantId ∧ (i.restore now).roleId = i.roleId := by
  unfold restore at h ⊢
  split_ifs at h ⊢ with hr
  · simp [isPending] at h
  · exact ⟨by simpa [isPending] using h, rfl, rfl⟩

/-- **An invitation that is valid** offers a role that may be given to users of its tenant. -/
theorem InvitationApi.reads_validate (h : db.Secure) (token : String) (now : ℕ) :
    Reads db (validate token now) fun i => db.Holdable i.tenantId i.roleId := by
  refine Triple.bind_read ?_
  refine Reads.bind (InvitationRepository.reads_getByToken _ token now _) fun i hi => ?_
  refine Reads.ite (fun _ => Reads.throw) fun _ => Reads.ite (fun _ => Reads.throw) fun _ => ?_
  refine Reads.ite (fun _ => Reads.throw) fun hp => Reads.pure ?_
  obtain ⟨row, hrow, rfl⟩ := hi
  obtain ⟨hs, ht, hr⟩ := Invitation.restore_of_isPending (by simpa using hp)
  rw [ht, hr]
  exact h.invitations row hrow hs

end Lookups

/-! ## Roles and permissions -/

section UseCases
variable {db : Db} (h : db.Secure)
include h

theorem CreateRole.keeps_execute (tenantScope : Option String) (id code defaultDisplayName description : String)
    (scope : RoleScope) (now : ℕ) : Keeps db (execute tenantScope id code defaultDisplayName description scope now) := by
  refine Triple.bind_read (Keeps.bind_reads h reads_tenantless fun taken _ => ?_)
  refine Triple.ite (fun _ => Keeps.throw h _) fun _ => ?_
  exact Keeps.bind_reads h (Reads.lift fun _ hr => hr) fun role _ => RoleRepository.keeps_create h role

theorem UpdateRole.keeps_execute (tenantScope : Option String) (id : String)
    (defaultDisplayName description : Option String) (now : ℕ) :
    Keeps db (execute tenantScope id defaultDisplayName description now) := by
  refine Triple.bind_read (Keeps.bind_reads h reads_tenantless ?_)
  rintro _ rfl
  refine Keeps.bind_reads h (reads_find fun r : Role => r.id) fun r hr => ?_
  refine Keeps.bind_reads h (Reads.lift fun _ hu => hu) fun role hu => ?_
  have hp := Role.ofProps_eq_ok hu
  exact RoleRepository.keeps_update h hr.1 (by rw [hp]) (by rw [hp])

theorem CreatePermission.keeps_execute (tenantScope : Option String) (id code description : String)
    (scope : PermissionScope) (now : ℕ) : Keeps db (execute tenantScope id code description scope now) := by
  refine Triple.bind_read (Keeps.bind_reads h reads_tenantless fun taken _ => ?_)
  refine Triple.ite (fun _ => Keeps.throw h _) fun _ => ?_
  exact Keeps.bind_reads h (Reads.lift fun _ hr => hr) fun permission _ =>
    PermissionRepository.keeps_create h permission

theorem UpdatePermission.keeps_execute (tenantScope : Option String) (id : String) (description : Option String)
    (now : ℕ) : Keeps db (execute tenantScope id description now) := by
  refine Triple.bind_read (Keeps.bind_reads h reads_tenantless ?_)
  rintro _ rfl
  refine Keeps.bind_reads h (reads_find fun p : Permission => p.id) fun p hp => ?_
  refine Keeps.bind_reads h (Reads.lift fun _ hu => hu) fun permission hu => ?_
  have he := Permission.create_eq_ok hu
  exact PermissionRepository.keeps_update h hp.1 (by rw [he]) (by rw [he])

omit h in
/-- What is left of the permissions once none is of the wrong scope. -/
theorem compatible_of_not_hasIncompatibleScope {role : Role} {permissionIds : List String}
    (hr : role ∈ db.roles)
    (hs : ¬ hasIncompatibleScope role (db.permissions.filter fun p => permissionIds.contains p.id) = true) :
    ∀ p ∈ db.permissions, p.id ∈ permissionIds → db.Compatible ⟨role.id, p.id⟩ := by
  intro p hp hid
  refine ⟨role.scope, Db.mem_roleScopes hr, p.scope, Db.mem_permissionScopes hp, fun hps => ?_⟩
  by_contra hrs
  refine hs (List.any_eq_true.mpr ⟨p, List.mem_filter.mpr ⟨hp, by simpa using hid⟩, ?_⟩)
  simp [hps, hrs]

theorem AssignPermissionsToRole.keeps_execute (tenantScope : Option String) (roleId : String)
    (permissionIds : List String) : Keeps db (execute tenantScope roleId permissionIds) := by
  refine Keeps.transaction h ?_
  refine Triple.bind_read (Keeps.bind_reads h reads_tenantless ?_)
  rintro _ rfl
  refine Keeps.bind_reads h (reads_find fun r : Role => r.id) fun role hr => ?_
  refine Triple.bind_read (Keeps.bind_reads h reads_tenantless ?_)
  rintro _ rfl
  refine Triple.ite (fun _ => Keeps.throw h _) fun _ => ?_
  refine Triple.ite (fun _ => Keeps.throw h _) fun hscope => ?_
  rw [← hr.2]
  exact RoleRepository.keeps_assignPermissions h
    (compatible_of_not_hasIncompatibleScope hr.1 hscope)

theorem RemovePermissionsFromRole.keeps_execute (tenantScope : Option String) (roleId : String)
    (permissionIds : List String) : Keeps db (execute tenantScope roleId permissionIds) := by
  refine Keeps.transaction h ?_
  refine Triple.bind_read (Keeps.bind_reads h reads_tenantless fun row _ => ?_)
  refine Keeps.bind_reads h reads_orElse fun role _ => ?_
  refine Triple.bind_read (Keeps.bind_reads h reads_tenantless fun permissions _ => ?_)
  refine Triple.ite (fun _ => Keeps.throw h _) fun _ => ?_
  exact RoleRepository.keeps_removePermissions h _ _

/-! ## Tenants and their roles -/

theorem AssociateRolesToTenant.keeps_execute (tenantScope : Option String) (actorTenantId targetTenantId : String)
    (roleIds : List String) : Keeps db (execute tenantScope actorTenantId targetTenantId roleIds) := by
  refine Keeps.transaction h ?_
  refine Keeps.bind_reads h (TenantApi.reads_isPlatformTenant _) fun _ _ => ?_
  refine Triple.ite (fun _ => Keeps.throw h _) fun _ => ?_
  refine Keeps.bind_reads h (TenantApi.reads_validate _) fun _ _ => ?_
  refine Triple.bind_read (Keeps.bind_reads h reads_tenantless ?_)
  rintro _ rfl
  refine Triple.ite (fun _ => Keeps.throw h _) fun _ => ?_
  refine Keeps.bind_reads h (TenantApi.reads_isPlatformTenant _) fun isPlatformTenant ht => ?_
  refine Triple.ite (fun _ => Keeps.throw h _) fun hscope => ?_
  obtain ⟨type, ht, rfl⟩ := ht
  refine RoleTenantRepository.keeps_associateRoles h fun r hr hid => ?_
  refine ⟨r.scope, Db.mem_roleScopes hr, type, ht, fun hrs => ?_⟩
  by_contra hne
  refine hscope (List.any_eq_true.mpr ⟨r, List.mem_filter.mpr ⟨hr, by simpa using hid⟩, ?_⟩)
  simp [hrs, hne]

theorem DisassociateRolesFromTenant.keeps_execute (actorTenantId targetTenantId : String)
    (roleIds : List String) : Keeps db (execute actorTenantId targetTenantId roleIds) := by
  refine Keeps.transaction h ?_
  refine Keeps.bind_reads h (TenantApi.reads_isPlatformTenant _) fun _ _ => ?_
  refine Triple.ite (fun _ => Keeps.throw h _) fun _ => ?_
  refine Keeps.bind_reads h (TenantApi.reads_validate _) fun _ _ => ?_
  exact RoleTenantRepository.keeps_disassociateRoles h _ _

theorem CreateTenant.keeps_execute (slugGenerator : String → String → String) (id name : String)
    (type : TenantType) (now : ℕ) : Keeps db (execute slugGenerator id name type now) :=
  Keeps.bind_reads h (Reads.lift fun _ ht => ht) fun tenant _ => TenantRepository.keeps_create h tenant

theorem UpdateTenant.keeps_execute (id name : String) (now : ℕ) : Keeps db (execute id name now) := by
  refine Keeps.bind_reads h (TenantApi.reads_getById id) fun t ht => ?_
  refine Keeps.bind_reads h (Reads.lift fun _ hu => hu) fun tenant hu => ?_
  have hp := Tenant.ofProps_eq_ok hu
  exact TenantRepository.keeps_update h ht.1 (by rw [hp]) (by rw [hp])

theorem SuspendTenant.keeps_execute (id : String) (now : ℕ) : Keeps db (execute id now) := by
  refine Keeps.bind_reads h (TenantApi.reads_getById id) fun t ht => ?_
  refine Keeps.bind_reads h (Reads.lift fun _ hu => hu) fun tenant hu => ?_
  unfold Tenant.suspend at hu
  split_ifs at hu
  cases hu
  exact TenantRepository.keeps_update h ht.1 rfl rfl

theorem ReactivateTenant.keeps_execute (id : String) (now : ℕ) : Keeps db (execute id now) := by
  refine Keeps.bind_reads h (TenantApi.reads_getById id) fun t ht => ?_
  refine Keeps.bind_reads h (Reads.lift fun _ hu => hu) fun tenant hu => ?_
  unfold Tenant.reactivate at hu
  split_ifs at hu
  cases hu
  exact TenantRepository.keeps_update h ht.1 rfl rfl

/-! ## Invitations -/

omit h in
theorem CreateInvitation.build_eq_ok {input : CreateInvitationInput} {id newToken : String} {now : ℕ}
    {i : Invitation} (hb : build input id newToken now = .ok i) :
    i.tenantId = input.tenantId ∧ i.roleId = input.roleId := by
  obtain ⟨_, -, hb⟩ := except_bind_eq_ok.mp hb
  obtain ⟨_, -, hb⟩ := except_bind_eq_ok.mp hb
  obtain ⟨_, -, hb⟩ := except_bind_eq_ok.mp hb
  cases hb
  exact ⟨rfl, rfl⟩

theorem CreateInvitation.keeps_execute (input : CreateInvitationInput) (id newToken : String)
    (now : ℕ) : Keeps db (execute input id newToken now) := by
  refine Triple.ite (fun _ => Keeps.throw h _) fun _ => ?_
  refine Keeps.bind_reads h (TenantApi.reads_validate _) fun _ _ => ?_
  refine Keeps.bind_reads h (AuthorizationRoleApi.reads_validateForTenant _ _) fun _ hrt => ?_
  refine Triple.ite (fun _ => Keeps.throw h _) fun _ => ?_
  refine Triple.bind_read ?_
  refine Triple.ite (fun _ => Keeps.throw h _) fun _ => ?_
  refine Keeps.bind_reads h (Reads.lift fun _ hb => hb) fun invitation hb => ?_
  obtain ⟨ht, hr⟩ := build_eq_ok hb
  refine InvitationRepository.keeps_create h ?_
  rw [ht, hr]
  exact (h.roleTenants _ hrt).holdable

omit h in
theorem Invitation.status_of_revoke {i i' : Invitation} {now : ℕ} (hr : i.revoke now = .ok i') :
    i'.status = .revoked := by
  obtain ⟨_, -, hr⟩ := except_bind_eq_ok.mp hr
  obtain ⟨_, -, hr⟩ := except_bind_eq_ok.mp hr
  by_cases hi : i.isRevoked = true
  · rw [if_pos hi] at hr; cases hr
  · rw [if_neg hi] at hr; cases hr; rfl

omit h in
theorem Invitation.status_of_use {i i' : Invitation} {now : ℕ} (hu : i.use now = .ok i') :
    i'.status = .used := by
  obtain ⟨_, -, hu⟩ := except_bind_eq_ok.mp hu
  obtain ⟨_, -, hu⟩ := except_bind_eq_ok.mp hu
  cases hu
  rfl

theorem RevokeInvitation.keeps_execute (scope : Option String) (token : String) (now : ℕ) :
    Keeps db (execute scope token now) := by
  refine Triple.bind_read ?_
  refine Keeps.bind_reads h (InvitationRepository.reads_getByToken _ token now _) fun i _ => ?_
  refine Triple.ite (fun _ => Keeps.throw h _) fun _ => Triple.ite (fun _ => Keeps.throw h _) fun _ => ?_
  refine Triple.ite (fun _ => Keeps.throw h _) fun _ => ?_
  refine Keeps.bind_reads h (Reads.lift fun _ hr => hr) fun invitation hr => ?_
  exact InvitationRepository.keeps_update h (by rw [Invitation.status_of_revoke hr]; nofun)

theorem InvitationApi.keeps_consume (token : String) (now : ℕ) : Keeps db (consume token now) := by
  refine Triple.bind_read ?_
  refine Keeps.bind_reads h (InvitationRepository.reads_getByToken _ token now _) fun i _ => ?_
  refine Triple.ite (fun _ => Keeps.throw h _) fun _ => Triple.ite (fun _ => Keeps.throw h _) fun _ => ?_
  refine Triple.ite (fun _ => Keeps.throw h _) fun _ => ?_
  refine Keeps.bind_reads h (Reads.lift fun _ hu => hu) fun invitation hu => ?_
  exact InvitationRepository.keeps_update h (by rw [Invitation.status_of_use hu]; nofun)

/-! ## Users -/

theorem UserApi.keeps_create {tenantId roleId : String} (hu : db.Holdable tenantId roleId)
    (id firstName lastName email : String) (now : ℕ) :
    Keeps db (create id firstName lastName email tenantId roleId now) := by
  refine Keeps.bind_reads h (Reads.lift fun _ he => he) fun email _ => ?_
  refine Triple.bind_read ?_
  refine Triple.ite (fun _ => Keeps.throw h _) fun _ => ?_
  refine Keeps.bind_reads h (Reads.lift fun _ hc => hc) fun user hc => ?_
  have hp := User.create_eq_ok hc
  refine UserRepository.keeps_create h ?_
  rw [show user.tenantId = tenantId from congrArg UserProps.tenantId hp,
    show user.roleId = roleId from congrArg UserProps.roleId hp]
  exact hu

theorem UserApi.keeps_delete (id : String) : Keeps db (delete id) := by
  refine Triple.bind_read ?_
  exact Keeps.bind_reads h reads_orElse fun user _ => UserRepository.keeps_delete h user.id

theorem ChangeRoleUser.keeps_execute (scope : Option String) (id roleId : String) (now : ℕ) :
    Keeps db (execute scope id roleId now) := by
  refine Triple.bind_read ?_
  refine Keeps.bind_reads h reads_orElse fun user _ => ?_
  refine Keeps.bind_reads h (AuthorizationRoleApi.reads_validate _ _) fun _ _ => ?_
  refine Keeps.bind_reads h (AuthorizationRoleApi.reads_validateForTenant _ _) fun _ hrt => ?_
  exact UserRepository.keeps_update h (h.roleTenants _ hrt).holdable

end UseCases

/-! ## Registration -/

namespace Register

section Steps
variable {db : Db}

/-- What a call keeps wherever the database has grown to, a step of the saga keeps. -/
theorem kept_call {m : UseCase Unit} (hm : ∀ db', db.Kept db' → Keeps db' m) :
    Triple (fun s => db.Kept s.1) (call m) (fun _ s => db.Kept s.1) fun _ s => db.Kept s.1 := by
  rintro ⟨db', context⟩ hk
  obtain ⟨hok, herr⟩ := hm db' hk db' rfl
  refine ⟨fun a s' hs => ?_, fun e s' hs => ?_⟩
  all_goals obtain ⟨hr, rfl⟩ := Prod.mk.inj hs
  · exact hk.trans (hok a _ (Prod.ext hr rfl))
  · exact hk.trans (herr e _ (Prod.ext hr rfl))

theorem kept_setContext (g : RegisterSagaContext → RegisterSagaContext) :
    Triple (fun s : Db × RegisterSagaContext => db.Kept s.1) (setContext g)
      (fun _ s => db.Kept s.1) fun _ s => db.Kept s.1 := by
  refine Triple.change (fun s s' hs hg => ?_) fun s e _ hg => ?_ <;> cases hg
  exact hs

theorem kept_compensateWith {field : RegisterSagaContext → Option String} {m : String → UseCase Unit}
    (hm : ∀ id db', db.Kept db' → Keeps db' (m id)) :
    Triple (fun s => db.Kept s.1) (compensateWith field m) (fun _ s => db.Kept s.1)
      fun _ s => db.Kept s.1 := by
  refine Triple.of_forall fun s hs => ?_
  unfold compensateWith
  rintro s' rfl
  dsimp only
  cases field s'.2 with
  | none => exact Triple.pure (a := ()) (fun _ h => h) s' hs
  | some id => exact kept_call (hm id) s' hs

/-- **Each step of the saga** and its compensation keep the database secure. -/
theorem keptBy_steps {registered : Except AccessError (Option String)} {input : RegisterInput}
    {invitation : Invitation} {userId accountId : String} {now : ℕ}
    (hi : db.Holdable invitation.tenantId invitation.roleId) :
    ∀ step ∈ steps registered input invitation userId accountId now,
      SagaOrchestrator.KeptBy (fun s => db.Kept s.1) step := by
  simp only [steps, List.forall_mem_cons]
  refine ⟨⟨?_, ?_⟩, ⟨?_, ?_⟩, ⟨?_, nofun⟩, fun _ h => absurd h List.not_mem_nil⟩
  · refine Triple.bind (kept_call fun db' hk => ?_) fun _ => kept_setContext _
    exact UserApi.keeps_create hk.secure (hi.mono hk.grown) _ _ _ _ _
  · rintro _ ⟨⟩
    exact kept_compensateWith fun id db' hk => UserApi.keeps_delete hk.secure id
  · refine Triple.bind (R := fun _ s => db.Kept s.1) ?_ fun _ => ?_
    · exact Triple.lift (fun _ _ _ hs => hs) fun _ _ _ hs => hs
    refine Triple.bind (R := fun _ s => db.Kept s.1) ?_ fun account => ?_
    · exact Triple.lift (fun _ _ _ hs => hs) fun _ _ _ hs => hs
    refine Triple.bind (kept_call fun db' hk => ?_) fun _ => kept_setContext _
    exact AuthenticationAccountRepository.keeps_create hk.secure account
  · rintro _ ⟨⟩
    exact kept_compensateWith fun id db' hk =>
      AuthenticationAccountRepository.keeps_delete hk.secure id
  · exact kept_call fun db' hk => InvitationApi.keeps_consume hk.secure _ _

theorem keeps_runSaga {steps : List (SagaStep (Db × RegisterSagaContext) AccessError)}
    (h : db.Secure) (hs : ∀ step ∈ steps, SagaOrchestrator.KeptBy (fun s => db.Kept s.1) step) :
    Keeps db (runSaga steps) := by
  rintro s rfl
  obtain ⟨hok, herr⟩ := SagaOrchestrator.triple_execute hs (s, ⟨none, none⟩) h.kept
  refine ⟨fun a s' hr => ?_, fun e s' hr => ?_⟩
  all_goals obtain ⟨he, rfl⟩ := Prod.mk.inj hr
  · exact hok a _ (Prod.ext he rfl)
  · exact herr e _ (Prod.ext he rfl)

theorem keeps_execute (h : db.Secure) (registered : Except AccessError (Option String))
    (input : RegisterInput) (userId accountId : String) (now : ℕ) :
    Keeps db (execute registered input userId accountId now) := by
  refine Keeps.bind_reads h (InvitationApi.reads_validate h _ _) fun invitation hi => ?_
  refine Triple.ite (fun _ => Keeps.throw h _) fun _ => Triple.ite (fun _ => Keeps.throw h _) fun _ => ?_
  exact keeps_runSaga h (keptBy_steps hi)

end Steps

end Register

end Neltrik.Authorization
