import Neltrik.Authorization.Preservation

/-! # What changes the roles of a tenant

The two use cases that write `role_tenants`, each as what it does to the database:
`AssociateRolesToTenant` adds rows, if it does anything, and `DisassociateRolesFromTenant` deletes those
of the roles and the tenant when a platform tenant asks for it (`Dissociates`). -/

namespace Neltrik.Authorization

open Neltrik.Lib Neltrik.Lib.Effect Neltrik.Shared

variable {db : Db}

/-! ## When the lookups throw -/

theorem settles_orElse {α : Type} {row : Option α} {e : AccessError} :
    Settles (row.isSome = true) (orElse row e) db (row = some ·) := by
  cases row with
  | none => exact ⟨nofun, fun _ => ⟨e, rfl⟩⟩
  | some a => exact ⟨fun _ => ⟨a, rfl, rfl⟩, fun h => absurd rfl h⟩

theorem TenantApi.settles_getById (id : String) :
    Settles ((TenantRepository.get db id).isSome = true) (getById id) db
      (TenantRepository.get db id = some ·) :=
  Settles.bind_read settles_orElse

theorem TenantApi.settles_validate (db : Db) (id : String) :
    Settles ((TenantRepository.get db id).isSome = true) (validate id) db fun _ => True :=
  (settles_getById id).map fun _ _ => trivial

theorem TenantApi.settles_isPlatformTenant (db : Db) (id : String) :
    Settles ((TenantRepository.get db id).isSome = true) (isPlatformTenant id) db fun b =>
      b = (TenantRepository.get db id).any (·.type == .platform) :=
  (settles_getById id).map fun t ht => by rw [ht, Option.any_some]

theorem settles_tenantless {α : Type} {scope : Option String} {rows : α} :
    Settles (scope = none) (Effect.lift (tenantless scope rows)) db (· = rows) := by
  cases scope with
  | none => exact ⟨fun _ => ⟨rows, rfl, rfl⟩, fun h => absurd rfl h⟩
  | some t => exact ⟨nofun, fun _ => ⟨_, rfl⟩⟩

/-- **A role is valid** when it is there, and no tenant asks. -/
theorem AuthorizationRoleApi.settles_validate (db : Db) (scope : Option String) (id : String) :
    Settles (scope = none ∧ (RoleRepository.row db id).isSome = true) (validate scope id) db fun _ => True := by
  refine Settles.bind_read (settles_tenantless.bind ?_)
  rintro _ rfl
  exact settles_orElse.map fun _ _ => trivial

/-! ## The two use cases -/

theorem transaction_of_ok {α : Type} {m : UseCase α} {a : α} {db' : Db} (h : m db = (.ok a, db')) :
    (transaction m db).2 = db' := by
  unfold transaction Effect.atomically
  rw [h]

theorem transaction_of_error {α : Type} {m : UseCase α} {e : AccessError} {db' : Db}
    (h : m db = (.error e, db')) : (transaction m db).2 = db := by
  unfold transaction Effect.atomically
  rw [h]

/-- **Associating roles** adds rows and changes nothing else. -/
theorem AssociateRolesToTenant.execute_snd (db : Db) (tenantScope : Option String)
    (actorTenantId targetTenantId : String) (roleIds : List String) :
    ∃ new, (execute tenantScope actorTenantId targetTenantId roleIds db).2 =
      { db with roleTenants := db.roleTenants ++ new } := by
  have hkeep : Triple (fun s => s = db) (execute tenantScope actorTenantId targetTenantId roleIds)
      (fun _ s => ∃ new, s = { db with roleTenants := db.roleTenants ++ new })
      fun _ s => ∃ new, s = { db with roleTenants := db.roleTenants ++ new } := by
    have hsame : ∃ new, db = { db with roleTenants := db.roleTenants ++ new } :=
      ⟨[], by rw [List.append_nil]⟩
    refine Triple.atomically (F := fun _ _ _ => True) ?_ ?_
    · rintro s rfl
      refine Triple.bind_reads (TenantApi.reads_isPlatformTenant _) (fun _ => trivial) fun _ _ => ?_
      refine Triple.ite (fun _ => Triple.throw fun _ _ => trivial) fun _ => ?_
      refine Triple.bind_reads (TenantApi.reads_validate _) (fun _ => trivial) fun _ _ => ?_
      refine Triple.bind_read (Triple.bind_reads reads_tenantless (fun _ => trivial) fun roles _ => ?_)
      refine Triple.ite (fun _ => Triple.throw fun _ _ => trivial) fun _ => ?_
      refine Triple.bind_reads (TenantApi.reads_isPlatformTenant _) (fun _ => trivial) fun _ _ => ?_
      refine Triple.ite (fun _ => Triple.throw fun _ _ => trivial) fun _ => ?_
      refine Triple.change (fun s' s'' hs h => ?_) fun _ _ _ _ => trivial
      rw [hs] at h
      split_ifs at h
      cases h
      exact ⟨_, rfl⟩
    · rintro s e s' rfl -
      exact hsame
  exact hkeep.snd rfl

/-- A platform tenant asks, for a tenant that exists. -/
def Dissociates (db : Db) (actorTenantId targetTenantId : String) : Prop :=
  (TenantRepository.get db actorTenantId).any (·.type == .platform) = true ∧
    (TenantRepository.get db targetTenantId).isSome = true

instance (actorTenantId targetTenantId : String) :
    Decidable (Dissociates db actorTenantId targetTenantId) :=
  inferInstanceAs (Decidable (_ ∧ _))

theorem contains_eraseDups (ids : List String) (id : String) :
    ids.eraseDups.contains id = ids.contains id := by
  rw [Bool.eq_iff_iff, List.contains_iff_mem, List.contains_iff_mem, List.mem_eraseDups]

/-- **Disassociating roles** deletes their rows, when the request is allowed. -/
theorem DisassociateRolesFromTenant.execute_snd (actorTenantId targetTenantId : String)
    (roleIds : List String) : (execute actorTenantId targetTenantId roleIds db).2 =
      if Dissociates db actorTenantId targetTenantId then
        { db with
          roleTenants := db.roleTenants.filter fun rt =>
            !(roleIds.contains rt.roleId && rt.tenantId == targetTenantId) }
      else db := by
  unfold execute
  rcases (TenantApi.settles_isPlatformTenant db actorTenantId).bind_cases fun isPlatformActor =>
      if isPlatformActor = false then Effect.throw .cannotManageRoleTenant
      else do
        TenantApi.validate targetTenantId
        RoleTenantRepository.disassociateRoles roleIds.eraseDups targetTenantId with
    ⟨-, b, hb, hrun⟩ | ⟨hactor, e, hrun⟩
  case inr =>
    rw [transaction_of_error hrun, if_neg]
    rintro ⟨hplatform, -⟩
    rw [Option.not_isSome_iff_eq_none.mp hactor] at hplatform
    exact nomatch hplatform
  by_cases hplatform : b = false
  · rw [if_pos hplatform] at hrun
    rw [transaction_of_error hrun, if_neg]
    rintro ⟨hactor, -⟩
    rw [← hb, hplatform] at hactor
    exact nomatch hactor
  · rw [if_neg hplatform] at hrun
    rcases (TenantApi.settles_validate db targetTenantId).bind_cases fun _ =>
        RoleTenantRepository.disassociateRoles roleIds.eraseDups targetTenantId with
      ⟨htarget, -, -, hrun'⟩ | ⟨htarget, e, hrun'⟩
    · rw [transaction_of_ok (hrun.trans (hrun'.trans (change_of_ok rfl))),
        if_pos ⟨hb ▸ (Bool.not_eq_false _).mp hplatform, htarget⟩]
      simp only [contains_eraseDups]
    · rw [transaction_of_error (hrun.trans hrun'), if_neg]
      exact fun h => htarget h.2

end Neltrik.Authorization
