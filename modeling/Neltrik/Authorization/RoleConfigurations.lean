import Neltrik.Authorization.RoleTenants
import Neltrik.Authorization.Escalation

/-! # Configurations of the roles of a tenant

The table `tenant_role_configurations` and the use cases that write it, beside those that associate
roles with tenants. `scope` is the tenant of the request, `none` for a platform admin: the tenant client
filters the configurations by it, and the lookup of a role throws within one, so within one no
configuration is created and no role associated.

A configuration is for a role that the tenant has been given, the documents say. Creating one asks
for the tenant and the role, each on its own, and disassociating a role leaves its configurations:
`configurations_based_iff` says when every configuration has its association nevertheless. -/

namespace Neltrik.Authorization.RoleConfigurations

open Neltrik.Lib Neltrik.Lib.Effect Neltrik.Lib.Machine Neltrik.Shared

/-- A row of `tenant_role_configurations`; its name is a `DisplayName`. -/
structure TenantRoleConfiguration where
  id : String
  tenantId : String
  roleId : String
  displayName : String
  version : ℕ
  createdAt : ℕ
  updatedAt : ℕ
  deriving DecidableEq

/-- The text without its surrounding spaces, which has to be there and fit its column. -/
def DisplayName.create (value : String) : Except AccessError String :=
  let normalizedValue := trim value
  if normalizedValue = "" then .error .emptyDisplayName
  else if 100 < codeUnits normalizedValue then .error .displayNameTooLong
  else .ok normalizedValue

namespace TenantRoleConfiguration

/-- A new entity. -/
def create (c : TenantRoleConfiguration) : TenantRoleConfiguration := { c with version := 0 }

/-- A new name. -/
def update (c : TenantRoleConfiguration) (displayName : String) (now : ℕ) : TenantRoleConfiguration :=
  { c with displayName, updatedAt := now }

end TenantRoleConfiguration

/-- The tables of the rights and the configurations. -/
structure Store where
  db : Db
  configurations : List TenantRoleConfiguration

/-- A use case, or one of its calls, on these tables. -/
abbrev Action := Effect Store AccessError

/-- A call that does not touch the configurations. -/
def onDb {α : Type} (m : UseCase α) : Action α := fun s => ((m s.db).1, { s with db := (m s.db).2 })

/-! ## The repository -/

namespace TenantRoleConfigurationRepository

/-- The condition that the tenant client adds. -/
def inScope (scope : Option String) (c : TenantRoleConfiguration) : Bool := scope.all (· == c.tenantId)

/-- `findUnique` by the id, in the scope. -/
def get (s : Store) (scope : Option String) (id : String) : Option TenantRoleConfiguration :=
  s.configurations.find? fun c => c.id == id && inScope scope c

/-- `findUnique` by the tenant and the role, in the scope. -/
def findByTenantAndRole (s : Store) (scope : Option String) (tenantId roleId : String) :
    Option TenantRoleConfiguration :=
  s.configurations.find? fun c => c.tenantId == tenantId && c.roleId == roleId && inScope scope c

/-- A row with the id, or for the same tenant and role, is there. -/
def isTaken (s : Store) (c : TenantRoleConfiguration) : Bool :=
  s.configurations.any fun c' =>
    c'.id == c.id || (c'.tenantId == c.tenantId && c'.roleId == c.roleId)

/-- `create`, with the primary key, the unique pair and the foreign keys. -/
def create (c : TenantRoleConfiguration) : Action Unit :=
  Effect.change fun s =>
    if isTaken s c then .error .uniqueViolation
    else if (TenantRepository.get s.db c.tenantId).isSome && (RoleRepository.row s.db c.roleId).isSome then
      .ok { s with configurations := c :: s.configurations }
    else .error .foreignKeyViolation

theorem create_of_isTaken {s : Store} {c : TenantRoleConfiguration} (h : isTaken s c = true) :
    create c s = (.error .uniqueViolation, s) :=
  change_of_error (if_pos h)

theorem create_of_free {s : Store} {c : TenantRoleConfiguration} (h : isTaken s c ≠ true)
    (ht : (TenantRepository.get s.db c.tenantId).isSome = true)
    (hr : (RoleRepository.row s.db c.roleId).isSome = true) :
    create c s = (.ok (), { s with configurations := c :: s.configurations }) :=
  change_of_ok ((if_neg h).trans (if_pos (Bool.and_eq_true_iff.mpr ⟨ht, hr⟩)))

/-- The row an update writes. -/
def bump (c : TenantRoleConfiguration) : TenantRoleConfiguration := { c with version := c.version + 1 }

/-- The rows of `updateMany`: the one of the id, in the version that has been read and in the scope. -/
def selects (scope : Option String) (c c' : TenantRoleConfiguration) : Bool :=
  OptimisticLock.matching (·.id) (·.version) c c' && inScope scope c'

/-- `updateMany`, which has to find a row. -/
def update (scope : Option String) (c : TenantRoleConfiguration) : Action Unit :=
  Effect.change fun s =>
    if s.configurations.any (selects scope c) then
      .ok { s with
        configurations := Table.updateWhere (selects scope c) (fun _ => bump c) s.configurations }
    else .error .optimisticLock

theorem update_snd (scope : Option String) (c : TenantRoleConfiguration) (s : Store) :
    (update scope c s).2 = s ∨ (update scope c s).2 = { s with
      configurations := Table.updateWhere (selects scope c) (fun _ => bump c) s.configurations } := by
  by_cases h : s.configurations.any (selects scope c) = true
  · have hrun : update scope c s = (.ok (), _) := change_of_ok (if_pos h)
    rw [hrun]
    exact Or.inr rfl
  · have hrun : update scope c s = (.error .optimisticLock, s) := change_of_error (if_neg h)
    rw [hrun]
    exact Or.inl rfl

end TenantRoleConfigurationRepository

/-! ## The use cases -/

/-- `CreateTenantRoleConfigurationUseCase.execute`. -/
def CreateTenantRoleConfiguration.execute (scope : Option String) (tenantId roleId displayName : String)
    (id : String) (now : ℕ) : Action Unit := do
  onDb (TenantApi.validate tenantId)
  onDb (AuthorizationRoleApi.validate scope roleId)
  if (TenantRoleConfigurationRepository.findByTenantAndRole (← Effect.read) scope tenantId roleId).isSome
  then Effect.throw .tenantRoleConfigurationAlreadyExists
  else
    let displayName ← Effect.lift (DisplayName.create displayName)
    TenantRoleConfigurationRepository.create
      (.create { id, tenantId, roleId, displayName, version := 0, createdAt := now, updatedAt := now })

/-- The configuration, or an error when there is none. -/
def found (row : Option TenantRoleConfiguration) : Action TenantRoleConfiguration :=
  match row with
  | some configuration => return configuration
  | none => Effect.throw .tenantRoleConfigurationNotFound

/-- `UpdateTenantRoleConfigurationUseCase.execute`. -/
def UpdateTenantRoleConfiguration.execute (scope : Option String) (id displayName : String) (now : ℕ) :
    Action Unit := do
  let configuration ← found (TenantRoleConfigurationRepository.get (← Effect.read) scope id)
  let displayName ← Effect.lift (DisplayName.create displayName)
  TenantRoleConfigurationRepository.update scope (configuration.update displayName now)

/-- A use case with its input. -/
inductive Op where
  | associate (scope : Option String) (actorTenantId targetTenantId : String) (roleIds : List String)
  | disassociate (actorTenantId targetTenantId : String) (roleIds : List String)
  | create (scope : Option String) (tenantId roleId displayName : String) (id : String) (now : ℕ)
  | update (scope : Option String) (id displayName : String) (now : ℕ)

/-- The use case run on its input. -/
def Op.execute : Op → Action Unit
  | .associate scope actorTenantId targetTenantId roleIds =>
    onDb (AssociateRolesToTenant.execute scope actorTenantId targetTenantId roleIds)
  | .disassociate actorTenantId targetTenantId roleIds =>
    onDb (DisassociateRolesFromTenant.execute actorTenantId targetTenantId roleIds)
  | .create scope tenantId roleId displayName id now =>
    CreateTenantRoleConfiguration.execute scope tenantId roleId displayName id now
  | .update scope id displayName now => UpdateTenantRoleConfiguration.execute scope id displayName now

/-- The use case may throw. -/
def step (s : Store) (op : Op) : Option Store := some (op.execute s).2

/-! ## What the use cases write -/

/-- No tenant asks, the tenant, the role and the name are in order, and there is no such configuration yet. -/
structure Creates (s : Store) (scope : Option String) (tenantId roleId displayName id : String) : Prop where
  scope : scope = none
  tenant : (TenantRepository.get s.db tenantId).isSome = true
  role : (RoleRepository.row s.db roleId).isSome = true
  displayName : (DisplayName.create displayName).toOption.isSome = true
  free : ∀ c ∈ s.configurations, c.id ≠ id ∧ ¬ (c.tenantId = tenantId ∧ c.roleId = roleId)

/-- Each configuration has its association. -/
def Based (s : Store) : Prop := ∀ c ∈ s.configurations, ⟨c.roleId, c.tenantId⟩ ∈ s.db.roleTenants

section
variable {s : Store}

theorem settles_onDb {α : Type} {c : Prop} {m : UseCase α} {R : α → Prop} (h : Settles c m s.db R) :
    Settles c (onDb m) s R := by
  constructor
  · intro hc
    obtain ⟨a, ha, hR⟩ := h.ok hc
    exact ⟨a, by unfold onDb; rw [ha], hR⟩
  · intro hc
    obtain ⟨e, he⟩ := h.error hc
    exact ⟨e, by unfold onDb; rw [he]⟩

/-- **Creating a configuration** adds it when everything is in order, whatever roles the tenant has. -/
theorem CreateTenantRoleConfiguration.execute_cases (scope : Option String)
    (tenantId roleId displayName id : String) (now : ℕ) :
    (Creates s scope tenantId roleId displayName id ∧ ∃ c : TenantRoleConfiguration,
      c.tenantId = tenantId ∧ c.roleId = roleId ∧
      (execute scope tenantId roleId displayName id now s).2 =
        { s with configurations := c :: s.configurations }) ∨
    (¬ Creates s scope tenantId roleId displayName id ∧
      (execute scope tenantId roleId displayName id now s).2 = s) := by
  unfold execute
  rcases (settles_onDb (TenantApi.settles_validate s.db tenantId)).bind_cases _ with
    ⟨htenant, _, -, hrun⟩ | ⟨htenant, e, hrun⟩
  case inr => rw [hrun]; exact Or.inr ⟨fun h => htenant h.tenant, rfl⟩
  rw [hrun]
  rcases (settles_onDb (AuthorizationRoleApi.settles_validate s.db scope roleId)).bind_cases _ with
    ⟨⟨hscope, hrole⟩, _, -, hrun⟩ | ⟨hrole, e, hrun⟩
  case inr => rw [hrun]; exact Or.inr ⟨fun h => hrole ⟨h.scope, h.role⟩, rfl⟩
  rw [hrun]
  rw [read_bind]
  by_cases hfind :
      (TenantRoleConfigurationRepository.findByTenantAndRole s scope tenantId roleId).isSome = true
  · rw [if_pos hfind]
    refine Or.inr ⟨fun h => ?_, rfl⟩
    obtain ⟨c, hc⟩ := Option.isSome_iff_exists.mp hfind
    have hrow := List.find?_some hc
    simp only [Bool.and_eq_true, beq_iff_eq] at hrow
    exact (h.free c (List.mem_of_find?_eq_some hc)).2 hrow.1
  rw [if_neg hfind]
  rcases (Settles.lift (x := DisplayName.create displayName)).bind_cases _ with
    ⟨hname, name, -, hrun⟩ | ⟨hname, e, hrun⟩
  case inr => rw [hrun]; exact Or.inr ⟨fun h => hname h.displayName, rfl⟩
  rw [hrun]
  by_cases htaken : TenantRoleConfigurationRepository.isTaken s
      (.create ⟨id, tenantId, roleId, name, 0, now, now⟩) = true
  · rw [TenantRoleConfigurationRepository.create_of_isTaken htaken]
    refine Or.inr ⟨fun h => ?_, rfl⟩
    obtain ⟨c, hc, hkey⟩ := List.any_eq_true.mp htaken
    simp only [Bool.or_eq_true, Bool.and_eq_true, beq_iff_eq] at hkey
    rcases hkey with hid | hpair
    · exact (h.free c hc).1 hid
    · exact (h.free c hc).2 hpair
  · rw [TenantRoleConfigurationRepository.create_of_free htaken htenant hrole]
    refine Or.inl ⟨⟨hscope, htenant, hrole, hname, fun c hc => ?_⟩, _, rfl, rfl, rfl⟩
    by_contra hkey
    refine htaken (List.any_eq_true.mpr ⟨c, hc, ?_⟩)
    simp only [Bool.or_eq_true, Bool.and_eq_true, beq_iff_eq]
    by_cases hid : c.id = id
    · exact Or.inl hid
    · exact Or.inr (by_contra fun hpair => hkey ⟨hid, hpair⟩)

/-- **Updating a configuration** leaves its tenant and its role. -/
theorem UpdateTenantRoleConfiguration.execute_snd (scope : Option String) (id displayName : String)
    (now : ℕ) : ∃ rows, (execute scope id displayName now s).2 = { s with configurations := rows } ∧
      ∀ c ∈ rows, ∃ c₀ ∈ s.configurations, c₀.tenantId = c.tenantId ∧ c₀.roleId = c.roleId := by
  have hsame : ∃ rows, s = { s with configurations := rows } ∧ ∀ c ∈ rows, ∃ c₀ ∈ s.configurations,
      c₀.tenantId = c.tenantId ∧ c₀.roleId = c.roleId := ⟨_, rfl, fun c hc => ⟨c, hc, rfl, rfl⟩⟩
  unfold execute
  rw [read_bind]
  cases hget : TenantRoleConfigurationRepository.get s scope id with
  | none => exact hsame
  | some c =>
    rw [bind_of_ok (show found (some c) s = (.ok c, s) from rfl)]
    rcases (Settles.lift (x := DisplayName.create displayName)).bind_cases _ with
      ⟨-, name, -, hrun⟩ | ⟨-, e, hrun⟩
    case inr => rw [hrun]; exact hsame
    rw [hrun]
    rcases TenantRoleConfigurationRepository.update_snd scope (c.update name now) s with hs | hs
    · rw [hs]
      exact hsame
    · rw [hs]
      refine ⟨_, rfl, fun c' hc' => ?_⟩
      rcases Table.mem_updateWhere.mp hc' with ⟨-, -, -, rfl⟩ | ⟨hc', -⟩
      · exact ⟨c, List.mem_of_find?_eq_some hget, rfl, rfl⟩
      · exact ⟨c', hc', rfl, rfl⟩

/-! ## The rule of the documents -/

/-- The associations with the target tenant that a request withdraws have no configuration, and a
configuration that is created has its association. -/
def Respects (s : Store) : Op → Prop
  | .disassociate actorTenantId targetTenantId roleIds =>
    Dissociates s.db actorTenantId targetTenantId →
      ∀ c ∈ s.configurations, c.tenantId = targetTenantId → c.roleId ∉ roleIds
  | .create scope tenantId roleId displayName id _ =>
    Creates s scope tenantId roleId displayName id → ⟨roleId, tenantId⟩ ∈ s.db.roleTenants
  | _ => True

/-- **One use case** keeps the associations of the configurations exactly when it respects them. -/
theorem based_step_iff {s' : Store} {op : Op} (hs : Based s) (h : step s op = some s') :
    Based s' ↔ Respects s op := by
  obtain rfl := Option.some.inj h
  cases op with
  | associate scope actorTenantId targetTenantId roleIds =>
    refine iff_of_true ?_ trivial
    obtain ⟨new, hnew⟩ := AssociateRolesToTenant.execute_snd s.db scope actorTenantId targetTenantId roleIds
    intro c hc
    show _ ∈ (AssociateRolesToTenant.execute scope actorTenantId targetTenantId roleIds s.db).2.roleTenants
    rw [hnew]
    exact List.mem_append_left new (hs c hc)
  | disassociate actorTenantId targetTenantId roleIds =>
    show (∀ c ∈ s.configurations, _ ∈
      (DisassociateRolesFromTenant.execute actorTenantId targetTenantId roleIds s.db).2.roleTenants) ↔ _
    rw [DisassociateRolesFromTenant.execute_snd]
    by_cases hallowed : Dissociates s.db actorTenantId targetTenantId
    · rw [if_pos hallowed]
      show _ ↔ (_ → _)
      rw [imp_iff_right hallowed]
      refine forall₂_congr fun c hc => ?_
      rw [List.mem_filter, and_iff_right (hs c hc)]
      simp only [Bool.not_eq_true', Bool.and_eq_false_imp, List.contains_iff_mem, beq_eq_false_iff_ne, ne_eq]
      exact ⟨fun h ht hr => h hr ht, fun h hr ht => h ht hr⟩
    · rw [if_neg hallowed]
      exact iff_of_true hs fun h => absurd h hallowed
  | create scope tenantId roleId displayName id now =>
    show Based (CreateTenantRoleConfiguration.execute scope tenantId roleId displayName id now s).2 ↔ (_ → _)
    rcases CreateTenantRoleConfiguration.execute_cases (s := s) scope tenantId roleId displayName id now with
      ⟨hcreates, c, rfl, rfl, hrun⟩ | ⟨hcreates, hrun⟩
    · rw [hrun, imp_iff_right hcreates]
      exact ⟨fun h => h c List.mem_cons_self, fun h => List.forall_mem_cons.mpr ⟨h, hs⟩⟩
    · rw [hrun]
      exact iff_of_true hs fun h => absurd h hcreates
  | update scope id displayName now =>
    refine iff_of_true ?_ trivial
    obtain ⟨rows, hrows, hkeys⟩ := UpdateTenantRoleConfiguration.execute_snd (s := s) scope id displayName now
    show Based (UpdateTenantRoleConfiguration.execute scope id displayName now s).2
    rw [hrows]
    intro c hc
    obtain ⟨c₀, hc₀, htenant, hrole⟩ := hkeys c hc
    rw [← htenant, ← hrole]
    exact hs c₀ hc₀

/-- **Every configuration has its association** in every state of a run, exactly when every step of the
run respects the associations. -/
theorem configurations_based_iff (hs : Based s) (ops : List Op) :
    AllStates step Based s ops ↔ AllSteps step Respects s ops := by
  obtain ⟨s', hr⟩ : ∃ s', run step s ops = some s' := exists_run (fun _ _ => ⟨_, rfl⟩) s ops
  exact allStates_iff_allSteps (C := fun _ _ => True) (I := fun _ => True) (fun _ _ _ _ _ _ _ _ => trivial)
    (fun _ _ _ _ hb _ hstep => based_step_iff hb hstep) trivial hs
    (allSteps_of_forall (fun _ _ _ => trivial) s) hr

end

/-! ### A customer that has been given one role -/

section Example

/-- The customer of `seeded`, without configurations. -/
def configured : Store := { db := seeded, configurations := [] }

/-- Within its scope the customer cannot give its role a name; the platform can, and then the customer may change
it. -/
def namings : List Op :=
  [ .create (some "acme") "acme" "member" "Employee" "c0" 0,
    .create none "acme" "member" "Employee" "c1" 1,
    .update (some "acme") "c1" " Colleague " 2,
    .associate none "platform" "platform" ["member"] ]

theorem configurations_based_iff_namings :
    (run step configured namings).any (fun s =>
      s.configurations.map (fun c => (c.id, c.displayName, c.version)) == [("c1", "Colleague", 1)]) = true ∧
    (AllStates step Based configured namings ↔ AllSteps step Respects configured namings) :=
  ⟨by decide, configurations_based_iff (by unfold Based; decide) namings⟩

/-- The name of a role the customer does not have, and the role withdrawn from under its name. -/
theorem configuration_without_association :
    ¬ (∀ s : Store, Based s → ∀ ops, AllStates step Based s ops) ∧
    (run step configured [.create none "acme" "admin" "Boss" "c1" 1]).any (fun s =>
      s.configurations.any fun c => !s.db.roleTenants.contains ⟨c.roleId, c.tenantId⟩) = true ∧
    (run step configured [.create none "acme" "member" "Employee" "c1" 1,
      .disassociate "platform" "acme" ["member"]]).any (fun s =>
      s.configurations.any fun c => !s.db.roleTenants.contains ⟨c.roleId, c.tenantId⟩) = true := by
  refine ⟨fun hall => ?_, by decide, by decide⟩
  have hafter := (hall configured (by unfold Based; decide)
    [.create none "acme" "admin" "Boss" "c1" 1]).last rfl
  exact absurd hafter (by unfold Based; decide)

end Example

end Neltrik.Authorization.RoleConfigurations
