import Neltrik.Prisma.Where

/-! # The scope of the tenant client

`PrismaService.tenantClient` puts the tenant and the user of the request into the `where` of every
operation but `create` and `upsert`. It spreads its conditions over the object of the caller, so a
condition of the caller under the same key is lost; and it scopes two models by a column they do not
have.

`conjoined_iff`: the rows that are selected are those in the scope that meet the `where` of the
caller, and no foreign field is named, exactly when every lost condition is implied by what is left
(`Spread.implied`) and the model is not one of the two (`Spread.columns`). -/

namespace Neltrik.Prisma

/-! ## The schema -/

/-- The models of `schema.prisma`. -/
inductive Model where
  | vacancy | tenant | invitation | user | role | permission | rolePermission | roleTenant
  | tenantRoleConfiguration | authenticationAccount | authenticationSession | emailVerification
  | passwordReset | auditEvent | file | fileQuota | notification | notificationTemplate
  | notificationPreference | outbox
  deriving DecidableEq, Repr

/-- The fields of a model, its relations included. -/
def Model.fields : Model → List String
  | vacancy => ["id", "title", "description", "tenantId", "recruiterId", "employmentType", "workMode",
      "closingDate", "status", "salary", "location", "createdAt", "updatedAt", "deletedAt", "tenant"]
  | tenant => ["id", "name", "slug", "type", "status", "version", "createdAt", "updatedAt",
      "suspendedAt", "vacancies", "users", "roleConfigurations", "roleTenants", "invitations"]
  | invitation => ["id", "tenantId", "roleId", "recipient", "mechanism", "token", "expiresAt", "status",
      "usedAt", "revokedAt", "createdAt", "updatedAt", "tenant"]
  | user => ["id", "firstName", "lastName", "email", "tenantId", "roleId", "status", "version",
      "createdAt", "updatedAt", "suspendedAt", "tenant", "ownedSessions"]
  | role => ["id", "code", "defaultDisplayName", "description", "scope", "version", "createdAt",
      "updatedAt", "permissions", "tenantConfigurations", "rolePermissions", "roleTenants"]
  | permission => ["id", "code", "description", "scope", "createdAt", "updatedAt", "roles",
      "rolePermissions"]
  | rolePermission => ["id", "roleId", "permissionId", "createdAt", "updatedAt", "role", "permission"]
  | roleTenant => ["id", "roleId", "tenantId", "createdAt", "updatedAt", "role", "tenant"]
  | tenantRoleConfiguration => ["id", "tenantId", "roleId", "displayName", "version", "createdAt",
      "updatedAt", "tenant", "role"]
  | authenticationAccount => ["id", "userId", "provider", "email", "emailVerified", "passwordHash",
      "createdAt", "updatedAt", "sessions", "emailVerifications", "passwordResets"]
  | authenticationSession => ["id", "authenticationAccountId", "ownerId", "refreshTokenHash",
      "expiresAt", "refreshTokenExpiresAt", "revokedAt", "lastUsedAt", "ipAddress", "userAgent",
      "createdAt", "updatedAt", "authenticationAccount", "owner"]
  | emailVerification => ["id", "authenticationAccountId", "email", "tokenHash", "expiresAt",
      "verifiedAt", "createdAt", "updatedAt", "authenticationAccount"]
  | passwordReset => ["id", "authenticationAccountId", "tokenHash", "expiresAt", "usedAt", "createdAt",
      "updatedAt", "authenticationAccount"]
  | auditEvent => ["id", "userId", "userEmail", "tenantId", "action", "resource", "resourceId",
      "metadata", "ipAddress", "userAgent", "status", "createdAt"]
  | file => ["id", "tenantId", "ownerId", "name", "extension", "mimeType", "size", "purpose", "status",
      "resourceType", "resourceId", "versions", "version", "createdAt", "updatedAt", "deletedAt"]
  | fileQuota => ["id", "tenantId", "limitBytes", "usedBytes", "createdAt", "updatedAt"]
  | notification => ["id", "tenantId", "recipientId", "recipientEmail", "code", "status", "channels",
      "payload", "locale", "attempts", "lastError", "sentAt", "readAt", "createdAt", "updatedAt"]
  | notificationTemplate => ["id", "tenantId", "code", "channel", "locale", "subject", "body",
      "isActive", "version", "createdAt", "updatedAt"]
  | notificationPreference => ["id", "tenantId", "ownerId", "channel", "category", "enabled", "version",
      "createdAt", "updatedAt"]
  | outbox => ["id", "eventType", "payload", "status", "attempts", "lastError", "createdAt",
      "updatedAt", "processedAt"]

/-! ## The scope of a request -/

/-- `TENANT_MODELS`. -/
def tenantModels : List Model :=
  [.user, .role, .permission, .tenantRoleConfiguration, .invitation, .auditEvent, .file, .fileQuota,
    .notification, .notificationPreference]

/-- `TENANT_MODELS_WITH_GLOBAL`. -/
def tenantModelsWithGlobal : List Model := [.notificationTemplate]

/-- `OWNERSHIP_MODELS`. -/
def ownershipModels : List Model := [.authenticationSession, .notificationPreference]

/-- `TenantContext`, which a request carries. -/
structure TenantContext where
  tenantId : Option String
  userId : Option String
  isPlatformAdmin : Bool
  deriving DecidableEq

/-- `TenantContextService`; outside of a request there is no store. -/
def getCurrentTenant (store : Option TenantContext) : Option String := store.bind (·.tenantId)

/-- The acting user, if there is one. -/
def getCurrentUserId (store : Option TenantContext) : Option String := store.bind (·.userId)

/-- There is no platform admin outside of a request. -/
def isPlatformAdmin (store : Option TenantContext) : Bool := store.elim false (·.isPlatformAdmin)

/-- A string counts as true when it is not empty. -/
def truthy (s : Option String) : Option String := s.filter (· != "")

/-- What a query is filtered by. -/
structure ScopeFilter where
  tenantId : Option String
  tenantIdWithGlobal : Option String
  ownerId : Option String
  deriving DecidableEq

/-- `resolveScope`. -/
def resolveScope (model : Model) (tenantId userId : Option String) : ScopeFilter :=
  { tenantId := if tenantModels.contains model then truthy tenantId else none
    tenantIdWithGlobal := if tenantModelsWithGlobal.contains model then truthy tenantId else none
    ownerId := if ownershipModels.contains model then truthy userId else none }

/-- There is something to filter by. -/
def hasScope (filter : ScopeFilter) : Bool :=
  filter.tenantId.isSome || filter.tenantIdWithGlobal.isSome || filter.ownerId.isSome

section
variable {ν : Type}

/-- The filter `{ [name]: s }`. -/
def equals (s : String) : Value ν → Bool
  | .string s' => s' == s
  | _ => false

/-- The filter `{ [name]: null }`. -/
def isNull : Value ν → Bool
  | .null => true
  | _ => false

/-- The rows of the tenant. -/
def tenantCondition (tenantId : String) : Condition ν := .field "tenantId" (equals tenantId)

/-- The rows of the tenant and the global ones. -/
def tenantWithGlobalCondition (tenantId : String) : Condition ν :=
  .OR [[.field "tenantId" (equals tenantId)], [.field "tenantId" isNull]]

/-- The rows of the owner. -/
def ownerCondition (ownerId : String) : Condition ν := .field "ownerId" (equals ownerId)

/-- `applyTenantFilter`. -/
def applyTenantFilter (w : Where ν) (tenantId : String) : Where ν := w.set (tenantCondition tenantId)

/-- `applyTenantWithGlobalFilter`. -/
def applyTenantWithGlobalFilter (w : Where ν) (tenantId : String) : Where ν :=
  w.set (tenantWithGlobalCondition tenantId)

/-- `applyOwnerFilter`. -/
def applyOwnerFilter (w : Where ν) (ownerId : String) : Where ν := w.set (ownerCondition ownerId)

/-- `buildWhere`; what `resolveScope` has set is not empty. -/
def buildWhere (w : Where ν) (filter : ScopeFilter) : Where ν :=
  let w := filter.tenantId.elim w (applyTenantFilter w)
  let w := filter.tenantIdWithGlobal.elim w (applyTenantWithGlobalFilter w)
  filter.ownerId.elim w (applyOwnerFilter w)

/-- The operations of a Prisma model. -/
inductive Operation where
  | findUnique | findUniqueOrThrow | findFirst | findFirstOrThrow | findMany | create | createMany
  | createManyAndReturn | update | updateMany | updateManyAndReturn | upsert | delete | deleteMany
  | aggregate | groupBy | count
  deriving DecidableEq, Repr

/-- `isWriteOperation`. -/
def isWriteOperation (operation : Operation) : Bool := operation == .create || operation == .upsert

/-- `$allOperations`: the `where` that is passed on. -/
def allOperations (store : Option TenantContext) (model : Model) (operation : Operation)
    (args : Option (Where ν)) : Option (Where ν) :=
  if isPlatformAdmin store then args
  else if isWriteOperation operation then args
  else
    let filter := resolveScope model (getCurrentTenant store) (getCurrentUserId store)
    if hasScope filter then some (buildWhere (args.getD []) filter) else args

/-- The rows a `where` selects; without one, all. -/
def select (args : Option (Where ν)) (db : List (Row ν)) : List (Row ν) :=
  db.filter fun row => Where.holds row (args.getD [])

/-! ## What the scope is to do -/

/-- The scope of a model for a tenant and a user, each possibly absent. -/
def inScope (model : Model) (tenantId userId : Option String) (row : Row ν) : Bool :=
  (!tenantModels.contains model || tenantId.all fun t => equals t (row "tenantId")) &&
  (!tenantModelsWithGlobal.contains model ||
    tenantId.all fun t => equals t (row "tenantId") || isNull (row "tenantId")) &&
  (!ownershipModels.contains model || userId.all fun u => equals u (row "ownerId"))

/-- The scope of a request. -/
def requestScope (store : Option TenantContext) (model : Model) : Row ν → Bool :=
  inScope model (truthy (getCurrentTenant store)) (truthy (getCurrentUserId store))

/-- The `where` that is passed on is the one of the caller and the scope. -/
structure Conjoined (store : Option TenantContext) (model : Model) (operation : Operation)
    (args : Option (Where ν)) (db : List (Row ν)) : Prop where
  rows : select (allOperations store model operation args) db =
    (select args db).filter (requestScope store model)
  fields : Where.fields (args.getD []) ⊆ model.fields →
    Where.fields ((allOperations store model operation args).getD []) ⊆ model.fields

/-- The conditions of a filter. -/
def scopeConditions (filter : ScopeFilter) : Where ν :=
  filter.tenantId.toList.map tenantCondition ++
    filter.tenantIdWithGlobal.toList.map tenantWithGlobalCondition ++
    filter.ownerId.toList.map ownerCondition

/-- The conditions the scope of a request spreads over the object of the caller. -/
def requestConditions (store : Option TenantContext) (model : Model) : Where ν :=
  scopeConditions (resolveScope model (getCurrentTenant store) (getCurrentUserId store))

/-- When the spread does no harm: the tenant is not put into a model without a tenant, and the rows
of the scope that meet the conditions of the caller that are left meet the lost ones as well. -/
structure Spread (store : Option TenantContext) (model : Model) (args : Option (Where ν))
    (db : List (Row ν)) : Prop where
  columns : (truthy (getCurrentTenant store) = none ∨ model ≠ .role ∧ model ≠ .permission) ∨
    ¬ Where.fields (args.getD []) ⊆ model.fields
  implied : ∀ row ∈ db, requestScope store model row = true →
    Where.holds row (Where.kept (args.getD []) (requestConditions store model)) = true →
    Where.holds row (Where.replaced (args.getD []) (requestConditions store model)) = true

/-! ## The spread -/

theorem buildWhere_eq_foldl (w : Where ν) (filter : ScopeFilter) :
    buildWhere w filter = (scopeConditions filter).foldl Where.set w := by
  obtain ⟨tenantId, tenantIdWithGlobal, ownerId⟩ := filter
  cases tenantId <;> cases tenantIdWithGlobal <;> cases ownerId <;> rfl

theorem nodup_scopeConditions (filter : ScopeFilter) :
    ((scopeConditions filter : Where ν).map Condition.key).Nodup := by
  obtain ⟨tenantId, tenantIdWithGlobal, ownerId⟩ := filter
  cases tenantId <;> cases tenantIdWithGlobal <;> cases ownerId <;>
    simp [scopeConditions, tenantCondition, tenantWithGlobalCondition, ownerCondition, Condition.key]

theorem holds_tenantCondition (row : Row ν) (t : String) :
    (tenantCondition t).holds row = equals t (row "tenantId") := by
  rw [tenantCondition, Condition.holds]

theorem holds_tenantWithGlobalCondition (row : Row ν) (t : String) :
    (tenantWithGlobalCondition t).holds row =
      (equals t (row "tenantId") || isNull (row "tenantId")) := by
  simp [tenantWithGlobalCondition, Condition.holds, holdsAny, Where.holds]

theorem holds_ownerCondition (row : Row ν) (u : String) :
    (ownerCondition u).holds row = equals u (row "ownerId") := by
  rw [ownerCondition, Condition.holds]

/-- The conditions say what the scope is to be. -/
theorem holds_requestConditions (store : Option TenantContext) (model : Model) (row : Row ν) :
    Where.holds row (requestConditions store model) = requestScope store model row := by
  have hopt : ∀ (o : Option String) (c : String → Condition ν),
      Where.holds row (o.toList.map c) = o.all fun s => (c s).holds row := by
    intro o c
    rw [Where.holds_eq_all]
    cases o <;> simp
  have hif : ∀ (b : Bool) (o : Option String) (p : String → Bool),
      (if b = true then o else none).all p = (!b || o.all p) := by
    intro b o p
    cases b <;> rfl
  rw [requestConditions, scopeConditions, Where.holds_append, Where.holds_append, hopt, hopt, hopt,
    resolveScope]
  simp only [hif, holds_tenantCondition, holds_tenantWithGlobalCondition, holds_ownerCondition]
  rfl

variable {store : Option TenantContext} {model : Model} {operation : Operation}
  {args : Option (Where ν)} {db : List (Row ν)}

/-- The scope has conditions on the tenant and on the owner only. -/
theorem key_notMem_requestConditions {key : String} (h : key ∉ ["tenantId", "OR", "ownerId"]) :
    key ∉ (requestConditions store model : Where ν).map Condition.key := by
  intro hkey
  obtain ⟨c, hc, rfl⟩ := List.mem_map.mp hkey
  unfold requestConditions scopeConditions at hc
  rw [List.mem_append, List.mem_append] at hc
  rcases hc with (hc | hc) | hc
  · obtain ⟨t, -, rfl⟩ := List.mem_map.mp hc
    exact h (by simp [tenantCondition, Condition.key])
  · obtain ⟨t, -, rfl⟩ := List.mem_map.mp hc
    exact h (by simp [tenantWithGlobalCondition, Condition.key])
  · obtain ⟨u, -, rfl⟩ := List.mem_map.mp hc
    exact h (by simp [ownerCondition, Condition.key])

theorem scopeConditions_of_not_hasScope {filter : ScopeFilter} (h : hasScope filter = false) :
    (scopeConditions filter : Where ν) = [] := by
  simp only [hasScope, Bool.or_eq_false_iff, Option.isSome_eq_false_iff, Option.isNone_iff_eq_none] at h
  rw [scopeConditions, h.1.1, h.1.2, h.2]
  rfl

/-- **The `where` that is passed on**: what is left of the caller's, then the scope. -/
theorem allOperations_eq (hadmin : isPlatformAdmin store = false)
    (hop : isWriteOperation operation = false) :
    (allOperations store model operation args).getD [] =
      Where.kept (args.getD []) (requestConditions store model) ++ requestConditions store model := by
  rw [allOperations, hadmin, hop, requestConditions]
  simp only [Bool.false_eq_true, if_false]
  by_cases hs : hasScope (resolveScope model (getCurrentTenant store) (getCurrentUserId store)) = true
  · rw [if_pos hs, Option.getD_some, buildWhere_eq_foldl, Where.foldl_set (nodup_scopeConditions _)]
  · rw [if_neg hs, scopeConditions_of_not_hasScope ((Bool.not_eq_true _).mp hs)]
    simp [Where.kept]

/-- **A query that the scope has no key of** keeps its conditions, and the scope is added. -/
theorem holds_allOperations {row : Row ν} {w : Where ν} (hop : isWriteOperation operation = false)
    (hw : ∀ c ∈ w, c.key ∉ (requestConditions store model : Where ν).map Condition.key) :
    Where.holds row ((allOperations store model operation (some w)).getD []) =
      (Where.holds row w && (isPlatformAdmin store || requestScope store model row)) := by
  by_cases hadmin : isPlatformAdmin store = true
  · rw [allOperations, if_pos hadmin, hadmin, Bool.true_or, Bool.and_true, Option.getD_some]
  · have hkept : w.kept (requestConditions store model) = w :=
      List.filter_eq_self.mpr fun c hc => by simpa using hw c hc
    rw [Bool.not_eq_true] at hadmin
    rw [allOperations_eq hadmin hop, Option.getD_some, hkept, Where.holds_append, holds_requestConditions,
      hadmin, Bool.false_or]

/-- A condition of the caller counts when the scope has none under its key. -/
theorem holds_of_allOperations {row : Row ν} {w : Where ν} {c : Condition ν}
    (hop : isWriteOperation operation = false)
    (h : Where.holds row ((allOperations store model operation (some w)).getD []) = true) (hc : c ∈ w)
    (hkey : c.key ∉ (requestConditions store model : Where ν).map Condition.key) :
    c.holds row = true := by
  by_cases hadmin : isPlatformAdmin store = true
  · rw [allOperations, if_pos hadmin, Option.getD_some, Where.holds_eq_all, List.all_eq_true] at h
    exact h c hc
  · rw [allOperations_eq ((Bool.not_eq_true _).mp hadmin) hop, Where.holds_append, Bool.and_eq_true,
      Where.holds_eq_all, List.all_eq_true] at h
    refine h.1 c (List.mem_filter.mpr ⟨hc, ?_⟩)
    simpa using hkey

/-- The models that are scoped by a tenant they do not have. -/
theorem fields_requestConditions_subset_iff :
    Where.fields (requestConditions store model : Where ν) ⊆ model.fields ↔
      truthy (getCurrentTenant store) = none ∨ model ≠ .role ∧ model ≠ .permission := by
  have hfields : ∀ (filter : ScopeFilter), Where.fields (scopeConditions filter : Where ν) =
      filter.tenantId.toList.flatMap (fun _ => ["tenantId"]) ++
        filter.tenantIdWithGlobal.toList.flatMap (fun _ => ["tenantId", "tenantId"]) ++
        filter.ownerId.toList.flatMap (fun _ => ["ownerId"]) := by
    intro filter
    rw [Where.fields_eq_flatMap, scopeConditions, List.flatMap_append, List.flatMap_append,
      List.flatMap_map, List.flatMap_map, List.flatMap_map]
    rfl
  rw [requestConditions, hfields, resolveScope]
  rcases truthy (getCurrentTenant store) with _ | t <;>
    rcases truthy (getCurrentUserId store) with _ | u <;> cases model <;> simp [tenantModels,
      tenantModelsWithGlobal, ownershipModels, Model.fields]

theorem filter_eq_filter_iff {α : Type*} {p q : α → Bool} {l : List α} :
    l.filter p = l.filter q ↔ ∀ a ∈ l, p a = q a := by
  refine ⟨fun h a ha => ?_, List.filter_congr⟩
  have hmem : a ∈ l.filter p ↔ a ∈ l.filter q := by rw [h]
  simpa [ha, ← Bool.eq_iff_iff] using hmem

/-- The rows that are selected differ where a lost condition would have counted. -/
theorem rows_iff (hadmin : isPlatformAdmin store = false) (hop : isWriteOperation operation = false) :
    select (allOperations store model operation args) db =
        (select args db).filter (requestScope store model) ↔
      ∀ row ∈ db, requestScope store model row = true →
        Where.holds row (Where.kept (args.getD []) (requestConditions store model)) = true →
        Where.holds row (Where.replaced (args.getD []) (requestConditions store model)) = true := by
  have hrow : ∀ scope kept replaced : Bool,
      (kept && scope) = (scope && (kept && replaced)) ↔ (scope = true → kept = true → replaced = true) := by
    decide
  rw [select, select, List.filter_filter, filter_eq_filter_iff]
  refine forall₂_congr fun row _ => ?_
  rw [allOperations_eq hadmin hop, Where.holds_append, holds_requestConditions,
    Where.holds_kept_replaced row (args.getD []) (requestConditions store model), hrow]

theorem fields_iff (hadmin : isPlatformAdmin store = false) (hop : isWriteOperation operation = false) :
    (Where.fields (args.getD []) ⊆ model.fields →
        Where.fields ((allOperations store model operation args).getD []) ⊆ model.fields) ↔
      (truthy (getCurrentTenant store) = none ∨ model ≠ .role ∧ model ≠ .permission) ∨
        ¬ Where.fields (args.getD []) ⊆ model.fields := by
  have hkept : ∀ cs, Where.fields (Where.kept (args.getD []) cs) ⊆ Where.fields (args.getD []) := by
    intro cs name hn
    rw [Where.fields_eq_flatMap, List.mem_flatMap] at hn ⊢
    obtain ⟨c, hc, hname⟩ := hn
    exact ⟨c, (List.mem_filter.mp hc).1, hname⟩
  rw [← @fields_requestConditions_subset_iff ν store model, allOperations_eq hadmin hop,
    Where.fields_append, List.append_subset]
  constructor
  · intro h
    by_cases hf : Where.fields (args.getD []) ⊆ model.fields
    · exact Or.inl (h hf).2
    · exact Or.inr hf
  · rintro (h | h) hf
    · exact ⟨List.Subset.trans (hkept _) hf, h⟩
    · exact absurd hf h

/-- **The scope is a conjunction exactly when** the spread does no harm. -/
theorem conjoined_iff (hadmin : isPlatformAdmin store = false)
    (hop : isWriteOperation operation = false) :
    Conjoined store model operation args db ↔ Spread store model args db := by
  constructor
  · rintro ⟨hr, hf⟩
    exact ⟨(fields_iff hadmin hop).mp hf, (rows_iff hadmin hop).mp hr⟩
  · rintro ⟨hc, hi⟩
    exact ⟨(rows_iff hadmin hop).mpr hi, (fields_iff hadmin hop).mpr hc⟩

end

/-! ## Requests of a tenant -/

/-- A user `u` of the tenant `t`. -/
def tenantUser : Option TenantContext :=
  some { tenantId := some "t", userId := some "u", isPlatformAdmin := false }

/-- A file of a tenant. -/
def fileRow (id tenantId : String) : Row Empty
  | "id" => .string id
  | "tenantId" => .string tenantId
  | _ => .null

theorem conjoined_iff_file :
    Conjoined tenantUser .file .findUnique (some [.field "id" (equals "f")])
        [fileRow "f" "t", fileRow "f" "s", fileRow "g" "t"] ∧
      Spread tenantUser .file (some [.field "id" (equals "f")])
        [fileRow "f" "t", fileRow "f" "s", fileRow "g" "t"] := by
  have hspread : Spread tenantUser .file (some [.field "id" (equals "f")])
      [fileRow "f" "t", fileRow "f" "s", fileRow "g" "t"] :=
    { columns := Or.inl (Or.inr ⟨nofun, nofun⟩), implied := by decide }
  exact ⟨(conjoined_iff rfl rfl).mpr hspread, hspread⟩

/-- A preference of a user of the tenant `t`. -/
def preferenceRow (id ownerId : String) : Row Empty
  | "id" => .string id
  | "tenantId" => .string "t"
  | "ownerId" => .string ownerId
  | _ => .null

/-- Listing the roles names a field that a role does not have, and looking for the preferences of
another user finds the own ones. -/
theorem not_conjoined :
    ¬ (∀ (ν : Type) (store : Option TenantContext) (model : Model) (operation : Operation)
      (args : Option (Where ν)) (db : List (Row ν)), isPlatformAdmin store = false →
      isWriteOperation operation = false → Conjoined store model operation args db) ∧
    ¬ Conjoined tenantUser .role .findMany (none : Option (Where Empty)) [] ∧
    ¬ Conjoined tenantUser .notificationPreference .findFirst (some [.field "ownerId" (equals "v")])
      [preferenceRow "p" "u", preferenceRow "q" "v"] := by
  have hrole : ¬ Conjoined tenantUser .role .findMany (none : Option (Where Empty)) [] := by
    intro h
    have hf := h.fields (List.nil_subset _)
    revert hf
    decide
  have hpreference : ¬ Conjoined tenantUser .notificationPreference .findFirst
      (some [.field "ownerId" (equals "v")]) [preferenceRow "p" "u", preferenceRow "q" "v"] := by
    intro h
    have hlen := congrArg List.length h.rows
    revert hlen
    decide
  exact ⟨fun h => hrole (h _ _ _ _ _ _ rfl rfl), hrole, hpreference⟩

end Neltrik.Prisma
