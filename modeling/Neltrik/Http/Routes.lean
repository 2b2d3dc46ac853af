import Neltrik.Audit.Events

/-! # Routes

The handlers of the controllers with the decorators that the guards read. No controller carries one of its own,
and no handler carries one twice. -/

namespace Neltrik.Http

open Neltrik.Shared (AuditMetadata)

/-- The method of a request. -/
inductive Method where
  | get | head | post | put | patch | delete
  deriving DecidableEq, Repr

/-- The decorators that guards and interceptors read. -/
inductive Decorator where
  | isPublic | skipEmailVerification | skipUserState | skipTenantState | publicPermission | skipSanitization
  | permissions (codes : List String)
  | audit (metadata : AuditMetadata)
  deriving DecidableEq

/-- A handler with its method, its path and its decorators. -/
structure Route where
  method : Method
  path : String
  handler : List Decorator
  controller : List Decorator
  deriving DecidableEq

/-- What `SetMetadata` has stored under the key of a flag. -/
def flag (d : Decorator) (decorators : List Decorator) : Option Bool :=
  if decorators.contains d then some true else none

/-- The metadata of `@Permissions`, if there is any. -/
def permissionsOf (decorators : List Decorator) : Option (List String) :=
  decorators.findSome? fun d =>
    match d with
    | .permissions codes => some codes
    | _ => none

/-- The metadata of `@Audit`, if there is any. -/
def auditOf (decorators : List Decorator) : Option AuditMetadata :=
  decorators.findSome? fun d =>
    match d with
    | .audit metadata => some metadata
    | _ => none

/-- `Reflector.getAllAndOverride` with the handler before the controller. -/
def getAllAndOverride {α : Type} (key : List Decorator → Option α) (route : Route) : Option α :=
  (key route.handler).or (key route.controller)

/-- A flag that is set counts. -/
def Route.has (route : Route) (d : Decorator) : Bool := getAllAndOverride (flag d) route == some true

/-- A handler of `GET` also gets the `HEAD` requests. -/
def Route.accepts (route : Route) (method : Method) : Bool :=
  method == route.method || (method == .head && route.method == .get)

/-! ## The controllers -/

/-- Decorators that handlers have in common. -/
def anyState : List Decorator := [.skipEmailVerification, .skipUserState, .skipTenantState, .publicPermission]

/-- `@Public` on a route that any state may enter. -/
def openToAll : List Decorator := .isPublic :: anyState

/-- The controllers of `audit`. -/
def auditRoutes : List Route :=
  [ ⟨.get, "audit-events", [.permissions ["AUDIT_LIST"]], []⟩,
    ⟨.get, "audit-events/:id", [.permissions ["AUDIT_LIST"]], []⟩ ]

/-- The controllers of `authentication`. -/
def authenticationRoutes : List Route :=
  [ ⟨.post, "auth/accounts", openToAll, []⟩,
    ⟨.get, "auth/accounts", [.permissions ["ACCOUNT_VIEW"]], []⟩,
    ⟨.post, "auth/login", openToAll, []⟩,
    ⟨.post, "auth/refresh", openToAll, []⟩,
    ⟨.post, "auth/logout", anyState, []⟩,
    ⟨.get, "auth/sessions", [.permissions ["SESSION_LIST"]], []⟩,
    ⟨.get, "auth/sessions/:id", [.permissions ["SESSION_VIEW"]], []⟩,
    ⟨.post, "auth/sessions/:id/revoke", [.permissions ["SESSION_REVOKE"]], []⟩,
    ⟨.post, "auth/sessions/revoke-all", [.permissions ["SESSION_REVOKE_ALL"]], []⟩,
    ⟨.post, "auth/email/verification", anyState, []⟩,
    ⟨.get, "auth/email/verification", openToAll, []⟩,
    ⟨.post, "auth/password/forgot", openToAll, []⟩,
    ⟨.post, "auth/password/reset", openToAll, []⟩ ]

/-- The controllers of `authorization`. -/
def authorizationRoutes : List Route :=
  [ ⟨.post, "permissions", [.permissions ["PERMISSION_CREATE"]], []⟩,
    ⟨.patch, "permissions/:id", [.permissions ["PERMISSION_UPDATE"]], []⟩,
    ⟨.get, "permissions", [.permissions ["PERMISSION_LIST"]], []⟩,
    ⟨.get, "permissions/check", [.permissions ["PERMISSION_VERIFY"]], []⟩,
    ⟨.post, "tenants/:tenantId/roles", [.permissions ["ROLE_TENANT_CREATE"]], []⟩,
    ⟨.delete, "tenants/:tenantId/roles", [.permissions ["ROLE_TENANT_DELETE"]], []⟩,
    ⟨.get, "tenants/:tenantId/roles", [.permissions ["ROLE_TENANT_LIST"]], []⟩,
    ⟨.post, "roles", [.permissions ["ROLE_CREATE"]], []⟩,
    ⟨.patch, "roles/:id", [.permissions ["ROLE_UPDATE"]], []⟩,
    ⟨.get, "roles", [.permissions ["ROLE_LIST"]], []⟩,
    ⟨.get, "roles/:id", [.permissions ["ROLE_GET"]], []⟩,
    ⟨.post, "roles/:id/permissions", [.permissions ["ROLE_ASSIGN_PERMISSIONS"]], []⟩,
    ⟨.delete, "roles/:id/permissions", [.permissions ["ROLE_REMOVE_PERMISSIONS"]], []⟩,
    ⟨.get, "roles/:id/permissions", [.permissions ["ROLE_VIEW_PERMISSIONS"]], []⟩,
    ⟨.post, "tenant-role-configurations", [.permissions ["TENANT_ROLE_CONFIGURATION_CREATE"]], []⟩,
    ⟨.patch, "tenant-role-configurations/:id", [.permissions ["TENANT_ROLE_CONFIGURATION_UPDATE"]], []⟩,
    ⟨.delete, "tenant-role-configurations/:id", [.permissions ["TENANT_ROLE_CONFIGURATION_DELETE"]], []⟩,
    ⟨.get, "tenant-role-configurations", [.permissions ["TENANT_ROLE_CONFIGURATION_LIST"]], []⟩ ]

/-- The controllers of `file-storage`. -/
def fileStorageRoutes : List Route :=
  [ ⟨.get, "file-storage/quota", [.publicPermission], []⟩,
    ⟨.patch, "file-storage/quota/:tenantId", [.permissions ["PLATFORM_FILE_QUOTA_UPDATE"]], []⟩,
    ⟨.post, "file-storage/files", [.permissions ["ADMIN_FILE_CREATE"]], []⟩,
    ⟨.get, "file-storage/files", [.permissions ["ADMIN_FILE_LIST"]], []⟩,
    ⟨.get, "file-storage/files/:fileId/download", [.permissions ["ADMIN_FILE_VIEW"]], []⟩,
    ⟨.get, "file-storage/files/:fileId", [.permissions ["ADMIN_FILE_VIEW"]], []⟩,
    ⟨.patch, "file-storage/files/:fileId/name", [.permissions ["ADMIN_FILE_UPDATE_METADATA"]], []⟩,
    ⟨.patch, "file-storage/files/:fileId/resource", [.permissions ["ADMIN_FILE_UPDATE_METADATA"]], []⟩,
    ⟨.put, "file-storage/files/:fileId", [.permissions ["ADMIN_FILE_UPDATE"]], []⟩,
    ⟨.delete, "file-storage/files/:fileId", [.permissions ["ADMIN_FILE_DELETE"]], []⟩ ]

/-- The controllers of `identity`. -/
def identityRoutes : List Route :=
  [ ⟨.patch, "users/:id", [.permissions ["USER_UPDATE"]], []⟩,
    ⟨.get, "users", [.permissions ["USER_LIST"]], []⟩,
    ⟨.patch, "users/:id/suspend", [.audit ⟨"USER_SUSPENDED", "USER"⟩, .permissions ["USER_SUSPEND"]], []⟩,
    ⟨.patch, "users/:id/reactivate", [.permissions ["USER_REACTIVATE"]], []⟩ ]

/-- The controllers of `notifications`. -/
def notificationsRoutes : List Route :=
  [ ⟨.post, "notifications/preferences", [.permissions ["NOTIFICATION_PREFERENCE_MANAGE"]], []⟩,
    ⟨.get, "notifications/preferences", [.permissions ["NOTIFICATION_PREFERENCE_MANAGE"]], []⟩,
    ⟨.get, "notifications/preferences/:id", [.permissions ["NOTIFICATION_PREFERENCE_MANAGE"]], []⟩,
    ⟨.patch, "notifications/preferences/:id", [.permissions ["NOTIFICATION_PREFERENCE_MANAGE"]], []⟩,
    ⟨.delete, "notifications/preferences/:id", [.permissions ["NOTIFICATION_PREFERENCE_MANAGE"]], []⟩,
    ⟨.post, "notifications/templates", [.skipSanitization, .permissions ["ADMIN_NOTIFICATION_TEMPLATE_CREATE"]], []⟩,
    ⟨.get, "notifications/templates/:id", [.permissions ["ADMIN_NOTIFICATION_TEMPLATE_LIST"]], []⟩,
    ⟨.get, "notifications/templates", [.permissions ["ADMIN_NOTIFICATION_TEMPLATE_LIST"]], []⟩,
    ⟨.patch, "notifications/templates/:id", [.skipSanitization, .permissions ["ADMIN_NOTIFICATION_TEMPLATE_UPDATE"]], []⟩,
    ⟨.patch, "notifications/templates/:id/activate", [.permissions ["ADMIN_NOTIFICATION_TEMPLATE_UPDATE"]], []⟩,
    ⟨.patch, "notifications/templates/:id/desactivate", [.permissions ["ADMIN_NOTIFICATION_TEMPLATE_UPDATE"]], []⟩,
    ⟨.get, "notifications/variables", [.permissions ["NOTIFICATION_TEMPLATE_READ"]], []⟩,
    ⟨.get, "notifications", [.permissions ["NOTIFICATION_LIST"]], []⟩,
    ⟨.patch, "notifications/:id/read", [.permissions ["NOTIFICATION_MARK_READ"]], []⟩,
    ⟨.patch, "notifications/read-all", [.permissions ["NOTIFICATION_MARK_ALL_READ"]], []⟩ ]

/-- The controllers of `tenant`. -/
def tenantRoutes : List Route :=
  [ ⟨.post, "invitations", [.permissions ["INVITATION_CREATE"]], []⟩,
    ⟨.get, "invitations/validate", openToAll, []⟩,
    ⟨.get, "invitations/:token/revoke", [.permissions ["INVITATION_REVOKE"]], []⟩,
    ⟨.get, "invitations", [.permissions ["INVITATION_LIST"]], []⟩,
    ⟨.post, "tenants", [.permissions ["TENANT_CREATE"]], []⟩,
    ⟨.get, "tenants/:id", [.permissions ["TENANT_GET"]], []⟩,
    ⟨.get, "tenants", [.permissions ["TENANT_LIST"]], []⟩,
    ⟨.patch, "tenants/:id", [.permissions ["TENANT_UPDATE"]], []⟩,
    ⟨.patch, "tenants/:id/suspend", [.permissions ["TENANT_SUSPEND"]], []⟩,
    ⟨.patch, "tenants/:id/reactivate", [.permissions ["TENANT_REACTIVATE"]], []⟩ ]

/-- The controllers of `ats`. -/
def atsRoutes : List Route :=
  [ ⟨.post, "vacancies", [], []⟩,
    ⟨.get, "vacancies", [], []⟩,
    ⟨.get, "vacancies/:id", [], []⟩,
    ⟨.patch, "vacancies/:id", [], []⟩ ]

/-- All handlers. -/
def routes : List Route :=
  auditRoutes ++ authenticationRoutes ++ authorizationRoutes ++ fileStorageRoutes ++ identityRoutes ++
    notificationsRoutes ++ tenantRoutes ++ atsRoutes

/-- What a route asks for has a name. -/
theorem permissions_ne {route : Route} (h : route ∈ routes) {codes : List String}
    (hcodes : getAllAndOverride permissionsOf route = some codes) : "" ∉ codes := by
  have hall : ∀ route ∈ routes, ((getAllAndOverride permissionsOf route).all fun codes => !codes.contains "") = true := by
    decide +kernel
  have h := hall route h
  rw [hcodes] at h
  simpa using h

end Neltrik.Http
