import Neltrik.Authentication.SessionLife
import Neltrik.Http.Routes
import Neltrik.Shared.CsrfTokens

/-! # Guards

The global guards of `AppModule` between the throttler and the sanitization, in their order. The authentication
guard and the permissions guard read the database: what they do before and after that is `begin`, `complete`,
`required` and `conclude`; the guards between these reads run at once (`afterAuthentication`).

A guard that throws hands a record to the audit if its handler asks for it. -/

namespace Neltrik.Http

open Neltrik.Shared (AuditRecordInput)
open Neltrik.Authentication.SessionLife (OwnerState SessionResolution)
open Neltrik.Lib.Utf16 (Units)
open Neltrik.Shared.CsrfTokenProvider (Hex32 CryptoError)

/-! ## Requests -/

/-- A header, which may come several times. -/
inductive Header where
  | absent
  | one (value : Units)
  | many (values : List Units)
  deriving DecidableEq

/-- What a handler is called with. -/
inductive Call where
  | login (email password : String)
  | refresh (refreshToken : String)
  | suspendUser (id : String)
  | reactivateUser (id : String)
  | changeRole (id roleId : String)
  | updateTenant (id name : String)
  | suspendTenant (id : String)
  | reactivateTenant (id : String)
  | updateRole (id : String) (defaultDisplayName description : Option String)
  | other
  deriving DecidableEq

/-- The handler that makes the call. -/
def Call.handler : Call → Option (Method × String)
  | .login .. => some (.post, "auth/login")
  | .refresh .. => some (.post, "auth/refresh")
  | .suspendUser .. => some (.patch, "users/:id/suspend")
  | .reactivateUser .. => some (.patch, "users/:id/reactivate")
  | .changeRole .. => some (.patch, "users/:id")
  | .updateTenant .. => some (.patch, "tenants/:id")
  | .suspendTenant .. => some (.patch, "tenants/:id/suspend")
  | .reactivateTenant .. => some (.patch, "tenants/:id/reactivate")
  | .updateRole .. => some (.patch, "roles/:id")
  | .other => none

/-- A request that the router has found a handler for. -/
structure Request where
  route : Route
  method : Method
  accessToken : Option String
  origin : Option String
  requestedWith : Option String
  csrfToken : Header
  call : Call
  known : route ∈ routes
  accepted : route.accepts method = true
  dispatched : ∀ handler ∈ call.handler, handler = (route.method, route.path)

/-- The payload of an access token. -/
structure Payload where
  sub : String
  email : String
  tenantId : String
  roleCode : String
  sessionId : String
  deriving DecidableEq

/-- `request.user` and `request.account`. -/
structure Principal extends OwnerState where
  userId : String
  tenantId : String
  roleCode : String
  sessionId : String
  deriving DecidableEq

/-! ## Failures -/

/-- An exception of the framework, or another error that a guard passes on. -/
inductive Failure where
  | unauthorized (message : String)
  | forbidden (message : String)
  | other (message : String)
  deriving DecidableEq

/-- The text of the exception. -/
def Failure.message : Failure → String
  | .unauthorized message | .forbidden message | .other message => message

/-- What a guard has thrown. -/
structure Refusal where
  origin : String
  error : Failure
  deriving DecidableEq

/-- `auditDenied`. -/
def auditDenied (route : Route) (refusal : Refusal) : Option AuditRecordInput :=
  (auditOf route.handler).map fun auditMetadata =>
    { auditMetadata with
      resourceId := none, userId := none, userEmail := none, tenantId := none, status := "DENIED"
      metadata := [("errorMessage", refusal.error.message), ("origin", refusal.origin)] }

/-! ## The guards -/

namespace AuthenticationGuard

/-- Until the session is resolved; `none` for a public handler. -/
def begin (verify : String → Except String Payload) (r : Request) : Except Failure (Option Payload) :=
  if r.route.has .isPublic then .ok none
  else
    -- an empty cookie is none
    match r.accessToken.filter (· != "") with
    | none => .error (.unauthorized "Access token not found")
    | some token => ((verify token).mapError Failure.other).map some

/-- `AuthenticationGuard`, after the session has been resolved. -/
def complete (payload : Payload) (result : SessionResolution) : Except Failure Principal :=
  if result.isValid then
    .ok { result.toOwnerState with
      userId := payload.sub, tenantId := payload.tenantId, roleCode := payload.roleCode, sessionId := payload.sessionId }
  else .error (.unauthorized "Invalid or revoked session")

end AuthenticationGuard

/-- `EmailVerifiedGuard.canActivate`. -/
def EmailVerifiedGuard.canActivate (route : Route) (user : Option Principal) : Except Failure Unit :=
  if route.has .skipEmailVerification then .ok ()
  else
    match user with
    | none => .error (.forbidden "User not authenticated")
    | some user => if user.emailVerified then .ok () else .error (.forbidden "Email not verified")

/-- `UserStateGuard.canActivate`. -/
def UserStateGuard.canActivate (route : Route) (user : Option Principal) : Except Failure Unit :=
  if route.has .skipUserState then .ok ()
  else
    match user with
    | none => .error (.forbidden "User not authenticated")
    | some user => if user.userStatus = "ACTIVE" then .ok () else .error (.forbidden "User is not active")

/-- `TenantStateGuard.canActivate`. -/
def TenantStateGuard.canActivate (route : Route) (user : Option Principal) : Except Failure Unit :=
  if route.has .skipTenantState then .ok ()
  else
    match user with
    | none => .error (.forbidden "User not authenticated")
    | some user =>
      if user.roleCode = "PLATFORM_ADMIN" then .ok ()
      else if user.tenantStatus = "ACTIVE" then .ok ()
      else .error (.forbidden "Tenant is not active")

/-- `MUTATING_METHODS`. -/
def Method.isMutating : Method → Bool
  | .post | .put | .patch | .delete => true
  | .get | .head => false

namespace CsrfGuard

/-- `CsrfGuard.validateOrigin`. -/
def validateOrigin (frontendUrl : String) (r : Request) : Except Failure Unit :=
  if r.origin = some frontendUrl then .ok () else .error (.forbidden "Invalid origin")

/-- `CsrfGuard.validateRequestedWith`. -/
def validateRequestedWith (r : Request) : Except Failure Unit :=
  if r.requestedWith = some "XMLHttpRequest" then .ok ()
  else .error (.forbidden "Missing X-Requested-With header")

/-- The first one. -/
def header : Header → Option Units
  | .absent => none
  | .one value => some value
  | .many values => values.head?

/-- `CsrfGuard.validateToken`. -/
def validateToken (hmac : Units → Hex32) (r : Request) (user : Option Principal) : Except Failure Unit :=
  match (user.map (·.sessionId)).filter (· != "") with
  | none => .error (.forbidden "Session not available")
  | some sessionId =>
    match Neltrik.Shared.CsrfTokenProvider.verify hmac (header r.csrfToken) (Neltrik.Lib.Utf16.ofString sessionId) with
    | .ok true => .ok ()
    | .ok false => .error (.forbidden "Invalid CSRF token")
    | .error .timingSafeEqualLength => .error (.other "Input buffers must have the same byte length")

/-- `CsrfGuard.canActivate`, with its checks in their order. -/
def canActivate (hmac : Units → Hex32) (frontendUrl : String) (r : Request) (user : Option Principal) :
    Except Failure Unit :=
  if r.method.isMutating = false then .ok ()
  else if r.route.has .isPublic then .ok ()
  else do
    validateOrigin frontendUrl r
    validateRequestedWith r
    validateToken hmac r user

end CsrfGuard

namespace PermissionsGuard

/-- The user and the permissions to be checked; `none` if no permission is asked for. -/
def required (route : Route) (user : Option Principal) : Except Failure (Option (Principal × List String)) :=
  if route.has .publicPermission then .ok none
  else
    match getAllAndOverride permissionsOf route with
    | none | some [] => .error (.forbidden "Access denied: no permissions defined for this endpoint")
    | some requiredPermissions =>
      match user.filter fun user => user.userId != "" with
      | none => .error (.forbidden "User does not have permission")
      | some user => .ok (some (user, requiredPermissions))

/-- With the results; the name of a missing permission counts when it is not empty. -/
def conclude (results : List (String × Bool)) : Except Failure Unit :=
  match (results.find? fun result => !result.2).map Prod.fst with
  | none | some "" => .ok ()
  | some missingPermission => .error (.forbidden ("Missing required permission: " ++ missingPermission))

end PermissionsGuard

/-- A guard that throws. -/
def guarded {α : Type} (origin : String) (result : Except Failure α) : Except Refusal α :=
  result.mapError fun error => ⟨origin, error⟩

/-- From the authentication to the reads of the permissions guard. -/
def afterAuthentication (hmac : Units → Hex32) (frontendUrl : String) (r : Request) (user : Option Principal) :
    Except Refusal (Option (Principal × List String)) := do
  guarded "EmailVerifiedGuard" (EmailVerifiedGuard.canActivate r.route user)
  guarded "UserStateGuard" (UserStateGuard.canActivate r.route user)
  guarded "TenantStateGuard" (TenantStateGuard.canActivate r.route user)
  guarded "CsrfGuard" (CsrfGuard.canActivate hmac frontendUrl r user)
  guarded "PermissionsGuard" (PermissionsGuard.required r.route user)

end Neltrik.Http
