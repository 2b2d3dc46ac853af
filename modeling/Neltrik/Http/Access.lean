import Neltrik.Http.Guards
import Neltrik.Identity.System
import Neltrik.Prisma.Scope

/-! # Requests in time

Requests on their way through the guards, and logins and refreshes that sign an access token, interleaved with
all runs on users, tenants and roles (`Identity`) and with the other runs on the sessions (`Authentication`).
An action is one access to the database with what the code computes after it until the next one.

A handler is run with the scope that `TenantInterceptor` sets: `SuspendUser` and the other runs of `Identity`
that edit something start by requests only. What `JwtService` signs is accepted as long as the secret is the
same, and nothing else is; so the access tokens there are is a table of the world. The copies of the user and
the role in it are history: nothing of the code reads them.

The foreign keys of the sessions are left out: they refuse steps. -/

namespace Neltrik.Authorization.RoleRepository

/-- The permissions of a role. -/
def getPermissionsByRole (db : Db) (roleId : String) : List Permission :=
  (db.rolePermissions.filter fun rp => rp.roleId == roleId).filterMap fun rp => PermissionRepository.row db rp.permissionId

end Neltrik.Authorization.RoleRepository

namespace Neltrik.Http

open Neltrik.Lib Neltrik.Authorization
open Neltrik.Shared (AuditRecordInput)
open Neltrik.Authentication (AuthenticationSession)
open Neltrik.Authentication.SessionLife (OwnerState)
open Neltrik.Lib.Utf16 (Units)
open Neltrik.Shared.CsrfTokenProvider (Hex32)

/-- `invalidToken` is what `verifyAsync` throws. -/
structure Ports where
  auth : Authentication.Ports
  sign : Payload → String
  invalidToken : String → String
  hmac : Units → Hex32
  frontendUrl : String

/-- An access token, and what its claims were read from. -/
structure Token where
  payload : Payload
  user : User
  role : Role

/-- The tables behind the requests, with what there has been. -/
structure World where
  identity : Identity.System
  auth : Authentication.System
  tokens : List Token
  /-- The ids of accounts there have been. -/
  accountIds : List String
  /-- The calls of `AuditRecorder` by the guards. -/
  denied : List AuditRecordInput

namespace World

/-- The tables of `Identity`. -/
def db (w : World) : Db := w.identity.world.db

/-- The rows of the sessions and the accounts. -/
def rows (w : World) : Authentication.World := w.auth.world

end World

/-- `TokenVerifier.verify`. -/
def verify (ports : Ports) (w : World) (token : String) : Except String Payload :=
  match w.tokens.find? fun t => ports.sign t.payload == token with
  | some t => .ok t.payload
  | none => .error (ports.invalidToken token)

/-- The status as a session tells it. -/
def statusText : ResourceStatus → String
  | .active => "ACTIVE"
  | .suspended => "SUSPENDED"

/-- The rows that `findByIdWithOwnerState` joins to a session. -/
def ownerState (w : World) (session : AuthenticationSession) : Option OwnerState := do
  let owner ← UserRepository.get w.db none session.ownerId
  let tenant ← TenantRepository.get w.db owner.tenantId
  let account ← Authentication.AccountRepository.findById w.rows session.authenticationAccountId
  return { userStatus := statusText owner.status, emailVerified := account.emailVerified,
           tenantStatus := statusText tenant.status }

/-! ## The scope of a handler -/

/-- `TenantInterceptor.intercept`. -/
def tenantContext (user : Option Principal) : Prisma.TenantContext :=
  let isPlatformAdmin := user.any (·.roleCode == "PLATFORM_ADMIN")
  { tenantId := if isPlatformAdmin then none else user.map (·.tenantId)
    userId := user.map (·.userId)
    isPlatformAdmin }

/-- What the tenant client adds to the queries for a model with a tenant. -/
def scopeOf (context : Prisma.TenantContext) : Option String :=
  if context.isPlatformAdmin then none
  else (Prisma.resolveScope .user context.tenantId context.userId).tenantId

/-! ## Processes -/

/-- The check of one permission: before the user is read, before the permissions of the role are, and after. -/
inductive Progress where
  | pending
  | reading (roleId : String)
  | checked (result : Bool)
  deriving DecidableEq

/-- `Promise.all` goes on when all of them have a result. -/
def resultOf : String × Progress → Option (String × Bool)
  | (permission, .checked result) => some (permission, result)
  | _ => none

/-- What an access token is signed for. -/
inductive Issue where
  | login
  | refresh (session : AuthenticationSession)
  deriving DecidableEq

/-- A request at the access that comes next. -/
inductive Proc where
  /-- A request before the session is resolved, while its permissions are checked, when it has passed the
  guards, when its handler has been called, and when it has been refused. -/
  | resolving (r : Request) (payload : Payload)
  | checking (r : Request) (user : Principal) (checks : List (String × Progress))
  | admitted (r : Request) (user : Option Principal)
  | served (r : Request) (user : Option Principal)
  | refused (r : Request) (refusal : Refusal)
  /-- `RefreshToken` before the account is read. -/
  | locating (session : AuthenticationSession)
  /-- `Login` and `RefreshToken` before the user is read, before the role is, and before the session is written. -/
  | identifying (issue : Issue) (account : AuthenticationAccount)
  | identified (issue : Issue) (account : AuthenticationAccount) (user : User)
  | signing (issue : Issue) (account : AuthenticationAccount) (user : User) (role : Role)
  | issued
  | failed

/-- The next access of a request, or its handler. -/
inductive Action where
  | resolve (now : ℕ)
  | findUser (k : ℕ)
  | findPermissions (k : ℕ)
  | conclude
  | serve (now : ℕ)
  | findAccount
  | getUserById
  | getRoleById
  | createSession (id refreshToken : String) (ipAddress userAgent : Option String) (now : ℕ)
  | renew (newRefreshToken : String) (now : ℕ)
  /-- A read has thrown. -/
  | fail (message : String)
  deriving DecidableEq

/-- The refusal, and the record of it. -/
def refuse (w : World) (r : Request) (refusal : Refusal) : World × Proc :=
  ({ w with denied := (auditDenied r.route refusal).toList ++ w.denied }, .refused r refusal)

/-- After the authentication, until the first permission is looked up. -/
def proceed (ports : Ports) (w : World) (r : Request) (user : Option Principal) : World × Proc :=
  match afterAuthentication ports.hmac ports.frontendUrl r user with
  | .error refusal => refuse w r refusal
  | .ok none => (w, .admitted r user)
  | .ok (some (user, requiredPermissions)) =>
    (w, .checking r user (requiredPermissions.map fun permission => (permission, .pending)))

/-- A request up to the first read. -/
def start (ports : Ports) (w : World) (r : Request) : Option (World × Proc) :=
  match AuthenticationGuard.begin (verify ports w) r with
  | .error error => some (refuse w r ⟨"AuthenticationGuard", error⟩)
  | .ok none => some (proceed ports w r none)
  | .ok (some payload) => some (w, .resolving r payload)

/-- The run of `Identity` that a call starts. -/
def Call.start (call : Call) (scope : Option String) (userId : String) : Option Identity.Start :=
  match call with
  | .suspendUser id => some (.suspendUser scope userId id)
  | .reactivateUser id => some (.reactivateUser scope id)
  | .changeRole id roleId => some (.changeRole scope id roleId)
  | .updateTenant id name => some (.editTenant id (.update name))
  | .suspendTenant id => some (.editTenant id .suspend)
  | .reactivateTenant id => some (.editTenant id .reactivate)
  | .updateRole id defaultDisplayName description =>
    some (.updateRole scope id ⟨defaultDisplayName, description⟩)
  | .login .. | .refresh .. | .other => none

/-- The handler: it may throw at once. -/
def handle (ports : Ports) (w : World) (r : Request) (user : Option Principal) (now : ℕ) : World × Proc :=
  match r.call with
  | .login email password =>
    match Authentication.Login.read ports.auth w.rows email password with
    | .ok account => (w, .identifying .login account)
    | .error _ => (w, .served r user)
  | .refresh refreshToken =>
    -- the handler is public, so there is no user and no scope of an owner
    match Authentication.RefreshToken.read ports.auth w.rows none refreshToken now with
    | .ok session => (w, .locating session)
    | .error _ => (w, .served r user)
  | call =>
    let run := do
      let s ← call.start (scopeOf (tenantContext user)) ((user.map (·.userId)).getD "")
      Identity.step w.identity (.start s)
    match run with
    | some identity => ({ w with identity }, .served r user)
    | none => (w, .served r user)

/-- The write of `Login`, and of `RefreshToken`. -/
def issue (w : World) (rows : Option Authentication.World) (payload : Payload) (user : User) (role : Role) :
    Option (World × Proc) :=
  rows.map fun rows => ({ w with auth := ⟨rows, w.auth.procs⟩, tokens := ⟨payload, user, role⟩ :: w.tokens }, .issued)

/-- The next access of a request, and what the guards compute after it. -/
def act (ports : Ports) (_ : List Proc) (w : World) : Proc → Action → Option (World × Proc)
  | .resolving r payload, .resolve now =>
    match Authentication.SessionRepository.findById w.rows none payload.sessionId with
    | none => some (refuse w r ⟨"AuthenticationGuard", .unauthorized "Invalid or revoked session"⟩)
    | some session => do
      let state ← ownerState w session
      let result := Authentication.SessionLife.resolve (fun _ => state) w.rows payload.sessionId now
      match AuthenticationGuard.complete payload result with
      | .error error => some (refuse w r ⟨"AuthenticationGuard", error⟩)
      | .ok user => some (proceed ports w r (some user))
  | .checking r user checks, .findUser k =>
    match checks[k]? with
    | some (permission, .pending) =>
      match UserRepository.get w.db none user.userId with
      | some owner => some (w, .checking r user (checks.set k (permission, .reading owner.roleId)))
      | none => some (refuse w r ⟨"PermissionsGuard", .other "User not found."⟩)
    | _ => none
  | .checking r user checks, .findPermissions k =>
    match checks[k]? with
    | some (permission, .reading roleId) =>
      let result := (RoleRepository.getPermissionsByRole w.db roleId).any fun p => p.code == permission
      some (w, .checking r user (checks.set k (permission, .checked result)))
    | _ => none
  | .checking r user checks, .conclude => do
    let results ← checks.mapM resultOf
    match PermissionsGuard.conclude results with
    | .ok () => some (w, .admitted r (some user))
    | .error error => some (refuse w r ⟨"PermissionsGuard", error⟩)
  | .admitted r user, .serve now => some (handle ports w r user now)
  | .locating session, .findAccount =>
    (Authentication.AccountRepository.findById w.rows session.authenticationAccountId).map fun account =>
      (w, .identifying (.refresh session) account)
  | .identifying issue account, .getUserById =>
    (UserRepository.get w.db none account.userId).map fun user => (w, .identified issue account user)
  -- a login and a refresh are in no scope
  | .identified issue account user, .getRoleById =>
    (RoleRepository.row w.db user.roleId).map fun role => (w, .signing issue account user role)
  | .signing .login account user role, .createSession id refreshToken ipAddress userAgent now => do
    let session ← (Authentication.Login.session ports.auth account id refreshToken ipAddress userAgent now).toOption
    issue w (Authentication.SessionRepository.create w.rows session)
      ⟨account.userId, account.email, user.tenantId, role.code, session.id⟩ user role
  | .signing (.refresh session) account user role, .renew newRefreshToken now => do
    let renewed ← (Authentication.RefreshToken.renew ports.auth session newRefreshToken now).toOption
    issue w (Authentication.SessionRepository.update w.rows none renewed)
      ⟨account.userId, account.email, user.tenantId, role.code, session.id⟩ user role
  | .resolving r _, .fail message => some (refuse w r ⟨"AuthenticationGuard", .other message⟩)
  | .checking r _ _, .fail message => some (refuse w r ⟨"PermissionsGuard", .other message⟩)
  | .locating _, .fail _ | .identifying _ _, .fail _ | .identified _ _ _, .fail _ | .signing _ _ _ _, .fail _ =>
    some (w, .failed)
  | _, _ => none

/-! ## The system -/

/-- The world and the requests. -/
abbrev System := Interleaving.State World Proc

/-- An action of a run of `Identity` or a write of one access, a run on the sessions other than a login or a
refresh, and what registrations and verifications do to the accounts. -/
inductive Background where
  | identity (i : ℕ) (a : Identity.Action)
  | write (write : Identity.Write)
  | session (s : Authentication.Start)
  | sessionAct (i : ℕ) (a : Authentication.Action)
  | addAccount (account : AuthenticationAccount)
  | saveAccount (account : AuthenticationAccount)
  | removeAccount (id : String)

/-- A step of a request, or of the system behind it. -/
inductive Label where
  | http (l : Interleaving.Label Request Action)
  | background (l : Background)

/-- The world with other accounts. -/
def World.withAccounts (w : World) (accounts : List AuthenticationAccount) : World :=
  { w with auth := { w.auth with world := { w.auth.world with accounts } } }

/-- The refreshes and the logins are processes of this machine. -/
def isIssuing : Authentication.Start → Bool
  | .refreshToken .. | .login .. => true
  | _ => false

/-- A step of the system behind the requests. -/
def background (ports : Ports) (w : World) : Background → Option World
  | .identity i a => (Identity.step w.identity (.act i a)).map fun identity => { w with identity }
  | .write write => (Identity.step w.identity (.start (.write write))).map fun identity => { w with identity }
  | .session s =>
    if isIssuing s then none
    else (Authentication.step ports.auth w.auth (.start s)).map fun auth => { w with auth }
  | .sessionAct i a => (Authentication.step ports.auth w.auth (.act i a)).map fun auth => { w with auth }
  | .addAccount account =>
    if w.accountIds.contains account.id then none
    else some { w.withAccounts (account :: w.rows.accounts) with accountIds := account.id :: w.accountIds }
  | .saveAccount account =>
    -- an account keeps its user
    if w.rows.accounts.any fun a => a.id == account.id && a.userId == account.userId then
      some (w.withAccounts (Table.updateWhere (·.id == account.id) (fun _ => account) w.rows.accounts))
    else none
  | .removeAccount id => some (w.withAccounts (w.rows.accounts.filter (·.id != id)))

/-- The requests and the system behind them, interleaved. -/
def step (ports : Ports) (st : System) : Label → Option System
  | .http l => Interleaving.step (start ports) (act ports) st l
  | .background l => (background ports st.world l).map fun world => { st with world }

end Neltrik.Http
