import Neltrik.Http.Steps
import Neltrik.Http.Tokens

/-! # What a served request has passed

The guards look at the database at different times, and everything else goes on meanwhile. `Resolved` is what
the authentication guard has found at its instant, and `Admission` what a request has passed when its handler
is called. In every run a handler with a user is called for such a request only
(`served_requests_admitted`). -/

namespace Neltrik.Http

open Neltrik.Lib Neltrik.Lib.Machine Neltrik.Lib.Table Neltrik.Authorization
open Neltrik.Authentication (AuthenticationSession accessTokenMaxAge)
open Neltrik.Identity (HasCode)

/-! ## The statement -/

/-- The rows behind the user of a request, when the session is resolved at `now`. -/
structure Resolved (ports : Ports) (w : World) (r : Request) (user : Principal) (now : ℕ) (t : Token)
    (session : AuthenticationSession) (owner : User) (tenant : Tenant) (account : AuthenticationAccount) : Prop where
  signed : t ∈ w.tokens ∧ r.accessToken = some (ports.sign t.payload)
  claims : t.payload.sub = user.userId ∧ t.payload.tenantId = user.tenantId ∧ t.payload.roleCode = user.roleCode ∧
    t.payload.sessionId = user.sessionId
  sessionRow : session ∈ w.rows.sessions.rows ∧ session.id = user.sessionId ∧ session.ownerId = user.userId ∧
    session.isRevoked = false
  /-- Within the life of the access token of the login. -/
  life : now < session.createdAt + accessTokenMaxAge
  ownerRow : owner ∈ w.db.users ∧ owner.id = user.userId ∧ owner.tenantId = user.tenantId ∧
    statusText owner.status = user.userStatus
  /-- The role is the one of the user, unless the user has changed since the token was signed. -/
  roleClaim : HasCode w.identity.world owner.roleId user.roleCode ∨ t.user.version < owner.version
  tenantRow : tenant ∈ w.db.tenants ∧ tenant.id = user.tenantId ∧ statusText tenant.status = user.tenantStatus
  accountRow : account ∈ w.rows.accounts ∧ account.id = session.authenticationAccountId ∧
    account.userId = user.userId ∧ account.emailVerified = user.emailVerified

section Statement
variable (ports : Ports) (V : System → Prop)

/-- The request was resolved in a state of the run. -/
def Authenticated (r : Request) (user : Principal) : Prop :=
  ∃ st, V st ∧ ∃ now t session owner tenant account,
    Resolved ports st.world r user now t session owner tenant account

/-- What the guards between the reads have checked. -/
structure Cleared (r : Request) (user : Principal) : Prop where
  emailVerified : r.route.has .skipEmailVerification = true ∨ user.emailVerified = true
  active : r.route.has .skipUserState = true ∨ user.userStatus = "ACTIVE"
  tenantActive : r.route.has .skipTenantState = true ∨ user.roleCode = "PLATFORM_ADMIN" ∨ user.tenantStatus = "ACTIVE"
  csrf : r.method.isMutating = true → r.origin = some ports.frontendUrl ∧ r.requestedWith = some "XMLHttpRequest" ∧
    Neltrik.Shared.CsrfTokenProvider.verify ports.hmac (CsrfGuard.header r.csrfToken)
      (Utf16.ofString user.sessionId) = .ok true

/-- There was a user of the id with the role. -/
def HadRole (userId roleId : String) : Prop :=
  ∃ st, V st ∧ ∃ owner ∈ st.world.db.users, owner.id = userId ∧ owner.roleId = roleId

/-- The role had the permission. -/
def RoleHad (roleId code : String) : Prop :=
  ∃ st, V st ∧ ∃ p ∈ RoleRepository.getPermissionsByRole st.world.db roleId, p.code = code

/-- A role the user has had has had the permission. -/
def HadPermission (userId code : String) : Prop := ∃ roleId, HadRole V userId roleId ∧ RoleHad V roleId code

/-- All that a request with a user has passed. -/
structure Admission (r : Request) (user : Principal) : Prop where
  authenticated : Authenticated ports V r user
  cleared : Cleared ports r user
  permitted : r.route.has .publicPermission = true ∨ ∃ codes, getAllAndOverride permissionsOf r.route = some codes ∧
    codes ≠ [] ∧ ∀ code ∈ codes, HadPermission V user.userId code

/-- Without a user the handler is a public one. -/
def Admitted (r : Request) : Option Principal → Prop
  | none => r.route.has .isPublic = true
  | some user => r.route.has .isPublic = false ∧ Admission ports V r user

end Statement

section Mono
variable {ports : Ports} {V V' : System → Prop} (hV : ∀ st, V st → V' st)
include hV

theorem Authenticated.mono {r : Request} {user : Principal} (h : Authenticated ports V r user) :
    Authenticated ports V' r user := by
  obtain ⟨st, hst, h⟩ := h
  exact ⟨st, hV st hst, h⟩

theorem HadRole.mono {userId roleId : String} (h : HadRole V userId roleId) : HadRole V' userId roleId := by
  obtain ⟨st, hst, h⟩ := h
  exact ⟨st, hV st hst, h⟩

theorem HadPermission.mono {userId code : String} (h : HadPermission V userId code) : HadPermission V' userId code := by
  obtain ⟨roleId, hrole, st, hst, h⟩ := h
  exact ⟨roleId, hrole.mono hV, st, hV st hst, h⟩

theorem Admitted.mono {r : Request} {user : Option Principal} (h : Admitted ports V r user) :
    Admitted ports V' r user := by
  cases user with
  | none => exact h
  | some user =>
    obtain ⟨hpublic, hauth, hcleared, hpermitted⟩ := h
    refine ⟨hpublic, hauth.mono hV, hcleared, hpermitted.imp_right ?_⟩
    rintro ⟨codes, hcodes, hne, hall⟩
    exact ⟨codes, hcodes, hne, fun code hcode => (hall code hcode).mono hV⟩

end Mono

/-! ## What the guards between the reads have checked -/

theorem guarded_eq_ok {α : Type} {origin : String} {result : Except Failure α} {a : α} :
    guarded origin result = .ok a ↔ result = .ok a := by
  unfold guarded
  cases result with
  | error => exact ⟨nofun, nofun⟩
  | ok b => exact ⟨fun h => by cases h; rfl, fun h => by cases h; rfl⟩

theorem EmailVerifiedGuard.canActivate_eq_ok {route : Route} {user : Option Principal}
    (h : canActivate route user = .ok ()) :
    route.has .skipEmailVerification = true ∨ ∃ u, user = some u ∧ u.emailVerified = true := by
  unfold canActivate at h
  split_ifs at h with hskip
  · exact Or.inl hskip
  · cases user with
    | none => cases h
    | some u =>
      dsimp only at h
      split_ifs at h with hverified
      exact Or.inr ⟨u, rfl, hverified⟩

theorem UserStateGuard.canActivate_eq_ok {route : Route} {user : Option Principal}
    (h : canActivate route user = .ok ()) :
    route.has .skipUserState = true ∨ ∃ u, user = some u ∧ u.userStatus = "ACTIVE" := by
  unfold canActivate at h
  split_ifs at h with hskip
  · exact Or.inl hskip
  · cases user with
    | none => cases h
    | some u =>
      dsimp only at h
      split_ifs at h with hactive
      exact Or.inr ⟨u, rfl, hactive⟩

theorem TenantStateGuard.canActivate_eq_ok {route : Route} {user : Option Principal}
    (h : canActivate route user = .ok ()) : route.has .skipTenantState = true ∨
      ∃ u, user = some u ∧ (u.roleCode = "PLATFORM_ADMIN" ∨ u.tenantStatus = "ACTIVE") := by
  unfold canActivate at h
  split_ifs at h with hskip
  · exact Or.inl hskip
  · cases user with
    | none => cases h
    | some u =>
      dsimp only at h
      split_ifs at h with hadmin hactive
      · exact Or.inr ⟨u, rfl, Or.inl hadmin⟩
      · exact Or.inr ⟨u, rfl, Or.inr hactive⟩

/-- A mutating request to a handler that is not public comes from the frontend, with a token of the session. -/
theorem CsrfGuard.canActivate_eq_ok {ports : Ports} {r : Request} {user : Principal}
    (h : canActivate ports.hmac ports.frontendUrl r (some user) = .ok ()) (hmut : r.method.isMutating = true)
    (hpublic : r.route.has .isPublic = false) : r.origin = some ports.frontendUrl ∧
      r.requestedWith = some "XMLHttpRequest" ∧ Neltrik.Shared.CsrfTokenProvider.verify ports.hmac
        (CsrfGuard.header r.csrfToken) (Utf16.ofString user.sessionId) = .ok true := by
  unfold canActivate at h
  rw [if_neg (by simp [hmut]), if_neg (by simp [hpublic])] at h
  obtain ⟨_, horigin, h⟩ := Effect.except_bind_eq_ok.mp h
  obtain ⟨_, hwith, h⟩ := Effect.except_bind_eq_ok.mp h
  unfold validateOrigin at horigin
  unfold validateRequestedWith at hwith
  split_ifs at horigin hwith with ho hw
  refine ⟨ho, hw, ?_⟩
  unfold validateToken at h
  split at h
  · cases h
  · rename_i sessionId hsession
    obtain ⟨hid, -⟩ := Option.filter_eq_some_iff.mp hsession
    obtain rfl : user.sessionId = sessionId := by simpa using hid
    split at h
    · assumption
    · cases h
    · cases h

theorem PermissionsGuard.required_eq_ok {route : Route} {user : Option Principal}
    {x : Option (Principal × List String)} (h : required route user = .ok x) :
    (route.has .publicPermission = true ∧ x = none) ∨ ∃ u codes, user = some u ∧ x = some (u, codes) ∧
      getAllAndOverride permissionsOf route = some codes ∧ codes ≠ [] := by
  unfold required at h
  split_ifs at h with hpublic
  · cases h
    exact Or.inl ⟨hpublic, rfl⟩
  · split at h
    · cases h
    · cases h
    · rename_i codes hne hcodes
      split at h
      · cases h
      · rename_i u hu
        cases h
        obtain ⟨rfl, -⟩ := Option.filter_eq_some_iff.mp hu
        exact Or.inr ⟨u, codes, rfl, rfl, hcodes, hne⟩

/-- What has been checked when the reads of the permissions guard begin. -/
theorem afterAuthentication_eq_ok {ports : Ports} {r : Request} {user : Principal}
    {x : Option (Principal × List String)} (hpublic : r.route.has .isPublic = false)
    (h : afterAuthentication ports.hmac ports.frontendUrl r (some user) = .ok x) :
    Cleared ports r user ∧ PermissionsGuard.required r.route (some user) = .ok x := by
  obtain ⟨_, hemail, h⟩ := Effect.except_bind_eq_ok.mp h
  obtain ⟨_, hstate, h⟩ := Effect.except_bind_eq_ok.mp h
  obtain ⟨_, htenant, h⟩ := Effect.except_bind_eq_ok.mp h
  obtain ⟨_, hcsrf, h⟩ := Effect.except_bind_eq_ok.mp h
  refine ⟨⟨?_, ?_, ?_, fun hmut => ?_⟩, guarded_eq_ok.mp h⟩
  · refine (EmailVerifiedGuard.canActivate_eq_ok (guarded_eq_ok.mp hemail)).imp_right ?_
    rintro ⟨u, hu, hverified⟩
    cases hu
    exact hverified
  · refine (UserStateGuard.canActivate_eq_ok (guarded_eq_ok.mp hstate)).imp_right ?_
    rintro ⟨u, hu, hactive⟩
    cases hu
    exact hactive
  · refine (TenantStateGuard.canActivate_eq_ok (guarded_eq_ok.mp htenant)).imp_right ?_
    rintro ⟨u, hu, hactive⟩
    cases hu
    exact hactive
  · exact CsrfGuard.canActivate_eq_ok (guarded_eq_ok.mp hcsrf) hmut hpublic

/-- Without a user a request gets through a handler only that asks for no permission. -/
theorem afterAuthentication_none {ports : Ports} {r : Request} {x : Option (Principal × List String)}
    (h : afterAuthentication ports.hmac ports.frontendUrl r none = .ok x) : x = none := by
  obtain ⟨_, -, h⟩ := Effect.except_bind_eq_ok.mp h
  obtain ⟨_, -, h⟩ := Effect.except_bind_eq_ok.mp h
  obtain ⟨_, -, h⟩ := Effect.except_bind_eq_ok.mp h
  obtain ⟨_, -, h⟩ := Effect.except_bind_eq_ok.mp h
  rcases PermissionsGuard.required_eq_ok (guarded_eq_ok.mp h) with ⟨-, rfl⟩ | ⟨u, codes, hu, -⟩
  · rfl
  · cases hu

/-! ## The invariant -/

section Held
variable (ports : Ports) (V : System → Prop)

/-- What is known of the check of a permission. -/
def Progressed (userId : String) : String × Progress → Prop
  | (_, .pending) => True
  | (_, .reading roleId) => HadRole V userId roleId
  | (code, .checked result) => result = true → HadPermission V userId code

/-- What an access token is signed for is known. -/
def Claimed (w : World) (account : AuthenticationAccount) : Issue → Prop
  | .login => AccountBound w account.id account.userId
  | .refresh session => SessionHeld w session ∧ session.ownerId = account.userId

/-- What a process may rely on. -/
def Proc.Held (w : World) : Proc → Prop
  | .resolving r payload => r.route.has .isPublic = false ∧
    ∃ t ∈ w.tokens, r.accessToken = some (ports.sign t.payload) ∧ t.payload = payload
  | .checking r user checks => r.route.has .isPublic = false ∧ Authenticated ports V r user ∧ Cleared ports r user ∧
    getAllAndOverride permissionsOf r.route = some (checks.map Prod.fst) ∧ checks ≠ [] ∧
    ∀ check ∈ checks, Progressed V user.userId check
  | .admitted r user | .served r user => Admitted ports V r user
  | .locating session => SessionHeld w session
  | .identifying issue account => Claimed w account issue
  | .identified issue account user => Claimed w account issue ∧ UserHeld w user ∧ user.id = account.userId
  | .signing issue account user role => Claimed w account issue ∧ UserHeld w user ∧ user.id = account.userId ∧
    HasCode w.identity.world user.roleId role.code
  | .refused .. | .issued | .failed => True

end Held

section Steps
variable {ports : Ports} {V V' : System → Prop} {w w' : World}

theorem Claimed.mono (h : Advances w w') {account : AuthenticationAccount} {issue : Issue}
    (hc : Claimed w account issue) : Claimed w' account issue := by
  cases issue with
  | login => exact h.accounts _ _ hc
  | refresh => exact ⟨h.sessions _ hc.1, hc.2⟩

theorem Proc.Held.mono {p : Proc} (hV : ∀ st, V st → V' st) (h : Advances w w') (hp : p.Held ports V w) :
    p.Held ports V' w' := by
  cases p with
  | resolving r payload =>
    obtain ⟨hpublic, t, ht, hsign⟩ := hp
    exact ⟨hpublic, t, h.tokens t ht, hsign⟩
  | checking r user checks =>
    obtain ⟨hpublic, hauth, hcleared, hcodes, hne, hall⟩ := hp
    refine ⟨hpublic, hauth.mono hV, hcleared, hcodes, hne, fun check hcheck => ?_⟩
    have hprogress := hall check hcheck
    obtain ⟨code, _ | roleId | result⟩ := check
    · trivial
    · exact HadRole.mono hV hprogress
    · exact fun hresult => (hprogress hresult).mono hV
  | admitted | served => exact Admitted.mono hV hp
  | locating => exact h.sessions _ hp
  | identifying => exact Claimed.mono h hp
  | identified => exact ⟨Claimed.mono h hp.1, h.users _ hp.2.1, hp.2.2⟩
  | signing => exact ⟨Claimed.mono h hp.1, h.users _ hp.2.1, hp.2.2.1, h.codes _ _ hp.2.2.2⟩
  | refused | issued | failed => trivial

/-- Nothing but the calls of the audit changes. -/
theorem Sound.of_denied (h : Sound w) (denied : List Shared.AuditRecordInput) :
    Sound { w with denied } ∧ Advances w { w with denied } :=
  have hadv : Advances w { w with denied } :=
    ⟨fun _ h => h, fun _ _ h => h, fun _ h => h, fun _ _ h => h, fun _ h => h⟩
  ⟨⟨h.identity, h.accountKeys, h.accountIds, h.sessions, fun p hp => hadv.runHeld (h.runs p hp),
    fun t ht => hadv.bound (h.tokens t ht)⟩, hadv⟩

/-- A request that has been authenticated, or one to a public handler. -/
def Known (ports : Ports) (V : System → Prop) (r : Request) : Option Principal → Prop
  | none => r.route.has .isPublic = true
  | some user => r.route.has .isPublic = false ∧ Authenticated ports V r user

theorem proceed_held {r : Request} {user : Option Principal} (h : Sound w) (hknown : Known ports V r user) :
    Sound (proceed ports w r user).1 ∧ Advances w (proceed ports w r user).1 ∧
      (proceed ports w r user).2.Held ports V (proceed ports w r user).1 := by
  rcases proceed_cases ports w r user with ⟨refusal, -, hp⟩ | ⟨hafter, hp⟩ | ⟨principal, codes, hafter, hp⟩
  · rw [hp]
    exact ⟨(h.of_denied _).1, (h.of_denied _).2, trivial⟩
  · rw [hp]
    refine ⟨h, Advances.refl w, ?_⟩
    cases user with
    | none => exact hknown
    | some user =>
      obtain ⟨hpublic, hauth⟩ := hknown
      obtain ⟨hcleared, hrequired⟩ := afterAuthentication_eq_ok hpublic hafter
      rcases PermissionsGuard.required_eq_ok hrequired with ⟨hnone, -⟩ | ⟨u, codes, -, hsome, -⟩
      · exact ⟨hpublic, hauth, hcleared, Or.inl hnone⟩
      · cases hsome
  · rw [hp]
    refine ⟨h, Advances.refl w, ?_⟩
    cases user with
    | none => cases afterAuthentication_none hafter
    | some user =>
      obtain ⟨hpublic, hauth⟩ := hknown
      obtain ⟨hcleared, hrequired⟩ := afterAuthentication_eq_ok hpublic hafter
      rcases PermissionsGuard.required_eq_ok hrequired with ⟨-, hnone⟩ | ⟨u, codes', hu, hsome, hcodes, hne⟩
      · cases hnone
      · cases hu
        cases hsome
        refine ⟨hpublic, hauth, hcleared, ?_, by simpa using hne, fun check hcheck => ?_⟩
        · rw [hcodes, List.map_map]
          exact congrArg some (List.map_id codes).symm
        · obtain ⟨code, -, rfl⟩ := List.mem_map.mp hcheck
          trivial

/-- A token that is verified has been signed. -/
theorem mem_of_verify {token : String} {payload : Payload} (h : verify ports w token = .ok payload) :
    ∃ t ∈ w.tokens, ports.sign t.payload = token ∧ t.payload = payload := by
  unfold verify at h
  split at h
  · rename_i t ht
    cases h
    have hsign := List.find?_some ht
    exact ⟨t, List.mem_of_find?_eq_some ht, by simpa using hsign, rfl⟩
  · cases h

theorem begin_eq_ok {r : Request} {x : Option Payload} (h : AuthenticationGuard.begin (verify ports w) r = .ok x) :
    (r.route.has .isPublic = true ∧ x = none) ∨ (r.route.has .isPublic = false ∧ ∃ t ∈ w.tokens,
      r.accessToken = some (ports.sign t.payload) ∧ x = some t.payload) := by
  unfold AuthenticationGuard.begin at h
  split_ifs at h with hpublic
  · cases h
    exact Or.inl ⟨hpublic, rfl⟩
  · split at h
    · cases h
    · rename_i token htoken
      obtain ⟨htoken, -⟩ := Option.filter_eq_some_iff.mp htoken
      obtain ⟨payload, hpayload, rfl⟩ := Effect.except_map_eq_ok.mp h
      cases hverify : verify ports w token with
      | error => rw [hverify] at hpayload; cases hpayload
      | ok payload' =>
        rw [hverify] at hpayload
        cases hpayload
        obtain ⟨t, ht, hsign, rfl⟩ := mem_of_verify hverify
        exact Or.inr ⟨(Bool.not_eq_true _).mp hpublic, t, ht, hsign ▸ htoken, rfl⟩

theorem start_held {r : Request} {x : World × Proc} (h : Sound w) (hs : Starts ports w r x) :
    Sound x.1 ∧ Advances w x.1 ∧ x.2.Held ports V x.1 := by
  cases hs with
  | refuse => exact ⟨(h.of_denied _).1, (h.of_denied _).2, trivial⟩
  | proceed hbegin =>
    rcases begin_eq_ok hbegin with ⟨hpublic, -⟩ | ⟨-, t, -, -, hsome⟩
    · have hknown : Known ports V r none := hpublic
      exact proceed_held h hknown
    · cases hsome
  | resolving hbegin =>
    rcases begin_eq_ok hbegin with ⟨-, hnone⟩ | ⟨hpublic, t, ht, haccess, hsome⟩
    · cases hnone
    · cases hsome
      exact ⟨h, Advances.refl w, hpublic, t, ht, haccess, rfl⟩

/-! ### The reads -/

theorem complete_eq_ok {payload : Payload} {session : AuthenticationSession} {state : Authentication.SessionLife.OwnerState}
    {now : ℕ} {user : Principal}
    (hfind : Authentication.SessionRepository.findById w.rows none payload.sessionId = some session)
    (h : AuthenticationGuard.complete payload
      (Authentication.SessionLife.resolve (fun _ => state) w.rows payload.sessionId now) = .ok user) :
    session.isRevoked = false ∧ now < session.expiresAt ∧ user =
      { state with
        userId := payload.sub, tenantId := payload.tenantId, roleCode := payload.roleCode
        sessionId := payload.sessionId } := by
  have hresolve : Authentication.SessionLife.resolve (fun _ => state) w.rows payload.sessionId now =
      if session.isRevoked ∨ session.isExpired now then
        { isValid := false, userStatus := "SUSPENDED", emailVerified := false, tenantStatus := "SUSPENDED" }
      else { state with isValid := true } := by
    unfold Authentication.SessionLife.resolve Authentication.SessionLife.findByIdWithOwnerState
    rw [hfind]
    rfl
  rw [hresolve] at h
  by_cases hdead : session.isRevoked = true ∨ session.isExpired now = true
  · rw [if_pos hdead] at h
    cases h
  · rw [if_neg hdead] at h
    cases h
    obtain ⟨hrevoked, hexpired⟩ := not_or.mp hdead
    have hlt : ¬ session.expiresAt ≤ now := fun hle => hexpired (decide_eq_true hle)
    exact ⟨(Bool.not_eq_true _).mp hrevoked, not_le.mp hlt, rfl⟩

/-- **What the authentication guard finds**: the session, the user, the tenant and the account of the claims. -/
theorem resolved_of_complete {r : Request} {t : Token} {session : AuthenticationSession}
    {state : Authentication.SessionLife.OwnerState} {now : ℕ} {user : Principal} (h : Sound w) (ht : t ∈ w.tokens)
    (haccess : r.accessToken = some (ports.sign t.payload))
    (hfind : Authentication.SessionRepository.findById w.rows none t.payload.sessionId = some session)
    (hstate : ownerState w session = some state)
    (hcomplete : AuthenticationGuard.complete t.payload
      (Authentication.SessionLife.resolve (fun _ => state) w.rows t.payload.sessionId now) = .ok user) :
    ∃ owner tenant account, Resolved ports w r user now t session owner tenant account := by
  obtain ⟨hrevoked, hlife, rfl⟩ := complete_eq_ok hfind hcomplete
  obtain ⟨owner, howner, hstate⟩ := Option.bind_eq_some_iff.mp hstate
  obtain ⟨tenant, htenant, hstate⟩ := Option.bind_eq_some_iff.mp hstate
  obtain ⟨account, haccount, hstate⟩ := Option.bind_eq_some_iff.mp hstate
  cases hstate
  obtain ⟨howner, hownerId, -⟩ := Identity.mem_of_get howner
  have hsession := List.mem_of_find?_eq_some hfind
  have hsessionId : session.id = t.payload.sessionId := by
    have hk := List.find?_some hfind
    rw [Bool.and_eq_true, beq_iff_eq] at hk
    exact hk.1
  have htenantId : tenant.id = owner.tenantId := by simpa using (List.find?_some htenant)
  have haccountId : account.id = session.authenticationAccountId := by simpa using (List.find?_some haccount)
  have hbound := h.tokens t ht
  -- the session of the token is one of the user of the token
  have hsub : session.ownerId = t.payload.sub := by
    obtain ⟨s, hs, hid, hsub⟩ := hbound.session
    rw [w.rows.sessions.eq_of_key_eq hsession hs (hsessionId.trans hid.symm)]
    exact hsub
  have huser : owner.id = t.user.id := by rw [hownerId, hsub, hbound.user.1]
  obtain ⟨hownerTenant, hversion⟩ := hbound.held.2 owner howner huser
  have howned : owner.tenantId = t.payload.tenantId := hownerTenant.trans hbound.user.2
  have haccountMem := List.mem_of_find?_eq_some haccount
  have haccountUser := (h.sessions session hsession).1.2 account haccountMem haccountId
  refine ⟨owner, tenant, account, ⟨ht, haccess⟩, ⟨rfl, rfl, rfl, rfl⟩, ⟨hsession, hsessionId, hsub, hrevoked⟩, ?_,
    ⟨howner, hownerId.trans hsub, howned, rfl⟩, ?_,
    ⟨List.mem_of_find?_eq_some htenant, htenantId.trans howned, rfl⟩,
    ⟨haccountMem, haccountId, haccountUser.trans hsub, rfl⟩⟩
  · rw [← (h.sessions session hsession).2]
    exact hlife
  · rcases hversion with rfl | hlt
    · exact Or.inl hbound.role
    · exact Or.inr hlt

theorem progressed_set {userId : String} {checks : List (String × Progress)} {k : ℕ} {code : String} {p' : Progress}
    (hall : ∀ check ∈ checks, Progressed V userId check) (hp' : Progressed V userId (code, p')) :
    ∀ check ∈ checks.set k (code, p'), Progressed V userId check := by
  intro check hcheck
  rcases List.mem_or_eq_of_mem_set hcheck with hcheck | rfl
  · exact hall check hcheck
  · exact hp'

theorem map_fst_set {checks : List (String × Progress)} {k : ℕ} {code : String} {p p' : Progress}
    (hk : checks[k]? = some (code, p)) : (checks.set k (code, p')).map Prod.fst = checks.map Prod.fst := by
  refine List.ext_getElem? fun j => ?_
  rw [List.getElem?_map, List.getElem?_map]
  by_cases hj : k = j
  · obtain ⟨hlt, -⟩ := List.getElem?_eq_some_iff.mp hk
    rw [← hj, List.getElem?_set_self hlt, hk]
    rfl
  · rw [List.getElem?_set_ne hj]

theorem checks_of_results {checks : List (String × Progress)} {results : List (String × Bool)}
    (h : checks.mapM resultOf = some results) : checks = results.map fun result => (result.1, .checked result.2) := by
  induction checks generalizing results with
  | nil => cases h; rfl
  | cons check checks ih =>
    rw [List.mapM_cons] at h
    obtain ⟨result, hresult, h⟩ := Option.bind_eq_some_iff.mp h
    obtain ⟨results, hresults, h⟩ := Option.bind_eq_some_iff.mp h
    cases h
    obtain ⟨code, _ | _ | passed⟩ := check
    · cases hresult
    · cases hresult
    · cases hresult
      rw [List.map_cons, ← ih hresults]

/-- A check that fails is reported if the permissions have names. -/
theorem conclude_eq_ok {results : List (String × Bool)} (h : PermissionsGuard.conclude results = .ok ())
    (hnames : ∀ result ∈ results, result.1 ≠ "") : ∀ result ∈ results, result.2 = true := by
  unfold PermissionsGuard.conclude at h
  cases hfind : results.find? fun result => !result.2 with
  | none =>
    intro result hresult
    simpa using (List.find?_eq_none.mp hfind) result hresult
  | some missing =>
    have hname := hnames missing (List.mem_of_find?_eq_some hfind)
    rw [hfind, Option.map_some] at h
    split at h
    · rename_i hnone
      cases hnone
    · rename_i hblank
      exact absurd (Option.some.inj hblank) hname
    · cases h

/-- When all checks are made and none fails, the permissions were held. -/
theorem permitted_of_conclude {userId : String} {checks : List (String × Progress)} {results : List (String × Bool)}
    (hall : ∀ check ∈ checks, Progressed V userId check) (hresults : checks.mapM resultOf = some results)
    (h : PermissionsGuard.conclude results = .ok ()) (hnames : "" ∉ checks.map Prod.fst) :
    ∀ code ∈ checks.map Prod.fst, HadPermission V userId code := by
  obtain rfl := checks_of_results hresults
  rw [List.map_map] at hnames ⊢
  intro code hcode
  obtain ⟨result, hresult, rfl⟩ := List.mem_map.mp hcode
  have hpassed := conclude_eq_ok h (fun r hr hblank => hnames (List.mem_map.mpr ⟨r, hr, hblank⟩)) result hresult
  exact hall _ (List.mem_map_of_mem hresult) hpassed

theorem act_held {st : System} {p : Proc} {a : Action} {x : World × Proc} (hst : V st) (h : Sound st.world)
    (hp : p.Held ports V st.world) (ha : Acts ports st.world p a x) :
    Sound x.1 ∧ Advances st.world x.1 ∧ x.2.Held ports V x.1 := by
  cases ha with
  | refuse => exact ⟨(h.of_denied _).1, (h.of_denied _).2, trivial⟩
  | resolve hfind hstate hcomplete =>
    obtain ⟨hpublic, t, ht, haccess, rfl⟩ := hp
    obtain ⟨owner, tenant, account, hresolved⟩ := resolved_of_complete h ht haccess hfind hstate hcomplete
    have hknown : Known ports V _ (some _) := ⟨hpublic, st, hst, _, t, _, owner, tenant, account, hresolved⟩
    exact proceed_held h hknown
  | findUser hk hget =>
    obtain ⟨hpublic, hauth, hcleared, hcodes, hne, hall⟩ := hp
    obtain ⟨howner, hid, -⟩ := Identity.mem_of_get hget
    refine ⟨h, Advances.refl _, hpublic, hauth, hcleared, (map_fst_set hk).symm ▸ hcodes, by simpa using hne, ?_⟩
    exact progressed_set hall ⟨st, hst, _, howner, hid, rfl⟩
  | findPermissions hk =>
    obtain ⟨hpublic, hauth, hcleared, hcodes, hne, hall⟩ := hp
    refine ⟨h, Advances.refl _, hpublic, hauth, hcleared, (map_fst_set hk).symm ▸ hcodes, by simpa using hne, ?_⟩
    refine progressed_set hall fun hfound => ?_
    obtain ⟨permission, hpermission, hcode⟩ := List.any_eq_true.mp hfound
    exact ⟨_, hall _ (List.mem_of_getElem? hk), st, hst, permission, hpermission, by simpa using hcode⟩
  | @enter r user checks results hresults hconclude =>
    obtain ⟨hpublic, hauth, hcleared, hcodes, hne, hall⟩ := hp
    refine ⟨h, Advances.refl _, hpublic, hauth, hcleared, Or.inr ⟨_, hcodes, by simpa using hne, ?_⟩⟩
    exact permitted_of_conclude hall hresults hconclude (permissions_ne r.known hcodes)
  | @serve r user now =>
    have hhandles := handle_handles ports st.world r user now
    generalize handle ports st.world r user now = x at hhandles
    cases hhandles with
    | login _ hread => exact ⟨h, Advances.refl _, h.accountBound (Authentication.Login.mem_of_read hread)⟩
    | refresh _ hread =>
      exact ⟨h, Advances.refl _, _, (Authentication.RefreshToken.mem_of_read hread).1, rfl, rfl⟩
    | start _ hstep => exact ⟨(h.of_identity hstep).1, (h.of_identity hstep).2, hp⟩
    | quiet => exact ⟨h, Advances.refl _, hp⟩
  | @findAccount session account hfind =>
    refine ⟨h, Advances.refl _, hp, ?_⟩
    obtain ⟨s, hs, -, hframe⟩ := hp
    obtain ⟨haccount, howner, -⟩ := frame_eq hframe
    have hid : account.id = session.authenticationAccountId := by simpa using List.find?_some hfind
    have huser := (h.sessions s hs).1.2 account (List.mem_of_find?_eq_some hfind) (hid.trans haccount.symm)
    exact howner.symm.trans huser.symm
  | getUserById hget =>
    obtain ⟨huser, hid, -⟩ := Identity.mem_of_get hget
    exact ⟨h, Advances.refl _, hp, h.userHeld huser, hid⟩
  | getRoleById hget =>
    have hid := List.find?_some hget
    exact ⟨h, Advances.refl _, hp.1, hp.2.1, hp.2.2, _, List.mem_of_find?_eq_some hget, by simpa using hid, rfl⟩
  | @login account user role id token ip agent now session rows hsession hcreate =>
    obtain ⟨hclaimed, huser, hid, hcode⟩ := hp
    obtain ⟨h₁, hadv, hmem, howner⟩ := h.of_login hclaimed hsession hcreate
    obtain ⟨h₂, hadv₂⟩ := h₁.of_token
      (t := ⟨⟨account.userId, account.email, user.tenantId, role.code, session.id⟩, user, role⟩)
      ⟨⟨session, hmem, rfl, howner⟩, ⟨hid, rfl⟩, hadv.users _ huser, hadv.codes _ _ hcode⟩
    exact ⟨h₂, hadv.trans hadv₂, trivial⟩
  | @refresh session account user role token now renewed rows hrenew hupdate =>
    obtain ⟨⟨hheld, howner⟩, huser, hid, hcode⟩ := hp
    obtain ⟨h₁, hadv⟩ := h.of_refresh hheld hrenew hupdate
    obtain ⟨s, hs, hsid, hframe⟩ := hadv.sessions _ hheld
    obtain ⟨h₂, hadv₂⟩ := h₁.of_token
      (t := ⟨⟨account.userId, account.email, user.tenantId, role.code, session.id⟩, user, role⟩)
      ⟨⟨s, hs, hsid, (frame_eq hframe).2.1.trans howner⟩, ⟨hid, rfl⟩, hadv.users _ huser, hadv.codes _ _ hcode⟩
    exact ⟨h₂, hadv.trans hadv₂, trivial⟩
  | fail => exact ⟨h, Advances.refl _, trivial⟩

end Steps

/-! ## The theorem -/

/-- The world is sound, and what the processes hold is known. -/
structure Kept (ports : Ports) (V : System → Prop) (st : System) : Prop where
  world : Sound st.world
  procs : ∀ p ∈ st.procs, p.Held ports V st.world

theorem Kept.step {ports : Ports} {V V' : System → Prop} {st st' : System} {l : Label}
    (hV : ∀ st, V st → V' st) (hst : V st) (h : Kept ports V st) (hs : step ports st l = some st') :
    Kept ports V' st' := by
  have hothers : ∀ {w' : World}, Advances st.world w' → ∀ p ∈ st.procs, p.Held ports V' w' :=
    fun hadv p hp => (h.procs p hp).mono hV hadv
  cases l with
  | http l =>
    cases l with
    | start r =>
      obtain ⟨w, p, hw, rfl⟩ := step_start.mp hs
      obtain ⟨hsound, hadv, hp⟩ := start_held (V := V) h.world (start_starts hw)
      exact ⟨hsound, Pool.forall_mem_concat (hothers hadv) (hp.mono hV (Advances.refl _))⟩
    | act i a =>
      obtain ⟨p, w, p', hp, hw, rfl⟩ := step_act.mp hs
      obtain ⟨hsound, hadv, hp'⟩ := act_held hst h.world (h.procs p (Pool.mem_of_getElem? hp)) (act_acts hw)
      refine ⟨hsound, fun q hq => ?_⟩
      rcases List.mem_or_eq_of_mem_set hq with hq | rfl
      · exact hothers hadv q hq
      · exact hp'.mono hV (Advances.refl _)
  | background l =>
    obtain ⟨w, hw, rfl⟩ := step_background.mp hs
    obtain ⟨hsound, hadv⟩ := h.world.background hw
    exact ⟨hsound, hothers hadv⟩

theorem kept_run {ports : Ports} {st st' : System} {ls : List Label} (h : Sound st.world) (hidle : st.procs = [])
    (hr : run (step ports) st ls = some st') : Kept ports (Visited (step ports) st ls) st' := by
  have hinit : ∀ {V : System → Prop}, V st → Kept ports V st := by
    intro V _
    refine ⟨h, fun p hp => ?_⟩
    rw [hidle] at hp
    exact absurd hp List.not_mem_nil
  have hstep : ∀ {V V' : System → Prop} {s : System} {l : Label} {s' : System}, (∀ x, V x → V' x) → V s → V' s' →
      Kept ports V s → step ports s l = some s' → Kept ports V' s' := fun hV hst _ h hs => h.step hV hst hs
  exact run_past hinit hstep hr

/-- The handler of the request is about to be called, or has been. -/
def Passed (procs : List Proc) (r : Request) (user : Option Principal) : Prop :=
  .admitted r user ∈ procs ∨ .served r user ∈ procs

/-- **A handler is called for admitted requests only**: whatever happens meanwhile, a handler that is not public
is called with the user of a session that was there when the request came, neither revoked nor over, and that
user was active, and had the permissions when they were looked up. -/
theorem served_requests_admitted {ports : Ports} {st st' : System} {ls : List Label} (h : Sound st.world)
    (hidle : st.procs = []) (hr : run (step ports) st ls = some st') :
    ∀ r user, Passed st'.procs r user → Admitted ports (Visited (step ports) st ls) r user := by
  have hkept := kept_run h hidle hr
  rintro r user (hpassed | hpassed)
  · exact hkept.procs _ hpassed
  · exact hkept.procs _ hpassed

section Example

/-- Any password is right. -/
def officePorts : Ports where
  auth := { Authentication.examplePorts with compare := fun _ _ => true }
  sign payload := "token of " ++ payload.sessionId
  invalidToken := fun _ => "jwt malformed"
  hmac := fun _ => Neltrik.Shared.CsrfTokenProvider.zeros
  frontendUrl := "https://neltrik.io"

/-- The permission to suspend. -/
def suspendUsers : Permission := ⟨⟨"p1", "USER_SUSPEND", "Suspend users", .platform, 0, 0⟩, by decide, by decide⟩

/-- The office before anybody has logged in. -/
def morning : System where
  world :=
    { identity :=
        { Identity.office with
          world := { Identity.office.world with
            db := { Identity.office.world.db with permissions := [suspendUsers], rolePermissions := [⟨"r1", "p1"⟩] } } }
      auth :=
        ⟨{ sessions := ⟨[], by decide⟩
           accounts := [⟨"a1", "u1", "email-password", "ada@neltrik.io", true, some "hash", 0, 0⟩]
           resets := []
           issued := [] }, []⟩
      tokens := []
      accountIds := ["a1"]
      denied := [] }
  procs := []

theorem morning_sound : Sound morning.world := by
  have hc := Identity.office_consistent
  have hconsistent : Identity.Consistent morning.world.identity.world :=
    ⟨hc.userKeys, hc.tenantKeys, hc.roleKeys, hc.userIds, hc.tenantIds, hc.roleIds⟩
  exact ⟨hconsistent.orderly rfl, by decide, by decide, List.forall_mem_nil _, List.forall_mem_nil _, List.forall_mem_nil _⟩

/-- A login. -/
def signIn : Request where
  route := ⟨.post, "auth/login", openToAll, []⟩
  method := .post
  accessToken := none
  origin := none
  requestedWith := none
  csrfToken := .absent
  call := .login "ada@neltrik.io" "secret"
  known := by decide +kernel
  accepted := by decide
  dispatched := by rintro _ ⟨⟩; rfl

/-- With the token of the session `s1`. -/
def suspendBob (origin : Option String) : Request where
  route := ⟨.patch, "users/:id/suspend", [.audit ⟨"USER_SUSPENDED", "USER"⟩, .permissions ["USER_SUSPEND"]], []⟩
  method := .patch
  accessToken := some "token of s1"
  origin
  requestedWith := some "XMLHttpRequest"
  csrfToken := .one (Neltrik.Shared.CsrfTokenProvider.token officePorts.hmac (Utf16.ofString "s1") [97])
  call := .suspendUser "u2"
  known := by decide +kernel
  accepted := by decide
  dispatched := by rintro _ ⟨⟩; rfl

/-- A login, a suspension by its token, and the same from elsewhere. -/
def suspendRun : List Label :=
  [.http (.start signIn), .http (.act 0 (.serve 0)), .http (.act 0 .getUserById), .http (.act 0 .getRoleById),
    .http (.act 0 (.createSession "s1" Authentication.firstToken none none 0)),
    .http (.start (suspendBob (some "https://neltrik.io"))), .http (.act 1 (.resolve 5)), .http (.act 1 (.findUser 0)),
    .http (.start (suspendBob none)), .http (.act 2 (.resolve 6)), .http (.act 1 (.findPermissions 0)),
    .http (.act 1 .conclude), .http (.act 1 (.serve 7)), .background (.identity 0 .findTarget),
    .background (.identity 0 .findActorRole), .background (.identity 0 .findTargetRole)]

/-- A handler has been called for the user. -/
def isServed (userId : String) : Proc → Bool
  | .served _ (some user) => user.userId == userId
  | _ => false

theorem served_requests_admitted_suspendRun : ∃ st' r user, run (step officePorts) morning suspendRun = some st' ∧
    .served r (some user) ∈ st'.procs ∧
    Admitted officePorts (Visited (step officePorts) morning suspendRun) r (some user) := by
  have hrun : (run (step officePorts) morning suspendRun).any (fun st => st.procs.any (isServed "u1")) = true := by
    decide +kernel
  obtain ⟨st', hst', hserved⟩ := (Option.any_eq_true _ _).mp hrun
  obtain ⟨p, hp, hserved⟩ := List.any_eq_true.mp hserved
  cases p with
  | served r user =>
    cases user with
    | none => cases hserved
    | some user => exact ⟨st', r, user, hst', hp, served_requests_admitted morning_sound rfl hst' r (some user) (Or.inr hp)⟩
  | _ => cases hserved

end Example

end Neltrik.Http
