import Neltrik.Http.Access

/-! # What a step of a request does

`Acts` inverts `act`; `Handles` says what the call of a handler does, and `proceed_cases` what comes after the
authentication. -/

namespace Neltrik.Http

open Neltrik.Lib Neltrik.Authorization
open Neltrik.Lib.Effect (toOption_eq_some)
open Neltrik.Authentication (AuthenticationSession)

/-- The request that is on its way through the guards. -/
def Proc.underway : Proc → Option Request
  | .resolving r _ | .checking r _ _ => some r
  | _ => none

/-- A login or a refresh, on its way to an access token. -/
def Proc.isIssuing : Proc → Bool
  | .locating _ | .identifying .. | .identified .. | .signing .. => true
  | _ => false

/-! ## Handlers -/

/-- What a handler does, one rule for each case. -/
inductive Handles (ports : Ports) (w : World) (r : Request) (user : Option Principal) (now : ℕ) : World × Proc → Prop
  | login {email password account} (hcall : r.call = .login email password)
      (h : Authentication.Login.read ports.auth w.rows email password = .ok account) :
      Handles ports w r user now (w, .identifying .login account)
  | refresh {token session} (hcall : r.call = .refresh token)
      (h : Authentication.RefreshToken.read ports.auth w.rows none token now = .ok session) :
      Handles ports w r user now (w, .locating session)
  | start {s identity}
      (hcall : r.call.start (scopeOf (tenantContext user)) ((user.map (·.userId)).getD "") = some s)
      (h : Identity.step w.identity (.start s) = some identity) :
      Handles ports w r user now ({ w with identity }, .served r user)
  | quiet : Handles ports w r user now (w, .served r user)

theorem handle_handles (ports : Ports) (w : World) (r : Request) (user : Option Principal) (now : ℕ) :
    Handles ports w r user now (handle ports w r user now) := by
  unfold handle
  split
  · split
    · exact .login ‹_› ‹_›
    · exact .quiet
  · split
    · exact .refresh ‹_› ‹_›
    · exact .quiet
  · dsimp only
    split
    · rename_i h
      obtain ⟨s, hs, hstep⟩ := Option.bind_eq_some_iff.mp h
      exact .start hs hstep
    · exact .quiet

/-- After the authentication a request is refused, admitted, or its permissions are checked. -/
theorem proceed_cases (ports : Ports) (w : World) (r : Request) (user : Option Principal) :
    (∃ refusal, afterAuthentication ports.hmac ports.frontendUrl r user = .error refusal ∧
      proceed ports w r user = refuse w r refusal) ∨
    (afterAuthentication ports.hmac ports.frontendUrl r user = .ok none ∧
      proceed ports w r user = (w, .admitted r user)) ∨
    ∃ principal codes, afterAuthentication ports.hmac ports.frontendUrl r user = .ok (some (principal, codes)) ∧
      proceed ports w r user = (w, .checking r principal (codes.map fun code => (code, .pending))) := by
  unfold proceed
  rcases h : afterAuthentication ports.hmac ports.frontendUrl r user with refusal | _ | ⟨principal, codes⟩
  · exact Or.inl ⟨refusal, rfl, rfl⟩
  · exact Or.inr (Or.inl ⟨rfl, rfl⟩)
  · exact Or.inr (Or.inr ⟨principal, codes, rfl, rfl⟩)

/-! ## Starts and actions -/

/-- Where a request comes to, up to its first access. -/
inductive Starts (ports : Ports) (w : World) (r : Request) : World × Proc → Prop
  | refuse {error} (h : AuthenticationGuard.begin (verify ports w) r = .error error) :
      Starts ports w r (refuse w r ⟨"AuthenticationGuard", error⟩)
  | proceed (h : AuthenticationGuard.begin (verify ports w) r = .ok none) : Starts ports w r (proceed ports w r none)
  | resolving {payload} (h : AuthenticationGuard.begin (verify ports w) r = .ok (some payload)) :
      Starts ports w r (w, .resolving r payload)

theorem start_starts {ports : Ports} {w : World} {r : Request} {x : World × Proc} (h : start ports w r = some x) :
    Starts ports w r x := by
  unfold start at h
  split at h
  · cases h; exact .refuse ‹_›
  · cases h; exact .proceed ‹_›
  · cases h; exact .resolving ‹_›

/-- What an action does, one rule for each case. -/
inductive Acts (ports : Ports) (w : World) : Proc → Action → World × Proc → Prop
  | refuse {p a r refusal} (hp : p.underway = some r) : Acts ports w p a (refuse w r refusal)
  | resolve {r payload now session state user}
      (hfind : Authentication.SessionRepository.findById w.rows none payload.sessionId = some session)
      (hstate : ownerState w session = some state)
      (h : AuthenticationGuard.complete payload
        (Authentication.SessionLife.resolve (fun _ => state) w.rows payload.sessionId now) = .ok user) :
      Acts ports w (.resolving r payload) (.resolve now) (proceed ports w r (some user))
  | findUser {r user checks k permission owner} (hk : checks[k]? = some (permission, .pending))
      (h : UserRepository.get w.db none user.userId = some owner) :
      Acts ports w (.checking r user checks) (.findUser k)
        (w, .checking r user (checks.set k (permission, .reading owner.roleId)))
  | findPermissions {r user checks k permission roleId} (hk : checks[k]? = some (permission, .reading roleId)) :
      Acts ports w (.checking r user checks) (.findPermissions k)
        (w, .checking r user (checks.set k (permission,
          .checked ((RoleRepository.getPermissionsByRole w.db roleId).any fun p => p.code == permission))))
  | enter {r user checks results}
      (hresults : checks.mapM resultOf = some results)
      (h : PermissionsGuard.conclude results = .ok ()) :
      Acts ports w (.checking r user checks) .conclude (w, .admitted r (some user))
  | serve {r user now} : Acts ports w (.admitted r user) (.serve now) (handle ports w r user now)
  | findAccount {session account}
      (h : Authentication.AccountRepository.findById w.rows session.authenticationAccountId = some account) :
      Acts ports w (.locating session) .findAccount (w, .identifying (.refresh session) account)
  | getUserById {issue account user} (h : UserRepository.get w.db none account.userId = some user) :
      Acts ports w (.identifying issue account) .getUserById (w, .identified issue account user)
  | getRoleById {issue account user role} (h : RoleRepository.row w.db user.roleId = some role) :
      Acts ports w (.identified issue account user) .getRoleById (w, .signing issue account user role)
  | login {account user role id token ip agent now session rows}
      (hsession : Authentication.Login.session ports.auth account id token ip agent now = .ok session)
      (h : Authentication.SessionRepository.create w.rows session = some rows) :
      Acts ports w (.signing .login account user role) (.createSession id token ip agent now)
        ({ w with
            auth := ⟨rows, w.auth.procs⟩
            tokens := ⟨⟨account.userId, account.email, user.tenantId, role.code, session.id⟩, user, role⟩ :: w.tokens },
          .issued)
  | refresh {session account user role token now renewed rows}
      (hrenew : Authentication.RefreshToken.renew ports.auth session token now = .ok renewed)
      (h : Authentication.SessionRepository.update w.rows none renewed = some rows) :
      Acts ports w (.signing (.refresh session) account user role) (.renew token now)
        ({ w with
            auth := ⟨rows, w.auth.procs⟩
            tokens := ⟨⟨account.userId, account.email, user.tenantId, role.code, session.id⟩, user, role⟩ :: w.tokens },
          .issued)
  | fail {p message} (hp : p.isIssuing = true) : Acts ports w p (.fail message) (w, .failed)

theorem act_acts {ports : Ports} {procs : List Proc} {w : World} {p : Proc} {a : Action} {x : World × Proc}
    (h : act ports procs w p a = some x) : Acts ports w p a x := by
  unfold act at h
  split at h
  · split at h
    · cases h; exact .refuse rfl
    · obtain ⟨state, hstate, h⟩ := Option.bind_eq_some_iff.mp h
      dsimp only at h
      split at h
      · cases h; exact .refuse rfl
      · cases h; exact .resolve ‹_› hstate ‹_›
  · split at h
    · split at h
      · cases h; exact .findUser ‹_› ‹_›
      · cases h; exact .refuse rfl
    · cases h
  · split at h
    · cases h; exact .findPermissions ‹_›
    · cases h
  · obtain ⟨results, hresults, h⟩ := Option.bind_eq_some_iff.mp h
    split at h
    · cases h; exact .enter hresults ‹_›
    · cases h; exact .refuse rfl
  · cases h; exact .serve
  · obtain ⟨account, haccount, rfl⟩ := Option.map_eq_some_iff.mp h
    exact .findAccount haccount
  · obtain ⟨user, huser, rfl⟩ := Option.map_eq_some_iff.mp h
    exact .getUserById huser
  · obtain ⟨role, hrole, rfl⟩ := Option.map_eq_some_iff.mp h
    exact .getRoleById hrole
  · obtain ⟨session, hsession, h⟩ := Option.bind_eq_some_iff.mp h
    obtain ⟨rows, hrows, rfl⟩ := Option.map_eq_some_iff.mp h
    exact .login (toOption_eq_some.mp hsession) hrows
  · obtain ⟨renewed, hrenew, h⟩ := Option.bind_eq_some_iff.mp h
    obtain ⟨rows, hrows, rfl⟩ := Option.map_eq_some_iff.mp h
    exact .refresh (toOption_eq_some.mp hrenew) hrows
  · cases h; exact .refuse rfl
  · cases h; exact .refuse rfl
  · cases h; exact .fail rfl
  · cases h; exact .fail rfl
  · cases h; exact .fail rfl
  · cases h; exact .fail rfl
  · cases h

section Step
variable {ports : Ports} {st st' : System}

theorem step_start {r : Request} : step ports st (.http (.start r)) = some st' ↔
    ∃ w p, start ports st.world r = some (w, p) ∧ st' = ⟨w, st.procs ++ [p]⟩ := by
  show Interleaving.step (start ports) (act ports) st (.start r) = some st' ↔ _
  exact Interleaving.step_start

theorem step_act {i : ℕ} {a : Action} : step ports st (.http (.act i a)) = some st' ↔
    ∃ p w p', st.procs[i]? = some p ∧ act ports st.procs st.world p a = some (w, p') ∧
      st' = ⟨w, st.procs.set i p'⟩ := by
  show Interleaving.step (start ports) (act ports) st (.act i a) = some st' ↔ _
  exact Interleaving.step_act

theorem step_background {l : Background} : step ports st (.background l) = some st' ↔
    ∃ w, background ports st.world l = some w ∧ st' = { st with world := w } := by
  show (background ports st.world l).map _ = some st' ↔ _
  rw [Option.map_eq_some_iff]
  simp only [eq_comm]

end Step

end Neltrik.Http
