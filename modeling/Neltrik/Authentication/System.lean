import Neltrik.Authentication.Domain
import Neltrik.Lib.Interleaving
import Neltrik.Lib.Table

/-! # Runs on the sessions

The runs that read or write session rows, `Login`, `RefreshToken`, `Logout`, `RevokeSession`,
`RevokeAllSessions` and `ResetPassword`, as processes over the stored rows. An action is one access to
the database with what the code computes after it until the next one; a transaction is one action.
`fail` ends a run at any of its calls that may throw.

`issued` is the history of the refresh tokens that were returned: nothing of the code reads it. -/

namespace Neltrik.Authentication

open Neltrik.Lib Neltrik.Lib.Table Neltrik.Shared
open Neltrik.Authorization (AuthenticationAccount PasswordHash.create)

/-- The digest of `Sha256Hasher` and `TokenHash`, the comparison of `bcrypt`, and
`JWT_REFRESH_TOKEN_EXPIRES_IN` in seconds. -/
structure Ports where
  hash : String → RefreshTokenHash
  compare : String → String → Bool
  refreshTokenExpiresIn : ℕ

/-- The tables of the module, and the tokens that have been handed out. -/
structure World where
  sessions : KeyedTable AuthenticationSession.id
  accounts : List AuthenticationAccount
  resets : List PasswordReset
  /-- The refresh tokens that were returned, each with its session, the last one first. -/
  issued : List (String × String)

/-! ## Repositories -/

namespace SessionRepository

/-- The filter of the ownership scope; `owner` is the user of the request. -/
def inScope (owner : Option String) (s : AuthenticationSession) : Bool := owner.all (· == s.ownerId)

/-- `findUnique` by the id, in the scope of the owner. -/
def findById (w : World) (owner : Option String) (id : String) : Option AuthenticationSession :=
  w.sessions.rows.find? fun s => s.id == id && inScope owner s

/-- `findFirst` by the digest, in the scope of the owner. -/
def findByRefreshTokenHash (w : World) (owner : Option String) (refreshTokenHash : RefreshTokenHash) :
    Option AuthenticationSession :=
  w.sessions.rows.find? fun s => s.refreshTokenHash == refreshTokenHash && inScope owner s

/-- `create`, with the primary key. -/
def create (w : World) (session : AuthenticationSession) : Option World :=
  (w.sessions.insert session).map fun sessions => { w with sessions }

/-- The row of an update, in the scope of the owner. -/
def selects (owner : Option String) (session s : AuthenticationSession) : Bool :=
  s.id == session.id && inScope owner s

theorem id_of_selects {owner : Option String} {session s : AuthenticationSession}
    (h : selects owner session s = true) : session.id = s.id := by
  rw [selects, Bool.and_eq_true, beq_iff_eq] at h
  exact h.1.symm

/-- The whole row, whatever is stored by now. -/
def update (w : World) (owner : Option String) (session : AuthenticationSession) : Option World :=
  if w.sessions.rows.any (selects owner session) then
    some { w with
      sessions := w.sessions.update (selects owner session) (fun _ => session) fun _ => id_of_selects }
  else none

/-- `updateMany` with `revokedAt: null` in its condition. -/
def revokeWhere (w : World) (p : AuthenticationSession → Bool) (now : ℕ) : World :=
  { w with
    sessions := w.sessions.update (fun s => p s && s.revokedAt.isNone)
      (fun s => { s with revokedAt := some now, updatedAt := now }) fun _ _ => rfl }

/-- `updateMany` of the sessions of an account that are not revoked. -/
def invalidateByAccount (w : World) (accountId : String) (now : ℕ) : World :=
  revokeWhere w (·.authenticationAccountId == accountId) now

/-- `updateMany` of the other sessions of an account that are not revoked. -/
def revokeAllExcept (w : World) (accountId currentSessionId : String) (now : ℕ) : World :=
  revokeWhere w (fun s => s.authenticationAccountId == accountId && s.id != currentSessionId) now

end SessionRepository

namespace AccountRepository

/-- `findUnique` by the id. -/
def findById (w : World) (id : String) : Option AuthenticationAccount := w.accounts.find? (·.id == id)

/-- `findUnique` by the user. -/
def findByUserId (w : World) (userId : String) : Option AuthenticationAccount :=
  w.accounts.find? (·.userId == userId)

/-- `findFirst` by the email. -/
def findByEmail (w : World) (email : String) : Option AuthenticationAccount :=
  w.accounts.find? (·.email == email)

/-- `update` by the id, of the whole row. -/
def update (w : World) (account : AuthenticationAccount) : Option World :=
  if w.accounts.any (·.id == account.id) then
    some { w with accounts := updateWhere (·.id == account.id) (fun _ => account) w.accounts }
  else none

end AccountRepository

namespace PasswordResetRepository

/-- `findFirst` by the digest. -/
def findByTokenHash (w : World) (tokenHash : String) : Option PasswordReset :=
  w.resets.find? (·.tokenHash == tokenHash)

/-- `update` by the id, of the whole row. -/
def update (w : World) (reset : PasswordReset) : Option World :=
  if w.resets.any (·.id == reset.id) then
    some { w with resets := updateWhere (·.id == reset.id) (fun _ => reset) w.resets }
  else none

end PasswordResetRepository

/-! ## Use cases -/

/-- `MAX_AGE.ACCESS_TOKEN`. -/
def accessTokenMaxAge : ℕ := 15 * 60 * 1000

/-- When an access token that is signed now ends. -/
def calculateAccessTokenExpiration (now : ℕ) : ℕ := now + accessTokenMaxAge

/-- When a refresh token that is issued now ends. -/
def calculateRefreshTokenExpiration (ports : Ports) (now : ℕ) : ℕ :=
  now + ports.refreshTokenExpiresIn * 1000

/-- The row, or the error of the use case. -/
def found {α : Type} (row : Option α) (e : AuthError) : Except AuthError α :=
  match row with
  | some a => .ok a
  | none => .error e

namespace RefreshToken

/-- Until the account is looked up. -/
def read (ports : Ports) (w : World) (owner : Option String) (refreshToken : String) (now : ℕ) :
    Except AuthError AuthenticationSession := do
  if refreshToken = "" then throw .invalidRefreshToken
  let session ← found (SessionRepository.findByRefreshTokenHash w owner (ports.hash refreshToken))
    .invalidRefreshToken
  session.ensureCanBeRenewed now
  return session

/-- Between the last lookup and the update. -/
def renew (ports : Ports) (session : AuthenticationSession) (newRefreshToken : String) (now : ℕ) :
    Except AuthError AuthenticationSession := do
  let newRefreshTokenExpiresAt ← ExpirationDate.create (calculateRefreshTokenExpiration ports now) now
  session.renew (ports.hash newRefreshToken) session.expiresAt newRefreshTokenExpiresAt now

end RefreshToken

/-- The session of the token, revoked in memory. -/
def Logout.read (ports : Ports) (w : World) (owner : Option String) (refreshToken : String) (now : ℕ) :
    Except AuthError AuthenticationSession.IsRevoked := do
  if refreshToken = "" then throw .invalidRefreshToken
  let session ← found (SessionRepository.findByRefreshTokenHash w owner (ports.hash refreshToken))
    .invalidRefreshToken
  session.revoke now

/-- The session of the id, revoked in memory. -/
def RevokeSession.read (w : World) (owner : Option String) (sessionId : String) (now : ℕ) :
    Except AuthError AuthenticationSession.IsRevoked := do
  let session ← found (SessionRepository.findById w owner sessionId) .sessionNotFound
  session.revoke now

namespace Login

/-- The account whose password was given. -/
def read (ports : Ports) (w : World) (email password : String) :
    Except AuthError AuthenticationAccount := do
  let account ← found (AccountRepository.findByEmail w email) .accountNotFound
  if account.provider ≠ "email-password" then throw .unsupportedProvider
  let passwordHash ← found account.passwordHash .invalidCredentials
  if ports.compare password passwordHash = false then throw .invalidCredentials
  return account

/-- The new session of a login. -/
def session (ports : Ports) (account : AuthenticationAccount) (id refreshToken : String)
    (ipAddress userAgent : Option String) (now : ℕ) : Except AuthError AuthenticationSession := do
  let expiresAt ← ExpirationDate.create (calculateAccessTokenExpiration now) now
  let refreshTokenExpiresAt ← ExpirationDate.create (calculateRefreshTokenExpiration ports now) now
  return AuthenticationSession.create
    { id, authenticationAccountId := account.id, ownerId := account.userId,
      refreshTokenHash := ports.hash refreshToken, expiresAt, refreshTokenExpiresAt,
      revokedAt := none, lastUsedAt := none, ipAddress, userAgent, createdAt := now, updatedAt := now }

end Login

namespace ResetPassword

/-- The transaction; `hashedPassword` is what the password hasher returns. -/
def commit (ports : Ports) (w : World) (token : String) (reset : PasswordReset)
    (account : AuthenticationAccount) (hashedPassword : String) (now : ℕ) : Option World := do
  let reset ← (reset.use (ports.hash token) now).toOption
  let w ← PasswordResetRepository.update w reset
  let passwordHash ← (PasswordHash.create hashedPassword).toOption
  let w ← AccountRepository.update w (account.update (some passwordHash) now)
  return SessionRepository.invalidateByAccount w account.id now

end ResetPassword

/-! ## Processes -/

/-- A run at the access that comes next. -/
inductive Proc where
  /-- `RefreshToken` before and after the lookups of the account, the user and the role, and when it
  has returned: the session, the token that was presented and the new one. -/
  | refreshing (owner : Option String) (refreshToken : String) (session : AuthenticationSession)
  | authorized (owner : Option String) (refreshToken : String) (session : AuthenticationSession)
  | refreshed (sessionId refreshToken newRefreshToken : String)
  | loggingIn (account : AuthenticationAccount)
  /-- `Logout` and `RevokeSession` with the session that is revoked in memory. -/
  | revoking (owner : Option String) (session : AuthenticationSession.IsRevoked)
  | revokingOthers (accountId currentSessionId : String)
  | resetting (token : String) (reset : PasswordReset)
  | resettingAccount (token : String) (reset : PasswordReset) (account : AuthenticationAccount)
  | done
  | failed
  deriving DecidableEq

/-- The run has returned or thrown. -/
def Proc.isOver : Proc → Bool
  | .refreshed .. | .done | .failed => true
  | _ => false

/-- A use case with its input. -/
inductive Start where
  | refreshToken (owner : Option String) (refreshToken : String) (now : ℕ)
  | login (email password : String)
  | logout (owner : Option String) (refreshToken : String) (now : ℕ)
  | revokeSession (owner : Option String) (sessionId : String) (now : ℕ)
  | revokeAllSessions (userId currentSessionId : String)
  | resetPassword (token : String)
  deriving DecidableEq

/-- The next access of a run, which may fail. -/
inductive Action where
  | findAccount
  | renew (newRefreshToken : String) (now : ℕ)
  | createSession (id refreshToken : String) (ipAddress userAgent : Option String) (now : ℕ)
  | saveRevoked
  | revokeOthers (now : ℕ)
  | commitReset (hashedPassword : String) (now : ℕ)
  | fail
  deriving DecidableEq

/-- A run up to its first read; a run that throws there leaves nothing. -/
def start (ports : Ports) (w : World) : Start → Option (World × Proc)
  | .refreshToken owner refreshToken now => do
    let session ← (RefreshToken.read ports w owner refreshToken now).toOption
    return (w, .refreshing owner refreshToken session)
  | .login email password => do
    let account ← (Login.read ports w email password).toOption
    return (w, .loggingIn account)
  | .logout owner refreshToken now => do
    let session ← (Logout.read ports w owner refreshToken now).toOption
    return (w, .revoking owner session)
  | .revokeSession owner sessionId now => do
    let session ← (RevokeSession.read w owner sessionId now).toOption
    return (w, .revoking owner session)
  | .revokeAllSessions userId currentSessionId => do
    let account ← AccountRepository.findByUserId w userId
    return (w, .revokingOthers account.id currentSessionId)
  | .resetPassword token => do
    let reset ← PasswordResetRepository.findByTokenHash w (ports.hash token)
    return (w, .resetting token reset)

/-- The next access of a run, and what the code computes after it. -/
def act (ports : Ports) (_ : List Proc) (w : World) : Proc → Action → Option (World × Proc)
  | .refreshing owner refreshToken session, .findAccount => do
    let _ ← AccountRepository.findById w session.authenticationAccountId
    return (w, .authorized owner refreshToken session)
  | .authorized owner refreshToken session, .renew newRefreshToken now => do
    let renewed ← (RefreshToken.renew ports session newRefreshToken now).toOption
    let w ← SessionRepository.update w owner renewed
    return ({ w with issued := (session.id, newRefreshToken) :: w.issued },
      .refreshed session.id refreshToken newRefreshToken)
  | .loggingIn account, .createSession id refreshToken ipAddress userAgent now => do
    let session ← (Login.session ports account id refreshToken ipAddress userAgent now).toOption
    let w ← SessionRepository.create w session
    return ({ w with issued := (id, refreshToken) :: w.issued }, .done)
  | .revoking owner session, .saveRevoked => do
    let w ← SessionRepository.update w owner session
    return (w, .done)
  | .revokingOthers accountId currentSessionId, .revokeOthers now =>
    some (SessionRepository.revokeAllExcept w accountId currentSessionId now, .done)
  | .resetting token reset, .findAccount => do
    let account ← AccountRepository.findById w reset.authenticationAccountId
    return (w, .resettingAccount token reset account)
  | .resettingAccount token reset account, .commitReset hashedPassword now => do
    let w ← ResetPassword.commit ports w token reset account hashedPassword now
    return (w, .done)
  | p, .fail => if p.isOver then none else some (w, .failed)
  | _, _ => none

/-- A step of the system. -/
abbrev Label := Interleaving.Label Start Action

/-- The world and the runs. -/
abbrev System := Interleaving.State World Proc

/-- The runs interleaved. -/
abbrev step (ports : Ports) : System → Label → Option System :=
  Interleaving.step (start ports) (act ports)

/-! ### One session -/

section Example

/-- A refresh token. -/
def firstToken : String := "0b6a5c1e-8a56-4f0c-9d0e-2f7f5f3c1a01"

/-- Another one. -/
def secondToken : String := "5d2f8e47-31c9-4b7a-a1de-6c0b94e7f802"

/-- A third one. -/
def thirdToken : String := "c41e07b3-9f6d-4e25-8b90-d7a3152ce603"

theorem isBlank_tagged (token : String) : isBlank ("sha256:" ++ token) = false := by
  simp [isBlank, isSpace]

/-- The digests of the three tokens. -/
def exampleHash (token : String) : RefreshTokenHash :=
  if token = firstToken then
    ⟨"9919cf8eb76649f6f1af71e3388c0b5108296531b82efd0d221374e527d90955", by decide⟩
  else if token = secondToken then
    ⟨"80a2bda97ade2bba1c0ab9f6578ddd71566ff7014891ec89db63239d0cfbc557", by decide⟩
  else if token = thirdToken then
    ⟨"42ef3bafe598fc95cd0d0a46f98a65153be8277817f14f549809e05cecd7e0cd", by decide⟩
  else ⟨"sha256:" ++ token, isBlank_tagged token⟩

/-- A digest that tells the tokens apart. -/
def examplePorts : Ports where
  hash := exampleHash
  compare := fun _ _ => false
  refreshTokenExpiresIn := 604800

/-- A session as `Login` leaves it. -/
def exampleSession : AuthenticationSession where
  id := "s1"
  authenticationAccountId := "a1"
  ownerId := "u1"
  refreshTokenHash := exampleHash firstToken
  expiresAt := calculateAccessTokenExpiration 0
  refreshTokenExpiresAt := calculateRefreshTokenExpiration examplePorts 0
  revokedAt := none
  lastUsedAt := none
  ipAddress := none
  userAgent := none
  createdAt := 0
  updatedAt := 0

/-- One account with its session. -/
def exampleWorld : World where
  sessions := ⟨[exampleSession], by decide⟩
  accounts := [⟨"a1", "u1", "email-password", "ann@acme.io", true, none, 0, 0⟩]
  resets := []
  issued := [("s1", firstToken)]

end Example

end Neltrik.Authentication
