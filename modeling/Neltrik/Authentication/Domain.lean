import Neltrik.Authorization.Domain

/-! # Sessions and password resets

The entities of the module `authentication` that hold tokens. Of a token only the digest is stored;
a session cannot have a blank one. Instants are in milliseconds, `now` is what `new Date()` returns. -/

namespace Neltrik.Authentication

open Neltrik.Shared

/-- The errors of these use cases, by the class the source throws. -/
inductive AuthError where
  | invalidRefreshToken | sessionExpired | sessionRevoked | sessionNotFound
  | expirationDateInPast | invalidToken
  | passwordResetExpired | passwordResetAlreadyUsed | passwordResetNotFound
  | accountNotFound | unsupportedProvider | invalidCredentials
  deriving DecidableEq, Repr

namespace ExpirationDate

/-- A date that is still to come. -/
def create (value now : ℕ) : Except AuthError ℕ :=
  if value ≤ now then .error .expirationDateInPast else .ok value

/-- From the date on. -/
def isExpired (value now : ℕ) : Bool := value ≤ now

end ExpirationDate

/-- What `ensureRefreshTokenHashIsNotEmpty` lets through. -/
abbrev RefreshTokenHash := { hash : String // isBlank hash = false }

/-- The fields of a session. `expiresAt` bounds the session, `refreshTokenExpiresAt` its refresh token. -/
structure AuthenticationSession where
  id : String
  authenticationAccountId : String
  ownerId : String
  refreshTokenHash : RefreshTokenHash
  expiresAt : ℕ
  refreshTokenExpiresAt : ℕ
  revokedAt : Option ℕ
  lastUsedAt : Option ℕ
  ipAddress : Option String
  userAgent : Option String
  createdAt : ℕ
  updatedAt : ℕ
  deriving DecidableEq

namespace AuthenticationSession

/-- A new session has not been used or revoked. -/
def create (s : AuthenticationSession) : AuthenticationSession :=
  { s with revokedAt := none, lastUsedAt := none }

/-- By `expiresAt`. -/
def isExpired (s : AuthenticationSession) (now : ℕ) : Bool := ExpirationDate.isExpired s.expiresAt now

/-- There is a date of the revocation. -/
def isRevoked (s : AuthenticationSession) : Bool := s.revokedAt.isSome

/-- By `refreshTokenExpiresAt`. -/
def isRefreshTokenExpired (s : AuthenticationSession) (now : ℕ) : Bool :=
  ExpirationDate.isExpired s.refreshTokenExpiresAt now

/-- The checks of a renewal, in their order. -/
def ensureCanBeRenewed (s : AuthenticationSession) (now : ℕ) : Except AuthError Unit :=
  if s.isExpired now then .error .sessionExpired
  else if s.isRevoked then .error .sessionRevoked
  else if s.isRefreshTokenExpired now then .error .invalidRefreshToken
  else .ok ()

/-- A new digest and new dates; the old refresh token is worth nothing then. -/
def renew (s : AuthenticationSession) (newRefreshTokenHash : RefreshTokenHash)
    (newExpiresAt newRefreshTokenExpiresAt now : ℕ) : Except AuthError AuthenticationSession := do
  s.ensureCanBeRenewed now
  return { s with
    refreshTokenHash := newRefreshTokenHash, expiresAt := newExpiresAt
    refreshTokenExpiresAt := newRefreshTokenExpiresAt, lastUsedAt := some now, updatedAt := now }

/-- A session after `revoke`. -/
abbrev IsRevoked := { s : AuthenticationSession // s.isRevoked = true }

/-- A session is revoked once. -/
def revoke (s : AuthenticationSession) (now : ℕ) : Except AuthError IsRevoked :=
  if s.isRevoked then .error .sessionRevoked
  else .ok ⟨{ s with revokedAt := some now, updatedAt := now }, rfl⟩

theorem ensureCanBeRenewed_eq_ok {s : AuthenticationSession} {now : ℕ} :
    s.ensureCanBeRenewed now = .ok () ↔
      s.isExpired now = false ∧ s.isRevoked = false ∧ s.isRefreshTokenExpired now = false := by
  unfold ensureCanBeRenewed
  split_ifs <;> simp_all

/-- What a renewal leaves, and what it sets. -/
theorem renew_eq_ok {s s' : AuthenticationSession} {h : RefreshTokenHash} {e r now : ℕ}
    (hs : s.renew h e r now = .ok s') :
    s.isRevoked = false ∧ s'.id = s.id ∧ s'.revokedAt = s.revokedAt ∧ s'.refreshTokenHash = h := by
  unfold renew at hs
  cases he : s.ensureCanBeRenewed now with
  | error e => rw [he] at hs; cases hs
  | ok _ =>
    rw [he] at hs; cases hs
    exact ⟨(ensureCanBeRenewed_eq_ok.mp he).2.1, rfl, rfl, rfl⟩

theorem revoke_eq_ok {s : AuthenticationSession} {s' : IsRevoked} {now : ℕ}
    (hs : s.revoke now = .ok s') : s'.val.id = s.id ∧ s'.val.refreshTokenHash = s.refreshTokenHash := by
  unfold revoke at hs
  split_ifs at hs
  cases hs
  exact ⟨rfl, rfl⟩

end AuthenticationSession

/-- The fields of a reset, with the digest of its token. -/
structure PasswordReset where
  id : String
  authenticationAccountId : String
  tokenHash : String
  expiresAt : ℕ
  usedAt : Option ℕ
  createdAt : ℕ
  updatedAt : ℕ
  deriving DecidableEq

namespace PasswordReset

/-- By `expiresAt`. -/
def isExpired (r : PasswordReset) (now : ℕ) : Bool := ExpirationDate.isExpired r.expiresAt now

/-- There is a date of the use. -/
def isUsed (r : PasswordReset) : Bool := r.usedAt.isSome

/-- `tokenHash.verify(token)`, given the digest of the token. -/
def verify (r : PasswordReset) (digest : String) : Bool := r.tokenHash == digest

/-- The checks of a use, in their order, and its date. -/
def use (r : PasswordReset) (digest : String) (now : ℕ) : Except AuthError PasswordReset :=
  if r.isExpired now then .error .passwordResetExpired
  else if r.isUsed then .error .passwordResetAlreadyUsed
  else if r.verify digest = false then .error .invalidToken
  else .ok { r with usedAt := some now, updatedAt := now }

end PasswordReset

end Neltrik.Authentication
