import Neltrik.Authentication.Domain
import Neltrik.Lib.OneTime

/-! # Tokens that are mailed

The rows of `password_resets` and `email_verifications`: how they are created and completed, and what
they show as one-time tokens. -/

namespace Neltrik.Authentication

open Neltrik.Lib.OneTime Neltrik.Shared
open Neltrik.Authorization (AuthenticationAccount)

/-- The errors of the entities below, by the class the source throws. -/
inductive TokenError where
  | emptyAccountId | emptyEmail | expirationDateInPast
  | emailVerificationExpired | emailVerificationAlreadyCompleted | invalidToken
  | emailAlreadyVerified
  deriving DecidableEq, Repr

/-- `new Date(Date.now() + 24 * 60 * 60 * 1000)`. -/
def tokenExpiration (now : ℕ) : ℕ := now + 24 * 60 * 60 * 1000

/-- `ExpirationDate.create`. -/
def createExpiration (value now : ℕ) : Except TokenError ℕ :=
  (ExpirationDate.create value now).mapError fun _ => .expirationDateInPast

namespace PasswordReset

/-- A new reset has not been used. -/
def create (id authenticationAccountId tokenHash : String) (expiresAt now : ℕ) :
    Except TokenError PasswordReset :=
  if isBlank authenticationAccountId then .error .emptyAccountId
  else .ok
    { id, authenticationAccountId, tokenHash, expiresAt, usedAt := none, createdAt := now,
      updatedAt := now }

theorem create_eq_ok {id accountId tokenHash : String} {expiresAt now : ℕ} {r : PasswordReset}
    (h : create id accountId tokenHash expiresAt now = .ok r) :
    r.id = id ∧ r.authenticationAccountId = accountId ∧ r.usedAt = none := by
  unfold create at h
  split_ifs at h
  cases h
  exact ⟨rfl, rfl, rfl⟩

theorem use_eq_ok {r r' : PasswordReset} {digest : String} {now : ℕ} :
    r.use digest now = .ok r' ↔ r.isExpired now = false ∧ r.isUsed = false ∧ r.verify digest = true ∧
      r' = { r with usedAt := some now, updatedAt := now } := by
  unfold use
  split_ifs with he hu hv
  · exact ⟨nofun, fun h => by rw [h.1] at he; cases he⟩
  · exact ⟨nofun, fun h => by rw [h.2.1] at hu; cases hu⟩
  · exact ⟨nofun, fun h => by rw [h.2.2.1] at hv; cases hv⟩
  · constructor
    · intro h
      cases h
      exact ⟨(Bool.not_eq_true _).mp he, (Bool.not_eq_true _).mp hu, (Bool.not_eq_false _).mp hv, rfl⟩
    · rintro ⟨-, -, -, rfl⟩
      rfl

end PasswordReset

/-- The fields of a verification, with the digest of its token. -/
structure EmailVerification where
  id : String
  authenticationAccountId : String
  email : String
  tokenHash : String
  expiresAt : ℕ
  verifiedAt : Option ℕ
  createdAt : ℕ
  updatedAt : ℕ
  deriving DecidableEq

namespace EmailVerification

/-- A new verification is not completed. -/
def create (id authenticationAccountId email tokenHash : String) (expiresAt now : ℕ) :
    Except TokenError EmailVerification :=
  if isBlank email then .error .emptyEmail
  else if isBlank authenticationAccountId then .error .emptyAccountId
  else .ok
    { id, authenticationAccountId, email, tokenHash, expiresAt, verifiedAt := none, createdAt := now,
      updatedAt := now }

/-- By `expiresAt`. -/
def isExpired (v : EmailVerification) (now : ℕ) : Bool := ExpirationDate.isExpired v.expiresAt now

/-- There is a date of the completion. -/
def isCompleted (v : EmailVerification) : Bool := v.verifiedAt.isSome

/-- `tokenHash.verify(token)`, given the digest of the token. -/
def verify (v : EmailVerification) (digest : String) : Bool := v.tokenHash == digest

/-- The checks of a completion, in their order, and its date. -/
def complete (v : EmailVerification) (digest : String) (now : ℕ) : Except TokenError EmailVerification :=
  if v.isExpired now then .error .emailVerificationExpired
  else if v.isCompleted then .error .emailVerificationAlreadyCompleted
  else if v.verify digest = false then .error .invalidToken
  else .ok { v with verifiedAt := some now, updatedAt := now }

theorem create_eq_ok {id accountId email tokenHash : String} {expiresAt now : ℕ}
    {v : EmailVerification} (h : create id accountId email tokenHash expiresAt now = .ok v) :
    v.id = id ∧ v.authenticationAccountId = accountId ∧ v.verifiedAt = none := by
  unfold create at h
  split_ifs at h
  cases h
  exact ⟨rfl, rfl, rfl⟩

theorem complete_eq_ok {v v' : EmailVerification} {digest : String} {now : ℕ} :
    v.complete digest now = .ok v' ↔ v.isExpired now = false ∧ v.isCompleted = false ∧
      v.verify digest = true ∧ v' = { v with verifiedAt := some now, updatedAt := now } := by
  unfold complete
  split_ifs with he hc hv
  · exact ⟨nofun, fun h => by rw [h.1] at he; cases he⟩
  · exact ⟨nofun, fun h => by rw [h.2.1] at hc; cases hc⟩
  · exact ⟨nofun, fun h => by rw [h.2.2.1] at hv; cases hv⟩
  · constructor
    · intro h
      cases h
      exact ⟨(Bool.not_eq_true _).mp he, (Bool.not_eq_true _).mp hc, (Bool.not_eq_false _).mp hv, rfl⟩
    · rintro ⟨-, -, -, rfl⟩
      rfl

end EmailVerification

/-- `AuthenticationAccount.verifyEmail`. -/
def verifyEmail (account : AuthenticationAccount) (now : ℕ) : Except TokenError AuthenticationAccount :=
  if account.emailVerified then .error .emailAlreadyVerified
  else .ok { account with emailVerified := true, updatedAt := now }

theorem verifyEmail_eq_ok {account account' : AuthenticationAccount} {now : ℕ}
    (h : verifyEmail account now = .ok account') : account.emailVerified = false ∧
      account' = { account with emailVerified := true, updatedAt := now } := by
  unfold verifyEmail at h
  split_ifs at h with hv
  cases h
  exact ⟨(Bool.not_eq_true _).mp hv, rfl⟩

/-! ## As one-time tokens -/

/-- What `invalidatePendingByAccount` sets. -/
def passwordResets : Kind PasswordReset String String where
  id := PasswordReset.id
  owner := PasswordReset.authenticationAccountId
  expiresAt := PasswordReset.expiresAt
  used := PasswordReset.isUsed
  expire r now := { r with expiresAt := now, updatedAt := now }
  id_expire _ _ := rfl
  owner_expire _ _ := rfl
  used_expire _ _ := rfl
  expiresAt_expire _ _ := rfl

/-- Verifications as tokens that are used once. -/
def emailVerifications : Kind EmailVerification String String where
  id := EmailVerification.id
  owner := EmailVerification.authenticationAccountId
  expiresAt := EmailVerification.expiresAt
  used := EmailVerification.isCompleted
  expire v now := { v with expiresAt := now, updatedAt := now }
  id_expire _ _ := rfl
  owner_expire _ _ := rfl
  used_expire _ _ := rfl
  expiresAt_expire _ _ := rfl

end Neltrik.Authentication
