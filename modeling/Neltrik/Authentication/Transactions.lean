import Neltrik.Authentication.Tokens
import Neltrik.Authentication.System

/-! # Runs with open transactions

`RequestPasswordReset`, `ResetPassword`, `RequestEmailVerification`, `ValidateEmailVerification`,
`Login` and `RefreshToken` as processes over the stored rows, with the statements of a transaction
as actions of their own. The database works at `READ COMMITTED`: a statement sees the rows that are
committed when it starts, what a transaction has written is seen by others when it commits, and the
rows it has written are locked until then. An `updateMany` is two actions, the start of the statement,
which selects the rows, and its end, which has waited for their locks and writes those that still meet
the condition; a transaction keeps its writes in its process and `commit` puts them into the tables.

`clock` is the last instant a run has read from the clock. No run reads `superseded`, `verified` and
`lastReset`: the ids of the rows that a newer committed request has replaced, the hash a session's
login verified, and the hash the last committed reset of an account has set. -/

namespace Neltrik.Authentication.Transactions

open Neltrik.Lib Neltrik.Lib.Table Neltrik.Lib.OneTime Neltrik.Shared
open Neltrik.Authorization (AuthenticationAccount PasswordHash.create)

/-- The tables and the clock, and what has become of the tokens. -/
structure Store where
  sessions : KeyedTable AuthenticationSession.id
  accounts : KeyedTable AuthenticationAccount.id
  resets : KeyedTable PasswordReset.id
  verifications : KeyedTable EmailVerification.id
  clock : ℕ
  supersededResets : List String
  supersededVerifications : List String
  verified : String → Option String
  lastReset : String → Option String

namespace Store

/-- The tables the reads of the other runs are defined on. -/
def world (s : Store) : World where
  sessions := s.sessions
  accounts := s.accounts.rows
  resets := s.resets.rows
  issued := []

/-- `findFirst` by the digest. -/
def findVerificationByTokenHash (s : Store) (tokenHash : String) : Option EmailVerification :=
  s.verifications.rows.find? (·.tokenHash == tokenHash)

/-- The rows `invalidatePendingByAccount` selects. -/
def pendingResets (s : Store) (accountId : String) : List String :=
  (s.resets.rows.filter fun r => r.authenticationAccountId == accountId && !r.isUsed).map (·.id)

/-- The verifications of an account that are not completed. -/
def pendingVerifications (s : Store) (accountId : String) : List String :=
  (s.verifications.rows.filter fun v => v.authenticationAccountId == accountId && !v.isCompleted).map (·.id)

/-- The rows `invalidateByAccount` selects. -/
def liveSessions (s : Store) (accountId : String) : List String :=
  (s.sessions.rows.filter fun x => x.authenticationAccountId == accountId && x.revokedAt.isNone).map (·.id)

end Store

/-! ## Processes -/

/-- A run at the access that comes next. -/
inductive Proc where
  /-- `RequestPasswordReset` before its transaction, after the start of its `updateMany`, and with its
  writes not yet committed: the ids that expire, the instant they expire at, and the new row. -/
  | requesting (account : AuthenticationAccount)
  | expiring (account : AuthenticationAccount) (ids : List String) (at' : ℕ)
  | requested (account : AuthenticationAccount) (ids : List String) (at' : ℕ) (reset : PasswordReset)
  /-- `RequestEmailVerification` in the same way. -/
  | requestingVerification (account : AuthenticationAccount) (createdAt : ℕ)
  | expiringVerifications (account : AuthenticationAccount) (createdAt : ℕ) (ids : List String) (at' : ℕ)
  | requestedVerification (account : AuthenticationAccount) (ids : List String) (at' : ℕ)
      (verification : EmailVerification)
  /-- `ResetPassword` before its transaction; `late` says that the reset had been superseded when the
  transaction began. -/
  | resetting (token : String) (reset : PasswordReset)
  | resettingAccount (token : String) (reset : PasswordReset) (account : AuthenticationAccount)
  | usedReset (reset : PasswordReset) (account : AuthenticationAccount) (late : Bool)
  | savedReset (reset : PasswordReset) (account : AuthenticationAccount) (late : Bool)
  | savedPassword (reset : PasswordReset) (account : AuthenticationAccount) (late : Bool)
  | evicted (reset : PasswordReset) (account : AuthenticationAccount) (late : Bool) (ids : List String)
      (at' : ℕ)
  /-- `ValidateEmailVerification`; `late` says that the verification had been superseded when the run
  started. -/
  | validating (token : String) (verification : EmailVerification) (late : Bool)
  | validatingAccount (token : String) (verification : EmailVerification)
      (account : AuthenticationAccount) (late : Bool)
  | completed (verification : EmailVerification) (account : AuthenticationAccount) (late : Bool)
  | savedVerification (verification : EmailVerification) (account : AuthenticationAccount) (late : Bool)
  | savedVerified (verification : EmailVerification) (account : AuthenticationAccount) (late : Bool)
  | loggingIn (account : AuthenticationAccount)
  | refreshing (owner : Option String) (session : AuthenticationSession)
  | authorized (owner : Option String) (session : AuthenticationSession)
  | done
  | failed
  deriving DecidableEq

namespace Proc

/-- The run has returned or thrown. -/
def isOver : Proc → Bool
  | done | failed => true
  | _ => false

/-- The rows an open transaction has written. -/
def lockedResets : Proc → List String
  | requested _ ids _ _ => ids
  | savedReset reset _ _ | savedPassword reset _ _ | evicted reset _ _ _ _ => [reset.id]
  | _ => []

/-- The verifications whose rows a transaction has written. -/
def lockedVerifications : Proc → List String
  | requestedVerification _ ids _ _ => ids
  | savedVerification verification _ _ | savedVerified verification _ _ => [verification.id]
  | _ => []

/-- The accounts whose rows a transaction has written. -/
def lockedAccounts : Proc → List String
  | savedPassword _ account _ | evicted _ account _ _ _ | savedVerified _ account _ => [account.id]
  | _ => []

/-- The sessions whose rows a transaction has written. -/
def lockedSessions : Proc → List String
  | evicted _ _ _ ids _ => ids
  | _ => []

end Proc

/-- No open transaction has written one of the rows. -/
def unlocked (procs : List Proc) (locks : Proc → List String) (ids : List String) : Bool :=
  procs.all fun p => ids.all fun id => !(locks p).contains id

/-- A use case with its input. -/
inductive Start where
  | requestPasswordReset (email : String)
  | requestEmailVerification (userId : String) (now : ℕ)
  | resetPassword (token : String)
  | validateEmailVerification (token : String)
  | login (email password : String)
  | refreshToken (owner : Option String) (refreshToken : String) (now : ℕ)
  deriving DecidableEq

/-- The next access of a run, which may fail. -/
inductive Action where
  | findAccount
  /-- The `updateMany` of a request starts. -/
  | expire (now : ℕ)
  /-- It ends, and the new row is inserted. -/
  | issue (id token : String) (now : ℕ)
  /-- The transaction begins, and `use` or `complete` is called. -/
  | begin (now : ℕ)
  | saveToken
  | savePassword (hashedPassword : String) (now : ℕ)
  | saveVerified (now : ℕ)
  | evict (now : ℕ)
  | commit
  | createSession (id refreshToken : String) (ipAddress userAgent : Option String) (now : ℕ)
  | renew (newRefreshToken : String) (now : ℕ)
  | fail
  deriving DecidableEq

/-! ## Starts -/

/-- A run up to its first read; a run that throws there leaves nothing. -/
def start (ports : Ports) (s : Store) : Start → Option (Store × Proc)
  | .requestPasswordReset email => do
    let account ← AccountRepository.findByEmail s.world email
    return (s, .requesting account)
  | .requestEmailVerification userId now => do
    let account ← AccountRepository.findByUserId s.world userId
    if account.emailVerified then none
    else if s.clock ≤ now then some ({ s with clock := now }, .requestingVerification account now)
    else none
  | .resetPassword token => do
    let reset ← PasswordResetRepository.findByTokenHash s.world (ports.hash token)
    return (s, .resetting token reset)
  | .validateEmailVerification token => do
    let verification ← s.findVerificationByTokenHash (ports.hash token)
    return (s, .validating token verification (s.supersededVerifications.contains verification.id))
  | .login email password => do
    let account ← (Login.read ports s.world email password).toOption
    return (s, .loggingIn account)
  | .refreshToken owner refreshToken now => do
    let session ← (RefreshToken.read ports s.world owner refreshToken now).toOption
    if s.clock ≤ now then some ({ s with clock := now }, .refreshing owner session) else none

/-! ## Actions -/

/-- The read of the account. -/
def findAccount (s : Store) : Proc → Option (Store × Proc)
  | .resetting token reset => do
    let account ← AccountRepository.findById s.world reset.authenticationAccountId
    return (s, .resettingAccount token reset account)
  | .validating token verification late => do
    let account ← AccountRepository.findById s.world verification.authenticationAccountId
    return (s, .validatingAccount token verification account late)
  | .refreshing owner session => do
    let _ ← AccountRepository.findById s.world session.authenticationAccountId
    return (s, .authorized owner session)
  | _ => none

/-- The first half of `invalidatePendingByAccount`. -/
def expire (s : Store) (now : ℕ) : Proc → Option (Store × Proc)
  | .requesting account => some (s, .expiring account (s.pendingResets account.id) now)
  | .requestingVerification account createdAt =>
    some (s, .expiringVerifications account createdAt (s.pendingVerifications account.id) now)
  | _ => none

/-- The second half, and the insert. -/
def issue (ports : Ports) (procs : List Proc) (s : Store) (id token : String) (now : ℕ) :
    Proc → Option (Store × Proc)
  | .expiring account ids at' =>
    let ids := ids.filter fun id => s.resets.rows.any fun r => r.id == id && !r.isUsed
    if unlocked procs Proc.lockedResets ids then do
      let expiresAt ← (createExpiration (tokenExpiration now) now).toOption
      let reset ← (PasswordReset.create id account.id (ports.hash token) expiresAt now).toOption
      return (s, .requested account ids at' reset)
    else none
  | .expiringVerifications account createdAt ids at' =>
    let ids := ids.filter fun id => s.verifications.rows.any fun v => v.id == id && !v.isCompleted
    if unlocked procs Proc.lockedVerifications ids then do
      let expiresAt ← (createExpiration (tokenExpiration now) now).toOption
      let verification ← (EmailVerification.create id account.id account.email (ports.hash token)
        expiresAt createdAt).toOption
      return (s, .requestedVerification account ids at' verification)
    else none
  | _ => none

/-- `use` and `complete` change the copy in memory. -/
def begin (ports : Ports) (s : Store) (now : ℕ) : Proc → Option (Store × Proc)
  | .resettingAccount token reset account => do
    let used ← (reset.use (ports.hash token) now).toOption
    return (s, .usedReset used account (s.supersededResets.contains reset.id))
  | .validatingAccount token verification account late => do
    let completed ← (verification.complete (ports.hash token) now).toOption
    return (s, .completed completed account late)
  | _ => none

/-- The write of the token, once its row is free. -/
def saveToken (procs : List Proc) (s : Store) : Proc → Option (Store × Proc)
  | .usedReset reset account late =>
    if s.resets.rows.any (·.id == reset.id) && unlocked procs Proc.lockedResets [reset.id] then
      some (s, .savedReset reset account late)
    else none
  | .completed verification account late =>
    if s.verifications.rows.any (·.id == verification.id) &&
        unlocked procs Proc.lockedVerifications [verification.id] then
      some (s, .savedVerification verification account late)
    else none
  | _ => none

/-- An account row is written once it is not locked. -/
def saveAccount (procs : List Proc) (s : Store) (account : AuthenticationAccount) (p : Proc) :
    Option (Store × Proc) :=
  if s.accounts.rows.any (·.id == account.id) && unlocked procs Proc.lockedAccounts [account.id] then
    some (s, p)
  else none

/-- The write of the account, once its row is free. -/
def savePassword (procs : List Proc) (s : Store) (hashedPassword : String) (now : ℕ) :
    Proc → Option (Store × Proc)
  | .savedReset reset account late => do
    let passwordHash ← (PasswordHash.create hashedPassword).toOption
    let account := account.update (some passwordHash) now
    saveAccount procs s account (.savedPassword reset account late)
  | _ => none

/-- The write of the account, once its row is free. -/
def saveVerified (procs : List Proc) (s : Store) (now : ℕ) : Proc → Option (Store × Proc)
  | .savedVerification verification account late => do
    let account ← (verifyEmail account now).toOption
    saveAccount procs s account (.savedVerified verification account late)
  | _ => none

/-- `invalidateByAccount`; the row of the account is locked, so no other transaction is at it. -/
def evict (procs : List Proc) (s : Store) (now : ℕ) : Proc → Option (Store × Proc)
  | .savedPassword reset account late =>
    if unlocked procs Proc.lockedSessions (s.liveSessions account.id) then
      some (s, .evicted reset account late (s.liveSessions account.id) now)
    else none
  | _ => none

/-! ### Commits -/

/-- The new row of a request, after the rows it made to expire. -/
def commitRequest (s : Store) (account : AuthenticationAccount) (ids : List String) (at' : ℕ)
    (reset : PasswordReset) : Option Store := do
  let expired := s.resets.update (fun r => ids.contains r.id && !r.isUsed)
    (fun r => passwordResets.expire r at') fun _ _ => rfl
  let resets ← expired.insert reset
  return { s with
    resets
    supersededResets := ((s.resets.rows.filter (·.authenticationAccountId == account.id)).map (·.id)) ++
      s.supersededResets }

/-- What a request for a verification commits. -/
def commitVerificationRequest (s : Store) (account : AuthenticationAccount) (ids : List String) (at' : ℕ)
    (verification : EmailVerification) : Option Store := do
  let expired := s.verifications.update (fun v => ids.contains v.id && !v.isCompleted)
    (fun v => emailVerifications.expire v at') fun _ _ => rfl
  let verifications ← expired.insert verification
  return { s with
    verifications
    supersededVerifications :=
      ((s.verifications.rows.filter (·.authenticationAccountId == account.id)).map (·.id)) ++
        s.supersededVerifications }

theorem id_of_beq {α : Type} {key : α → String} {a r : α} (h : (key r == key a) = true) : key a = key r :=
  (beq_iff_eq.mp h).symm

/-- The whole rows of the reset and the account, and the sessions. -/
def commitReset (s : Store) (reset : PasswordReset) (account : AuthenticationAccount) (ids : List String)
    (at' : ℕ) : Store :=
  { s with
    resets := s.resets.update (fun r => r.id == reset.id) (fun _ => reset) fun _ => id_of_beq
    accounts := s.accounts.update (fun a => a.id == account.id) (fun _ => account) fun _ => id_of_beq
    sessions := s.sessions.update (fun x => ids.contains x.id)
      (fun x => { x with revokedAt := some at', updatedAt := at' }) fun _ _ => rfl
    lastReset := Function.update s.lastReset account.id account.passwordHash }

/-- What a validation commits. -/
def commitValidation (s : Store) (verification : EmailVerification) (account : AuthenticationAccount) :
    Store :=
  { s with
    verifications := s.verifications.update (fun v => v.id == verification.id) (fun _ => verification)
      fun _ => id_of_beq
    accounts := s.accounts.update (fun a => a.id == account.id) (fun _ => account) fun _ => id_of_beq }

/-- The end of a transaction. -/
def commit (s : Store) : Proc → Option (Store × Proc)
  | .requested account ids at' reset => (commitRequest s account ids at' reset).map (·, .done)
  | .requestedVerification account ids at' verification =>
    (commitVerificationRequest s account ids at' verification).map (·, .done)
  | .evicted reset account _ ids at' => some (commitReset s reset account ids at', .done)
  | .savedVerified verification account _ => some (commitValidation s verification account, .done)
  | _ => none

/-! ### Sessions -/

/-- The session of a login. -/
def createSession (ports : Ports) (s : Store) (id refreshToken : String)
    (ipAddress userAgent : Option String) (now : ℕ) : Proc → Option (Store × Proc)
  | .loggingIn account => do
    let session ← (Login.session ports account id refreshToken ipAddress userAgent now).toOption
    let sessions ← s.sessions.insert session
    return ({ s with sessions, verified := Function.update s.verified session.id account.passwordHash },
      .done)
  | _ => none

/-- A single statement waits for the lock of its row. -/
def renew (ports : Ports) (procs : List Proc) (s : Store) (newRefreshToken : String) (now : ℕ) :
    Proc → Option (Store × Proc)
  | .authorized owner session => do
    let renewed ← (RefreshToken.renew ports session newRefreshToken now).toOption
    if unlocked procs Proc.lockedSessions [renewed.id] then do
      let w ← SessionRepository.update s.world owner renewed
      return ({ s with sessions := w.sessions }, .done)
    else none
  | _ => none

/-! ### The system -/

/-- An action that reads the clock. -/
def timed (s : Store) (now : ℕ) (act : Store → Option (Store × Proc)) : Option (Store × Proc) :=
  if s.clock ≤ now then act { s with clock := now } else none

/-- The next access of a run, and what the code computes after it. -/
def act (ports : Ports) (procs : List Proc) (s : Store) (p : Proc) : Action → Option (Store × Proc)
  | .findAccount => findAccount s p
  | .expire now => timed s now fun s => expire s now p
  | .issue id token now => timed s now fun s => issue ports procs s id token now p
  | .begin now => timed s now fun s => begin ports s now p
  | .saveToken => saveToken procs s p
  | .savePassword hashedPassword now => timed s now fun s => savePassword procs s hashedPassword now p
  | .saveVerified now => timed s now fun s => saveVerified procs s now p
  | .evict now => timed s now fun s => evict procs s now p
  | .commit => commit s p
  | .createSession id refreshToken ipAddress userAgent now =>
    timed s now fun s => createSession ports s id refreshToken ipAddress userAgent now p
  | .renew newRefreshToken now => timed s now fun s => renew ports procs s newRefreshToken now p
  | .fail => if p.isOver then none else some (s, .failed)

/-- A step of the system. -/
abbrev Label := Interleaving.Label Start Action

/-- The tables and the runs. -/
abbrev State := Interleaving.State Store Proc

/-- The runs interleaved. -/
abbrev step (ports : Ports) : State → Label → Option State :=
  Interleaving.step (start ports) (act ports)

/-! ### One account

An account with a session, a reset and a verification, and a hasher that salts with nothing. -/

/-- A hash that can be read. -/
def hashed (password : String) : String := "$2b$10$" ++ password

/-- Passwords compared with such a hash. -/
def transactionPorts : Ports := { examplePorts with compare := fun password hash => hash == hashed password }

/-- An account with a password. -/
def exampleAccount : AuthenticationAccount where
  id := "a1"
  userId := "u1"
  provider := "email-password"
  email := "ann@acme.io"
  emailVerified := false
  passwordHash := some (hashed "old")
  createdAt := 0
  updatedAt := 0

/-- A reset of its password. -/
def exampleReset : PasswordReset where
  id := "r1"
  authenticationAccountId := "a1"
  tokenHash := exampleHash firstToken
  expiresAt := tokenExpiration 0
  usedAt := none
  createdAt := 0
  updatedAt := 0

/-- A verification of its email. -/
def exampleVerification : EmailVerification where
  id := "v1"
  authenticationAccountId := "a1"
  email := "ann@acme.io"
  tokenHash := exampleHash firstToken
  expiresAt := tokenExpiration 0
  verifiedAt := none
  createdAt := 0
  updatedAt := 0

/-- The three of them, and nothing under way. -/
def exampleState : State where
  world :=
    { sessions := ⟨[exampleSession], keyed_singleton _ _⟩
      accounts := ⟨[exampleAccount], keyed_singleton _ _⟩
      resets := ⟨[exampleReset], keyed_singleton _ _⟩
      verifications := ⟨[exampleVerification], keyed_singleton _ _⟩
      clock := 0, supersededResets := [], supersededVerifications := [], verified := fun _ => none
      lastReset := fun _ => none }
  procs := []

end Neltrik.Authentication.Transactions
