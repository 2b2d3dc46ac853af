import Neltrik.Authorization.UseCases
import Neltrik.Lib.Interleaving

/-! # Registrations and invitations in flight

`Register`, `ConsumeInvitation` and `RevokeInvitation` as processes over the tables, each call to a
repository an action of its own. A registration validates its invitation, and then its saga looks for
the email, inserts the user, inserts the account, reads the invitation again and writes it; a call
that throws makes it compensate. Consuming and revoking are a read, which checks and changes the copy
in memory, and a write of the whole row.

The endpoint of `Register` is public, so its calls are not scoped; a revocation reads within the
tenant of its caller, and the row it writes has the tenant of the row it has read. `clock` is the last
instant a run has read from the clock. -/

namespace Neltrik.Authorization.Registration

open Neltrik.Lib

/-- The tables and the clock. -/
structure Store where
  db : Db
  clock : ℕ

/-! ## Processes -/

/-- What a registration works with: the request, the invitation it has validated and the instant its
saga is built at. -/
structure Run where
  input : RegisterInput
  invitation : Invitation
  now : ℕ

/-- A run at the access that comes next. -/
inductive Proc where
  /-- The saga of `Register` before each of its calls. -/
  | validated (r : Run)
  | creatingUser (r : Run) (user : User)
  | createdUser (r : Run) (user : User)
  | createdAccount (r : Run) (user : User) (account : AuthenticationAccount)
  | consuming (r : Run) (user : User) (account : AuthenticationAccount) (used : Invitation)
  /-- Its compensations. -/
  | deletingAccount (r : Run) (user : User) (account : AuthenticationAccount)
  | deletingUser (r : Run) (user : User)
  | registered (r : Run) (user : User) (account : AuthenticationAccount)
  /-- `ConsumeInvitation` and `RevokeInvitation` before their write. -/
  | consumingInvitation (used : Invitation)
  | revokingInvitation (revoked : Invitation)
  | done
  | failed

namespace Proc

/-- The users a run has inserted and not deleted. -/
def users : Proc → List User
  | createdUser _ user | createdAccount _ user _ | consuming _ user _ _ | deletingAccount _ user _
  | deletingUser _ user | registered _ user _ => [user]
  | _ => []

/-- The accounts a run has inserted and not deleted. -/
def accounts : Proc → List AuthenticationAccount
  | createdAccount _ _ account | consuming _ _ account _ | deletingAccount _ _ account
  | registered _ _ account => [account]
  | _ => []

/-- The copy a run is about to write. -/
def copy : Proc → Option Invitation
  | consuming _ _ _ used => some used
  | consumingInvitation used => some used
  | revokingInvitation revoked => some revoked
  | _ => none

end Proc

/-- A use case with its input. -/
inductive Start where
  | register (input : RegisterInput) (now : ℕ)
  | consume (token : String) (now : ℕ)
  | revoke (scope : Option String) (token : String) (now : ℕ)

/-- The next access of a run, which may fail. -/
inductive Action where
  | findUser (id : String) (now : ℕ)
  | createUser
  | createAccount (id : String) (passwordHash : Option String)
  | consume (now : ℕ)
  /-- The write of the invitation. -/
  | save
  /-- A call throws. -/
  | fail
  | compensate

/-! ## Calls -/

/-- The tables after a call that does not throw. -/
def perform (m : UseCase Unit) (db : Db) : Option Db :=
  match m db with
  | (.ok _, db') => some db'
  | (.error _, _) => none

/-- `ConsumeInvitation` up to its write. -/
def consumed (db : Db) (token : String) (now : ℕ) : Except AccessError Invitation :=
  match InvitationRepository.getByToken db none token now with
  | none => .error .invitationNotFound
  | some invitation =>
    if invitation.isUsed then .error .invitationAlreadyUsed
    else if invitation.isRevoked then .error .invitationAlreadyRevoked
    else if invitation.isExpired now then .error .invitationExpired
    else invitation.use now

/-- `RevokeInvitation` up to its write. -/
def revoked (db : Db) (scope : Option String) (token : String) (now : ℕ) :
    Except AccessError Invitation :=
  match InvitationRepository.getByToken db scope token now with
  | none => .error .invitationNotFound
  | some invitation =>
    if invitation.isUsed then .error .invitationAlreadyUsed
    else if invitation.isRevoked then .error .invitationAlreadyRevoked
    else if invitation.isExpired now then .error .invitationExpired
    else invitation.revoke now

/-- `RegisterUserOhs` up to its write. -/
def newUser (db : Db) (r : Run) (id : String) (now : ℕ) : Except AccessError User := do
  let email ← Email.create r.input.email
  if UserRepository.existsByEmail db email then .error .emailAlreadyExists
  else
    User.create
      { id, firstName := r.input.firstName, lastName := r.input.lastName, email,
        tenantId := r.invitation.tenantId, roleId := r.invitation.roleId, status := .active,
        version := 0, createdAt := now, updatedAt := now, suspendedAt := none }

/-! ## The system -/

/-- An action that reads the clock. -/
def timed (s : Store) (now : ℕ) (act : Store → Option (Store × Proc)) : Option (Store × Proc) :=
  if s.clock ≤ now then act { s with clock := now } else none

/-- A run up to its first write; a run that throws there leaves nothing. -/
def start (s : Store) : Start → Option (Store × Proc)
  | .register input now => timed s now fun s => do
    let invitation ← (InvitationApi.validate input.invitationToken now s.db).1.toOption
    if input.email = invitation.recipient ∧ input.provider = "email-password" then
      some (s, .validated ⟨input, invitation, now⟩)
    else none
  | .consume token now => timed s now fun s => do
    let used ← (consumed s.db token now).toOption
    return (s, .consumingInvitation used)
  | .revoke scope token now => timed s now fun s => do
    let revoked ← (revoked s.db scope token now).toOption
    return (s, .revokingInvitation revoked)

/-- The lookup of the email, and the new user in memory. -/
def findUser (s : Store) (id : String) (now : ℕ) : Proc → Option (Store × Proc)
  | .validated r => do
    let user ← (newUser s.db r id now).toOption
    return (s, .creatingUser r user)
  | _ => none

/-- The first write of the saga. -/
def createUser (s : Store) : Proc → Option (Store × Proc)
  | .creatingUser r user => do
    let db ← perform (UserRepository.create user) s.db
    return ({ s with db }, .createdUser r user)
  | _ => none

/-- `passwordHash` is what the strategy of the provider returns. -/
def createAccount (s : Store) (id : String) (passwordHash : Option String) :
    Proc → Option (Store × Proc)
  | .createdUser r user => do
    let account ← (Register.account r.input id user.id passwordHash r.now).toOption
    let db ← perform (AuthenticationAccountRepository.create account) s.db
    return ({ s with db }, .createdAccount r user account)
  | _ => none

/-- The lookup of the invitation, and its use in memory. -/
def consume (s : Store) (now : ℕ) : Proc → Option (Store × Proc)
  | .createdAccount r user account => do
    let used ← (consumed s.db r.input.invitationToken now).toOption
    return (s, .consuming r user account used)
  | _ => none

/-- The process after its invitation is written. -/
def Proc.saved : Proc → Proc
  | .consuming r user account _ => .registered r user account
  | _ => .done

/-- The write of the invitation. -/
def save (s : Store) (p : Proc) : Option (Store × Proc) := do
  let invitation ← p.copy
  let db ← perform (InvitationRepository.update invitation) s.db
  return ({ s with db }, p.saved)

/-- What a run does when a call throws: the steps that are executed are compensated, last first. -/
def Proc.thrown : Proc → Option Proc
  | .validated _ | .creatingUser _ _ | .consumingInvitation _ | .revokingInvitation _ => some .failed
  | .createdUser r user => some (.deletingUser r user)
  | .createdAccount r user account | .consuming r user account _ => some (.deletingAccount r user account)
  | _ => none

/-- The compensations, one access each. -/
def compensate (s : Store) : Proc → Option (Store × Proc)
  | .deletingAccount r user account => do
    let db ← perform (AuthenticationAccountRepository.delete account.id) s.db
    return ({ s with db }, .deletingUser r user)
  | .deletingUser _ user => do
    let db ← perform (UserApi.delete user.id) s.db
    return ({ s with db }, .failed)
  | _ => none

/-- The next access of a run, and what the code computes after it. -/
def act (_ : List Proc) (s : Store) (p : Proc) : Action → Option (Store × Proc)
  | .findUser id now => timed s now fun s => findUser s id now p
  | .createUser => createUser s p
  | .createAccount id passwordHash => createAccount s id passwordHash p
  | .consume now => timed s now fun s => consume s now p
  | .save => save s p
  | .fail => p.thrown.map (s, ·)
  | .compensate => compensate s p

/-- A step of the system. -/
abbrev Label := Interleaving.Label Start Action

/-- The world and the runs. -/
abbrev State := Interleaving.State Store Proc

/-- The runs interleaved. -/
abbrev step : State → Label → Option State := Interleaving.step start act

/-! ### One invitation -/

/-- A customer. -/
def exampleTenant : Tenant where
  id := "t1"
  name := "Acme"
  slug := "acme"
  type := .customer
  status := .active
  version := 0
  createdAt := 0
  updatedAt := 0
  suspendedAt := none
  name_ne := by decide
  slug_ne := by decide

/-- An invitation to it. -/
def exampleInvitation : Invitation where
  id := "i1"
  tenantId := "t1"
  roleId := "r1"
  recipient := "ann@acme.io"
  token := "7d9c1b52-6a1e-4f0d-9b7e-2f1f5a3c8e10"
  expirationDate := calculateExpirationDate 0
  mechanism := "manual"
  status := .pending
  usedAt := none
  revokedAt := none
  createdAt := 0
  updatedAt := 0

/-- A tenant with one pending invitation and no user. -/
def exampleState : State where
  world :=
    { db :=
        { tenants := [exampleTenant], roles := [], permissions := [], rolePermissions := []
          roleTenants := [], invitations := [exampleInvitation], users := [], accounts := [] }
      clock := 0 }
  procs := []

/-- A registration with it. -/
def exampleInput : RegisterInput where
  invitationToken := exampleInvitation.token
  email := "ann@acme.io"
  firstName := "Ann"
  lastName := "Lee"
  provider := "email-password"

end Neltrik.Authorization.Registration
