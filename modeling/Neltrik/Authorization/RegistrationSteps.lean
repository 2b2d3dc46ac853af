import Neltrik.Authorization.Preservation
import Neltrik.Authorization.Registration

/-! # What a step of the registrations does

`Starts` and `Acts` invert `start` and `act`. A start changes no row; of the actions, four change the
users or the accounts by one row and `save` writes one invitation. What an invitation is for (its
`fixed` columns) no step changes. -/

namespace Neltrik.Authorization.Registration

open Neltrik.Lib Neltrik.Lib.Table
open Neltrik.Lib.Effect (toOption_eq_some except_bind_eq_ok Reads Triple.bind_read)

/-! ## Calls -/

theorem perform_change (g : Db → Except AccessError Db) (db : Db) :
    perform (Effect.change g) db = (g db).toOption := by
  unfold perform Effect.change
  cases g db <;> rfl

theorem perform_update_eq_some {invitation : Invitation} {db db' : Db}
    (h : perform (InvitationRepository.update invitation) db = some db') :
    (∃ i ∈ db.invitations, i.id = invitation.id) ∧ db' = { db with
      invitations := updateWhere (·.id == invitation.id) (fun _ => invitation) db.invitations } := by
  rw [InvitationRepository.update, perform_change, toOption_eq_some] at h
  split_ifs at h with hany
  obtain ⟨i, hi, hid⟩ := List.any_eq_true.mp hany
  cases h
  exact ⟨⟨i, hi, beq_iff_eq.mp hid⟩, rfl⟩

theorem perform_createUser_eq_some {user : User} {db db' : Db}
    (h : perform (UserRepository.create user) db = some db') :
    (∀ u ∈ db.users, u.id ≠ user.id ∧ u.email ≠ user.email) ∧
      db' = { db with users := user :: db.users } := by
  rw [UserRepository.create, perform_change, toOption_eq_some] at h
  split_ifs at h with hany
  cases h
  refine ⟨fun u hu => ?_, rfl⟩
  have hne := List.any_eq_false.mp ((Bool.not_eq_true _).mp hany) u hu
  simpa using hne

theorem perform_createAccount_eq_some {account : AuthenticationAccount} {db db' : Db}
    (h : perform (AuthenticationAccountRepository.create account) db = some db') :
    (∀ a ∈ db.accounts, a.id ≠ account.id) ∧ db' = { db with accounts := account :: db.accounts } := by
  rw [AuthenticationAccountRepository.create, perform_change, toOption_eq_some] at h
  split_ifs at h with hany
  cases h
  refine ⟨fun a ha => ?_, rfl⟩
  have hne := List.any_eq_false.mp ((Bool.not_eq_true _).mp hany) a ha
  simp at hne
  exact hne.1

theorem perform_deleteAccount_eq_some {id : String} {db db' : Db}
    (h : perform (AuthenticationAccountRepository.delete id) db = some db') :
    db' = { db with accounts := db.accounts.filter (·.id != id) } := by
  rw [AuthenticationAccountRepository.delete, perform_change, toOption_eq_some] at h
  split_ifs at h
  cases h
  rfl

theorem perform_deleteUser_eq_some {id : String} {db db' : Db}
    (h : perform (UserApi.delete id) db = some db') :
    db' = { db with users := db.users.filter (·.id != id) } := by
  have hget : ∀ user, UserRepository.get db none id = some user → user.id = id := by
    intro user hu
    have hp := List.find?_some hu
    simp only [UserRepository.inScope, Option.all_none, Bool.and_true, beq_iff_eq] at hp
    exact hp
  have hdelete : perform (UserApi.delete id) db =
      (UserRepository.get db none id).bind fun user => perform (UserRepository.delete user.id) db := by
    unfold perform UserApi.delete
    cases hu : UserRepository.get db none id with
    | none => simp only [bind, Effect.read, orElse, hu, Effect.throw, Option.bind_none]
    | some user => simp only [bind, Effect.read, orElse, hu, pure, Option.bind_some]
  rw [hdelete] at h
  obtain ⟨user, hu, h⟩ := Option.bind_eq_some_iff.mp h
  rw [hget user hu, UserRepository.delete, perform_change, toOption_eq_some] at h
  split_ifs at h
  cases h
  rfl

/-! ### Reads of an invitation -/

/-- The columns no run changes. -/
def fixed (i : Invitation) : Invitation :=
  { i with status := .pending, usedAt := none, revokedAt := none, updatedAt := 0 }

/-- What a copy of an invitation has in common with its row. -/
structure SameInvitation (i j : Invitation) : Prop where
  id : i.id = j.id
  tenantId : i.tenantId = j.tenantId
  roleId : i.roleId = j.roleId
  recipient : i.recipient = j.recipient
  token : i.token = j.token

theorem sameInvitation_of_fixed {i j : Invitation} (h : fixed i = fixed j) : SameInvitation i j where
  id := (congrArg Invitation.id h :)
  tenantId := (congrArg Invitation.tenantId h :)
  roleId := (congrArg Invitation.roleId h :)
  recipient := (congrArg Invitation.recipient h :)
  token := (congrArg Invitation.token h :)

theorem restore_of_not_expired {i : Invitation} {now : ℕ} (h : i.isExpired now = false) :
    i.restore now = i := by
  rw [Invitation.restore, h]
  rfl

theorem restore_isExpired (i : Invitation) (now : ℕ) : (i.restore now).isExpired now = i.isExpired now := by
  unfold Invitation.restore
  split_ifs <;> rfl

theorem getByToken_eq_some {db : Db} {scope : Option String} {token : String} {now : ℕ} {i : Invitation}
    (h : InvitationRepository.getByToken db scope token now = some i) :
    ∃ row ∈ db.invitations, row.token = token ∧ i = row.restore now := by
  obtain ⟨row, hrow, rfl⟩ := Option.map_eq_some_iff.mp h
  have hfound := List.find?_some hrow
  exact ⟨row, List.mem_of_find?_eq_some hrow, beq_iff_eq.mp (Bool.and_eq_true_iff.mp hfound).1, rfl⟩

/-- The row a run has read is neither used nor revoked. -/
structure Opens (db : Db) (token : String) (row : Invitation) : Prop where
  mem : row ∈ db.invitations
  token : row.token = token
  not_used : row.status ≠ .used
  not_revoked : row.status ≠ .revoked

theorem reads_validate (db : Db) (token : String) (now : ℕ) :
    Reads db (InvitationApi.validate token now) fun i => i ∈ db.invitations ∧ i.token = token := by
  refine Triple.bind_read (Reads.bind reads_orElse fun i hi => ?_)
  obtain ⟨row, hrow, htoken, rfl⟩ := getByToken_eq_some hi
  refine Reads.ite (fun _ => Reads.throw) fun _ => Reads.ite (fun _ => Reads.throw) fun hexp => ?_
  rw [restore_isExpired] at hexp
  rw [restore_of_not_expired ((Bool.not_eq_true _).mp hexp)]
  exact Reads.ite (fun _ => Reads.throw) fun _ => Reads.pure ⟨hrow, htoken⟩

theorem use_eq_ok {i used : Invitation} {now : ℕ} (h : i.use now = .ok used) :
    used = { i with status := .used, usedAt := some now, updatedAt := now } := by
  obtain ⟨-, -, h⟩ := except_bind_eq_ok.mp h
  obtain ⟨-, -, h⟩ := except_bind_eq_ok.mp h
  cases h
  rfl

theorem revoke_eq_ok {i revoked : Invitation} {now : ℕ} (h : i.revoke now = .ok revoked) :
    revoked = { i with status := .revoked, revokedAt := some now, updatedAt := now } := by
  obtain ⟨-, -, h⟩ := except_bind_eq_ok.mp h
  obtain ⟨-, -, h⟩ := except_bind_eq_ok.mp h
  split_ifs at h
  · cases h
  · cases h
    rfl

theorem consumed_eq_ok {db : Db} {token : String} {now : ℕ} {used : Invitation}
    (h : consumed db token now = .ok used) : ∃ row, Opens db token row ∧
      used = { row with status := .used, usedAt := some now, updatedAt := now } := by
  unfold consumed at h
  split at h
  · cases h
  · next i hg =>
    obtain ⟨row, hrow, htoken, rfl⟩ := getByToken_eq_some hg
    split_ifs at h with hused hrevoked hexp
    rw [restore_isExpired] at hexp
    rw [restore_of_not_expired ((Bool.not_eq_true _).mp hexp)] at h hused hrevoked
    refine ⟨row, ⟨hrow, htoken, ?_, ?_⟩, use_eq_ok h⟩
    · simpa [Invitation.isUsed] using hused
    · simpa [Invitation.isRevoked] using hrevoked

theorem revoked_eq_ok {db : Db} {scope : Option String} {token : String} {now : ℕ} {i : Invitation}
    (h : revoked db scope token now = .ok i) : ∃ row, Opens db token row ∧
      i = { row with status := .revoked, revokedAt := some now, updatedAt := now } := by
  unfold revoked at h
  split at h
  · cases h
  · next i hg =>
    obtain ⟨row, hrow, htoken, rfl⟩ := getByToken_eq_some hg
    split_ifs at h with hused hrevoked hexp
    rw [restore_isExpired] at hexp
    rw [restore_of_not_expired ((Bool.not_eq_true _).mp hexp)] at h hused hrevoked
    refine ⟨row, ⟨hrow, htoken, ?_, ?_⟩, revoke_eq_ok h⟩
    · simpa [Invitation.isUsed] using hused
    · simpa [Invitation.isRevoked] using hrevoked

/-! ### New rows -/

theorem newUser_eq_ok {db : Db} {r : Run} {id : String} {now : ℕ} {user : User}
    (h : newUser db r id now = .ok user) : user.id = id ∧ Email.create r.input.email = .ok user.email ∧
      user.tenantId = r.invitation.tenantId ∧ user.roleId = r.invitation.roleId := by
  obtain ⟨email, he, h⟩ := except_bind_eq_ok.mp h
  split_ifs at h
  have hu := User.create_eq_ok h
  rw [hu]
  exact ⟨rfl, he, rfl, rfl⟩

theorem account_eq_ok {input : RegisterInput} {id userId : String} {passwordHash : Option String}
    {now : ℕ} {account : AuthenticationAccount}
    (h : Register.account input id userId passwordHash now = .ok account) :
    account.id = id ∧ account.userId = userId := by
  have hcreate : ∀ a : AuthenticationAccount, AuthenticationAccount.create a = .ok account →
      account.id = a.id ∧ account.userId = a.userId := by
    intro a ha
    unfold AuthenticationAccount.create at ha
    split_ifs at ha
    cases ha
    exact ⟨rfl, rfl⟩
  unfold Register.account at h
  cases passwordHash with
  | none => exact hcreate _ h
  | some value =>
    obtain ⟨_, -, h⟩ := except_bind_eq_ok.mp h
    exact hcreate _ h

/-! ### The calls of the use cases -/

/-- What an operation does, by its parts. -/
theorem run_ite {c : Prop} [Decidable c] (m m' : UseCase Unit) (db : Db) :
    (if c then m else m') db = if c then m db else m' db := by
  split_ifs <;> rfl

theorem run_lift {α : Type} (x : Except AccessError α) (f : α → UseCase Unit) (db : Db) :
    (Effect.lift x >>= f) db = match x with
      | .ok a => f a db
      | .error e => (.error e, db) := by
  cases x <;> rfl

theorem run_orElse {α : Type} (row : Db → Option α) (e : AccessError) (f : α → UseCase Unit) (db : Db) :
    (Effect.read >>= fun db => orElse (row db) e >>= f) db = match row db with
      | some a => f a db
      | none => (.error e, db) := by
  have hread : (Effect.read >>= fun db => orElse (row db) e >>= f) db = (orElse (row db) e >>= f) db := rfl
  rw [hread]
  cases row db <;> rfl

/-- `consumed` is what `ConsumeInvitation` writes. -/
theorem consume_eq (token : String) (now : ℕ) (db : Db) :
    InvitationApi.consume token now db =
      (Effect.lift (consumed db token now) >>= InvitationRepository.update) db := by
  unfold consumed InvitationApi.consume
  rw [run_lift, run_orElse fun db => InvitationRepository.getByToken db none token now]
  cases InvitationRepository.getByToken db none token now with
  | none => rfl
  | some i =>
    simp only [run_ite, run_lift]
    split_ifs <;> rfl

/-- `revoked` is what `RevokeInvitation` writes. -/
theorem revokeInvitation_eq (scope : Option String) (token : String) (now : ℕ) (db : Db) :
    RevokeInvitation.execute scope token now db =
      (Effect.lift (revoked db scope token now) >>= InvitationRepository.update) db := by
  unfold revoked RevokeInvitation.execute
  rw [run_lift, run_orElse fun db => InvitationRepository.getByToken db scope token now]
  cases InvitationRepository.getByToken db scope token now with
  | none => rfl
  | some i =>
    simp only [run_ite, run_lift]
    split_ifs <;> rfl

/-- `newUser` is what `RegisterUserOhs` inserts. -/
theorem createUser_eq (r : Run) (id : String) (now : ℕ) (db : Db) :
    UserApi.create id r.input.firstName r.input.lastName r.input.email r.invitation.tenantId
        r.invitation.roleId now db =
      (Effect.lift (newUser db r id now) >>= UserRepository.create) db := by
  have hread : ∀ f : Db → UseCase Unit, (Effect.read >>= f) db = f db db := fun _ => rfl
  unfold newUser UserApi.create
  rw [run_lift, run_lift]
  cases Email.create r.input.email with
  | error e => rfl
  | ok email =>
    simp only [hread, run_ite, run_lift]
    rw [show ∀ f : String → Except AccessError User, (Except.ok email >>= f) = f email from fun _ => rfl]
    split_ifs <;> rfl

/-! ## Starts and actions -/

/-- What a start does, one rule for each case. -/
inductive Starts (s : Store) : Start → Store → Proc → Prop
  | register {input now invitation} (hc : s.clock ≤ now)
      (h : (InvitationApi.validate input.invitationToken now s.db).1 = .ok invitation)
      (he : input.email = invitation.recipient) :
      Starts s (.register input now) { s with clock := now } (.validated ⟨input, invitation, now⟩)
  | consume {token now used} (hc : s.clock ≤ now) (h : consumed s.db token now = .ok used) :
      Starts s (.consume token now) { s with clock := now } (.consumingInvitation used)
  | revoke {scope token now i} (hc : s.clock ≤ now) (h : revoked s.db scope token now = .ok i) :
      Starts s (.revoke scope token now) { s with clock := now } (.revokingInvitation i)

theorem timed_eq_some {s : Store} {now : ℕ} {act : Store → Option (Store × Proc)} {r : Store × Proc}
    (h : timed s now act = some r) : s.clock ≤ now ∧ act { s with clock := now } = some r := by
  unfold timed at h
  split_ifs at h with hc
  exact ⟨hc, h⟩

theorem start_starts {s s' : Store} {l : Start} {p : Proc} (h : start s l = some (s', p)) :
    Starts s l s' p := by
  unfold start at h
  cases l with
  | register input now =>
    obtain ⟨hc, h⟩ := timed_eq_some h
    obtain ⟨invitation, hi, h⟩ := Option.bind_eq_some_iff.mp h
    split_ifs at h with he
    cases h
    exact .register hc (toOption_eq_some.mp hi) he.1
  | consume token now =>
    obtain ⟨hc, h⟩ := timed_eq_some h
    obtain ⟨used, hu, h⟩ := Option.bind_eq_some_iff.mp h
    cases h
    exact .consume hc (toOption_eq_some.mp hu)
  | revoke scope token now =>
    obtain ⟨hc, h⟩ := timed_eq_some h
    obtain ⟨i, hi, h⟩ := Option.bind_eq_some_iff.mp h
    cases h
    exact .revoke hc (toOption_eq_some.mp hi)

/-- The tables after each write. -/
def withUser (db : Db) (user : User) : Db := { db with users := user :: db.users }

/-- Without a user. -/
def withoutUser (db : Db) (user : User) : Db := { db with users := db.users.filter (·.id != user.id) }

/-- With one account more. -/
def withAccount (db : Db) (account : AuthenticationAccount) : Db :=
  { db with accounts := account :: db.accounts }

/-- Without an account. -/
def withoutAccount (db : Db) (account : AuthenticationAccount) : Db :=
  { db with accounts := db.accounts.filter (·.id != account.id) }

/-- With an invitation in the place of its row. -/
def withInvitation (db : Db) (i : Invitation) : Db :=
  { db with invitations := updateWhere (·.id == i.id) (fun _ => i) db.invitations }

/-- What an action does, one rule for each case. -/
inductive Acts (s : Store) : Proc → Action → Store → Proc → Prop
  | findUser {r id now user} (hc : s.clock ≤ now) (h : newUser s.db r id now = .ok user) :
      Acts s (.validated r) (.findUser id now) { s with clock := now } (.creatingUser r user)
  | createUser {r user} (h : ∀ u ∈ s.db.users, u.id ≠ user.id ∧ u.email ≠ user.email) :
      Acts s (.creatingUser r user) .createUser { s with db := withUser s.db user } (.createdUser r user)
  | createAccount {r user id passwordHash account}
      (h : Register.account r.input id user.id passwordHash r.now = .ok account)
      (ha : ∀ a ∈ s.db.accounts, a.id ≠ account.id) :
      Acts s (.createdUser r user) (.createAccount id passwordHash)
        { s with db := withAccount s.db account } (.createdAccount r user account)
  | consume {r user account now used} (hc : s.clock ≤ now)
      (h : consumed s.db r.input.invitationToken now = .ok used) :
      Acts s (.createdAccount r user account) (.consume now) { s with clock := now }
        (.consuming r user account used)
  | save {p i} (hcopy : p.copy = some i) :
      Acts s p .save { s with db := withInvitation s.db i } p.saved
  | fail {p p'} (h : p.thrown = some p') : Acts s p .fail s p'
  | deleteAccount {r user account} :
      Acts s (.deletingAccount r user account) .compensate
        { s with db := withoutAccount s.db account } (.deletingUser r user)
  | deleteUser {r user} :
      Acts s (.deletingUser r user) .compensate { s with db := withoutUser s.db user } .failed

theorem act_acts {procs : List Proc} {s s' : Store} {p p' : Proc} {a : Action}
    (h : act procs s p a = some (s', p')) : Acts s p a s' p' := by
  cases a with
  | findUser id now =>
    simp only [act] at h
    obtain ⟨hc, h⟩ := timed_eq_some h
    unfold findUser at h
    split at h
    · obtain ⟨user, hu, h⟩ := Option.bind_eq_some_iff.mp h
      cases h; exact .findUser hc (toOption_eq_some.mp hu)
    · cases h
  | createUser =>
    simp only [act, createUser] at h
    split at h
    · obtain ⟨db, hdb, h⟩ := Option.bind_eq_some_iff.mp h
      obtain ⟨hnew, rfl⟩ := perform_createUser_eq_some hdb
      cases h; exact .createUser hnew
    · cases h
  | createAccount id passwordHash =>
    simp only [act, createAccount] at h
    split at h
    · obtain ⟨account, ha, h⟩ := Option.bind_eq_some_iff.mp h
      obtain ⟨db, hdb, h⟩ := Option.bind_eq_some_iff.mp h
      obtain ⟨hnew, rfl⟩ := perform_createAccount_eq_some hdb
      cases h; exact .createAccount (toOption_eq_some.mp ha) hnew
    · cases h
  | consume now =>
    simp only [act] at h
    obtain ⟨hc, h⟩ := timed_eq_some h
    unfold consume at h
    split at h
    · obtain ⟨used, hu, h⟩ := Option.bind_eq_some_iff.mp h
      cases h; exact .consume hc (toOption_eq_some.mp hu)
    · cases h
  | save =>
    obtain ⟨i, hi, h⟩ := Option.bind_eq_some_iff.mp (show save s p = some (s', p') from h)
    obtain ⟨db, hdb, h⟩ := Option.bind_eq_some_iff.mp h
    obtain ⟨-, rfl⟩ := perform_update_eq_some hdb
    cases h; exact .save hi
  | fail =>
    obtain ⟨q, hq, h⟩ := Option.map_eq_some_iff.mp (show p.thrown.map (s, ·) = some (s', p') from h)
    cases h; exact .fail hq
  | compensate =>
    simp only [act, compensate] at h
    split at h
    · obtain ⟨db, hdb, h⟩ := Option.bind_eq_some_iff.mp h
      obtain rfl := perform_deleteAccount_eq_some hdb
      cases h; exact .deleteAccount
    · obtain ⟨db, hdb, h⟩ := Option.bind_eq_some_iff.mp h
      obtain rfl := perform_deleteUser_eq_some hdb
      cases h; exact .deleteUser
    · cases h

end Neltrik.Authorization.Registration
