import Neltrik.Authorization.RoleTenants
import Neltrik.Authorization.Sequential
import Neltrik.Authorization.Escalation

/-! # Users of customers and the roles of their tenant

A customer can use only the roles that have been enabled for it, the documents say. The check is made
when an invitation is created and when the role of a user is changed; a registration takes the role of
its invitation as it is, and a role is withdrawn from a tenant whoever holds it.

`enabled_step_iff` says of each use case exactly when the users hold enabled roles after it, and
`users_hold_enabled_roles_iff` of every state of a run. What a registration does, run from its first
call to its last, is `Register.execute_cases`. -/

namespace Neltrik.Authorization.EnabledRoles

open Neltrik.Lib Neltrik.Lib.Effect Neltrik.Lib.Machine Neltrik.Shared
open Neltrik.Authorization.Registration Neltrik.Authorization.Registration.Sequential

/-- A use case with its input. -/
inductive Op where
  | associate (scope : Option String) (actorTenantId targetTenantId : String) (roleIds : List String)
  | disassociate (actorTenantId targetTenantId : String) (roleIds : List String)
  | createInvitation (input : CreateInvitationInput) (id newToken : String) (now : ℕ)
  | register (registered : Except AccessError (Option String)) (input : RegisterInput)
      (userId accountId : String) (now : ℕ)
  | changeRoleUser (scope : Option String) (id roleId : String) (now : ℕ)

/-- The use case run on its input. -/
def Op.execute : Op → UseCase Unit
  | .associate scope actorTenantId targetTenantId roleIds =>
    AssociateRolesToTenant.execute scope actorTenantId targetTenantId roleIds
  | .disassociate actorTenantId targetTenantId roleIds =>
    DisassociateRolesFromTenant.execute actorTenantId targetTenantId roleIds
  | .createInvitation input id newToken now => CreateInvitation.execute input id newToken now
  | .register registered input userId accountId now =>
    Register.execute registered input userId accountId now
  | .changeRoleUser scope id roleId now => ChangeRoleUser.execute scope id roleId now

/-- The use case may throw. -/
def step (db : Db) (op : Op) : Option Db := some (op.execute db).2

variable {db : Db}

/-! ## Invitations and changes of a role -/

/-- **Creating an invitation** writes invitations only. -/
theorem CreateInvitation.execute_snd (db : Db) (input : CreateInvitationInput) (id newToken : String)
    (now : ℕ) :
    ∃ invitations, (CreateInvitation.execute input id newToken now db).2 = { db with invitations } := by
  have hkeep : Triple (fun s => s = db) (CreateInvitation.execute input id newToken now)
      (fun _ s => ∃ invitations, s = { db with invitations })
      fun _ s => ∃ invitations, s = { db with invitations } := by
    have hthrow : ∀ e : AccessError, Triple (fun s => s = db) (Effect.throw e : UseCase Unit)
        (fun _ s => ∃ invitations, s = { db with invitations })
        fun _ s => ∃ invitations, s = { db with invitations } :=
      fun e => Triple.throw fun s hs => ⟨db.invitations, hs⟩
    refine Triple.ite (fun _ => hthrow _) fun _ => ?_
    refine Triple.bind_reads (TenantApi.reads_validate _) (fun _ => ⟨_, rfl⟩) fun _ _ => ?_
    refine Triple.bind_reads (AuthorizationRoleApi.reads_validateForTenant _ _) (fun _ => ⟨_, rfl⟩)
      fun _ _ => ?_
    refine Triple.ite (fun _ => hthrow _) fun _ => ?_
    refine Triple.bind_read (Triple.ite (fun _ => hthrow _) fun _ => ?_)
    refine Triple.bind_reads (Reads.lift fun _ hb => hb) (fun _ => ⟨_, rfl⟩) fun invitation _ => ?_
    refine Triple.change (fun s s' hs h => ?_) fun s _ hs _ => ⟨db.invitations, hs⟩
    rw [hs] at h
    split_ifs at h
    cases h
    exact ⟨_, rfl⟩
  exact hkeep.snd rfl

/-- **Changing a role** gives an enabled one. -/
theorem ChangeRoleUser.execute_snd (db : Db) (scope : Option String) (id roleId : String) (now : ℕ) :
    ∃ users, (ChangeRoleUser.execute scope id roleId now db).2 = { db with users } ∧
      ∀ u ∈ users, u ∈ db.users ∨ ⟨u.roleId, u.tenantId⟩ ∈ db.roleTenants := by
  have hsame : ∃ users, db = { db with users } ∧
      ∀ u ∈ users, u ∈ db.users ∨ ⟨u.roleId, u.tenantId⟩ ∈ db.roleTenants :=
    ⟨db.users, rfl, fun _ hu => Or.inl hu⟩
  have hkeep : Triple (fun s => s = db) (ChangeRoleUser.execute scope id roleId now)
      (fun _ s => ∃ users, s = { db with users } ∧
        ∀ u ∈ users, u ∈ db.users ∨ ⟨u.roleId, u.tenantId⟩ ∈ db.roleTenants)
      fun _ s => ∃ users, s = { db with users } ∧
        ∀ u ∈ users, u ∈ db.users ∨ ⟨u.roleId, u.tenantId⟩ ∈ db.roleTenants := by
    refine Triple.bind_read ?_
    refine Triple.bind_reads reads_orElse (fun _ => hsame) fun user _ => ?_
    refine Triple.bind_reads (AuthorizationRoleApi.reads_validate _ _) (fun _ => hsame) fun _ _ => ?_
    refine Triple.bind_reads (AuthorizationRoleApi.reads_validateForTenant _ _) (fun _ => hsame)
      fun _ henabled => ?_
    refine Triple.change (fun s s' hs h => ?_) fun s _ hs _ => hs ▸ hsame
    rw [hs] at h
    split_ifs at h
    cases h
    refine ⟨_, rfl, fun u hu => ?_⟩
    rcases Table.mem_updateWhere.mp hu with ⟨-, -, -, rfl⟩ | ⟨hu, -⟩
    · exact Or.inr henabled
    · exact Or.inl hu
  exact hkeep.snd rfl

/-! ## A registration from its first call to its last -/

/-- The user of the registration is in order and its keys are free. -/
structure InsertsUser (db : Db) (r : Run) (userId : String) (user : User) : Prop where
  made : newUser db r userId r.now = .ok user
  free : ∀ u ∈ db.users, u.id ≠ user.id ∧ u.email ≠ user.email
  tenant : db.tenants.any (·.id == user.tenantId) = true

/-- The account of the registration is in order and its keys are free. -/
structure InsertsAccount (db : Db) (registered : Except AccessError (Option String)) (r : Run)
    (userId accountId : String) (account : AuthenticationAccount) : Prop where
  made : (registered >>= fun passwordHash =>
    Register.account r.input accountId userId passwordHash r.now) = .ok account
  free : ∀ a ∈ db.accounts, a.id ≠ account.id ∧ a.userId ≠ account.userId

/-- The invitation can be used for the request, and the user and the account can be inserted. -/
structure Registers (db : Db) (registered : Except AccessError (Option String)) (userId accountId : String)
    (r : Run) : Prop where
  found : InvitationRepository.getByToken db none r.input.invitationToken r.now = some r.invitation
  pending : r.invitation.isPending = true
  not_expired : r.invitation.isExpired r.now = false
  email : r.input.email = r.invitation.recipient
  provider : r.input.provider = "email-password"
  user : ∃ user, InsertsUser db r userId user
  account : ∃ account, InsertsAccount db registered r userId accountId account

theorem InvitationApi.settles_validate (db : Db) (token : String) (now : ℕ) :
    Settles (∃ i, InvitationRepository.getByToken db none token now = some i ∧ i.isPending = true ∧
        i.isExpired now = false) (InvitationApi.validate token now) db fun i =>
      InvitationRepository.getByToken db none token now = some i ∧ i.isPending = true ∧
        i.isExpired now = false := by
  refine Settles.bind_read ?_
  cases hget : InvitationRepository.getByToken db none token now with
  | none => exact ⟨by rintro ⟨_, ⟨⟩, _⟩, fun _ => ⟨_, rfl⟩⟩
  | some i =>
    have hrun := bind_of_ok (f := fun i => if i.isRevoked then Effect.throw .invitationAlreadyRevoked
      else if i.isExpired now then Effect.throw .invitationExpired
      else if i.isPending = false then Effect.throw .invitationAlreadyUsed
      else return i) (show orElse (some i) .invitationNotFound db = (.ok i, db) from rfl)
    constructor
    · rintro ⟨_, ⟨⟩, hpending, hexpired⟩
      have hrevoked : i.isRevoked = false := by
        unfold Invitation.isPending at hpending
        unfold Invitation.isRevoked
        rw [beq_iff_eq.mp hpending]
        rfl
      refine ⟨i, hrun.trans ?_, rfl, hpending, hexpired⟩
      rw [hrevoked, hexpired, hpending]
      rfl
    · intro hnot
      rw [hrun]
      by_cases hrevoked : i.isRevoked = true
      · exact ⟨_, by rw [if_pos hrevoked]; rfl⟩
      rw [if_neg hrevoked]
      by_cases hexpired : i.isExpired now = true
      · exact ⟨_, by rw [if_pos hexpired]; rfl⟩
      rw [if_neg hexpired]
      by_cases hpending : i.isPending = false
      · exact ⟨_, by rw [if_pos hpending]; rfl⟩
      · exact absurd ⟨i, rfl, (Bool.not_eq_false _).mp hpending, (Bool.not_eq_true _).mp hexpired⟩ hnot

theorem insertUser_cases (db : Db) (r : Run) (userId : String) :
    (∃ user, InsertsUser db r userId user ∧ insertUser r userId db = (.ok (), withUser db user)) ∨
    ((¬ ∃ user, InsertsUser db r userId user) ∧ ∃ e, insertUser r userId db = (.error e, db)) := by
  have hread : insertUser r userId db =
      (Effect.lift (newUser db r userId r.now) >>= UserRepository.create) db := rfl
  rw [hread]
  cases hnew : newUser db r userId r.now with
  | error e =>
    refine Or.inr ⟨fun ⟨user, h⟩ => ?_, e, rfl⟩
    have hmade := h.made
    rw [hnew] at hmade
    cases hmade
  | ok user =>
    have hlift : (Effect.lift (.ok user) >>= UserRepository.create) db = UserRepository.create user db :=
      bind_of_ok rfl
    have honly : ∀ user', InsertsUser db r userId user' → user' = user := fun user' h =>
      Except.ok.inj (h.made.symm.trans hnew)
    rw [hlift]
    by_cases htaken : (db.users.any fun u => u.id == user.id || u.email == user.email) = true
    · refine Or.inr ⟨fun ⟨user', h⟩ => ?_, _, change_of_error (if_pos htaken)⟩
      obtain rfl := honly user' h
      obtain ⟨u, hu, hkey⟩ := List.any_eq_true.mp htaken
      rw [Bool.or_eq_true, beq_iff_eq, beq_iff_eq] at hkey
      exact hkey.elim (h.free u hu).1 (h.free u hu).2
    by_cases htenant : db.tenants.any (·.id == user.tenantId) = true
    · have hfree : ∀ u ∈ db.users, u.id ≠ user.id ∧ u.email ≠ user.email := fun u hu => by
        have hne := List.any_eq_false.mp ((Bool.not_eq_true _).mp htaken) u hu
        simpa using hne
      exact Or.inl ⟨user, ⟨hnew, hfree, htenant⟩,
        change_of_ok ((if_neg htaken).trans (if_pos htenant))⟩
    · refine Or.inr ⟨fun ⟨user', h⟩ => ?_, _, change_of_error ((if_neg htaken).trans (if_neg htenant))⟩
      obtain rfl := honly user' h
      exact htenant h.tenant

theorem insertAccount_cases (db : Db) (registered : Except AccessError (Option String)) (r : Run)
    (userId accountId : String) :
    (∃ account, InsertsAccount db registered r userId accountId account ∧
      insertAccount registered r userId accountId db = (.ok (), withAccount db account)) ∨
    ((¬ ∃ account, InsertsAccount db registered r userId accountId account) ∧
      ∃ e, insertAccount registered r userId accountId db = (.error e, db)) := by
  unfold insertAccount
  cases hmade : registered >>= fun passwordHash =>
      Register.account r.input accountId userId passwordHash r.now with
  | error e =>
    refine Or.inr ⟨fun ⟨account, h⟩ => ?_, e, rfl⟩
    cases hmade.symm.trans h.made
  | ok account =>
    have hlift : (Effect.lift (.ok account) >>= AuthenticationAccountRepository.create) db =
        AuthenticationAccountRepository.create account db := bind_of_ok rfl
    rw [hlift]
    by_cases htaken : (db.accounts.any fun a => a.id == account.id || a.userId == account.userId) = true
    · refine Or.inr ⟨fun ⟨account', h⟩ => ?_, _, change_of_error (if_pos htaken)⟩
      obtain rfl : account = account' := Except.ok.inj (hmade.symm.trans h.made)
      obtain ⟨a, ha, hkey⟩ := List.any_eq_true.mp htaken
      rw [Bool.or_eq_true, beq_iff_eq, beq_iff_eq] at hkey
      exact hkey.elim (h.free a ha).1 (h.free a ha).2
    · refine Or.inl ⟨account, ⟨hmade, fun a ha => ?_⟩, change_of_ok (if_neg htaken)⟩
      have hne := List.any_eq_false.mp ((Bool.not_eq_true _).mp htaken) a ha
      simpa using hne

/-- Deleting the user that has just been inserted. -/
theorem withoutUser_withUser {user : User} (h : ∀ u ∈ db.users, u.id ≠ user.id) :
    withoutUser (withUser db user) user = db := by
  have hfilter : (user :: db.users).filter (·.id != user.id) = db.users := by
    rw [List.filter_cons_of_neg (by simp)]
    exact List.filter_eq_self.mpr fun u hu => bne_iff_ne.mpr (h u hu)
  show { db with users := (user :: db.users).filter (·.id != user.id) } = db
  rw [hfilter]

/-- An invitation that can be used is consumed, whatever users and accounts there are. -/
theorem consume_of_usable (db : Db) {token : String} {i : Invitation} {now : ℕ}
    (hfound : InvitationRepository.getByToken db none token now = some i) (hpending : i.isPending = true)
    (hexpired : i.isExpired now = false) :
    ∃ invitations, InvitationApi.consume token now db = (.ok (), { db with invitations }) := by
  obtain ⟨row, hrow, -, hi⟩ := getByToken_eq_some hfound
  have hstatus : i.status = .pending := beq_iff_eq.mp hpending
  have hconsumed : consumed db token now =
      .ok { i with status := .used, usedAt := some now, updatedAt := now } := by
    unfold consumed Invitation.use Invitation.ensureIsPending Invitation.ensureIsNotExpired
      Invitation.isPending Invitation.isUsed Invitation.isRevoked
    rw [hfound]
    dsimp only
    rw [hstatus, hexpired]
    rfl
  have hid : row.id = i.id := by
    rw [hi]
    unfold Invitation.restore
    split_ifs <;> rfl
  have hany : db.invitations.any (·.id == i.id) = true :=
    List.any_eq_true.mpr ⟨row, hrow, beq_iff_eq.mpr hid⟩
  have hrun := consume_eq token now db
  rw [hconsumed] at hrun
  exact ⟨_, hrun.trans ((bind_of_ok rfl).trans (change_of_ok (if_pos hany)))⟩

/-- **A registration** adds one user and one account when every call finds things in order, and otherwise
leaves the database as it was. -/
theorem Register.execute_cases (db : Db) (registered : Except AccessError (Option String))
    (input : RegisterInput) (userId accountId : String) (now : ℕ) :
    (∃ invitation user account invitations,
      Registers db registered userId accountId ⟨input, invitation, now⟩ ∧
      InsertsUser db ⟨input, invitation, now⟩ userId user ∧
      InsertsAccount db registered ⟨input, invitation, now⟩ userId accountId account ∧
      Register.execute registered input userId accountId now db =
        (.ok (), { db with users := user :: db.users, accounts := account :: db.accounts, invitations })) ∨
    ((∀ invitation, ¬ Registers db registered userId accountId ⟨input, invitation, now⟩) ∧
      ∃ e, Register.execute registered input userId accountId now db = (.error e, db)) := by
  unfold Register.execute
  rcases (InvitationApi.settles_validate db input.invitationToken now).bind_cases _ with
    ⟨-, i, ⟨hfound, hpending, hexpired⟩, hrun⟩ | ⟨hnot, e, hrun⟩
  case inr =>
    rw [hrun]
    exact Or.inr ⟨fun i h => hnot ⟨i, h.found, h.pending, h.not_expired⟩, e, rfl⟩
  have honly : ∀ invitation, Registers db registered userId accountId ⟨input, invitation, now⟩ →
      invitation = i := fun _ h => Option.some.inj (h.found.symm.trans hfound)
  rw [hrun]
  by_cases hemail : input.email ≠ i.recipient
  · rw [if_pos hemail]
    refine Or.inr ⟨fun invitation h => ?_, _, rfl⟩
    obtain rfl := honly invitation h
    exact hemail h.email
  rw [if_neg hemail]
  by_cases hprovider : input.provider ≠ "email-password"
  · rw [if_pos hprovider]
    exact Or.inr ⟨fun _ h => hprovider h.provider, _, rfl⟩
  rw [if_neg hprovider]
  unfold Register.runSaga
  rcases insertUser_cases db ⟨input, i, now⟩ userId with ⟨user, huser, hinsert⟩ | ⟨hnot, e, hthrow⟩
  case inr =>
    rw [steps_of_error (r := ⟨input, i, now⟩) hthrow]
    refine Or.inr ⟨fun invitation h => ?_, e, rfl⟩
    obtain rfl := honly invitation h
    exact hnot h.user
  obtain ⟨rfl, -, -, -⟩ := newUser_eq_ok huser.made
  rw [steps_of_ok (r := ⟨input, i, now⟩) hinsert]
  have hmem : user ∈ (withUser db user).users := List.mem_cons_self
  rcases insertAccount_cases (withUser db user) registered ⟨input, i, now⟩ user.id accountId with
    ⟨account, haccount, hinsert'⟩ | ⟨hnot, e, hthrow⟩
  case inr =>
    rw [lastSteps_of_error _ hmem hthrow, withoutUser_withUser fun u hu => (huser.free u hu).1]
    refine Or.inr ⟨fun invitation h => ?_, e, rfl⟩
    obtain rfl := honly invitation h
    obtain ⟨account, ha⟩ := h.account
    exact hnot ⟨account, ha.made, ha.free⟩
  obtain ⟨invitations, hconsume⟩ := consume_of_usable (withAccount (withUser db user) account)
    hfound hpending hexpired
  rw [lastSteps_of_ok _ hinsert', lastStep_of_ok (r := ⟨input, i, now⟩) _ _ hconsume]
  have hinserts : InsertsAccount db registered ⟨input, i, now⟩ user.id accountId account :=
    ⟨haccount.made, haccount.free⟩
  refine Or.inl ⟨i, user, account, invitations, ?_, huser, hinserts, rfl⟩
  exact ⟨hfound, hpending, hexpired, not_not.mp hemail, not_not.mp hprovider, ⟨user, huser⟩,
    ⟨account, hinserts⟩⟩

/-! ## The rule of the documents -/

/-- The tenant is a customer. -/
def IsCustomer (db : Db) (tenantId : String) : Prop := ∃ t ∈ db.tenants, t.id = tenantId ∧ t.type = .customer

/-- The users of customers hold roles that are enabled for them. -/
def Enabled (db : Db) : Prop :=
  ∀ u ∈ db.users, IsCustomer db u.tenantId → ⟨u.roleId, u.tenantId⟩ ∈ db.roleTenants

/-- No user of a customer holds a role that is withdrawn from it, and the role that a registration gives
in a customer is still enabled for it. -/
def KeepsEnabled (db : Db) : Op → Prop
  | .disassociate actorTenantId targetTenantId roleIds =>
    Dissociates db actorTenantId targetTenantId → IsCustomer db targetTenantId →
      ∀ u ∈ db.users, u.tenantId = targetTenantId → u.roleId ∉ roleIds
  | .register registered input userId accountId now =>
    ∀ invitation, Registers db registered userId accountId ⟨input, invitation, now⟩ →
      IsCustomer db invitation.tenantId → ⟨invitation.roleId, invitation.tenantId⟩ ∈ db.roleTenants
  | _ => True

/-- Roles may be withdrawn that no user of the customer holds. -/
theorem enabled_disassociate_iff (hs : Enabled db) (actorTenantId targetTenantId : String) (roleIds : List String) :
    Enabled (DisassociateRolesFromTenant.execute actorTenantId targetTenantId roleIds db).2 ↔
      KeepsEnabled db (.disassociate actorTenantId targetTenantId roleIds) := by
  show _ ↔ (_ → _)
  rw [DisassociateRolesFromTenant.execute_snd]
  by_cases hallowed : Dissociates db actorTenantId targetTenantId
  · rw [if_pos hallowed, imp_iff_right hallowed]
    -- what is left of the association of a user is the association, unless it is withdrawn
    have hleft : ∀ u ∈ db.users, IsCustomer db u.tenantId →
        (⟨u.roleId, u.tenantId⟩ ∈ db.roleTenants.filter (fun rt =>
          !(roleIds.contains rt.roleId && rt.tenantId == targetTenantId)) ↔
        (u.tenantId = targetTenantId → u.roleId ∉ roleIds)) := by
      intro u hu hcustomer
      rw [List.mem_filter, and_iff_right (hs u hu hcustomer)]
      simp only [Bool.not_eq_true', Bool.and_eq_false_imp, List.contains_iff_mem, beq_eq_false_iff_ne,
        ne_eq]
      exact ⟨fun h ht hr => h hr ht, fun h hr ht => h ht hr⟩
    constructor
    · intro h hcustomer u hu htenant
      have hcustomer' : IsCustomer db u.tenantId := htenant ▸ hcustomer
      exact (hleft u hu hcustomer').mp (h u hu hcustomer') htenant
    · intro h u hu hcustomer
      exact (hleft u hu hcustomer).mpr fun htenant => h (htenant ▸ hcustomer) u hu htenant
  · rw [if_neg hallowed]
    exact iff_of_true hs fun h => absurd h hallowed

/-- A user may be registered with a role that is still enabled for the customer. -/
theorem enabled_register_iff (hs : Enabled db) (registered : Except AccessError (Option String)) (input : RegisterInput)
    (userId accountId : String) (now : ℕ) :
    Enabled (Register.execute registered input userId accountId now db).2 ↔
      KeepsEnabled db (.register registered input userId accountId now) := by
  show _ ↔ ∀ invitation, Registers db registered userId accountId ⟨input, invitation, now⟩ → _
  rcases Register.execute_cases db registered input userId accountId now with
    ⟨invitation, user, account, invitations, hregisters, huser, -, hrun⟩ | ⟨hnot, e, hrun⟩
  · obtain ⟨-, -, htenant, hrole⟩ := newUser_eq_ok huser.made
    rw [hrun]
    constructor
    · intro h invitation' hregisters' hcustomer
      obtain rfl : invitation' = invitation :=
        Option.some.inj (hregisters'.found.symm.trans hregisters.found)
      have huser := h user List.mem_cons_self
      rw [htenant, hrole] at huser
      exact huser hcustomer
    · intro h u hu hcustomer
      rcases List.mem_cons.mp hu with rfl | hu
      · have henabled := h invitation hregisters
        rw [← htenant, ← hrole] at henabled
        exact henabled hcustomer
      · exact hs u hu hcustomer
  · rw [hrun]
    exact iff_of_true hs fun invitation hregisters => absurd hregisters (hnot invitation)

/-- **One use case** keeps the roles of the users enabled exactly when it meets the condition. -/
theorem enabled_step_iff {db' : Db} {op : Op} (hs : Enabled db) (h : step db op = some db') :
    Enabled db' ↔ KeepsEnabled db op := by
  obtain rfl := Option.some.inj h
  cases op with
  | associate scope actorTenantId targetTenantId roleIds =>
    refine iff_of_true ?_ trivial
    obtain ⟨new, hnew⟩ := AssociateRolesToTenant.execute_snd db scope actorTenantId targetTenantId roleIds
    show Enabled (AssociateRolesToTenant.execute scope actorTenantId targetTenantId roleIds db).2
    rw [hnew]
    intro u hu hcustomer
    exact List.mem_append_left new (hs u hu hcustomer)
  | disassociate actorTenantId targetTenantId roleIds =>
    exact enabled_disassociate_iff hs actorTenantId targetTenantId roleIds
  | createInvitation input id newToken now =>
    refine iff_of_true ?_ trivial
    obtain ⟨invitations, hrun⟩ := CreateInvitation.execute_snd db input id newToken now
    show Enabled (CreateInvitation.execute input id newToken now db).2
    rw [hrun]
    exact hs
  | register registered input userId accountId now =>
    exact enabled_register_iff hs registered input userId accountId now
  | changeRoleUser scope id roleId now =>
    refine iff_of_true ?_ trivial
    obtain ⟨users, hrun, hroles⟩ := ChangeRoleUser.execute_snd db scope id roleId now
    show Enabled (ChangeRoleUser.execute scope id roleId now db).2
    rw [hrun]
    intro u hu hcustomer
    exact (hroles u hu).elim (fun hold => hs u hold hcustomer) fun henabled => henabled

/-- **The users of customers hold enabled roles** in every state of a run, exactly when every step of
the run meets the condition. -/
theorem users_hold_enabled_roles_iff (hs : Enabled db) (ops : List Op) :
    AllStates step Enabled db ops ↔ AllSteps step KeepsEnabled db ops := by
  obtain ⟨db', hr⟩ : ∃ db', run step db ops = some db' := exists_run (fun _ _ => ⟨_, rfl⟩) db ops
  exact allStates_iff_allSteps (C := fun _ _ => True) (I := fun _ => True) (fun _ _ _ _ _ _ _ _ => trivial)
    (fun _ _ _ _ he _ hstep => enabled_step_iff he hstep) trivial hs
    (allSteps_of_forall (fun _ _ _ => trivial) db) hr

/-! ### A user of a customer, and another one invited -/

section Example

instance (db : Db) (tenantId : String) : Decidable (IsCustomer db tenantId) :=
  inferInstanceAs (Decidable (∃ t ∈ db.tenants, _))

instance (db : Db) : Decidable (Enabled db) := inferInstanceAs (Decidable (∀ u ∈ db.users, _))

/-- An invitation. -/
def inviteEve : Op :=
  .createInvitation ⟨"acme", "member", "eve@acme.io", "manual"⟩ "i1"
    "6f1c2b9e-3f5a-4c1d-9a77-0c2f4f6d8e11" 1

/-- The registration with it. -/
def registerEve : Op :=
  .register (.ok (some "hash"))
    ⟨"6f1c2b9e-3f5a-4c1d-9a77-0c2f4f6d8e11", "eve@acme.io", "Eve", "Moss", "email-password"⟩ "eve" "a1" 2

theorem users_hold_enabled_roles_iff_eve :
    (run step seeded [inviteEve, registerEve]).any (fun db => db.users.map (fun u => (u.id, u.roleId)) ==
      [("eve", "member"), ("bob", "member")]) = true ∧
    (AllStates step Enabled seeded [inviteEve, registerEve] ↔
      AllSteps step KeepsEnabled seeded [inviteEve, registerEve]) :=
  ⟨by decide +kernel, users_hold_enabled_roles_iff (by decide) _⟩

/-- The role is withdrawn while Bob holds it, or, after Bob has left, between the invitation of Eve and
her registration. -/
theorem users_hold_withdrawn_roles :
    ¬ (∀ db : Db, Enabled db → ∀ ops, AllStates step Enabled db ops) ∧
    (run step seeded [.disassociate "platform" "acme" ["member"]]).any (fun db =>
      decide (¬ Enabled db)) = true ∧
    (run step { seeded with users := [] }
      [inviteEve, .disassociate "platform" "acme" ["member"], registerEve]).any (fun db =>
      decide (¬ Enabled db)) = true := by
  refine ⟨fun hall => ?_, by decide, by decide +kernel⟩
  have hafter := (hall seeded (by decide) [.disassociate "platform" "acme" ["member"]]).last rfl
  exact absurd hafter (by decide)

end Example

end Neltrik.Authorization.EnabledRoles
