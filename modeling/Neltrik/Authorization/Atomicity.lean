import Neltrik.Authorization.RegistrationSteps
import Neltrik.Lib.Machine
import Neltrik.Lib.Ownership

/-! # Registration is atomic

The users and the accounts in the store are those that were there and those of the registrations that
have not failed: each call of the saga that inserts a row makes the run own it, and each compensation
takes away the one row the run owns (`Atomic.users`, `Atomic.accounts`).

All registrations with one token have the email of its invitation, and the emails of the users are
unique, so two of them cannot both own a user; hence at most one succeeds. What a run that has
succeeded has seen of its invitation is still so: no step changes what an invitation is for, and while
nothing is revoked a used invitation stays used. -/

namespace Neltrik.Authorization.Registration.Atomicity

open Neltrik.Lib Neltrik.Lib.Machine Neltrik.Lib.Table Neltrik.Lib.Pool

/-- The unique indexes. -/
structure Indexed (db : Db) : Prop where
  invitationIds : Keyed (·.id) db.invitations
  tokens : Keyed (·.token) db.invitations
  userIds : Keyed (·.id) db.users
  emails : Keyed (·.email) db.users
  accountIds : Keyed (·.id) db.accounts

/-- The run does not start a revocation. -/
def revokes : Label → Bool
  | .start (.revoke _ _ _) => true
  | _ => false

/-! ## What a process has seen -/

/-- The registration has validated its invitation, and the email is the recipient of it. -/
structure Valid (db : Db) (r : Run) : Prop where
  mem : fixed r.invitation ∈ db.invitations.map fixed
  token : r.invitation.token = r.input.invitationToken
  recipient : r.input.email = r.invitation.recipient

/-- The user is the one the invitation is for. -/
structure Invited (r : Run) (user : User) : Prop where
  email : Email.create r.input.email = .ok user.email
  tenantId : user.tenantId = r.invitation.tenantId
  roleId : user.roleId = r.invitation.roleId

/-- A used copy of a stored invitation. -/
structure UsedCopy (db : Db) (used : Invitation) : Prop where
  mem : fixed used ∈ db.invitations.map fixed
  status : used.status = .used

/-- The invitation of the token is used. -/
def IsUsed (db : Db) (token : String) : Prop :=
  ∃ i ∈ db.invitations, i.token = token ∧ i.status = .used

/-- What the run has left is there. -/
def Seen (db : Db) : Proc → Prop
  | .validated r => Valid db r
  | .creatingUser r user | .createdUser r user | .deletingUser r user => Valid db r ∧ Invited r user
  | .createdAccount r user account | .deletingAccount r user account =>
    Valid db r ∧ Invited r user ∧ account.userId = user.id
  | .consuming r user account used =>
    Valid db r ∧ Invited r user ∧ account.userId = user.id ∧ UsedCopy db used ∧
      used.token = r.input.invitationToken
  | .registered r user account =>
    Valid db r ∧ Invited r user ∧ account.userId = user.id ∧ IsUsed db r.input.invitationToken
  | .consumingInvitation used => UsedCopy db used
  | .revokingInvitation _ => False
  | .done | .failed => True

/-- What the tables keep: the indexes, and what each invitation is for. -/
structure Tables (db₀ : Db) (s : Store) : Prop where
  invitations : s.db.invitations.map fixed = db₀.invitations.map fixed
  indexed : Indexed s.db

/-- What every state has. -/
abbrev Inv (db₀ : Db) : State → Prop :=
  Interleaving.Inv (Tables db₀) (fun s => Seen s.db) fun _ _ => True

/-! ## Writes of an invitation -/

section Writes
variable {db : Db} {i : Invitation}

theorem map_fixed_withInvitation (hk : Keyed (·.id) db.invitations)
    (hi : fixed i ∈ db.invitations.map fixed) :
    (withInvitation db i).invitations.map fixed = db.invitations.map fixed := by
  obtain ⟨row, hrow, he⟩ := List.mem_map.mp hi
  refine hk.map_updateWhere hrow (fun r hr => ?_) he.symm
  rw [beq_iff_eq.mp hr]
  exact (sameInvitation_of_fixed he).id.symm

theorem indexed_withInvitation (h : Indexed db) (hi : fixed i ∈ db.invitations.map fixed) :
    Indexed (withInvitation db i) := by
  have hfixed := map_fixed_withInvitation h.invitationIds hi
  have hkey : ∀ key : Invitation → String, (∀ j, key (fixed j) = key j) → Keyed key db.invitations →
      Keyed key (withInvitation db i).invitations := by
    intro key hkey hk
    have hmap : ∀ rows : List Invitation, rows.map key = (rows.map fixed).map key := by
      intro rows
      rw [List.map_map]
      exact List.map_congr_left fun j _ => (hkey j).symm
    rw [Keyed, hmap, hfixed, ← hmap]
    exact hk
  exact ⟨hkey _ (fun _ => rfl) h.invitationIds, hkey _ (fun _ => rfl) h.tokens, h.userIds, h.emails,
    h.accountIds⟩

theorem isUsed_withInvitation_self (h : UsedCopy db i) : IsUsed (withInvitation db i) i.token := by
  obtain ⟨row, hrow, he⟩ := List.mem_map.mp h.mem
  have hid : (row.id == i.id) = true := beq_iff_eq.mpr (sameInvitation_of_fixed he).id
  exact ⟨i, mem_updateWhere.mpr (Or.inl ⟨row, hrow, hid, rfl⟩), rfl, h.status⟩

/-- While only used copies are written, a used invitation stays used. -/
theorem IsUsed.withInvitation {token : String} (h : IsUsed db token) (hk : Keyed (·.id) db.invitations)
    (hi : UsedCopy db i) : IsUsed (withInvitation db i) token := by
  obtain ⟨j, hj, htoken, hused⟩ := h
  by_cases hid : (j.id == i.id) = true
  · obtain ⟨row, hrow, he⟩ := List.mem_map.mp hi.mem
    have hsame := sameInvitation_of_fixed he
    have hrow_eq : row = j := hk.eq_of_key_eq hrow hj (hsame.id.trans (beq_iff_eq.mp hid).symm)
    have htoken_eq : i.token = token := by rw [← hsame.token, hrow_eq, htoken]
    rw [← htoken_eq]
    exact isUsed_withInvitation_self hi
  · exact ⟨j, mem_updateWhere.mpr (Or.inr ⟨hj, (Bool.not_eq_true _).mp hid⟩), htoken, hused⟩

end Writes

/-! ## Interference -/

/-- What a process has seen lasts while what the invitations are for does and used ones stay used. -/
theorem Seen.mono {db db' : Db} {p : Proc} (h : Seen db p)
    (hfixed : db'.invitations.map fixed = db.invitations.map fixed)
    (hused : ∀ token, IsUsed db token → IsUsed db' token) : Seen db' p := by
  have hvalid : ∀ r, Valid db r → Valid db' r := fun r hr => ⟨hfixed ▸ hr.mem, hr.token, hr.recipient⟩
  have hcopy : ∀ i, UsedCopy db i → UsedCopy db' i := fun i hi => ⟨hfixed ▸ hi.mem, hi.status⟩
  cases p with
  | validated r => exact hvalid r h
  | creatingUser r user | createdUser r user | deletingUser r user => exact ⟨hvalid r h.1, h.2⟩
  | createdAccount r user account | deletingAccount r user account => exact ⟨hvalid r h.1, h.2⟩
  | consuming r user account used =>
    obtain ⟨hr, hu, ha, hc, ht⟩ := h
    exact ⟨hvalid r hr, hu, ha, hcopy used hc, ht⟩
  | registered r user account =>
    obtain ⟨hr, hu, ha, hi⟩ := h
    exact ⟨hvalid r hr, hu, ha, hused _ hi⟩
  | consumingInvitation used => exact hcopy used h
  | revokingInvitation _ => exact h
  | done | failed => trivial

theorem usedCopy_of_consumed {db : Db} {token : String} {now : ℕ} {used : Invitation}
    (h : consumed db token now = .ok used) : UsedCopy db used ∧ used.token = token := by
  obtain ⟨row, hrow, rfl⟩ := consumed_eq_ok h
  exact ⟨⟨List.mem_map.mpr ⟨row, hrow.mem, rfl⟩, rfl⟩, hrow.token⟩

theorem usedCopy_of_seen {db : Db} {p : Proc} {i : Invitation} (h : Seen db p) (hc : p.copy = some i) :
    UsedCopy db i := by
  cases p <;> cases hc
  · exact h.2.2.2.1
  · exact h
  · exact h.elim

section Steps
variable {db₀ : Db} {st : State} {s' : Store} {i : ℕ} {p p' : Proc} {a : Action}

/-- What an action leaves as it is. -/
structure Leaves (db db' : Db) : Prop where
  fixed : db'.invitations.map fixed = db.invitations.map fixed
  used : ∀ token, IsUsed db token → IsUsed db' token
  indexed : Indexed db'

theorem leaves_of_acts (hi : Inv db₀ st) (hp : st.procs[i]? = some p) (h : Acts st.world p a s' p') :
    Leaves st.world.db s'.db := by
  have hx := hi.world.indexed
  cases h with
  | findUser | consume | fail => exact ⟨rfl, fun _ hu => hu, hx⟩
  | createUser hnew =>
    exact ⟨rfl, fun _ hu => hu, hx.invitationIds, hx.tokens, hx.userIds.cons fun u hu => (hnew u hu).1,
      hx.emails.cons fun u hu => (hnew u hu).2, hx.accountIds⟩
  | createAccount _ hnew =>
    exact ⟨rfl, fun _ hu => hu, hx.invitationIds, hx.tokens, hx.userIds, hx.emails,
      hx.accountIds.cons hnew⟩
  | save hcopy =>
    have hused := usedCopy_of_seen (hi.proc hp) hcopy
    exact ⟨map_fixed_withInvitation hx.invitationIds hused.mem,
      fun _ hu => hu.withInvitation hx.invitationIds hused, indexed_withInvitation hx hused.mem⟩
  | deleteAccount =>
    exact ⟨rfl, fun _ hu => hu, hx.invitationIds, hx.tokens, hx.userIds, hx.emails,
      hx.accountIds.sublist List.filter_sublist⟩
  | deleteUser =>
    exact ⟨rfl, fun _ hu => hu, hx.invitationIds, hx.tokens, hx.userIds.sublist List.filter_sublist,
      hx.emails.sublist List.filter_sublist, hx.accountIds⟩

theorem seen_of_thrown {db : Db} (h : Seen db p) (ht : p.thrown = some p') : Seen db p' := by
  cases p <;> cases ht
  · trivial
  · trivial
  · exact h
  · exact h
  · exact ⟨h.1, h.2.1, h.2.2.1⟩
  · trivial
  · trivial

theorem seen_of_acts (hi : Inv db₀ st) (hp : st.procs[i]? = some p) (h : Acts st.world p a s' p') :
    Seen s'.db p' := by
  have hl := leaves_of_acts hi hp h
  have hseen : Seen s'.db p := (hi.proc hp).mono hl.fixed hl.used
  cases h with
  | findUser _ hnew =>
    obtain ⟨-, he, ht, hr⟩ := newUser_eq_ok hnew
    exact ⟨hseen, he, ht, hr⟩
  | createUser => exact hseen
  | createAccount ha => exact ⟨hseen.1, hseen.2, (account_eq_ok ha).2⟩
  | consume _ hu =>
    obtain ⟨hr, huser, ha⟩ := hseen
    exact ⟨hr, huser, ha, usedCopy_of_consumed hu⟩
  | save hcopy =>
    have hused := isUsed_withInvitation_self (usedCopy_of_seen (hi.proc hp) hcopy)
    cases p <;> cases hcopy
    · obtain ⟨hr, huser, ha, -, ht⟩ := hseen
      exact ⟨hr, huser, ha, ht ▸ hused⟩
    · trivial
    · trivial
  | fail ht => exact seen_of_thrown hseen ht
  | deleteAccount => exact ⟨hseen.1, hseen.2.1⟩
  | deleteUser => trivial

theorem Inv.step {st' : State} {l : Label} (hi : Inv db₀ st) (hn : revokes l = false)
    (hs : step st l = some st') : Inv db₀ st' := by
  refine Interleaving.Inv.step (G := fun _ l => revokes l = false) (fun _ _ _ => trivial) ?_ ?_ hi hn hs
  · intro st l s p hi hn hw
    cases start_starts hw with
    | register _ h he =>
      obtain ⟨hmem, htoken⟩ := (reads_validate _ _ _).of_ok h
      exact ⟨⟨hi.world.invitations, hi.world.indexed⟩, ⟨List.mem_map_of_mem hmem, htoken, he⟩,
        fun q hq => ⟨hi.procs q hq, trivial⟩⟩
    | consume _ h =>
      exact ⟨⟨hi.world.invitations, hi.world.indexed⟩, (usedCopy_of_consumed h).1,
        fun q hq => ⟨hi.procs q hq, trivial⟩⟩
    | revoke => cases hn
  · intro st i a p s' p' hi _ hp hw
    have hw := act_acts hw
    have hl := leaves_of_acts hi hp hw
    exact ⟨⟨hl.fixed.trans hi.world.invitations, hl.indexed⟩, seen_of_acts hi hp hw,
      fun j q _ hq => ⟨(hi.proc hq).mono hl.fixed hl.used, trivial⟩⟩

end Steps

/-! ## Accounting -/

section Accounting
variable {s s' : Store} {p p' : Proc} {a : Action}

theorem users_of_thrown (h : p.thrown = some p') : p'.users = p.users ∧ p'.accounts = p.accounts := by
  cases p <;> cases h <;> exact ⟨rfl, rfl⟩

theorem users_saved {i : Invitation} (h : p.copy = some i) :
    p.saved.users = p.users ∧ p.saved.accounts = p.accounts := by
  cases p <;> cases h <;> exact ⟨rfl, rfl⟩

/-- **An action does to the users what it does to those of its run.** -/
theorem users_of_acts (h : Acts s p a s' p') (hk : Keyed (·.id) s.db.users)
    (hp : ∀ u ∈ p.users, u ∈ s.db.users) :
    List.Perm (s'.db.users ++ p.users) (s.db.users ++ p'.users) := by
  cases h with
  | findUser | createAccount | consume | deleteAccount => exact List.Perm.refl _
  | createUser =>
    show List.Perm (_ :: s.db.users ++ []) (s.db.users ++ [_])
    rw [List.append_nil]
    exact (List.perm_append_singleton _ _).symm
  | save hcopy =>
    rw [(users_saved hcopy).1]
    exact List.Perm.refl _
  | fail ht =>
    rw [(users_of_thrown ht).1]
  | deleteUser =>
    rw [show (Proc.failed).users = [] from rfl, List.append_nil]
    exact hk.filter_perm (hp _ (List.mem_singleton_self _))

theorem accounts_of_acts (h : Acts s p a s' p') (hk : Keyed (·.id) s.db.accounts)
    (hp : ∀ b ∈ p.accounts, b ∈ s.db.accounts) :
    List.Perm (s'.db.accounts ++ p.accounts) (s.db.accounts ++ p'.accounts) := by
  cases h with
  | findUser | createUser | consume | deleteUser => exact List.Perm.refl _
  | createAccount =>
    show List.Perm (_ :: s.db.accounts ++ []) (s.db.accounts ++ [_])
    rw [List.append_nil]
    exact (List.perm_append_singleton _ _).symm
  | save hcopy =>
    rw [(users_saved hcopy).2]
    exact List.Perm.refl _
  | fail ht =>
    rw [(users_of_thrown ht).2]
  | deleteAccount =>
    rw [show ∀ r user, (Proc.deletingUser r user).accounts = [] from fun _ _ => rfl, List.append_nil]
    exact hk.filter_perm (hp _ (List.mem_singleton_self _))

end Accounting

/-- The users and the accounts are those there were and those of the runs. -/
structure Balanced (db₀ : Db) (st : State) : Prop where
  users : Accounted Proc.users db₀.users st.world.db.users st.procs
  accounts : Accounted Proc.accounts db₀.accounts st.world.db.accounts st.procs

theorem Balanced.step {db₀ : Db} {st st' : State} {l : Label} (h : Balanced db₀ st) (hi : Inv db₀ st)
    (hs : step st l = some st') : Balanced db₀ st' := by
  cases l with
  | start s =>
    obtain ⟨s', p, hw, rfl⟩ := Interleaving.step_start.mp hs
    cases start_starts hw <;> exact ⟨h.users.concat rfl, h.accounts.concat rfl⟩
  | act i a =>
    obtain ⟨p, s', p', hp, hw, rfl⟩ := Interleaving.step_act.mp hs
    have hw := act_acts hw
    have hx := hi.world.indexed
    have hm := mem_of_getElem? hp
    exact ⟨h.users.set hp (users_of_acts hw hx.userIds fun u hu => h.users.mem hm hu),
      h.accounts.set hp (accounts_of_acts hw hx.accountIds fun b hb => h.accounts.mem hm hb)⟩

/-! ## The law -/

/-- What holds after a run of registrations that began with the tables `db₀`. -/
structure Atomic (db₀ : Db) (st : State) : Prop where
  /-- At most one registration with a token succeeds. -/
  once : ∀ (i j : ℕ) r user account r' user' account',
    st.procs[i]? = some (Proc.registered r user account) →
    st.procs[j]? = some (Proc.registered r' user' account') →
    r.input.invitationToken = r'.input.invitationToken → i = j
  /-- A run that has failed owns nothing: what is in the store and was not is of the others. -/
  users : List.Perm st.world.db.users (db₀.users ++ st.procs.flatMap Proc.users)
  accounts : List.Perm st.world.db.accounts (db₀.accounts ++ st.procs.flatMap Proc.accounts)
  /-- A run that has succeeded leaves its user and account, and its invitation used. -/
  registered : ∀ r user account, Proc.registered r user account ∈ st.procs →
    user ∈ st.world.db.users ∧ account ∈ st.world.db.accounts ∧ account.userId = user.id ∧
    ∃ invitation ∈ st.world.db.invitations, invitation.token = r.input.invitationToken ∧
      invitation.status = .used ∧ user.tenantId = invitation.tenantId ∧
      user.roleId = invitation.roleId

/-- The stored invitation of the token is the one the run has validated. -/
theorem Valid.same {db : Db} {r : Run} (h : Valid db r) (hk : Keyed (·.token) db.invitations)
    {i : Invitation} (hi : i ∈ db.invitations) (ht : i.token = r.input.invitationToken) :
    fixed r.invitation = fixed i := by
  obtain ⟨row, hrow, he⟩ := List.mem_map.mp h.mem
  have htoken : row.token = i.token := by
    rw [(sameInvitation_of_fixed he).token, h.token, ht]
  rw [← he, hk.eq_of_key_eq hrow hi htoken]

theorem atomic_of_inv {db₀ : Db} {st : State} (hi : Inv db₀ st) (hb : Balanced db₀ st) :
    Atomic db₀ st where
  users := hb.users
  accounts := hb.accounts
  once := by
    intro i j r user account r' user' account' hp hp' htoken
    by_contra hij
    obtain ⟨hr, hu, -⟩ := hi.proc hp
    obtain ⟨hr', hu', -⟩ := hi.proc hp'
    have hsame : SameInvitation r.invitation r'.invitation := by
      obtain ⟨row, hrow, he⟩ := List.mem_map.mp hr'.mem
      have ht : row.token = r.input.invitationToken := by
        rw [(sameInvitation_of_fixed he).token, hr'.token, htoken]
      exact sameInvitation_of_fixed ((hr.same hi.world.indexed.tokens hrow ht).trans he)
    have hemail : user.email = user'.email := by
      have he := hu.email
      rw [hr.recipient, hsame.recipient, ← hr'.recipient, hu'.email] at he
      exact (Except.ok.inj he).symm
    exact hb.users.key_ne hi.world.indexed.emails hij hp hp' (List.mem_singleton_self user)
      (List.mem_singleton_self user') hemail
  registered := by
    intro r user account hm
    obtain ⟨hr, hu, ha, invitation, hinv, ht, hused⟩ := hi.procs _ hm
    have hsame := sameInvitation_of_fixed (hr.same hi.world.indexed.tokens hinv ht)
    exact ⟨hb.users.mem hm (List.mem_singleton_self user),
      hb.accounts.mem hm (List.mem_singleton_self account), ha, invitation, hinv, ht, hused,
      hu.tenantId.trans hsame.tenantId, hu.roleId.trans hsame.roleId⟩

/-- **Registration is atomic and an invitation is used once.** In every run of registrations (and
consumptions) in which any call may throw: at most one registration with a token succeeds; the users
and the accounts are those there were and those of the registrations that have not failed; and a
registration that has succeeded leaves its user and account, with the tenant and the role of its
invitation, and the invitation used. -/
theorem registration_atomic {st st' : State} {ls : List Label} (hidle : st.procs = [])
    (hx : Indexed st.world.db) (hn : ∀ l ∈ ls, revokes l = false) (hr : run step st ls = some st') :
    Atomic st.world.db st' := by
  have hinv : Inv st.world.db st := Interleaving.Inv.of_nil ⟨rfl, hx⟩ hidle
  have hbal : Balanced st.world.db st := by
    refine ⟨?_, ?_⟩ <;> rw [hidle] <;> exact accounted_nil
  have hlast : Inv st.world.db st' ∧ Balanced st.world.db st' :=
    run_inv_of_allSteps (I := fun s => Inv st.world.db s ∧ Balanced st.world.db s)
      (G := fun _ l => revokes l = false) (fun s l s' h hn hs => ⟨h.1.step hn hs, h.2.step h.1 hs⟩)
      ⟨hinv, hbal⟩ (allSteps_of_forall (fun l hl _ => hn l hl) st) hr
  exact atomic_of_inv hlast.1 hlast.2

/-! ### Two registrations -/

/-- Both validate the invitation. The first one inserts its user and account and fails to consume it;
once it has compensated, the second one registers. -/
def secondRegistersRun : List Label :=
  [.start (.register exampleInput 1), .start (.register exampleInput 1), .act 0 (.findUser "u1" 2),
    .act 1 (.findUser "u2" 2), .act 0 .createUser, .act 0 (.createAccount "a1" (some "$2b$10$ann")),
    .act 0 .fail, .act 0 .compensate, .act 0 .compensate, .act 1 .createUser,
    .act 1 (.createAccount "a2" (some "$2b$10$ann")), .act 1 (.consume 3), .act 1 .save]

theorem indexed_exampleState : Indexed exampleState.world.db where
  invitationIds := keyed_singleton _ _
  tokens := keyed_singleton _ _
  userIds := List.nodup_nil
  emails := List.nodup_nil
  accountIds := List.nodup_nil

theorem registration_atomic_secondRegistersRun : ∃ st,
    run step exampleState secondRegistersRun = some st ∧ st.world.db.users.map (·.id) = ["u2"] ∧
    Atomic exampleState.world.db st := by
  have hrun : (run step exampleState secondRegistersRun).any
      (fun st => st.world.db.users.map (·.id) = ["u2"]) = true := by decide +kernel
  obtain ⟨st, hst, husers⟩ := (Option.any_eq_true _ _).mp hrun
  exact ⟨st, hst, of_decide_eq_true husers,
    registration_atomic rfl indexed_exampleState (by decide) hst⟩

end Neltrik.Authorization.Registration.Atomicity
