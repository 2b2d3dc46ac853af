import Neltrik.Authentication.AccountUpdates

/-! # Sessions of an old password

`ResetPassword` revokes the sessions it finds when its `updateMany` starts. A login that has verified
the old password creates its session afterwards (`old_password_session`), and `RefreshToken` writes
back a row it has read before the session was revoked.

`reset_evicts_sessions` is the law that holds while a login creates its session under the hash that is
stored, `RefreshToken` writes no revoked session, a reset has selected every live session of its
account when it commits, and a validation writes the stored hash (`evicts`). -/

namespace Neltrik.Authentication.Transactions.Eviction

open Neltrik.Lib Neltrik.Lib.Machine Neltrik.Lib.Table
open Neltrik.Authentication.Transactions.AccountUpdates (acts_accounts mem_accounts_update)
open Neltrik.Authorization (AuthenticationAccount PasswordHash.create)

/-- The condition on the runs. -/
def evicts (st : State) : Label → Bool
  | .act i (.createSession _ _ _ _ _) =>
    match st.procs[i]? with
    | some (.loggingIn account) =>
      st.world.accounts.rows.all fun a => a.id != account.id || a.passwordHash == account.passwordHash
    | _ => true
  | .act i (.renew _ _) =>
    match st.procs[i]? with
    | some (.authorized _ session) =>
      st.world.sessions.rows.all fun x => x.id != session.id || !x.isRevoked
    | _ => true
  | .act i .commit =>
    match st.procs[i]? with
    | some (.evicted _ account _ ids _) => st.world.sessions.rows.all fun x =>
        x.authenticationAccountId != account.id || x.isRevoked || ids.contains x.id
    | some (.savedVerified _ account _) =>
      st.world.accounts.rows.all fun a => a.id != account.id || a.passwordHash == account.passwordHash
    | _ => true
  | _ => true

/-- After a reset of an account, each of its live sessions is one of a login with the new hash. -/
def OnlyNew (s : Store) : Prop :=
  ∀ x ∈ s.sessions.rows, x.isRevoked = false → ∀ hash, s.lastReset x.authenticationAccountId = some hash →
    s.verified x.id = some hash

/-! ## The invariant -/

/-- The stored hash is the one of the last reset. -/
def HashSet (s : Store) : Prop :=
  ∀ a ∈ s.accounts.rows, ∀ hash, s.lastReset a.id = some hash → a.passwordHash = some hash

/-- The session is stored, under the account of the copy. -/
def StoredSession (s : Store) (session : AuthenticationSession) : Prop :=
  ∃ x ∈ s.sessions.rows, x.id = session.id ∧ x.authenticationAccountId = session.authenticationAccountId

/-- The account is stored as it is. -/
def StoredAccount (s : Store) (account : AuthenticationAccount) : Prop :=
  ∃ a ∈ s.accounts.rows, a.id = account.id

/-- What a process needs of the rows. -/
def Ready (s : Store) : Proc → Prop
  | .loggingIn account => StoredAccount s account
  | .refreshing _ session | .authorized _ session => StoredSession s session
  | _ => True

/-- What every state has. -/
abbrev Inv : State → Prop :=
  Interleaving.Inv (fun s => HashSet s ∧ OnlyNew s) Ready (fun _ _ => True)

section Condition
variable {st : State} {i : ℕ}

attribute [local simp] evicts

/-- The rows with the id of the account have its hash. -/
theorem hash_of_all {account : AuthenticationAccount} {rows : List AuthenticationAccount}
    (h : (rows.all fun a => a.id != account.id || a.passwordHash == account.passwordHash) = true) :
    ∀ a ∈ rows, a.id = account.id → a.passwordHash = account.passwordHash := by
  intro a ha hid
  simp only [List.all_eq_true, Bool.or_eq_true, bne_iff_ne, ne_eq, beq_iff_eq] at h
  exact (h a ha).resolve_left fun hne => hne hid

theorem hash_of_evicts {account : AuthenticationAccount} {id token : String} {ip agent : Option String}
    {now : ℕ} (h : evicts st (.act i (.createSession id token ip agent now)) = true)
    (hp : st.procs[i]? = some (.loggingIn account)) :
    ∀ a ∈ st.world.accounts.rows, a.id = account.id → a.passwordHash = account.passwordHash := by
  simp only [evicts, hp] at h
  exact hash_of_all h

theorem validated_hash_of_evicts {verification : EmailVerification} {account : AuthenticationAccount}
    {late : Bool} (h : evicts st (.act i .commit) = true)
    (hp : st.procs[i]? = some (.savedVerified verification account late)) :
    ∀ a ∈ st.world.accounts.rows, a.id = account.id → a.passwordHash = account.passwordHash := by
  simp only [evicts, hp] at h
  exact hash_of_all h

theorem live_of_evicts {owner : Option String} {session : AuthenticationSession} {token : String}
    {now : ℕ} (h : evicts st (.act i (.renew token now)) = true)
    (hp : st.procs[i]? = some (.authorized owner session)) :
    ∀ x ∈ st.world.sessions.rows, x.id = session.id → x.isRevoked = false := by
  intro x hx hid
  simp only [evicts, hp, List.all_eq_true, Bool.or_eq_true, bne_iff_ne, ne_eq, Bool.not_eq_true'] at h
  exact (h x hx).resolve_left fun hne => hne hid

theorem selected_of_evicts {reset : PasswordReset} {account : AuthenticationAccount} {late : Bool}
    {ids : List String} {at' : ℕ} (h : evicts st (.act i .commit) = true)
    (hp : st.procs[i]? = some (.evicted reset account late ids at')) :
    ∀ x ∈ st.world.sessions.rows, x.authenticationAccountId = account.id → x.isRevoked = false →
      x.id ∈ ids := by
  intro x hx hid hlive
  simp only [evicts, hp, List.all_eq_true, Bool.or_eq_true, bne_iff_ne, ne_eq,
    List.contains_iff_mem] at h
  rcases h x hx with (hne | hrev) | hm
  · exact absurd hid hne
  · rw [hlive] at hrev; cases hrev
  · exact hm

end Condition

section Steps
variable {ports : Ports} {st : State} {s' : Store} {p p' : Proc} {i : ℕ} {a : Action}

/-- A renewed session is one of the same account. -/
theorem renew_account {session renewed : AuthenticationSession} {token : String} {now : ℕ}
    (h : RefreshToken.renew ports session token now = .ok renewed) :
    renewed.authenticationAccountId = session.authenticationAccountId := by
  obtain ⟨_, -, h⟩ := Effect.except_bind_eq_ok.mp h
  obtain ⟨_, -, h⟩ := Effect.except_bind_eq_ok.mp h
  cases h
  rfl

theorem login_account {account : AuthenticationAccount} {id token : String} {ip agent : Option String}
    {now : ℕ} {session : AuthenticationSession}
    (h : Login.session ports account id token ip agent now = .ok session) :
    session.authenticationAccountId = account.id := by
  obtain ⟨_, -, h⟩ := Effect.except_bind_eq_ok.mp h
  obtain ⟨_, -, h⟩ := Effect.except_bind_eq_ok.mp h
  cases h
  rfl

/-- **The stored hashes after an action.** -/
theorem hashSet_of_acts (hi : Inv st) (hp : st.procs[i]? = some p) (he : evicts st (.act i a) = true)
    (h : Acts ports st.world p a s' p') : HashSet s' := by
  rcases acts_accounts h with ⟨ha, hl⟩ | ⟨verification, account, late, rfl, rfl, rfl⟩ |
    ⟨reset, account, late, ids, at', rfl, rfl, rfl⟩
  · unfold HashSet
    rw [ha, hl]
    exact hi.world.1
  · intro b hb hash hlast
    rcases mem_accounts_update hb with ⟨rfl, r, hr, hid⟩ | ⟨hb, -⟩
    · rw [← validated_hash_of_evicts he hp r hr hid]
      exact hi.world.1 r hr hash (hid ▸ hlast)
    · exact hi.world.1 b hb hash hlast
  · intro b hb hash hlast
    have hlast' : Function.update st.world.lastReset account.id account.passwordHash b.id = some hash :=
      hlast
    rcases mem_accounts_update hb with ⟨rfl, -⟩ | ⟨hb, hne⟩
    · rw [Function.update_self] at hlast'
      exact hlast'
    · rw [Function.update_of_ne hne] at hlast'
      exact hi.world.1 b hb hash hlast'

/-- A new session has been verified against the hash that is stored. -/
theorem onlyNew_of_createSession {account : AuthenticationAccount} {session : AuthenticationSession}
    {sessions : KeyedTable AuthenticationSession.id} {s : Store} {now : ℕ} (hh : HashSet s)
    (ho : OnlyNew s) (hs : StoredAccount s account)
    (hhash : ∀ a ∈ s.accounts.rows, a.id = account.id → a.passwordHash = account.passwordHash)
    (hacc : session.authenticationAccountId = account.id) (hi : s.sessions.insert session = some sessions) :
    OnlyNew { s with
      clock := now, sessions
      verified := Function.update s.verified session.id account.passwordHash } := by
  obtain ⟨hnew, hrows⟩ := KeyedTable.insert_eq_some hi
  intro x hx hlive hash hlast
  rw [show _ = _ from hrows] at hx
  rcases List.mem_cons.mp hx with rfl | hx
  · obtain ⟨a, ha, hid⟩ := hs
    show Function.update s.verified x.id account.passwordHash x.id = some hash
    rw [Function.update_self, ← hhash a ha hid]
    refine hh a ha hash ?_
    rw [hid, ← hacc]
    exact hlast
  · show Function.update s.verified session.id account.passwordHash x.id = some hash
    rw [Function.update_of_ne (hnew x hx)]
    exact ho x hx hlive hash hlast

/-- A session that is written live was live, and keeps its login. -/
theorem onlyNew_of_renew {owner : Option String} {session renewed : AuthenticationSession} {s : Store}
    {w : World} {now : ℕ} (ho : OnlyNew s) (hs : StoredSession s session)
    (hlive : ∀ x ∈ s.sessions.rows, x.id = session.id → x.isRevoked = false)
    (hid : renewed.id = session.id)
    (hacc : renewed.authenticationAccountId = session.authenticationAccountId)
    (hu : SessionRepository.update s.world owner renewed = some w) :
    OnlyNew { s with clock := now, sessions := w.sessions } := by
  intro x hx hxlive hash hlast
  rcases SessionRepository.mem_of_update hu hx with rfl | ⟨hx, -⟩
  · obtain ⟨r, hr, hrid, hracc⟩ := hs
    show s.verified x.id = some hash
    rw [hid, ← hrid]
    refine ho r hr (hlive r hr hrid) hash ?_
    rw [hracc, ← hacc]
    exact hlast
  · exact ho x hx hxlive hash hlast

/-- A reset leaves no live session. -/
theorem onlyNew_of_commitReset {reset : PasswordReset} {account : AuthenticationAccount}
    {ids : List String} {at' : ℕ} {s : Store} (ho : OnlyNew s)
    (hsel : ∀ x ∈ s.sessions.rows, x.authenticationAccountId = account.id → x.isRevoked = false →
      x.id ∈ ids) : OnlyNew (commitReset s reset account ids at') := by
  intro x hx hlive hash hlast
  have hlast' : Function.update s.lastReset account.id account.passwordHash x.authenticationAccountId =
      some hash := hlast
  rcases mem_updateWhere.mp hx with ⟨r, -, -, rfl⟩ | ⟨hx, hnot⟩
  · cases hlive
  · have hne : x.authenticationAccountId ≠ account.id := fun he => by
      have hm := hsel x hx he hlive
      simp [hm] at hnot
    rw [Function.update_of_ne hne] at hlast'
    exact ho x hx hlive hash hlast'

/-- **The live sessions after an action.** -/
theorem onlyNew_of_acts (hi : Inv st) (hp : st.procs[i]? = some p) (he : evicts st (.act i a) = true)
    (h : Acts ports st.world p a s' p') : OnlyNew s' := by
  obtain ⟨hh, ho⟩ := hi.world
  have hready := hi.proc hp
  cases h with
  | createSession _ hs hins =>
    exact onlyNew_of_createSession hh ho hready (hash_of_evicts he hp) (login_account hs) hins
  | renew _ hr hu =>
    exact onlyNew_of_renew ho hready (live_of_evicts he hp) (RefreshToken.renew_eq_ok hr).1
      (renew_account hr) hu
  | commitReset => exact onlyNew_of_commitReset ho (selected_of_evicts he hp)
  | commitRequest h =>
    obtain ⟨_, -, rfl⟩ := commitRequest_eq_some h
    exact ho
  | commitVerificationRequest h =>
    obtain ⟨_, -, rfl⟩ := commitVerificationRequest_eq_some h
    exact ho
  | _ => exact ho

/-- Sessions and accounts stay stored. -/
structure Keeps (s s' : Store) : Prop where
  sessions : ∀ x ∈ s.sessions.rows, ∃ x' ∈ s'.sessions.rows, x'.id = x.id ∧
    x'.authenticationAccountId = x.authenticationAccountId
  accounts : ∀ a ∈ s.accounts.rows, ∃ a' ∈ s'.accounts.rows, a'.id = a.id

theorem Keeps.of_eq {s s' : Store} (hs : s'.sessions = s.sessions) (ha : s'.accounts = s.accounts) :
    Keeps s s' := by
  refine ⟨?_, ?_⟩
  · rw [hs]; exact fun x hx => ⟨x, hx, rfl, rfl⟩
  · rw [ha]; exact fun a ha => ⟨a, ha, rfl⟩

theorem Keeps.ready {s s' : Store} (h : Keeps s s') {p : Proc} (hp : Ready s p) : Ready s' p := by
  have hsession : ∀ {session}, StoredSession s session → StoredSession s' session := by
    rintro session ⟨x, hx, hid, hacc⟩
    obtain ⟨x', hx', hid', hacc'⟩ := h.sessions x hx
    exact ⟨x', hx', hid'.trans hid, hacc'.trans hacc⟩
  cases p with
  | loggingIn account =>
    obtain ⟨a, ha, hid⟩ := hp
    obtain ⟨a', ha', hid'⟩ := h.accounts a ha
    exact ⟨a', ha', hid'.trans hid⟩
  | refreshing => exact hsession hp
  | authorized => exact hsession hp
  | _ => trivial

theorem exists_account_update {rows : List AuthenticationAccount} {account b : AuthenticationAccount}
    (hb : b ∈ rows) :
    ∃ b' ∈ updateWhere (fun a => a.id == account.id) (fun _ => account) rows, b'.id = b.id := by
  by_cases hid : b.id = account.id
  · exact ⟨account, mem_updateWhere.mpr (Or.inl ⟨b, hb, beq_iff_eq.mpr hid, rfl⟩), hid.symm⟩
  · exact ⟨b, mem_updateWhere.mpr (Or.inr ⟨hb, beq_eq_false_iff_ne.mpr hid⟩), rfl⟩

theorem keeps_commitReset {reset : PasswordReset} {account : AuthenticationAccount} {ids : List String}
    {at' : ℕ} {s : Store} : Keeps s (commitReset s reset account ids at') := by
  refine ⟨fun x hx => ?_, fun b hb => exists_account_update hb⟩
  by_cases hm : ids.contains x.id = true
  · exact ⟨_, mem_updateWhere.mpr (Or.inl ⟨x, hx, hm, rfl⟩), rfl, rfl⟩
  · exact ⟨x, mem_updateWhere.mpr (Or.inr ⟨hx, (Bool.not_eq_true _).mp hm⟩), rfl, rfl⟩

theorem keeps_renew {owner : Option String} {session renewed : AuthenticationSession} {s : Store}
    {w : World} {now : ℕ} (hs : StoredSession s session) (hid : renewed.id = session.id)
    (hacc : renewed.authenticationAccountId = session.authenticationAccountId)
    (hu : SessionRepository.update s.world owner renewed = some w) :
    Keeps s { s with clock := now, sessions := w.sessions } := by
  refine ⟨fun x hx => ?_, fun b hb => ⟨b, hb, rfl⟩⟩
  obtain ⟨x', hx', hxid⟩ := SessionRepository.exists_of_update hu x hx
  refine ⟨x', hx', hxid, ?_⟩
  rcases SessionRepository.mem_of_update hu hx' with rfl | ⟨hx', -⟩
  · obtain ⟨r, hr, hrid, hracc⟩ := hs
    have he : r = x := s.sessions.eq_of_key_eq hr hx (hrid.trans (hid.symm.trans hxid))
    rw [hacc, ← hracc, he]
  · rw [s.sessions.eq_of_key_eq hx' hx hxid]

theorem keeps_of_acts (hi : Inv st) (hp : st.procs[i]? = some p) (h : Acts ports st.world p a s' p') :
    Keeps st.world s' := by
  have hready := hi.proc hp
  cases h with
  | createSession _ _ hins =>
    refine ⟨fun x hx => ⟨x, ?_, rfl, rfl⟩, fun b hb => ⟨b, hb, rfl⟩⟩
    exact (KeyedTable.insert_eq_some hins).2 ▸ List.mem_cons_of_mem _ hx
  | renew _ hr hu => exact keeps_renew hready (RefreshToken.renew_eq_ok hr).1 (renew_account hr) hu
  | commitReset => exact keeps_commitReset
  | commitValidation => exact ⟨fun x hx => ⟨x, hx, rfl, rfl⟩, fun b hb => exists_account_update hb⟩
  | commitRequest h =>
    obtain ⟨_, -, rfl⟩ := commitRequest_eq_some h
    exact .of_eq rfl rfl
  | commitVerificationRequest h =>
    obtain ⟨_, -, rfl⟩ := commitVerificationRequest_eq_some h
    exact .of_eq rfl rfl
  | _ => exact .of_eq rfl rfl

theorem ready_of_acts {s : Store} (h : Acts ports s p a s' p') (hp : Ready s p) : Ready s' p' := by
  cases h with
  | findSessionAccount => exact hp
  | _ => trivial

theorem ready_of_starts {s : Store} {l : Start} (h : Starts ports s l s' p) : Ready s' p := by
  cases h with
  | login h => exact ⟨_, Login.mem_of_read h, rfl⟩
  | refreshToken h => exact ⟨_, (RefreshToken.mem_of_read h).1, rfl, rfl⟩
  | _ => trivial

theorem Inv.step {st' : State} {l : Label} (hi : Inv st) (he : evicts st l = true)
    (hs : step ports st l = some st') : Inv st' := by
  refine Interleaving.Inv.step (G := fun st l => evicts st l = true) (fun _ _ _ => trivial) ?_ ?_ hi he hs
  · intro st l s p hi _ hw
    have hw := start_starts hw
    have hkeeps : Keeps st.world s := by cases hw <;> exact .of_eq rfl rfl
    refine ⟨?_, ready_of_starts hw, fun q hq => ⟨hkeeps.ready (hi.procs q hq), trivial⟩⟩
    cases hw <;> exact hi.world
  · intro st i a p s p' hi he hp hw
    have hw := act_acts hw
    have hi : Inv st := hi
    have hkeeps := keeps_of_acts hi hp hw
    exact ⟨⟨hashSet_of_acts hi hp he hw, onlyNew_of_acts hi hp he hw⟩, ready_of_acts hw (hi.proc hp),
      fun j q _ hq => ⟨hkeeps.ready (hi.proc hq), trivial⟩⟩

end Steps

/-! ## The law -/

/-- **A password reset evicts every session of the old password.** In every run in which each login
creates its session under the hash that is stored, `RefreshToken` writes no revoked session, a reset
has selected every live session of its account when it commits and a validation writes the stored
hash: in every state, each live session of an account that has been reset was created by a login that
verified the password against the hash of the last reset. -/
theorem reset_evicts_sessions {ports : Ports} {st st' : State} {ls : List Label} (hidle : st.procs = [])
    (hlast : ∀ id, st.world.lastReset id = none)
    (he : AllSteps (step ports) (fun s l => evicts s l = true) st ls)
    (hr : run (step ports) st ls = some st') : OnlyNew st'.world := by
  have hinit : Inv st := by
    refine Interleaving.Inv.of_nil ⟨?_, ?_⟩ hidle
    · intro a _ hash h
      rw [hlast] at h; cases h
    · intro x _ _ hash h
      rw [hlast] at h; cases h
  exact (run_inv_of_allSteps (I := Inv) (fun _ _ _ hi he hs => hi.step he hs) hinit he hr).world.2

/-- A reset, and a login with the new password. -/
def resetThenLoginRun : List Label :=
  [.start (.resetPassword firstToken), .act 0 .findAccount, .act 0 (.begin 1), .act 0 .saveToken,
    .act 0 (.savePassword (hashed "new") 2), .act 0 (.evict 2), .act 0 .commit,
    .start (.login "ann@acme.io" "new"), .act 1 (.createSession "s2" secondToken none none 3)]

theorem reset_evicts_sessions_resetThenLoginRun : ∃ st,
    run (step transactionPorts) exampleState resetThenLoginRun = some st ∧
    (st.world.sessions.rows.any fun x => x.id == "s2" && !x.isRevoked) = true ∧
    OnlyNew st.world := by
  have hrun : (run (step transactionPorts) exampleState resetThenLoginRun).any (fun st =>
      st.world.sessions.rows.any fun x => x.id == "s2" && !x.isRevoked) = true := by decide
  have hevicts : checkSteps (step transactionPorts) evicts exampleState resetThenLoginRun = true := by
    decide
  obtain ⟨st, hst, hlive⟩ := (Option.any_eq_true _ _).mp hrun
  exact ⟨st, hst, hlive, reset_evicts_sessions rfl (fun _ => rfl)
    (allSteps_of_checkSteps (fun _ _ h => h) hevicts) hst⟩

/-- The login verifies the old password before the reset commits, and creates its session after. -/
def oldPasswordRun : List Label :=
  [.start (.login "ann@acme.io" "old"), .start (.resetPassword firstToken), .act 1 .findAccount,
    .act 1 (.begin 1), .act 1 .saveToken, .act 1 (.savePassword (hashed "new") 2), .act 1 (.evict 2),
    .act 1 .commit, .act 0 (.createSession "s2" secondToken none none 3)]

/-- All are over, and a live session of an account that was reset is not one of the new password. -/
def oldSession (st : State) : Bool :=
  st.procs.all Proc.isOver && st.world.sessions.rows.any fun x => !x.isRevoked &&
    (st.world.lastReset x.authenticationAccountId).isSome &&
      st.world.verified x.id != st.world.lastReset x.authenticationAccountId

/-- The session of the old password is live. -/
theorem old_password_session : ¬ ∀ (ports : Ports) (st st' : State) (ls : List Label), st.procs = [] →
    (∀ id, st.world.lastReset id = none) → run (step ports) st ls = some st' →
    (∀ p ∈ st'.procs, p.isOver = true) → OnlyNew st'.world := by
  intro h
  have hrun : (run (step transactionPorts) exampleState oldPasswordRun).any oldSession = true := by decide
  obtain ⟨st, hst, hold⟩ := (Option.any_eq_true _ _).mp hrun
  simp only [oldSession, Bool.and_eq_true, List.all_eq_true, List.any_eq_true, bne_iff_ne, ne_eq,
    Bool.not_eq_true'] at hold
  obtain ⟨hover, x, hx, ⟨hlive, hsome⟩, hne⟩ := hold
  obtain ⟨hash, hlast⟩ := Option.isSome_iff_exists.mp hsome
  have hnew := h transactionPorts exampleState st oldPasswordRun rfl (fun _ => rfl) hst hover x hx hlive
    hash hlast
  rw [hnew, hlast] at hne
  exact hne rfl

end Neltrik.Authentication.Transactions.Eviction
