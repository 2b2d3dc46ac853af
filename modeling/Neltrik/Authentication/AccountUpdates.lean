import Neltrik.Authentication.TransactionSteps

/-! # Writes of the whole account

`ValidateEmailVerification` changes `emailVerified` and `ResetPassword` changes `passwordHash`, and both
write every column of the row from a copy they have read before their transaction. A validation that
read the account before a reset committed puts the old hash back (`reset_undone`).

`account_updates_kept` is the law that holds while each of them, when it commits, writes the other's
column as it is stored (`keepsColumns`). -/

namespace Neltrik.Authentication.Transactions.AccountUpdates

open Neltrik.Lib Neltrik.Lib.Machine Neltrik.Lib.Table
open Neltrik.Authorization (AuthenticationAccount PasswordHash.create)

/-- The condition on the runs. -/
def keepsColumns (st : State) : Label → Bool
  | .act i .commit =>
    match st.procs[i]? with
    | some (.savedVerified _ account _) =>
      st.world.accounts.rows.all fun a => a.id != account.id || a.passwordHash == account.passwordHash
    | some (.evicted _ account _ _ _) =>
      st.world.accounts.rows.all fun a => a.id != account.id || !a.emailVerified || account.emailVerified
    | _ => true
  | _ => true

/-- The stored hash of each account is that of the last reset that committed, or the first one. -/
def HashOfLast (s₀ s : Store) : Prop :=
  ∀ a ∈ s.accounts.rows, ∃ a₀ ∈ s₀.accounts.rows, a₀.id = a.id ∧
    a.passwordHash = (s.lastReset a.id).orElse fun _ => a₀.passwordHash

/-- A verified email stays verified. -/
def VerifiedStays (s s' : Store) : Prop :=
  ∀ a ∈ s.accounts.rows, a.emailVerified = true → ∀ a' ∈ s'.accounts.rows, a'.id = a.id →
    a'.emailVerified = true

/-! ## The invariant -/

/-- What a process has changed in its copy. -/
def Changed : Proc → Prop
  | .savedVerified _ account _ => account.emailVerified = true
  | .savedPassword _ account _ | .evicted _ account _ _ _ => account.passwordHash.isSome = true
  | _ => True

abbrev Inv (s₀ : Store) : State → Prop :=
  Interleaving.Inv (HashOfLast s₀) (fun _ p => Changed p) (fun _ _ => True)

section Steps
variable {ports : Ports} {st : State} {s₀ s' : Store} {p p' : Proc} {i : ℕ} {a : Action}

/-- What an action does to the accounts. -/
theorem acts_accounts {s : Store} (h : Acts ports s p a s' p') :
    (s'.accounts = s.accounts ∧ s'.lastReset = s.lastReset) ∨
    (∃ verification account late, p = .savedVerified verification account late ∧ a = .commit ∧
      s' = commitValidation s verification account) ∨
    ∃ reset account late ids at', p = .evicted reset account late ids at' ∧ a = .commit ∧
      s' = commitReset s reset account ids at' := by
  cases h with
  | commitValidation => exact Or.inr (Or.inl ⟨_, _, _, rfl, rfl, rfl⟩)
  | commitReset => exact Or.inr (Or.inr ⟨_, _, _, _, _, rfl, rfl, rfl⟩)
  | commitRequest h =>
    obtain ⟨_, -, rfl⟩ := commitRequest_eq_some h
    exact Or.inl ⟨rfl, rfl⟩
  | commitVerificationRequest h =>
    obtain ⟨_, -, rfl⟩ := commitVerificationRequest_eq_some h
    exact Or.inl ⟨rfl, rfl⟩
  | _ => exact Or.inl ⟨rfl, rfl⟩

theorem changed_of_acts {s : Store} (h : Acts ports s p a s' p') (hp : Changed p) : Changed p' := by
  cases h with
  | saveVerified _ hv =>
    obtain ⟨-, rfl⟩ := verifyEmail_eq_ok hv
    exact rfl
  | savePassword => exact rfl
  | evict => exact hp
  | _ => trivial

theorem hash_of_keeps {verification : EmailVerification} {account : AuthenticationAccount} {late : Bool}
    (h : keepsColumns st (.act i .commit) = true)
    (hp : st.procs[i]? = some (.savedVerified verification account late)) :
    ∀ b ∈ st.world.accounts.rows, b.id = account.id → b.passwordHash = account.passwordHash := by
  intro b hb hid
  simp only [keepsColumns, hp, List.all_eq_true, Bool.or_eq_true, bne_iff_ne, ne_eq, beq_iff_eq] at h
  exact (h b hb).resolve_left fun hne => hne hid

theorem verified_of_keeps {reset : PasswordReset} {account : AuthenticationAccount} {late : Bool}
    {ids : List String} {at' : ℕ} (h : keepsColumns st (.act i .commit) = true)
    (hp : st.procs[i]? = some (.evicted reset account late ids at')) :
    ∀ b ∈ st.world.accounts.rows, b.id = account.id → b.emailVerified = true →
      account.emailVerified = true := by
  intro b hb hid hv
  simp only [keepsColumns, hp, List.all_eq_true, Bool.or_eq_true, bne_iff_ne, ne_eq,
    Bool.not_eq_true'] at h
  rcases h b hb with (hne | hnot) | hok
  · exact absurd hid hne
  · rw [hv] at hnot; cases hnot
  · exact hok

/-- A written account row, and the others. -/
theorem mem_accounts_update {rows : List AuthenticationAccount} {account b : AuthenticationAccount}
    (hb : b ∈ updateWhere (fun a => a.id == account.id) (fun _ => account) rows) :
    (b = account ∧ ∃ r ∈ rows, r.id = account.id) ∨ (b ∈ rows ∧ b.id ≠ account.id) := by
  rcases mem_updateWhere.mp hb with ⟨r, hr, hid, rfl⟩ | ⟨hb, hne⟩
  · exact Or.inl ⟨rfl, r, hr, beq_iff_eq.mp hid⟩
  · exact Or.inr ⟨hb, beq_eq_false_iff_ne.mp hne⟩

/-- **The hashes after an action.** -/
theorem hashes_of_acts (hi : Inv s₀ st) (hp : st.procs[i]? = some p)
    (hk : keepsColumns st (.act i a) = true) (h : Acts ports st.world p a s' p') :
    HashOfLast s₀ s' := by
  rcases acts_accounts h with ⟨ha, hl⟩ | ⟨verification, account, late, rfl, rfl, rfl⟩ |
    ⟨reset, account, late, ids, at', rfl, rfl, rfl⟩
  · unfold HashOfLast
    rw [ha, hl]
    exact hi.world
  · intro b hb
    rcases mem_accounts_update hb with ⟨rfl, r, hr, hid⟩ | ⟨hb, -⟩
    · obtain ⟨a₀, h₀, hid₀, hhash⟩ := hi.world r hr
      refine ⟨a₀, h₀, hid₀.trans hid, ?_⟩
      rw [← hash_of_keeps hk hp r hr hid, hhash, hid]
      rfl
    · exact hi.world b hb
  · have hsome : account.passwordHash.isSome = true := hi.proc hp
    intro b hb
    rcases mem_accounts_update hb with ⟨rfl, r, hr, hid⟩ | ⟨hb, hne⟩
    · obtain ⟨a₀, h₀, hid₀, -⟩ := hi.world r hr
      obtain ⟨hash, hhash⟩ := Option.isSome_iff_exists.mp hsome
      refine ⟨a₀, h₀, hid₀.trans hid, ?_⟩
      show _ = (Function.update st.world.lastReset b.id b.passwordHash b.id).orElse _
      rw [Function.update_self, hhash]
      rfl
    · obtain ⟨a₀, h₀, hid₀, hhash⟩ := hi.world b hb
      refine ⟨a₀, h₀, hid₀, ?_⟩
      show _ = (Function.update st.world.lastReset account.id account.passwordHash b.id).orElse _
      rw [Function.update_of_ne hne]
      exact hhash

/-- **No action takes a verification back.** -/
theorem verified_of_acts (hi : Inv s₀ st) (hp : st.procs[i]? = some p)
    (hk : keepsColumns st (.act i a) = true) (h : Acts ports st.world p a s' p') :
    VerifiedStays st.world s' := by
  intro b hb hv b' hb' hid
  rcases acts_accounts h with ⟨ha, -⟩ | ⟨verification, account, late, rfl, rfl, rfl⟩ |
    ⟨reset, account, late, ids, at', rfl, rfl, rfl⟩
  · rw [ha] at hb'
    rw [st.world.accounts.eq_of_key_eq hb' hb hid]
    exact hv
  · rcases mem_accounts_update hb' with ⟨rfl, -⟩ | ⟨hb', -⟩
    · exact hi.proc hp
    · rw [st.world.accounts.eq_of_key_eq hb' hb hid]
      exact hv
  · rcases mem_accounts_update hb' with ⟨rfl, -⟩ | ⟨hb', -⟩
    · exact verified_of_keeps hk hp b hb hid.symm hv
    · rw [st.world.accounts.eq_of_key_eq hb' hb hid]
      exact hv

theorem Inv.step {st' : State} {l : Label} (hi : Inv s₀ st) (hk : keepsColumns st l = true)
    (hs : step ports st l = some st') : Inv s₀ st' := by
  refine Interleaving.Inv.step (G := fun st l => keepsColumns st l = true) (fun _ _ _ => trivial)
    ?_ ?_ hi hk hs
  · intro st l s p hi _ hw
    have hw := start_starts hw
    refine ⟨?_, by cases hw <;> trivial, fun q hq => ⟨hi.procs q hq, trivial⟩⟩
    cases hw <;> exact hi.world
  · intro st i a p s p' hi hk hp hw
    have hw := act_acts hw
    exact ⟨hashes_of_acts hi hp hk hw, changed_of_acts hw (hi.proc hp),
      fun j q _ hq => ⟨hi.proc hq, trivial⟩⟩

theorem verifiedStays_of_step {st' : State} {l : Label} (hi : Inv s₀ st)
    (hk : keepsColumns st l = true) (hs : step ports st l = some st') : VerifiedStays st.world st'.world := by
  cases l with
  | start s =>
    obtain ⟨s', p, hw, rfl⟩ := Interleaving.step_start.mp hs
    have hsame : s'.accounts = st.world.accounts := by cases start_starts hw <;> rfl
    intro a ha hv a' ha' hid
    have ha'' : a' ∈ st.world.accounts.rows := hsame ▸ ha'
    rw [st.world.accounts.eq_of_key_eq ha'' ha hid]
    exact hv
  | act i a =>
    obtain ⟨p, s', p', hp, hw, rfl⟩ := Interleaving.step_act.mp hs
    exact verified_of_acts hi hp hk (act_acts hw)

end Steps

/-! ## The law -/

theorem inv_of_idle {st : State} (hidle : st.procs = []) (hlast : ∀ id, st.world.lastReset id = none) :
    Inv st.world st := by
  refine Interleaving.Inv.of_nil (fun a ha => ⟨a, ha, rfl, ?_⟩) hidle
  rw [hlast]
  rfl

/-- **No update of the account is lost.** In every run in which a validation writes the password hash
that is stored when it commits, and a reset does not take a stored verification back, a verified email
stays verified from step to step, and the stored hash of each account is that of the last reset that
committed, or the initial one. -/
theorem account_updates_kept {ports : Ports} {st st' : State} {ls : List Label} (hidle : st.procs = [])
    (hlast : ∀ id, st.world.lastReset id = none)
    (hk : AllSteps (step ports) (fun s l => keepsColumns s l = true) st ls)
    (hr : run (step ports) st ls = some st') :
    AllSteps (step ports) (fun s l => ∀ s', step ports s l = some s' →
      VerifiedStays s.world s'.world) st ls ∧
      HashOfLast st.world st'.world := by
  have hinit := inv_of_idle hidle hlast
  have hstep : ∀ s l s', Inv st.world s → keepsColumns s l = true → step ports s l = some s' →
      Inv st.world s' := fun _ _ _ hi hk hs => hi.step hk hs
  refine ⟨?_, (run_inv_of_allSteps hstep hinit hk hr).world⟩
  exact ((allSteps_of_inv hstep hinit hk).and hk).mono fun s l h s' hs =>
    verifiedStays_of_step h.1 h.2 hs

/-! ### A reset that is undone -/

/-- A reset and then a validation. -/
def resetThenValidateRun : List Label :=
  [.start (.resetPassword firstToken), .act 0 .findAccount, .act 0 (.begin 1), .act 0 .saveToken,
    .act 0 (.savePassword (hashed "new") 2), .act 0 (.evict 2), .act 0 .commit,
    .start (.validateEmailVerification firstToken), .act 1 .findAccount, .act 1 (.begin 3),
    .act 1 .saveToken, .act 1 (.saveVerified 3), .act 1 .commit]

theorem account_updates_kept_resetThenValidateRun : ∃ st,
    run (step transactionPorts) exampleState resetThenValidateRun = some st ∧
    HashOfLast exampleState.world st.world := by
  have hrun : (run (step transactionPorts) exampleState resetThenValidateRun).isSome = true := by decide
  have hkeeps : checkSteps (step transactionPorts) keepsColumns exampleState resetThenValidateRun = true := by
    decide
  obtain ⟨st, hst⟩ := Option.isSome_iff_exists.mp hrun
  exact ⟨st, hst, (account_updates_kept rfl (fun _ => rfl)
    (allSteps_of_checkSteps (fun _ _ h => h) hkeeps) hst).2⟩

/-- The validation reads the account before the reset commits. -/
def staleValidationRun : List Label :=
  [.start (.validateEmailVerification firstToken), .act 0 .findAccount,
    .start (.resetPassword firstToken), .act 1 .findAccount, .act 1 (.begin 1), .act 1 .saveToken,
    .act 1 (.savePassword (hashed "new") 2), .act 1 (.evict 2), .act 1 .commit, .act 0 (.begin 3),
    .act 0 .saveToken, .act 0 (.saveVerified 3), .act 0 .commit]

/-- All are over, and an account with a committed reset does not have its hash. -/
def hashLost (st : State) : Bool :=
  st.procs.all Proc.isOver && st.world.accounts.rows.any fun a =>
    (st.world.lastReset a.id).isSome && a.passwordHash != st.world.lastReset a.id

/-- The old password is valid again. -/
theorem reset_undone : ¬ ∀ (ports : Ports) (st st' : State) (ls : List Label), st.procs = [] →
    (∀ id, st.world.lastReset id = none) → run (step ports) st ls = some st' →
    AllSteps (step ports) (fun s l => ∀ s', step ports s l = some s' →
      VerifiedStays s.world s'.world) st ls ∧
      ((∀ p ∈ st'.procs, p.isOver = true) → HashOfLast st.world st'.world) := by
  intro h
  have hrun : (run (step transactionPorts) exampleState staleValidationRun).any hashLost = true := by
    decide
  obtain ⟨st, hst, hlost⟩ := (Option.any_eq_true _ _).mp hrun
  simp only [hashLost, Bool.and_eq_true, List.all_eq_true, List.any_eq_true, bne_iff_ne, ne_eq] at hlost
  obtain ⟨hover, a, ha, hsome, hne⟩ := hlost
  obtain ⟨a₀, -, -, hhash⟩ := (h transactionPorts exampleState st staleValidationRun rfl (fun _ => rfl)
    hst).2 hover a ha
  obtain ⟨hash, hlast⟩ := Option.isSome_iff_exists.mp hsome
  rw [hlast] at hhash hne
  exact hne hhash

end Neltrik.Authentication.Transactions.AccountUpdates
