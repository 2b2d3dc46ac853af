import Neltrik.Authentication.TransactionSteps
import Neltrik.Lib.Trace

/-! # Password resets are used once

`ResetPassword` checks a copy of the reset that it has read before its transaction and writes it back
whole, and `RequestPasswordReset` expires the unused rows and inserts another: two resets can both pass
their check (`reset_used_twice`), and two requests can miss each other's rows.

`reset_tokens_once` is the law that holds while the copies are fresh (`freshResets`): the stored row
has not expired when the transaction of a reset begins and is unused when it commits, and a request
has expired all usable rows of its account when it commits. -/

namespace Neltrik.Authentication.Transactions.ResetTokens

open Neltrik.Lib Neltrik.Lib.Machine Neltrik.Lib.Table Neltrik.Lib.OneTime
open Neltrik.Authorization (AuthenticationAccount PasswordHash.create)

/-- A reset whose run has committed; `late` as in `Proc`. -/
structure Accepted where
  id : String
  late : Bool
  deriving DecidableEq

/-- What the commit of a `ResetPassword` shows. -/
def acceptedReset (st : State) : Label → Option Accepted
  | .act i .commit =>
    match st.procs[i]? with
    | some (.evicted reset _ late _ _) => some ⟨reset.id, late⟩
    | _ => none
  | _ => none

/-- The condition on the runs. -/
def freshResets (st : State) : Label → Bool
  | .act i (.begin now) =>
    match st.procs[i]? with
    | some (.resettingAccount _ reset _) =>
      st.world.resets.rows.all fun r => r.id != reset.id || !r.isExpired now
    | _ => true
  | .act i .commit =>
    match st.procs[i]? with
    | some (.evicted reset _ _ _ _) => st.world.resets.rows.all fun r => r.id != reset.id || !r.isUsed
    | some (.requested account ids _ _) => st.world.resets.rows.all fun r =>
        r.authenticationAccountId != account.id || !passwordResets.isOpen r st.world.clock ||
          ids.contains r.id
    | _ => true
  | _ => true

section Fresh
variable {st : State} {i : ℕ}

theorem not_expired_of_fresh {token : String} {reset : PasswordReset} {account : AuthenticationAccount}
    {now : ℕ} (h : freshResets st (.act i (.begin now)) = true)
    (hp : st.procs[i]? = some (.resettingAccount token reset account)) :
    ∀ r ∈ st.world.resets.rows, r.id = reset.id → now < r.expiresAt := by
  intro r hr hid
  simp only [freshResets, hp, List.all_eq_true, Bool.or_eq_true, bne_iff_ne, ne_eq] at h
  have := (h r hr).resolve_left fun hne => hne hid
  simpa [PasswordReset.isExpired, ExpirationDate.isExpired] using this

theorem unused_of_fresh {reset : PasswordReset} {account : AuthenticationAccount} {late : Bool}
    {ids : List String} {at' : ℕ} (h : freshResets st (.act i .commit) = true)
    (hp : st.procs[i]? = some (.evicted reset account late ids at')) :
    ¬ UsedAt passwordResets st.world.resets.rows reset.id := by
  rintro ⟨r, hr, hid, hused⟩
  simp only [freshResets, hp, List.all_eq_true, Bool.or_eq_true, bne_iff_ne, ne_eq] at h
  have hnot := (h r hr).resolve_left fun hne => hne hid
  rw [show r.isUsed = true from hused] at hnot
  cases hnot

theorem covers_of_fresh {account : AuthenticationAccount} {ids : List String} {at' : ℕ}
    {reset : PasswordReset} (h : freshResets st (.act i .commit) = true)
    (hp : st.procs[i]? = some (.requested account ids at' reset)) :
    Covers passwordResets st.world.resets.rows account.id ids st.world.clock := by
  intro r hr howner hopen
  simp only [freshResets, hp, List.all_eq_true, Bool.or_eq_true, bne_iff_ne, ne_eq,
    Bool.not_eq_true', List.contains_iff_mem] at h
  rcases h r hr with (hne | hclosed) | hm
  · exact absurd howner hne
  · rw [hopen] at hclosed; cases hclosed
  · exact hm

end Fresh

/-! ## The invariant -/

/-- The reset a process is to write: used, stored, and not a superseded one that is still unused. -/
structure Redeems (rows : List PasswordReset) (reset : PasswordReset) (late : Bool) : Prop where
  used : reset.isUsed = true
  late : late = true → UsedAt passwordResets rows reset.id

/-- What a process needs of the rows. -/
def Ready (s : Store) : Proc → Prop
  | .expiring _ _ at' => at' ≤ s.clock
  | .requested account _ at' reset => at' ≤ s.clock ∧ reset.authenticationAccountId = account.id
  | .usedReset reset _ late => Redeems s.resets.rows reset late
  | .savedReset reset _ late | .savedPassword reset _ late | .evicted reset _ late _ _ =>
    Redeems s.resets.rows reset late ∧ ∃ r ∈ s.resets.rows, r.id = reset.id
  | _ => True

/-- The resets are orderly and the processes ready. -/
abbrev Inv : State → Prop := Interleaving.Inv
  (fun s => Orderly passwordResets s.resets.rows s.clock s.supersededResets) Ready (fun _ _ => True)

theorem Redeems.advance {rows rows' : List PasswordReset} {reset : PasswordReset} {late : Bool}
    (h : Redeems rows reset late) (ha : Advances passwordResets rows rows') : Redeems rows' reset late :=
  ⟨h.used, fun hl => (h.late hl).advance ha⟩

/-- Time and the writes of others leave a process ready. -/
theorem Ready.advance {s s' : Store} {p : Proc} (h : Ready s p)
    (ha : Advances passwordResets s.resets.rows s'.resets.rows) (hc : s.clock ≤ s'.clock) : Ready s' p := by
  have hrow : ∀ {id}, (∃ r ∈ s.resets.rows, r.id = id) → ∃ r ∈ s'.resets.rows, r.id = id := by
    rintro _ ⟨r, hr, rfl⟩
    obtain ⟨r', hr', hid, -⟩ := ha r hr
    exact ⟨r', hr', hid⟩
  cases p with
  | expiring account ids at' => exact le_trans h hc
  | requested account ids at' reset => exact ⟨le_trans h.1 hc, h.2⟩
  | usedReset => exact Redeems.advance h ha
  | savedReset | savedPassword | evicted => exact ⟨h.1.advance ha, hrow h.2⟩
  | _ => trivial

section Steps
variable {ports : Ports} {st : State} {s' : Store} {p p' : Proc} {i : ℕ} {a : Action}

/-- What an action does to the resets and the clock. -/
theorem acts_resets {s : Store} (h : Acts ports s p a s' p') :
    (s'.resets = s.resets ∧ s'.supersededResets = s.supersededResets ∧ s.clock ≤ s'.clock) ∨
    (∃ account ids at' reset, p = .requested account ids at' reset ∧ a = .commit ∧
      commitRequest s account ids at' reset = some s') ∨
    ∃ reset account late ids at', p = .evicted reset account late ids at' ∧ a = .commit ∧
      s' = commitReset s reset account ids at' := by
  cases h with
  | commitRequest h => exact Or.inr (Or.inl ⟨_, _, _, _, rfl, rfl, h⟩)
  | commitReset => exact Or.inr (Or.inr ⟨_, _, _, _, _, rfl, rfl, rfl⟩)
  | commitVerificationRequest h =>
    obtain ⟨_, -, rfl⟩ := commitVerificationRequest_eq_some h
    exact Or.inl ⟨rfl, rfl, le_refl _⟩
  | expireResets hc | expireVerifications hc | issueReset hc | issueVerification hc | beginReset hc
  | beginValidation hc | savePassword hc | saveVerified hc | evict hc | createSession hc
  | renew hc => exact Or.inl ⟨rfl, rfl, hc⟩
  | _ => exact Or.inl ⟨rfl, rfl, le_refl _⟩

/-- **The rows after an action.** -/
theorem orderly_of_acts (hi : Inv st) (hp : st.procs[i]? = some p)
    (hf : freshResets st (.act i a) = true) (h : Acts ports st.world p a s' p') :
    Orderly passwordResets s'.resets.rows s'.clock s'.supersededResets ∧
      Advances passwordResets st.world.resets.rows s'.resets.rows ∧ st.world.clock ≤ s'.clock := by
  rcases acts_resets h with ⟨hr, hs, hc⟩ | ⟨account, ids, at', reset, rfl, rfl, hcom⟩ |
    ⟨reset, account, late, ids, at', rfl, rfl, rfl⟩
  · rw [hr, hs]
    exact ⟨hi.world.later hc, Advances.refl _, hc⟩
  · obtain ⟨hat, howner⟩ : at' ≤ st.world.clock ∧ reset.authenticationAccountId = account.id := hi.proc hp
    obtain ⟨resets, hrows, rfl⟩ := commitRequest_eq_some hcom
    have hcov := covers_of_fresh hf hp
    rw [hrows]
    rw [← howner] at hcov
    refine ⟨hi.world.issue hcov hat fun j hj => ?_, advances_issue reset, le_refl _⟩
    · rcases List.mem_append.mp hj with hj | hj
      · obtain ⟨r, hr, rfl⟩ := List.mem_map.mp hj
        obtain ⟨hr, ho⟩ := List.mem_filter.mp hr
        exact Or.inr ⟨r, hr, (beq_iff_eq.mp ho).trans howner.symm, rfl⟩
      · exact Or.inl hj
  · obtain ⟨⟨hused, -⟩, -⟩ := hi.proc hp
    rw [rows_commitReset]
    exact ⟨hi.world.redeem hused, advances_redeem hused, le_refl _⟩

/-- What an action leaves its process. -/
theorem ready_of_acts (hi : Inv st) (hp : st.procs[i]? = some p)
    (hf : freshResets st (.act i a) = true) (h : Acts ports st.world p a s' p') : Ready s' p' := by
  have hready := hi.proc hp
  cases h with
  | expireResets hc => exact le_refl _
  | issueReset hc hr => exact ⟨le_trans hready hc, (PasswordReset.create_eq_ok hr).2.1⟩
  | beginReset hc hu =>
    obtain ⟨-, -, -, rfl⟩ := PasswordReset.use_eq_ok.mp hu
    refine ⟨rfl, fun hlate => ?_⟩
    have hclosed := (hi.world.closed _ (List.contains_iff_mem.mp hlate)).later hc
    exact hclosed.usedAt fun r hr hid => not_expired_of_fresh hf hp r hr hid
  | saveReset h =>
    obtain ⟨r, hr, hid⟩ := List.any_eq_true.mp h
    exact ⟨hready, r, hr, beq_iff_eq.mp hid⟩
  | savePassword hc => exact hready
  | evict hc => exact hready
  | _ => trivial

theorem Inv.step {st' : State} {l : Label} (hi : Inv st) (hf : freshResets st l = true)
    (hs : step ports st l = some st') : Inv st' := by
  refine Interleaving.Inv.step (G := fun st l => freshResets st l = true) (fun _ _ _ => trivial)
    ?_ ?_ hi hf hs
  · intro st l s p hi _ hw
    have hw := start_starts hw
    have hsame : s.resets = st.world.resets ∧ s.supersededResets = st.world.supersededResets ∧
        st.world.clock ≤ s.clock := by
      cases hw with
      | requestEmailVerification _ _ hc | refreshToken _ hc => exact ⟨rfl, rfl, hc⟩
      | _ => exact ⟨rfl, rfl, le_refl _⟩
    obtain ⟨hr, hsup, hc⟩ := hsame
    refine ⟨?_, by cases hw <;> trivial, fun q hq => ⟨(hi.procs q hq).advance ?_ hc, trivial⟩⟩
    · rw [hr, hsup]
      exact hi.world.later hc
    · rw [hr]
      exact Advances.refl _
  · intro st i a p s p' hi hf hp hw
    have hw := act_acts hw
    obtain ⟨ho, ha, hc⟩ := orderly_of_acts hi hp hf hw
    exact ⟨ho, ready_of_acts hi hp hf hw, fun j q _ hq => ⟨(hi.proc hq).advance ha hc, trivial⟩⟩

end Steps

/-! ## The law -/

theorem acceptedReset_eq_some {st : State} {l : Label} {b : Accepted} (h : acceptedReset st l = some b) :
    ∃ i reset account ids at', l = .act i .commit ∧
      st.procs[i]? = some (.evicted reset account b.late ids at') ∧ b.id = reset.id := by
  unfold acceptedReset at h
  split at h
  · split at h
    · cases h
      exact ⟨_, _, _, _, _, rfl, ‹_›, rfl⟩
    · cases h
  · cases h

section Law
variable {ports : Ports} {st st' : State} {l : Label}

theorem advances_of_step (hi : Inv st) (hf : freshResets st l = true) (hs : step ports st l = some st') :
    Advances passwordResets st.world.resets.rows st'.world.resets.rows := by
  cases l with
  | start s =>
    obtain ⟨s', p, hw, rfl⟩ := Interleaving.step_start.mp hs
    have hsame : s'.resets = st.world.resets := by cases start_starts hw <;> rfl
    show Advances _ _ s'.resets.rows
    rw [hsame]
    exact Advances.refl _
  | act i a =>
    obtain ⟨p, s', p', hp, hw, rfl⟩ := Interleaving.step_act.mp hs
    exact (orderly_of_acts hi hp hf (act_acts hw)).2.1

/-- A run that commits uses its reset, which has not been used before. -/
theorem accepts_of_step {b : Accepted} (hi : Inv st) (hf : freshResets st l = true)
    (hs : step ports st l = some st') (hb : acceptedReset st l = some b) :
    ¬ UsedAt passwordResets st.world.resets.rows b.id ∧
      UsedAt passwordResets st'.world.resets.rows b.id ∧ b.late = false := by
  obtain ⟨i, reset, account, ids, at', rfl, hp, hid⟩ := acceptedReset_eq_some hb
  obtain ⟨p, s', p', hp', hw, rfl⟩ := Interleaving.step_act.mp hs
  rw [hp] at hp'
  cases hp'
  obtain ⟨⟨hused, hlate⟩, r, hr, hrid⟩ := hi.proc hp
  have hnot := unused_of_fresh hf hp
  rw [hid]
  refine ⟨hnot, ?_, ?_⟩
  · cases act_acts hw
    exact usedAt_redeem hused hr hrid
  · by_contra hl
    exact hnot (hlate ((Bool.not_eq_false _).mp hl))

/-- A system at rest with at most one usable reset an account. -/
structure Rested (st : State) : Prop where
  idle : st.procs = []
  oneOpen : OneOpen passwordResets st.world.resets.rows st.world.clock
  superseded : st.world.supersededResets = []

theorem Rested.inv (h : Rested st) : Inv st := by
  refine Interleaving.Inv.of_nil ⟨h.oneOpen, ?_⟩ h.idle
  rw [h.superseded]
  exact fun i hi => absurd hi List.not_mem_nil

/-- **Password resets are single use and superseded by newer ones.** In every run in which the stored
row is not expired when the transaction of a `ResetPassword` begins and unused when it commits, and a
request has expired all usable rows of its account when it commits: each reset is accepted by at most
one run; none by a run whose transaction began after a newer request had committed; and in every state
an account has at most one usable reset. -/
theorem reset_tokens_once {ls : List Label} (h : Rested st)
    (hf : AllSteps (step ports) (fun s l => freshResets s l = true) st ls)
    (hr : run (step ports) st ls = some st') :
    (∀ id, (trace (step ports) acceptedReset st ls).countP (·.id == id) ≤ 1) ∧
    (∀ b ∈ trace (step ports) acceptedReset st ls, b.late = false) ∧
    OneOpen passwordResets st'.world.resets.rows st'.world.clock := by
  refine ⟨fun id => ?_, ?_, ?_⟩
  · refine trace_once_of_key (I := Inv)
      (C := fun id s => UsedAt passwordResets s.world.resets.rows id) Accepted.id
      (fun _ _ _ hi hf hs => hi.step hf hs) ?_ ?_ h.inv hf hr id
    · exact fun _ s l s' hi hf hs hu => hu.advance (advances_of_step hi hf hs)
    · intro s l s' b hi hf hs hb
      obtain ⟨hnot, hused, -⟩ := accepts_of_step hi hf hs hb
      exact ⟨hnot, hused⟩
  · exact trace_forall (I := Inv) (fun _ _ _ hi hf hs => hi.step hf hs)
      (fun _ _ _ _ hi hf hs hb => (accepts_of_step hi hf hs hb).2.2) h.inv hf hr
  · exact (run_inv_of_allSteps (I := Inv) (fun _ _ _ hi hf hs => hi.step hf hs) h.inv hf hr).world.oneOpen

end Law

/-! ### Two runs with one token -/

theorem rested_exampleState : Rested exampleState := by
  refine ⟨rfl, ?_, rfl⟩
  intro r hr r' hr' _ _ _
  rw [List.mem_singleton.mp hr, List.mem_singleton.mp hr']

/-- A request, and the reset it is for. -/
def requestResetRun : List Label :=
  [.start (.requestPasswordReset "ann@acme.io"), .act 0 (.expire 1), .act 0 (.issue "r2" secondToken 1),
    .act 0 .commit, .start (.resetPassword secondToken), .act 1 .findAccount, .act 1 (.begin 2),
    .act 1 .saveToken, .act 1 (.savePassword (hashed "new") 3), .act 1 (.evict 4), .act 1 .commit]

theorem reset_tokens_once_requestResetRun : ∃ st,
    run (step transactionPorts) exampleState requestResetRun = some st ∧
    (trace (step transactionPorts) acceptedReset exampleState requestResetRun) = [⟨"r2", false⟩] ∧
    OneOpen passwordResets st.world.resets.rows st.world.clock := by
  have hrun : (run (step transactionPorts) exampleState requestResetRun).isSome = true := by decide
  have hfresh : checkSteps (step transactionPorts) freshResets exampleState requestResetRun = true := by
    decide
  have htrace : trace (step transactionPorts) acceptedReset exampleState requestResetRun =
      [⟨"r2", false⟩] := by decide
  obtain ⟨st, hst⟩ := Option.isSome_iff_exists.mp hrun
  exact ⟨st, hst, htrace, (reset_tokens_once rested_exampleState
    (allSteps_of_checkSteps (fun _ _ h => h) hfresh) hst).2.2⟩

/-- Two runs read the same reset; the second one waits for the row and writes it again. -/
def twoResetsRun : List Label :=
  [.start (.resetPassword firstToken), .start (.resetPassword firstToken), .act 0 .findAccount,
    .act 1 .findAccount, .act 0 (.begin 1), .act 1 (.begin 1), .act 0 .saveToken,
    .act 0 (.savePassword (hashed "new") 2), .act 0 (.evict 2), .act 0 .commit, .act 1 .saveToken,
    .act 1 (.savePassword (hashed "newer") 3), .act 1 (.evict 3), .act 1 .commit]

/-- Both succeed. -/
theorem reset_used_twice : ¬ ∀ (ports : Ports) (st st' : State) (ls : List Label), Rested st →
    run (step ports) st ls = some st' →
    (∀ id, (trace (step ports) acceptedReset st ls).countP (·.id == id) ≤ 1) ∧
    (∀ b ∈ trace (step ports) acceptedReset st ls, b.late = false) ∧
    ((∀ p ∈ st'.procs, p.isOver = true) →
      OneOpen passwordResets st'.world.resets.rows st'.world.clock) := by
  intro h
  have hrun : (run (step transactionPorts) exampleState twoResetsRun).isSome = true := by decide
  have htrace : (trace (step transactionPorts) acceptedReset exampleState twoResetsRun).countP
      (·.id == "r1") = 2 := by decide
  obtain ⟨st, hst⟩ := Option.isSome_iff_exists.mp hrun
  have hle := (h transactionPorts exampleState st twoResetsRun rested_exampleState hst).1 "r1"
  rw [htrace] at hle
  omega

end Neltrik.Authentication.Transactions.ResetTokens
