import Neltrik.Authentication.ResetTokens

/-! # One live email verification an account

`RequestEmailVerification` expires the unverified rows and inserts another, with no unique index
behind it: two requests can miss each other's rows (`two_live_verifications`). A validation writes back
the row it has read, so two of them can both succeed.

`verifications_once` is the law that holds while a request has expired all live rows of its account
when it commits, and the stored row is unverified when a validation commits (`freshVerifications`). -/

namespace Neltrik.Authentication.Transactions.VerificationTokens

open Neltrik.Lib Neltrik.Lib.Machine Neltrik.Lib.Table Neltrik.Lib.OneTime
open Neltrik.Authentication.Transactions.ResetTokens (Accepted)
open Neltrik.Authorization (AuthenticationAccount)

/-- What the commit of a `ValidateEmailVerification` shows. -/
def acceptedVerification (st : State) : Label → Option Accepted
  | .act i .commit =>
    match st.procs[i]? with
    | some (.savedVerified verification _ late) => some ⟨verification.id, late⟩
    | _ => none
  | _ => none

/-- The condition on the runs. -/
def freshVerifications (st : State) : Label → Bool
  | .act i .commit =>
    match st.procs[i]? with
    | some (.savedVerified verification _ _) =>
      st.world.verifications.rows.all fun v => v.id != verification.id || !v.isCompleted
    | some (.requestedVerification account ids _ _) => st.world.verifications.rows.all fun v =>
        v.authenticationAccountId != account.id || !emailVerifications.isOpen v st.world.clock ||
          ids.contains v.id
    | _ => true
  | _ => true

section Fresh
variable {st : State} {i : ℕ}

theorem unverified_of_fresh {verification : EmailVerification} {account : AuthenticationAccount}
    {late : Bool} (h : freshVerifications st (.act i .commit) = true)
    (hp : st.procs[i]? = some (.savedVerified verification account late)) :
    ¬ UsedAt emailVerifications st.world.verifications.rows verification.id := by
  rintro ⟨v, hv, hid, hused⟩
  simp only [freshVerifications, hp, List.all_eq_true, Bool.or_eq_true, bne_iff_ne, ne_eq] at h
  have hnot := (h v hv).resolve_left fun hne => hne hid
  rw [show v.isCompleted = true from hused] at hnot
  cases hnot

theorem covers_of_fresh {account : AuthenticationAccount} {ids : List String} {at' : ℕ}
    {verification : EmailVerification} (h : freshVerifications st (.act i .commit) = true)
    (hp : st.procs[i]? = some (.requestedVerification account ids at' verification)) :
    Covers emailVerifications st.world.verifications.rows account.id ids st.world.clock := by
  intro v hv howner hopen
  simp only [freshVerifications, hp, List.all_eq_true, Bool.or_eq_true, bne_iff_ne, ne_eq,
    Bool.not_eq_true', List.contains_iff_mem] at h
  rcases h v hv with (hne | hclosed) | hm
  · exact absurd howner hne
  · rw [hopen] at hclosed; cases hclosed
  · exact hm

end Fresh

/-! ## The invariant -/

/-- A copy that was read after it had been superseded is dead. -/
def Dead (s : Store) (verification : EmailVerification) (late : Bool) : Prop :=
  late = true → emailVerifications.isOpen verification s.clock = false

/-- What a process needs of the rows. -/
def Ready (s : Store) : Proc → Prop
  | .expiringVerifications _ _ _ at' => at' ≤ s.clock
  | .requestedVerification account _ at' verification =>
    at' ≤ s.clock ∧ verification.authenticationAccountId = account.id
  | .validating _ verification late | .validatingAccount _ verification _ late => Dead s verification late
  | .completed verification _ late => verification.isCompleted = true ∧ late = false
  | .savedVerification verification _ late | .savedVerified verification _ late =>
    (verification.isCompleted = true ∧ late = false) ∧
      ∃ v ∈ s.verifications.rows, v.id = verification.id
  | _ => True

/-- The verifications are orderly and the processes ready. -/
abbrev Inv : State → Prop := Interleaving.Inv
  (fun s => Orderly emailVerifications s.verifications.rows s.clock s.supersededVerifications) Ready
  (fun _ _ => True)

theorem Dead.later {s s' : Store} {verification : EmailVerification} {late : Bool}
    (h : Dead s verification late) (hc : s.clock ≤ s'.clock) : Dead s' verification late := by
  intro hl
  by_contra ho
  have := h hl
  rw [isOpen_of_le hc ((Bool.not_eq_false _).mp ho)] at this
  cases this

/-- Time and the writes of others leave a process ready. -/
theorem Ready.advance {s s' : Store} {p : Proc} (h : Ready s p)
    (ha : Advances emailVerifications s.verifications.rows s'.verifications.rows)
    (hc : s.clock ≤ s'.clock) : Ready s' p := by
  have hrow : ∀ {id}, (∃ v ∈ s.verifications.rows, v.id = id) →
      ∃ v ∈ s'.verifications.rows, v.id = id := by
    rintro _ ⟨v, hv, rfl⟩
    obtain ⟨v', hv', hid, -⟩ := ha v hv
    exact ⟨v', hv', hid⟩
  cases p with
  | expiringVerifications account createdAt ids at' => exact le_trans h hc
  | requestedVerification account ids at' verification => exact ⟨le_trans h.1 hc, h.2⟩
  | validating | validatingAccount => exact Dead.later h hc
  | completed => exact h
  | savedVerification | savedVerified => exact ⟨h.1, hrow h.2⟩
  | _ => trivial

section Steps
variable {ports : Ports} {st : State} {s' : Store} {p p' : Proc} {i : ℕ} {a : Action}

/-- What an action does to the verifications and the clock. -/
theorem acts_verifications {s : Store} (h : Acts ports s p a s' p') :
    (s'.verifications = s.verifications ∧ s'.supersededVerifications = s.supersededVerifications ∧
      s.clock ≤ s'.clock) ∨
    (∃ account ids at' verification, p = .requestedVerification account ids at' verification ∧
      a = .commit ∧ commitVerificationRequest s account ids at' verification = some s') ∨
    ∃ verification account late, p = .savedVerified verification account late ∧ a = .commit ∧
      s' = commitValidation s verification account := by
  cases h with
  | commitVerificationRequest h => exact Or.inr (Or.inl ⟨_, _, _, _, rfl, rfl, h⟩)
  | commitValidation => exact Or.inr (Or.inr ⟨_, _, _, rfl, rfl, rfl⟩)
  | commitRequest h =>
    obtain ⟨_, -, rfl⟩ := commitRequest_eq_some h
    exact Or.inl ⟨rfl, rfl, le_refl _⟩
  | expireResets hc | expireVerifications hc | issueReset hc | issueVerification hc | beginReset hc
  | beginValidation hc | savePassword hc | saveVerified hc | evict hc | createSession hc
  | renew hc => exact Or.inl ⟨rfl, rfl, hc⟩
  | _ => exact Or.inl ⟨rfl, rfl, le_refl _⟩

/-- **The rows after an action.** -/
theorem orderly_of_acts (hi : Inv st) (hp : st.procs[i]? = some p)
    (hf : freshVerifications st (.act i a) = true) (h : Acts ports st.world p a s' p') :
    Orderly emailVerifications s'.verifications.rows s'.clock s'.supersededVerifications ∧
      Advances emailVerifications st.world.verifications.rows s'.verifications.rows ∧
      st.world.clock ≤ s'.clock := by
  rcases acts_verifications h with ⟨hv, hs, hc⟩ | ⟨account, ids, at', verification, rfl, rfl, hcom⟩ |
    ⟨verification, account, late, rfl, rfl, rfl⟩
  · rw [hv, hs]
    exact ⟨hi.world.later hc, Advances.refl _, hc⟩
  · obtain ⟨hat, howner⟩ : at' ≤ st.world.clock ∧ verification.authenticationAccountId = account.id :=
      hi.proc hp
    obtain ⟨verifications, hrows, rfl⟩ := commitVerificationRequest_eq_some hcom
    have hcov := covers_of_fresh hf hp
    rw [← howner] at hcov
    rw [hrows]
    refine ⟨hi.world.issue hcov hat fun j hj => ?_, advances_issue verification, le_refl _⟩
    rcases List.mem_append.mp hj with hj | hj
    · obtain ⟨v, hv, rfl⟩ := List.mem_map.mp hj
      obtain ⟨hv, ho⟩ := List.mem_filter.mp hv
      exact Or.inr ⟨v, hv, (beq_iff_eq.mp ho).trans howner.symm, rfl⟩
    · exact Or.inl hj
  · obtain ⟨⟨hused, -⟩, -⟩ := hi.proc hp
    rw [rows_commitValidation]
    exact ⟨hi.world.redeem hused, advances_redeem hused, le_refl _⟩

/-- A verification that is completed was live, so it had not been superseded when it was read. -/
theorem completed_of_complete {s : Store} {verification completed : EmailVerification} {digest : String}
    {now : ℕ} {late : Bool} (hd : Dead s verification late) (hc : s.clock ≤ now)
    (h : verification.complete digest now = .ok completed) :
    completed.isCompleted = true ∧ late = false := by
  obtain ⟨he, hu, -, rfl⟩ := EmailVerification.complete_eq_ok.mp h
  refine ⟨rfl, ?_⟩
  by_contra hl
  have hdead := hd ((Bool.not_eq_false _).mp hl)
  have hlive : now < verification.expiresAt := by
    simpa [EmailVerification.isExpired, ExpirationDate.isExpired] using he
  have hopen : emailVerifications.isOpen verification s.clock = true :=
    isOpen_iff.mpr ⟨hu, lt_of_le_of_lt hc hlive⟩
  rw [hdead] at hopen
  cases hopen

/-- What an action leaves its process. -/
theorem ready_of_acts (hi : Inv st) (hp : st.procs[i]? = some p) (h : Acts ports st.world p a s' p') :
    Ready s' p' := by
  have hready := hi.proc hp
  cases h with
  | expireVerifications hc => exact le_refl _
  | issueVerification hc hv => exact ⟨le_trans hready hc, (EmailVerification.create_eq_ok hv).2.1⟩
  | findVerificationAccount => exact hready
  | beginValidation hc hv => exact completed_of_complete hready hc hv
  | saveVerification h =>
    obtain ⟨v, hv, hid⟩ := List.any_eq_true.mp h
    exact ⟨hready, v, hv, beq_iff_eq.mp hid⟩
  | saveVerified => exact hready
  | _ => trivial

/-- A start reads stored rows. -/
theorem ready_of_starts {s : Store} {l : Start}
    (ho : Orderly emailVerifications s.verifications.rows s.clock s.supersededVerifications)
    (h : Starts ports s l s' p) : Ready s' p := by
  cases h with
  | @validateEmailVerification token verification h =>
    intro hlate
    obtain ⟨v, hv, hid, hclosed⟩ := ho.closed _ (List.contains_iff_mem.mp hlate)
    have he : v = verification := KeyedTable.eq_of_key_eq _ hv (List.mem_of_find?_eq_some h) hid
    exact he ▸ hclosed
  | _ => trivial

theorem Inv.step {st' : State} {l : Label} (hi : Inv st) (hf : freshVerifications st l = true)
    (hs : step ports st l = some st') : Inv st' := by
  refine Interleaving.Inv.step (G := fun st l => freshVerifications st l = true) (fun _ _ _ => trivial)
    ?_ ?_ hi hf hs
  · intro st l s p hi _ hw
    have hw := start_starts hw
    have hsame : s.verifications = st.world.verifications ∧
        s.supersededVerifications = st.world.supersededVerifications ∧ st.world.clock ≤ s.clock := by
      cases hw with
      | requestEmailVerification _ _ hc | refreshToken _ hc => exact ⟨rfl, rfl, hc⟩
      | _ => exact ⟨rfl, rfl, le_refl _⟩
    obtain ⟨hv, hsup, hc⟩ := hsame
    refine ⟨?_, ready_of_starts hi.world hw, fun q hq => ⟨(hi.procs q hq).advance ?_ hc, trivial⟩⟩
    · rw [hv, hsup]
      exact hi.world.later hc
    · rw [hv]
      exact Advances.refl _
  · intro st i a p s p' hi hf hp hw
    have hw := act_acts hw
    obtain ⟨ho, ha, hc⟩ := orderly_of_acts hi hp hf hw
    exact ⟨ho, ready_of_acts hi hp hw, fun j q _ hq => ⟨(hi.proc hq).advance ha hc, trivial⟩⟩

end Steps

/-! ## The law -/

theorem acceptedVerification_eq_some {st : State} {l : Label} {b : Accepted}
    (h : acceptedVerification st l = some b) : ∃ i verification account, l = .act i .commit ∧
      st.procs[i]? = some (.savedVerified verification account b.late) ∧ b.id = verification.id := by
  unfold acceptedVerification at h
  split at h
  · split at h
    · cases h
      exact ⟨_, _, _, rfl, ‹_›, rfl⟩
    · cases h
  · cases h

section Law
variable {ports : Ports} {st st' : State} {l : Label}

theorem advances_of_step (hi : Inv st) (hf : freshVerifications st l = true)
    (hs : step ports st l = some st') :
    Advances emailVerifications st.world.verifications.rows st'.world.verifications.rows := by
  cases l with
  | start s =>
    obtain ⟨s', p, hw, rfl⟩ := Interleaving.step_start.mp hs
    have hsame : s'.verifications = st.world.verifications := by cases start_starts hw <;> rfl
    show Advances _ _ s'.verifications.rows
    rw [hsame]
    exact Advances.refl _
  | act i a =>
    obtain ⟨p, s', p', hp, hw, rfl⟩ := Interleaving.step_act.mp hs
    exact (orderly_of_acts hi hp hf (act_acts hw)).2.1

/-- A run that commits completes its verification, which has not been completed before. -/
theorem accepts_of_step {b : Accepted} (hi : Inv st) (hf : freshVerifications st l = true)
    (hs : step ports st l = some st') (hb : acceptedVerification st l = some b) :
    ¬ UsedAt emailVerifications st.world.verifications.rows b.id ∧
      UsedAt emailVerifications st'.world.verifications.rows b.id ∧ b.late = false := by
  obtain ⟨i, verification, account, rfl, hp, hid⟩ := acceptedVerification_eq_some hb
  obtain ⟨p, s', p', hp', hw, rfl⟩ := Interleaving.step_act.mp hs
  rw [hp] at hp'
  cases hp'
  obtain ⟨⟨hused, hlate⟩, v, hv, hvid⟩ := hi.proc hp
  rw [hid]
  refine ⟨unverified_of_fresh hf hp, ?_, hlate⟩
  cases act_acts hw
  exact usedAt_redeem hused hv hvid

/-- A system at rest with at most one live verification an account. -/
structure Rested (st : State) : Prop where
  idle : st.procs = []
  oneOpen : OneOpen emailVerifications st.world.verifications.rows st.world.clock
  superseded : st.world.supersededVerifications = []

theorem Rested.inv (h : Rested st) : Inv st := by
  refine Interleaving.Inv.of_nil ⟨h.oneOpen, ?_⟩ h.idle
  rw [h.superseded]
  exact fun i hi => absurd hi List.not_mem_nil

/-- **At most one live email verification an account.** In every run in which a request has expired
all live rows of its account when it commits and the stored row is unverified when a validation
commits: in every state an account has at most one live verification; one that a newer committed
request has superseded is accepted by no run that started afterwards; and none is accepted twice. -/
theorem verifications_once {ls : List Label} (h : Rested st)
    (hf : AllSteps (step ports) (fun s l => freshVerifications s l = true) st ls)
    (hr : run (step ports) st ls = some st') :
    OneOpen emailVerifications st'.world.verifications.rows st'.world.clock ∧
    (∀ b ∈ trace (step ports) acceptedVerification st ls, b.late = false) ∧
    ∀ id, (trace (step ports) acceptedVerification st ls).countP (·.id == id) ≤ 1 := by
  refine ⟨?_, ?_, fun id => ?_⟩
  · exact (run_inv_of_allSteps (I := Inv) (fun _ _ _ hi hf hs => hi.step hf hs) h.inv hf hr).world.oneOpen
  · exact trace_forall (I := Inv) (fun _ _ _ hi hf hs => hi.step hf hs)
      (fun _ _ _ _ hi hf hs hb => (accepts_of_step hi hf hs hb).2.2) h.inv hf hr
  · refine trace_once_of_key (I := Inv)
      (C := fun id s => UsedAt emailVerifications s.world.verifications.rows id) Accepted.id
      (fun _ _ _ hi hf hs => hi.step hf hs) ?_ ?_ h.inv hf hr id
    · exact fun _ s l s' hi hf hs hu => hu.advance (advances_of_step hi hf hs)
    · intro s l s' b hi hf hs hb
      obtain ⟨hnot, hused, -⟩ := accepts_of_step hi hf hs hb
      exact ⟨hnot, hused⟩

end Law

/-! ### Two requests -/

theorem rested_exampleState : Rested exampleState := by
  refine ⟨rfl, ?_, rfl⟩
  intro v hv v' hv' _ _ _
  rw [List.mem_singleton.mp hv, List.mem_singleton.mp hv']

/-- A request, and the validation it is for. -/
def requestVerificationRun : List Label :=
  [.start (.requestEmailVerification "u1" 1), .act 0 (.expire 1), .act 0 (.issue "v2" secondToken 1),
    .act 0 .commit, .start (.validateEmailVerification secondToken), .act 1 .findAccount,
    .act 1 (.begin 2), .act 1 .saveToken, .act 1 (.saveVerified 2), .act 1 .commit]

theorem verifications_once_requestVerificationRun : ∃ st,
    run (step transactionPorts) exampleState requestVerificationRun = some st ∧
    trace (step transactionPorts) acceptedVerification exampleState requestVerificationRun =
      [⟨"v2", false⟩] ∧
    OneOpen emailVerifications st.world.verifications.rows st.world.clock := by
  have hrun : (run (step transactionPorts) exampleState requestVerificationRun).isSome = true := by
    decide
  have hfresh : checkSteps (step transactionPorts) freshVerifications exampleState
      requestVerificationRun = true := by decide
  have htrace : trace (step transactionPorts) acceptedVerification exampleState
      requestVerificationRun = [⟨"v2", false⟩] := by decide
  obtain ⟨st, hst⟩ := Option.isSome_iff_exists.mp hrun
  exact ⟨st, hst, htrace, (verifications_once rested_exampleState
    (allSteps_of_checkSteps (fun _ _ h => h) hfresh) hst).1⟩

/-- The second request selects its rows before the first one commits. -/
def twoRequestsRun : List Label :=
  [.start (.requestEmailVerification "u1" 1), .start (.requestEmailVerification "u1" 1),
    .act 0 (.expire 1), .act 1 (.expire 1), .act 0 (.issue "v2" secondToken 2), .act 0 .commit,
    .act 1 (.issue "v3" thirdToken 3), .act 1 .commit]

/-- Both new verifications are live. -/
def twoLive (st : State) : Bool :=
  st.procs.all Proc.isOver && st.world.verifications.rows.any fun v =>
    st.world.verifications.rows.any fun v' =>
      v.authenticationAccountId == v'.authenticationAccountId && v.id != v'.id &&
        emailVerifications.isOpen v st.world.clock && emailVerifications.isOpen v' st.world.clock

theorem two_live_verifications : ¬ ∀ (ports : Ports) (st st' : State) (ls : List Label), Rested st →
    run (step ports) st ls = some st' →
    ((∀ p ∈ st'.procs, p.isOver = true) →
      OneOpen emailVerifications st'.world.verifications.rows st'.world.clock) ∧
    (∀ b ∈ trace (step ports) acceptedVerification st ls, b.late = false) ∧
    ∀ id, (trace (step ports) acceptedVerification st ls).countP (·.id == id) ≤ 1 := by
  intro h
  have hrun : (run (step transactionPorts) exampleState twoRequestsRun).any twoLive = true := by decide
  obtain ⟨st, hst, hlive⟩ := (Option.any_eq_true _ _).mp hrun
  simp only [twoLive, Bool.and_eq_true, List.all_eq_true, List.any_eq_true, beq_iff_eq, bne_iff_ne,
    ne_eq] at hlive
  obtain ⟨hover, v, hv, v', hv', ⟨⟨howner, hne⟩, ho⟩, ho'⟩ := hlive
  exact hne ((h transactionPorts exampleState st twoRequestsRun rested_exampleState hst).1 hover v hv v'
    hv' howner ho ho')

end Neltrik.Authentication.Transactions.VerificationTokens
