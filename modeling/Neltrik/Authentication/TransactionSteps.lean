import Neltrik.Authentication.Transactions
import Neltrik.Authentication.Steps

/-! # What a step of the open transactions does

`Starts` and `Acts` invert `start` and `act`. Only the four commits, `createSession` and `renew` write
rows; `commitRequest_eq_some` says what the first of them does to the tables. -/

namespace Neltrik.Authentication.Transactions

open Neltrik.Lib Neltrik.Lib.Table Neltrik.Lib.OneTime
open Neltrik.Lib.Effect (toOption_eq_some)
open Neltrik.Authorization (AuthenticationAccount PasswordHash.create)

/-! ## Starts -/

/-- What a start does, one rule for each case. -/
inductive Starts (ports : Ports) (s : Store) : Start → Store → Proc → Prop
  | requestPasswordReset {email account} (h : AccountRepository.findByEmail s.world email = some account) :
      Starts ports s (.requestPasswordReset email) s (.requesting account)
  | requestEmailVerification {userId now account}
      (h : AccountRepository.findByUserId s.world userId = some account)
      (hv : account.emailVerified = false) (hc : s.clock ≤ now) :
      Starts ports s (.requestEmailVerification userId now) { s with clock := now }
        (.requestingVerification account now)
  | resetPassword {token reset}
      (h : PasswordResetRepository.findByTokenHash s.world (ports.hash token) = some reset) :
      Starts ports s (.resetPassword token) s (.resetting token reset)
  | validateEmailVerification {token verification}
      (h : s.findVerificationByTokenHash (ports.hash token) = some verification) :
      Starts ports s (.validateEmailVerification token) s
        (.validating token verification (s.supersededVerifications.contains verification.id))
  | login {email password account} (h : Login.read ports s.world email password = .ok account) :
      Starts ports s (.login email password) s (.loggingIn account)
  | refreshToken {owner token now session}
      (h : RefreshToken.read ports s.world owner token now = .ok session) (hc : s.clock ≤ now) :
      Starts ports s (.refreshToken owner token now) { s with clock := now } (.refreshing owner session)

theorem start_starts {ports : Ports} {s s' : Store} {l : Start} {p : Proc}
    (h : start ports s l = some (s', p)) : Starts ports s l s' p := by
  unfold start at h
  split at h
  all_goals obtain ⟨a, ha, h⟩ := Option.bind_eq_some_iff.mp h
  · cases h; exact .requestPasswordReset ha
  · split_ifs at h with hv hc
    cases h; exact .requestEmailVerification ha ((Bool.not_eq_true _).mp hv) hc
  · cases h; exact .resetPassword ha
  · cases h; exact .validateEmailVerification ha
  · cases h; exact .login (toOption_eq_some.mp ha)
  · split_ifs at h with hc
    cases h; exact .refreshToken (toOption_eq_some.mp ha) hc

/-! ## Actions -/

/-- What an action does, one rule for each case. -/
inductive Acts (ports : Ports) (s : Store) : Proc → Action → Store → Proc → Prop
  | findResetAccount {token reset account}
      (h : AccountRepository.findById s.world reset.authenticationAccountId = some account) :
      Acts ports s (.resetting token reset) .findAccount s (.resettingAccount token reset account)
  | findVerificationAccount {token verification late account}
      (h : AccountRepository.findById s.world verification.authenticationAccountId = some account) :
      Acts ports s (.validating token verification late) .findAccount s
        (.validatingAccount token verification account late)
  | findSessionAccount {owner session} :
      Acts ports s (.refreshing owner session) .findAccount s (.authorized owner session)
  | expireResets {account now} (hc : s.clock ≤ now) :
      Acts ports s (.requesting account) (.expire now) { s with clock := now }
        (.expiring account (s.pendingResets account.id) now)
  | expireVerifications {account createdAt now} (hc : s.clock ≤ now) :
      Acts ports s (.requestingVerification account createdAt) (.expire now) { s with clock := now }
        (.expiringVerifications account createdAt (s.pendingVerifications account.id) now)
  | issueReset {account ids ids' at' id token now expiresAt reset} (hc : s.clock ≤ now)
      (h : PasswordReset.create id account.id (ports.hash token) expiresAt now = .ok reset) :
      Acts ports s (.expiring account ids at') (.issue id token now) { s with clock := now }
        (.requested account ids' at' reset)
  | issueVerification {account createdAt ids ids' at' id token now expiresAt verification}
      (hc : s.clock ≤ now)
      (h : EmailVerification.create id account.id account.email (ports.hash token) expiresAt createdAt =
        .ok verification) :
      Acts ports s (.expiringVerifications account createdAt ids at') (.issue id token now)
        { s with clock := now } (.requestedVerification account ids' at' verification)
  | beginReset {token reset account now used} (hc : s.clock ≤ now)
      (h : reset.use (ports.hash token) now = .ok used) :
      Acts ports s (.resettingAccount token reset account) (.begin now) { s with clock := now }
        (.usedReset used account (s.supersededResets.contains reset.id))
  | beginValidation {token verification account late now completed} (hc : s.clock ≤ now)
      (h : verification.complete (ports.hash token) now = .ok completed) :
      Acts ports s (.validatingAccount token verification account late) (.begin now)
        { s with clock := now } (.completed completed account late)
  | saveReset {reset account late} (h : s.resets.rows.any (·.id == reset.id) = true) :
      Acts ports s (.usedReset reset account late) .saveToken s (.savedReset reset account late)
  | saveVerification {verification account late}
      (h : s.verifications.rows.any (·.id == verification.id) = true) :
      Acts ports s (.completed verification account late) .saveToken s
        (.savedVerification verification account late)
  | savePassword {reset account late hashedPassword passwordHash now} (hc : s.clock ≤ now)
      (h : PasswordHash.create hashedPassword = .ok passwordHash) :
      Acts ports s (.savedReset reset account late) (.savePassword hashedPassword now)
        { s with clock := now } (.savedPassword reset (account.update (some passwordHash) now) late)
  | saveVerified {verification account account' late now} (hc : s.clock ≤ now)
      (h : verifyEmail account now = .ok account') :
      Acts ports s (.savedVerification verification account late) (.saveVerified now)
        { s with clock := now } (.savedVerified verification account' late)
  | evict {reset account late now} (hc : s.clock ≤ now) :
      Acts ports s (.savedPassword reset account late) (.evict now) { s with clock := now }
        (.evicted reset account late (s.liveSessions account.id) now)
  | commitRequest {account ids at' reset s'} (h : commitRequest s account ids at' reset = some s') :
      Acts ports s (.requested account ids at' reset) .commit s' .done
  | commitVerificationRequest {account ids at' verification s'}
      (h : commitVerificationRequest s account ids at' verification = some s') :
      Acts ports s (.requestedVerification account ids at' verification) .commit s' .done
  | commitReset {reset account late ids at'} :
      Acts ports s (.evicted reset account late ids at') .commit (commitReset s reset account ids at') .done
  | commitValidation {verification account late} :
      Acts ports s (.savedVerified verification account late) .commit
        (commitValidation s verification account) .done
  | createSession {account id token ip agent now session sessions} (hc : s.clock ≤ now)
      (h : Login.session ports account id token ip agent now = .ok session)
      (hi : s.sessions.insert session = some sessions) :
      Acts ports s (.loggingIn account) (.createSession id token ip agent now)
        { s with
          clock := now, sessions
          verified := Function.update s.verified session.id account.passwordHash } .done
  | renew {owner session token now renewed w} (hc : s.clock ≤ now)
      (h : RefreshToken.renew ports session token now = .ok renewed)
      (hu : SessionRepository.update s.world owner renewed = some w) :
      Acts ports s (.authorized owner session) (.renew token now)
        { s with clock := now, sessions := w.sessions } .done
  | fail {p} (h : p.isOver = false) : Acts ports s p .fail s .failed

theorem timed_eq_some {s : Store} {now : ℕ} {f : Store → Option (Store × Proc)} {r : Store × Proc}
    (h : timed s now f = some r) : s.clock ≤ now ∧ f { s with clock := now } = some r := by
  unfold timed at h
  split_ifs at h with hc
  exact ⟨hc, h⟩

theorem saveAccount_eq_some {procs : List Proc} {s s' : Store} {account : AuthenticationAccount}
    {p p' : Proc} (h : saveAccount procs s account p = some (s', p')) : s' = s ∧ p' = p := by
  unfold saveAccount at h
  split_ifs at h
  cases h
  exact ⟨rfl, rfl⟩

theorem act_acts {ports : Ports} {procs : List Proc} {s s' : Store} {p p' : Proc} {a : Action}
    (h : act ports procs s p a = some (s', p')) : Acts ports s p a s' p' := by
  cases a with
  | findAccount =>
    replace h : findAccount s p = some (s', p') := h
    unfold findAccount at h
    split at h
    · obtain ⟨a, ha, h⟩ := Option.bind_eq_some_iff.mp h
      cases h; exact .findResetAccount ha
    · obtain ⟨a, ha, h⟩ := Option.bind_eq_some_iff.mp h
      cases h; exact .findVerificationAccount ha
    · obtain ⟨a, ha, h⟩ := Option.bind_eq_some_iff.mp h
      cases h; exact .findSessionAccount
    · cases h
  | expire now =>
    simp only [act] at h
    obtain ⟨hc, h⟩ := timed_eq_some h
    unfold expire at h
    split at h
    · cases h; exact .expireResets hc
    · cases h; exact .expireVerifications hc
    · cases h
  | issue id token now =>
    simp only [act] at h
    obtain ⟨hc, h⟩ := timed_eq_some h
    unfold issue at h
    split at h
    · dsimp only at h
      split_ifs at h
      obtain ⟨_, -, h⟩ := Option.bind_eq_some_iff.mp h
      obtain ⟨_, hr, h⟩ := Option.bind_eq_some_iff.mp h
      cases h; exact .issueReset hc (toOption_eq_some.mp hr)
    · dsimp only at h
      split_ifs at h
      obtain ⟨_, -, h⟩ := Option.bind_eq_some_iff.mp h
      obtain ⟨_, hr, h⟩ := Option.bind_eq_some_iff.mp h
      cases h; exact .issueVerification hc (toOption_eq_some.mp hr)
    · cases h
  | begin now =>
    simp only [act] at h
    obtain ⟨hc, h⟩ := timed_eq_some h
    unfold begin at h
    split at h
    · obtain ⟨_, hu, h⟩ := Option.bind_eq_some_iff.mp h
      cases h; exact .beginReset hc (toOption_eq_some.mp hu)
    · obtain ⟨_, hu, h⟩ := Option.bind_eq_some_iff.mp h
      cases h; exact .beginValidation hc (toOption_eq_some.mp hu)
    · cases h
  | saveToken =>
    replace h : saveToken procs s p = some (s', p') := h
    unfold saveToken at h
    split at h
    · split_ifs at h with hl
      cases h; exact .saveReset ((Bool.and_eq_true _ _).mp hl).1
    · split_ifs at h with hl
      cases h; exact .saveVerification ((Bool.and_eq_true _ _).mp hl).1
    · cases h
  | savePassword hashedPassword now =>
    simp only [act] at h
    obtain ⟨hc, h⟩ := timed_eq_some h
    unfold savePassword at h
    split at h
    · obtain ⟨_, hp, h⟩ := Option.bind_eq_some_iff.mp h
      obtain ⟨rfl, rfl⟩ := saveAccount_eq_some h
      refine .savePassword hc ?_
      cases hx : PasswordHash.create hashedPassword with
      | error e => rw [hx] at hp; cases hp
      | ok b => rw [hx] at hp; cases hp; rfl
    · cases h
  | saveVerified now =>
    simp only [act] at h
    obtain ⟨hc, h⟩ := timed_eq_some h
    unfold saveVerified at h
    split at h
    · obtain ⟨_, hv, h⟩ := Option.bind_eq_some_iff.mp h
      obtain ⟨rfl, rfl⟩ := saveAccount_eq_some h
      exact .saveVerified hc (toOption_eq_some.mp hv)
    · cases h
  | evict now =>
    simp only [act] at h
    obtain ⟨hc, h⟩ := timed_eq_some h
    unfold evict at h
    split at h
    · split_ifs at h
      cases h; exact .evict hc
    · cases h
  | commit =>
    replace h : commit s p = some (s', p') := h
    unfold commit at h
    split at h
    · obtain ⟨_, hs, h⟩ := Option.map_eq_some_iff.mp h
      cases h; exact .commitRequest hs
    · obtain ⟨_, hs, h⟩ := Option.map_eq_some_iff.mp h
      cases h; exact .commitVerificationRequest hs
    · cases h; exact .commitReset
    · cases h; exact .commitValidation
    · cases h
  | createSession id token ip agent now =>
    simp only [act] at h
    obtain ⟨hc, h⟩ := timed_eq_some h
    unfold createSession at h
    split at h
    · obtain ⟨_, hs, h⟩ := Option.bind_eq_some_iff.mp h
      obtain ⟨_, hi, h⟩ := Option.bind_eq_some_iff.mp h
      cases h; exact .createSession hc (toOption_eq_some.mp hs) hi
    · cases h
  | renew token now =>
    simp only [act] at h
    obtain ⟨hc, h⟩ := timed_eq_some h
    unfold renew at h
    split at h
    · obtain ⟨_, hr, h⟩ := Option.bind_eq_some_iff.mp h
      split_ifs at h
      obtain ⟨_, hu, h⟩ := Option.bind_eq_some_iff.mp h
      cases h; exact .renew hc (toOption_eq_some.mp hr) hu
    · cases h
  | fail =>
    replace h : (if p.isOver then none else some (s, .failed)) = some (s', p') := h
    split_ifs at h with hp
    cases h; exact .fail ((Bool.not_eq_true _).mp hp)

/-! ## Commits -/

theorem commitRequest_eq_some {s s' : Store} {account : AuthenticationAccount} {ids : List String}
    {at' : ℕ} {reset : PasswordReset} (h : commitRequest s account ids at' reset = some s') :
    ∃ resets, resets.rows = reset :: expireThose passwordResets ids at' s.resets.rows ∧
      s' = { s with
        resets
        supersededResets :=
          ((s.resets.rows.filter (·.authenticationAccountId == account.id)).map (·.id)) ++
            s.supersededResets } := by
  obtain ⟨resets, hi, h⟩ := Option.bind_eq_some_iff.mp h
  cases h
  exact ⟨resets, (KeyedTable.insert_eq_some hi).2, rfl⟩

theorem commitVerificationRequest_eq_some {s s' : Store} {account : AuthenticationAccount}
    {ids : List String} {at' : ℕ} {verification : EmailVerification}
    (h : commitVerificationRequest s account ids at' verification = some s') :
    ∃ verifications,
      verifications.rows = verification :: expireThose emailVerifications ids at' s.verifications.rows ∧
      s' = { s with
        verifications
        supersededVerifications :=
          ((s.verifications.rows.filter (·.authenticationAccountId == account.id)).map (·.id)) ++
            s.supersededVerifications } := by
  obtain ⟨verifications, hi, h⟩ := Option.bind_eq_some_iff.mp h
  cases h
  exact ⟨verifications, (KeyedTable.insert_eq_some hi).2, rfl⟩

theorem rows_commitReset (s : Store) (reset : PasswordReset) (account : AuthenticationAccount)
    (ids : List String) (at' : ℕ) :
    (commitReset s reset account ids at').resets.rows = redeem passwordResets reset s.resets.rows := rfl

theorem rows_commitValidation (s : Store) (verification : EmailVerification)
    (account : AuthenticationAccount) : (commitValidation s verification account).verifications.rows =
      redeem emailVerifications verification s.verifications.rows := rfl

end Neltrik.Authentication.Transactions
