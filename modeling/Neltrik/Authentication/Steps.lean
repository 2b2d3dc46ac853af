import Neltrik.Authentication.System
import Neltrik.Lib.Effect

/-! # What a step does to the sessions

`Starts` and `Acts` invert `start` and `act`: a start changes nothing, and of the actions four write
session rows. `RowsChange` says what the rows and the history of the tokens become. -/

namespace Neltrik.Authentication

open Neltrik.Lib Neltrik.Lib.Table
open Neltrik.Lib.Effect (toOption_eq_some)
open Neltrik.Authorization (AuthenticationAccount)

theorem found_eq_ok {α : Type} {row : Option α} {e : AuthError} {a : α} :
    found row e = .ok a ↔ row = some a := by
  cases row with
  | none => exact ⟨nofun, nofun⟩
  | some b => exact ⟨fun h => by cases h; rfl, fun h => by cases h; rfl⟩

/-! ## Starts and actions -/

/-- What a start does, one rule for each case. -/
inductive Starts (ports : Ports) (w : World) : Start → Proc → Prop
  | refreshToken {owner t now s} (h : RefreshToken.read ports w owner t now = .ok s) :
      Starts ports w (.refreshToken owner t now) (.refreshing owner t s)
  | login {email password account} (h : Login.read ports w email password = .ok account) :
      Starts ports w (.login email password) (.loggingIn account)
  | logout {owner t now s} (h : Logout.read ports w owner t now = .ok s) :
      Starts ports w (.logout owner t now) (.revoking owner s)
  | revokeSession {owner id now s} (h : RevokeSession.read w owner id now = .ok s) :
      Starts ports w (.revokeSession owner id now) (.revoking owner s)
  | revokeAllSessions {userId id account} (h : AccountRepository.findByUserId w userId = some account) :
      Starts ports w (.revokeAllSessions userId id) (.revokingOthers account.id id)
  | resetPassword {t reset} (h : PasswordResetRepository.findByTokenHash w (ports.hash t) = some reset) :
      Starts ports w (.resetPassword t) (.resetting t reset)

theorem start_starts {ports : Ports} {w w' : World} {s : Start} {p : Proc}
    (h : start ports w s = some (w', p)) : w' = w ∧ Starts ports w s p := by
  unfold start at h
  split at h
  all_goals
    obtain ⟨a, ha, h⟩ := Option.bind_eq_some_iff.mp h
    cases h
  · exact ⟨rfl, .refreshToken (toOption_eq_some.mp ha)⟩
  · exact ⟨rfl, .login (toOption_eq_some.mp ha)⟩
  · exact ⟨rfl, .logout (toOption_eq_some.mp ha)⟩
  · exact ⟨rfl, .revokeSession (toOption_eq_some.mp ha)⟩
  · exact ⟨rfl, .revokeAllSessions ha⟩
  · exact ⟨rfl, .resetPassword ha⟩

/-- What an action does, one rule for each case. -/
inductive Acts (ports : Ports) (w : World) : Proc → Action → World → Proc → Prop
  | authorize {owner t s account}
      (h : AccountRepository.findById w s.authenticationAccountId = some account) :
      Acts ports w (.refreshing owner t s) .findAccount w (.authorized owner t s)
  | renew {owner t s ν now s' w'} (hr : RefreshToken.renew ports s ν now = .ok s')
      (hu : SessionRepository.update w owner s' = some w') :
      Acts ports w (.authorized owner t s) (.renew ν now)
        { w' with issued := (s.id, ν) :: w'.issued } (.refreshed s.id t ν)
  | createSession {account id ν ip agent now s w'}
      (hs : Login.session ports account id ν ip agent now = .ok s)
      (hc : SessionRepository.create w s = some w') :
      Acts ports w (.loggingIn account) (.createSession id ν ip agent now)
        { w' with issued := (id, ν) :: w'.issued } .done
  | saveRevoked {owner s w'} (hu : SessionRepository.update w owner s.val = some w') :
      Acts ports w (.revoking owner s) .saveRevoked w' .done
  | revokeOthers {accountId id now} : Acts ports w (.revokingOthers accountId id) (.revokeOthers now)
      (SessionRepository.revokeAllExcept w accountId id now) .done
  | findAccount {t reset account}
      (h : AccountRepository.findById w reset.authenticationAccountId = some account) :
      Acts ports w (.resetting t reset) .findAccount w (.resettingAccount t reset account)
  | commitReset {t reset account hashed now w'}
      (h : ResetPassword.commit ports w t reset account hashed now = some w') :
      Acts ports w (.resettingAccount t reset account) (.commitReset hashed now) w' .done
  | fail {p} (h : p.isOver = false) : Acts ports w p .fail w .failed

theorem act_acts {ports : Ports} {procs : List Proc} {w w' : World} {p p' : Proc} {a : Action}
    (h : act ports procs w p a = some (w', p')) : Acts ports w p a w' p' := by
  unfold act at h
  split at h
  · obtain ⟨_, ha, h⟩ := Option.bind_eq_some_iff.mp h
    cases h; exact .authorize ha
  · obtain ⟨_, hr, h⟩ := Option.bind_eq_some_iff.mp h
    obtain ⟨_, hu, h⟩ := Option.bind_eq_some_iff.mp h
    cases h; exact .renew (toOption_eq_some.mp hr) hu
  · obtain ⟨_, hs, h⟩ := Option.bind_eq_some_iff.mp h
    obtain ⟨_, hc, h⟩ := Option.bind_eq_some_iff.mp h
    cases h; exact .createSession (toOption_eq_some.mp hs) hc
  · obtain ⟨_, hu, h⟩ := Option.bind_eq_some_iff.mp h
    cases h; exact .saveRevoked hu
  · cases h; exact .revokeOthers
  · obtain ⟨_, ha, h⟩ := Option.bind_eq_some_iff.mp h
    cases h; exact .findAccount ha
  · obtain ⟨_, hc, h⟩ := Option.bind_eq_some_iff.mp h
    cases h; exact .commitReset hc
  · split at h
    · cases h
    · rename_i hp
      cases h; exact .fail ((Bool.not_eq_true _).mp hp)
  · cases h

/-! ## The rows -/

/-- `RefreshToken` finds a live session under the digest of the token. -/
theorem RefreshToken.read_eq_ok {ports : Ports} {w : World} {owner : Option String} {t : String}
    {now : ℕ} {s : AuthenticationSession} : RefreshToken.read ports w owner t now = .ok s ↔
      t ≠ "" ∧ SessionRepository.findByRefreshTokenHash w owner (ports.hash t) = some s ∧
        s.isExpired now = false ∧ s.isRevoked = false ∧ s.isRefreshTokenExpired now = false := by
  unfold RefreshToken.read
  by_cases ht : t = ""
  · rw [if_pos ht]
    exact ⟨nofun, fun h => absurd ht h.1⟩
  · rw [if_neg ht]
    constructor
    · intro h
      obtain ⟨s', hs, h⟩ := Effect.except_bind_eq_ok.mp h
      obtain ⟨_, he, h⟩ := Effect.except_bind_eq_ok.mp h
      cases h
      exact ⟨ht, found_eq_ok.mp hs, AuthenticationSession.ensureCanBeRenewed_eq_ok.mp he⟩
    · rintro ⟨-, hs, he⟩
      refine Effect.except_bind_eq_ok.mpr ⟨s, found_eq_ok.mpr hs, ?_⟩
      exact Effect.except_bind_eq_ok.mpr ⟨(), AuthenticationSession.ensureCanBeRenewed_eq_ok.mpr he, rfl⟩

/-- The row that is found is stored, and has the digest of the token. -/
theorem RefreshToken.mem_of_read {ports : Ports} {w : World} {owner : Option String} {t : String}
    {now : ℕ} {s : AuthenticationSession} (h : RefreshToken.read ports w owner t now = .ok s) :
    s ∈ w.sessions.rows ∧ s.refreshTokenHash = ports.hash t := by
  obtain ⟨-, hs, -⟩ := RefreshToken.read_eq_ok.mp h
  have hk := List.find?_some hs
  rw [Bool.and_eq_true, beq_iff_eq] at hk
  exact ⟨List.mem_of_find?_eq_some hs, hk.1⟩

theorem RefreshToken.renew_eq_ok {ports : Ports} {s s' : AuthenticationSession} {ν : String} {now : ℕ}
    (h : RefreshToken.renew ports s ν now = .ok s') : s'.id = s.id ∧ s'.isRevoked = false ∧
      s'.refreshTokenHash = ports.hash ν := by
  obtain ⟨_, -, h⟩ := Effect.except_bind_eq_ok.mp h
  obtain ⟨hn, hid, hr, hh⟩ := AuthenticationSession.renew_eq_ok h
  refine ⟨hid, ?_, hh⟩
  rw [AuthenticationSession.isRevoked, hr]; exact hn

theorem Logout.exists_of_read {ports : Ports} {w : World} {owner : Option String} {t : String} {now : ℕ}
    {s : AuthenticationSession.IsRevoked} (h : Logout.read ports w owner t now = .ok s) :
    ∃ r ∈ w.sessions.rows, r.revoke now = .ok s := by
  unfold Logout.read at h
  by_cases ht : t = ""
  · rw [if_pos ht] at h; cases h
  · rw [if_neg ht] at h
    obtain ⟨r, hf, h⟩ := Effect.except_bind_eq_ok.mp h
    exact ⟨r, List.mem_of_find?_eq_some (found_eq_ok.mp hf), h⟩

theorem Logout.read_eq_ok {ports : Ports} {w : World} {owner : Option String} {t : String} {now : ℕ}
    {s : AuthenticationSession.IsRevoked} (h : Logout.read ports w owner t now = .ok s) :
    ∃ r ∈ w.sessions.rows, s.val.id = r.id ∧ s.val.refreshTokenHash = r.refreshTokenHash := by
  obtain ⟨r, hr, h⟩ := Logout.exists_of_read h
  exact ⟨r, hr, AuthenticationSession.revoke_eq_ok h⟩

theorem RevokeSession.exists_of_read {w : World} {owner : Option String} {id : String} {now : ℕ}
    {s : AuthenticationSession.IsRevoked} (h : RevokeSession.read w owner id now = .ok s) :
    ∃ r ∈ w.sessions.rows, r.revoke now = .ok s := by
  obtain ⟨r, hf, h⟩ := Effect.except_bind_eq_ok.mp h
  exact ⟨r, List.mem_of_find?_eq_some (found_eq_ok.mp hf), h⟩

theorem RevokeSession.read_eq_ok {w : World} {owner : Option String} {id : String} {now : ℕ}
    {s : AuthenticationSession.IsRevoked} (h : RevokeSession.read w owner id now = .ok s) :
    ∃ r ∈ w.sessions.rows, s.val.id = r.id ∧ s.val.refreshTokenHash = r.refreshTokenHash := by
  obtain ⟨r, hr, h⟩ := RevokeSession.exists_of_read h
  exact ⟨r, hr, AuthenticationSession.revoke_eq_ok h⟩

/-- A login is one of a stored account. -/
theorem Login.mem_of_read {ports : Ports} {w : World} {email password : String}
    {account : AuthenticationAccount} (h : Login.read ports w email password = .ok account) :
    account ∈ w.accounts := by
  unfold Login.read at h
  obtain ⟨a, hf, h⟩ := Effect.except_bind_eq_ok.mp h
  by_cases hp : a.provider ≠ "email-password"
  · rw [if_pos hp] at h; cases h
  · rw [if_neg hp] at h
    obtain ⟨hash, -, h⟩ := Effect.except_bind_eq_ok.mp h
    by_cases hc : ports.compare password hash = false
    · rw [if_pos hc] at h; cases h
    · rw [if_neg hc] at h
      cases h
      exact List.mem_of_find?_eq_some (found_eq_ok.mp hf)

theorem Login.session_eq_ok {ports : Ports} {account : AuthenticationAccount} {id ν : String}
    {ip agent : Option String} {now : ℕ} {s : AuthenticationSession}
    (h : Login.session ports account id ν ip agent now = .ok s) :
    s.id = id ∧ s.isRevoked = false ∧ s.refreshTokenHash = ports.hash ν := by
  obtain ⟨_, -, h⟩ := Effect.except_bind_eq_ok.mp h
  obtain ⟨_, -, h⟩ := Effect.except_bind_eq_ok.mp h
  cases h
  exact ⟨rfl, rfl, rfl⟩

/-! ## The writes -/

theorem SessionRepository.update_eq_some {w w' : World} {owner : Option String}
    {s : AuthenticationSession} (h : update w owner s = some w') :
    s ∈ w'.sessions.rows ∧ w'.sessions.rows = updateWhere (selects owner s) (fun _ => s) w.sessions.rows ∧
      w'.issued = w.issued := by
  unfold update at h
  split_ifs at h with hany
  cases h
  obtain ⟨r, hr, hs⟩ := List.any_eq_true.mp hany
  exact ⟨mem_updateWhere.mpr (Or.inl ⟨r, hr, hs, rfl⟩), rfl, rfl⟩

theorem SessionRepository.create_eq_some {w w' : World} {s : AuthenticationSession}
    (h : create w s = some w') :
    (∀ r ∈ w.sessions.rows, r.id ≠ s.id) ∧ w'.sessions.rows = s :: w.sessions.rows ∧
      w'.issued = w.issued := by
  obtain ⟨sessions, hs, rfl⟩ := Option.map_eq_some_iff.mp h
  obtain ⟨hnew, hrows⟩ := KeyedTable.insert_eq_some hs
  exact ⟨hnew, hrows, rfl⟩

/-- The rows after `revokeWhere`: revoked ones and old ones. -/
theorem SessionRepository.mem_revokeWhere {w : World} {p : AuthenticationSession → Bool} {now : ℕ}
    {s : AuthenticationSession} (h : s ∈ (revokeWhere w p now).sessions.rows) :
    ∃ r ∈ w.sessions.rows, r.id = s.id ∧ r.refreshTokenHash = s.refreshTokenHash ∧
      (s.isRevoked = true ∨ s = r) := by
  rcases mem_updateWhere.mp h with ⟨r, hr, -, rfl⟩ | ⟨hs, -⟩
  · exact ⟨r, hr, rfl, rfl, Or.inl rfl⟩
  · exact ⟨s, hs, rfl, rfl, Or.inr rfl⟩

theorem SessionRepository.exists_of_revokeWhere {w : World} {p : AuthenticationSession → Bool} {now : ℕ} :
    ∀ r ∈ w.sessions.rows, ∃ r' ∈ (revokeWhere w p now).sessions.rows, r'.id = r.id := by
  intro r hr
  by_cases hp : (p r && r.revokedAt.isNone) = true
  · exact ⟨_, mem_updateWhere.mpr (Or.inl ⟨r, hr, hp, rfl⟩), rfl⟩
  · exact ⟨r, mem_updateWhere.mpr (Or.inr ⟨hr, (Bool.not_eq_true _).mp hp⟩), rfl⟩

theorem SessionRepository.exists_of_update {w w' : World} {owner : Option String}
    {s : AuthenticationSession} (h : update w owner s = some w') : ∀ r ∈ w.sessions.rows,
      ∃ r' ∈ w'.sessions.rows, r'.id = r.id := by
  obtain ⟨hmem, hrows, -⟩ := update_eq_some h
  intro r hr
  by_cases hs : selects owner s r = true
  · exact ⟨s, hmem, id_of_selects hs⟩
  · exact ⟨r, hrows ▸ mem_updateWhere.mpr (Or.inr ⟨hr, (Bool.not_eq_true _).mp hs⟩), rfl⟩

/-- After an update the row of the key is the one that was written. -/
theorem SessionRepository.mem_of_update {w w' : World} {owner : Option String}
    {s : AuthenticationSession} (h : update w owner s = some w') {r : AuthenticationSession}
    (hr : r ∈ w'.sessions.rows) : r = s ∨ r ∈ w.sessions.rows ∧ r.id ≠ s.id := by
  obtain ⟨hmem, hrows, -⟩ := update_eq_some h
  by_cases hid : r.id = s.id
  · exact Or.inl (w'.sessions.eq_of_key_eq hr hmem hid)
  · rcases mem_updateWhere.mp (hrows ▸ hr) with ⟨-, -, -, rfl⟩ | ⟨hr, -⟩
    · exact Or.inl rfl
    · exact Or.inr ⟨hr, hid⟩

/-- Of the sessions the transaction of a reset writes what `invalidateByAccount` does. -/
theorem ResetPassword.commit_eq_some {ports : Ports} {w w' : World} {t : String} {reset : PasswordReset}
    {account : AuthenticationAccount} {hashed : String} {now : ℕ}
    (h : commit ports w t reset account hashed now = some w') :
    w'.sessions = (SessionRepository.invalidateByAccount w account.id now).sessions ∧
      w'.issued = w.issued := by
  obtain ⟨_, -, h⟩ := Option.bind_eq_some_iff.mp h
  obtain ⟨w₁, h₁, h⟩ := Option.bind_eq_some_iff.mp h
  obtain ⟨_, -, h⟩ := Option.bind_eq_some_iff.mp h
  obtain ⟨w₂, h₂, h⟩ := Option.bind_eq_some_iff.mp h
  unfold PasswordResetRepository.update at h₁
  unfold AccountRepository.update at h₂
  split_ifs at h₁ h₂
  cases h₁; cases h₂; cases h
  exact ⟨rfl, rfl⟩

end Neltrik.Authentication
