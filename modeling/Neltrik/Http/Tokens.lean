import Neltrik.Http.Access
import Neltrik.Identity.Suspension

/-! # What the access tokens say

The claims of an access token are read from four tables one after the other, and nobody looks at those tables
again when the token is presented. `Token.Bound` is what stays true of them: the session is one of the user,
the tenant is that of the user, and the role was the one of the user at the version of the copy.

`Advances` says what no step takes back, `Sound` is the invariant of the world. -/

namespace Neltrik.Http

open Neltrik.Lib Neltrik.Lib.Table Neltrik.Lib.Serial Neltrik.Authorization
open Neltrik.Authentication (AuthenticationSession accessTokenMaxAge)
open Neltrik.Identity (HasCode Orderly)

/-! ## What is known of a copy -/

/-- What no write changes of a session. -/
def frame (s : AuthenticationSession) : String × String × ℕ × ℕ :=
  (s.authenticationAccountId, s.ownerId, s.expiresAt, s.createdAt)

theorem frame_eq {r s : AuthenticationSession} (h : frame r = frame s) :
    r.authenticationAccountId = s.authenticationAccountId ∧ r.ownerId = s.ownerId ∧ r.expiresAt = s.expiresAt ∧
      r.createdAt = s.createdAt := by
  simpa [frame] using h

/-- The session is stored, in that frame. -/
def SessionHeld (w : World) (s : AuthenticationSession) : Prop :=
  ∃ r ∈ w.rows.sessions.rows, r.id = s.id ∧ frame r = frame s

/-- The account of the id, if it is stored, is one of the user. -/
def AccountBound (w : World) (id userId : String) : Prop :=
  id ∈ w.accountIds ∧ ∀ a ∈ w.rows.accounts, a.id = id → a.userId = userId

/-- The user, if still stored, is the copy or a later version of it. -/
def UserHeld (w : World) (u : User) : Prop :=
  u.id ∈ w.identity.world.users ∧
    ∀ r ∈ w.db.users, r.id = u.id → r.tenantId = u.tenantId ∧ (r = u ∨ u.version < r.version)

/-- The session and the account of a token are those of its user. -/
structure Token.Bound (w : World) (t : Token) : Prop where
  session : ∃ s ∈ w.rows.sessions.rows, s.id = t.payload.sessionId ∧ s.ownerId = t.payload.sub
  user : t.user.id = t.payload.sub ∧ t.user.tenantId = t.payload.tenantId
  held : UserHeld w t.user
  role : HasCode w.identity.world t.user.roleId t.payload.roleCode

/-- What a run on the sessions holds; the logins and the refreshes are not among them. -/
def RunHeld (w : World) : Authentication.Proc → Prop
  | .refreshing .. | .authorized .. | .loggingIn _ => False
  | .revoking _ s => SessionHeld w s.val
  | .resettingAccount _ _ account => AccountBound w account.id account.userId
  | _ => True

/-- What every world has. -/
structure Sound (w : World) : Prop where
  identity : Orderly w.identity
  accountKeys : Keyed (fun a : AuthenticationAccount => a.id) w.rows.accounts
  accountIds : ∀ a ∈ w.rows.accounts, a.id ∈ w.accountIds
  sessions : ∀ s ∈ w.rows.sessions.rows, AccountBound w s.authenticationAccountId s.ownerId ∧
    s.expiresAt = s.createdAt + accessTokenMaxAge
  runs : ∀ p ∈ w.auth.procs, RunHeld w p
  tokens : ∀ t ∈ w.tokens, t.Bound w

/-- What a later world has kept. -/
structure Advances (w w' : World) : Prop where
  sessions : ∀ s, SessionHeld w s → SessionHeld w' s
  accounts : ∀ id userId, AccountBound w id userId → AccountBound w' id userId
  users : ∀ u, UserHeld w u → UserHeld w' u
  codes : ∀ id code, HasCode w.identity.world id code → HasCode w'.identity.world id code
  tokens : ∀ t ∈ w.tokens, t ∈ w'.tokens

theorem Advances.refl (w : World) : Advances w w :=
  ⟨fun _ h => h, fun _ _ h => h, fun _ h => h, fun _ _ h => h, fun _ h => h⟩

theorem Advances.trans {w w' w'' : World} (h : Advances w w') (h' : Advances w' w'') : Advances w w'' :=
  ⟨fun s hs => h'.sessions s (h.sessions s hs), fun id userId ha => h'.accounts id userId (h.accounts id userId ha),
    fun u hu => h'.users u (h.users u hu), fun id code hc => h'.codes id code (h.codes id code hc),
    fun t ht => h'.tokens t (h.tokens t ht)⟩

theorem Advances.bound {w w' : World} (h : Advances w w') {t : Token} (ht : t.Bound w) : t.Bound w' := by
  obtain ⟨s, hs, hid, howner⟩ := ht.session
  obtain ⟨s', hs', hid', hframe⟩ := h.sessions s ⟨s, hs, rfl, rfl⟩
  exact ⟨⟨s', hs', hid'.trans hid, (frame_eq hframe).2.1.trans howner⟩, ht.user, h.users _ ht.held, h.codes _ _ ht.role⟩

theorem Advances.runHeld {w w' : World} (h : Advances w w') {p : Authentication.Proc} (hp : RunHeld w p) :
    RunHeld w' p := by
  cases p with
  | refreshing | authorized | loggingIn => exact hp
  | revoking => exact h.sessions _ hp
  | resettingAccount => exact h.accounts _ _ hp
  | _ => trivial

section World
variable {w w' : World}

theorem Sound.accountBound (h : Sound w) {a : AuthenticationAccount} (ha : a ∈ w.rows.accounts) :
    AccountBound w a.id a.userId :=
  ⟨h.accountIds a ha, fun r hr hid => by rw [h.accountKeys.eq_of_key_eq hr ha hid]⟩

theorem Sound.userHeld (h : Sound w) {u : User} (hu : u ∈ w.db.users) : UserHeld w u :=
  ⟨h.identity.users.rowsUsed u hu, fun r hr hid => by
    have he : r = u := h.identity.users.keyed.eq_of_key_eq hr hu hid
    exact ⟨by rw [he], Or.inl he⟩⟩

/-! ## Steps on users, tenants and roles -/

/-- A version that has been read comes before those that are written later. -/
theorem userHeld_step {st : Identity.System} {l : Identity.Label} (horderly : Orderly w.identity)
    (hs : Identity.step w.identity l = some st) {u : User} (hu : UserHeld w u) :
    UserHeld { w with identity := st } u := by
  obtain ⟨hid, hrows⟩ := hu
  refine ⟨(Identity.locked_users.touches hs).used_subset _ hid, fun r' hr' hkey => ?_⟩
  have hused : r'.id ∈ w.identity.world.users := hkey ▸ hid
  rcases horderly.users.row_of_used Identity.locked_users hs hr' hused with hr | ⟨r, hr, op, happly⟩
  · exact hrows r' hr hkey
  · obtain ⟨u', hu', rfl⟩ := Effect.except_map_eq_ok.mp happly
    obtain ⟨hid', hver, htenant⟩ := Identity.UserEdit.apply_eq_ok hu'
    obtain ⟨ht, hr'⟩ := hrows r hr (hid'.symm.trans hkey)
    have hlt : r.version < (UserRepository.bump u').version := Nat.lt_succ_of_le hver.ge
    refine ⟨htenant.trans ht, Or.inr ?_⟩
    rcases hr' with rfl | hv
    · exact hlt
    · exact hv.trans hlt

theorem Sound.of_identity {st : Identity.System} {l : Identity.Label} (h : Sound w)
    (hs : Identity.step w.identity l = some st) :
    Sound { w with identity := st } ∧ Advances w { w with identity := st } := by
  have hadv : Advances w { w with identity := st } :=
    ⟨fun _ hs => hs, fun _ _ ha => ha, fun _ hu => userHeld_step h.identity hs hu,
      fun _ _ hc => h.identity.hasCode hs hc, fun _ ht => ht⟩
  exact ⟨⟨h.identity.step hs, h.accountKeys, h.accountIds, h.sessions, fun p hp => hadv.runHeld (h.runs p hp),
    fun t ht => hadv.bound (h.tokens t ht)⟩, hadv⟩

/-! ## Steps on the sessions -/

/-- The sessions have the same frames. -/
structure SameFrames (rows rows' : List AuthenticationSession) : Prop where
  kept : ∀ s ∈ rows, ∃ s' ∈ rows', s'.id = s.id ∧ frame s' = frame s
  old : ∀ s' ∈ rows', ∃ s ∈ rows, s.id = s'.id ∧ frame s = frame s'

theorem SameFrames.refl (rows : List AuthenticationSession) : SameFrames rows rows :=
  ⟨fun s hs => ⟨s, hs, rfl, rfl⟩, fun s hs => ⟨s, hs, rfl, rfl⟩⟩

theorem sameFrames_update {rows rows' : Authentication.World} {owner : Option String} {s : AuthenticationSession}
    (h : Authentication.SessionRepository.update rows owner s = some rows')
    (hs : ∃ r ∈ rows.sessions.rows, r.id = s.id ∧ frame r = frame s) :
    SameFrames rows.sessions.rows rows'.sessions.rows := by
  obtain ⟨hmem, hrows, -⟩ := Authentication.SessionRepository.update_eq_some h
  obtain ⟨r₀, hr₀, hid₀, hframe₀⟩ := hs
  refine ⟨fun r hr => ?_, fun r' hr' => ?_⟩
  · by_cases hsel : Authentication.SessionRepository.selects owner s r = true
    · have hid := Authentication.SessionRepository.id_of_selects hsel
      have he : r = r₀ := rows.sessions.eq_of_key_eq hr hr₀ (hid.symm.trans hid₀.symm)
      exact ⟨s, hmem, hid, by rw [he, hframe₀]⟩
    · exact ⟨r, hrows ▸ mem_updateWhere.mpr (Or.inr ⟨hr, (Bool.not_eq_true _).mp hsel⟩), rfl, rfl⟩
  · rcases Authentication.SessionRepository.mem_of_update h hr' with rfl | ⟨hr, -⟩
    · exact ⟨r₀, hr₀, hid₀, hframe₀⟩
    · exact ⟨r', hr, rfl, rfl⟩

theorem sameFrames_revokeWhere (rows : Authentication.World) (p : AuthenticationSession → Bool) (now : ℕ) :
    SameFrames rows.sessions.rows (Authentication.SessionRepository.revokeWhere rows p now).sessions.rows := by
  refine ⟨fun r hr => ?_, fun r' hr' => ?_⟩
  · by_cases hp : (p r && r.revokedAt.isNone) = true
    · exact ⟨_, mem_updateWhere.mpr (Or.inl ⟨r, hr, hp, rfl⟩), rfl, rfl⟩
    · exact ⟨r, mem_updateWhere.mpr (Or.inr ⟨hr, (Bool.not_eq_true _).mp hp⟩), rfl, rfl⟩
  · rcases mem_updateWhere.mp hr' with ⟨r, hr, -, rfl⟩ | ⟨hr, -⟩
    · exact ⟨r, hr, rfl, rfl⟩
    · exact ⟨r', hr, rfl, rfl⟩

theorem frame_of_revoke {s : AuthenticationSession} {s' : AuthenticationSession.IsRevoked} {now : ℕ}
    (h : s.revoke now = .ok s') : s'.val.id = s.id ∧ frame s'.val = frame s := by
  unfold AuthenticationSession.revoke at h
  split_ifs at h
  cases h
  exact ⟨rfl, rfl⟩

theorem frame_of_renew {ports : Authentication.Ports} {s s' : AuthenticationSession} {token : String} {now : ℕ}
    (h : Authentication.RefreshToken.renew ports s token now = .ok s') : s'.id = s.id ∧ frame s' = frame s := by
  obtain ⟨_, -, h⟩ := Effect.except_bind_eq_ok.mp h
  obtain ⟨_, -, h⟩ := Effect.except_bind_eq_ok.mp h
  cases h
  exact ⟨rfl, rfl⟩

/-- The accounts of the ids are ones of the same users. -/
structure SameUsers (accounts accounts' : List AuthenticationAccount) : Prop where
  keyed : Keyed (fun a : AuthenticationAccount => a.id) accounts'
  old : ∀ a' ∈ accounts', ∃ a ∈ accounts, a.id = a'.id ∧ a.userId = a'.userId

/-- Writes on the sessions and the accounts. -/
theorem Sound.of_rows {auth : Authentication.System} (h : Sound w)
    (hsessions : SameFrames w.rows.sessions.rows auth.world.sessions.rows)
    (haccounts : SameUsers w.rows.accounts auth.world.accounts)
    (hruns : Advances w { w with auth } → ∀ p ∈ auth.procs, RunHeld { w with auth } p) :
    Sound { w with auth } ∧ Advances w { w with auth } := by
  have hadv : Advances w { w with auth } := by
    refine ⟨?_, ?_, fun _ hu => hu, fun _ _ hc => hc, fun _ ht => ht⟩
    · rintro s ⟨r, hr, hid, hframe⟩
      obtain ⟨r', hr', hid', hframe'⟩ := hsessions.kept r hr
      exact ⟨r', hr', hid'.trans hid, hframe'.trans hframe⟩
    · rintro id userId ⟨hid, hall⟩
      refine ⟨hid, fun a' ha' hkey => ?_⟩
      obtain ⟨a, ha, haid, huser⟩ := haccounts.old a' ha'
      exact huser ▸ hall a ha (haid.trans hkey)
  refine ⟨⟨h.identity, haccounts.keyed, fun a' ha' => ?_, fun s' hs' => ?_, hruns hadv,
    fun t ht => hadv.bound (h.tokens t ht)⟩, hadv⟩
  · obtain ⟨a, ha, haid, -⟩ := haccounts.old a' ha'
    exact haid ▸ h.accountIds a ha
  · obtain ⟨s, hs, -, hframe⟩ := hsessions.old s' hs'
    obtain ⟨haccount, howner, hexpires, hcreated⟩ := frame_eq hframe
    obtain ⟨hbound, hlife⟩ := h.sessions s hs
    exact ⟨haccount ▸ howner ▸ hadv.accounts _ _ hbound, hexpires ▸ hcreated ▸ hlife⟩

theorem SameUsers.refl (h : Sound w) : SameUsers w.rows.accounts w.rows.accounts :=
  ⟨h.accountKeys, fun a ha => ⟨a, ha, rfl, rfl⟩⟩

theorem sameUsers_update (h : Sound w) {account : AuthenticationAccount}
    (ha : ∀ r ∈ w.rows.accounts, r.id = account.id → r.userId = account.userId) :
    SameUsers w.rows.accounts (updateWhere (·.id == account.id) (fun _ => account) w.rows.accounts) := by
  refine ⟨h.accountKeys.updateWhere fun r _ hr => (eq_of_beq hr).symm, fun a' ha' => ?_⟩
  rcases mem_updateWhere.mp ha' with ⟨r, hr, hid, rfl⟩ | ⟨hr, -⟩
  · exact ⟨r, hr, eq_of_beq hid, ha r hr (eq_of_beq hid)⟩
  · exact ⟨a', hr, rfl, rfl⟩

/-- What an action of a run on the sessions does. -/
theorem rows_of_acts {ports : Authentication.Ports} {rows : Authentication.World} {p p' : Authentication.Proc}
    {a : Authentication.Action} (h : Sound w) (hp : RunHeld w p)
    (ha : Authentication.Acts ports w.rows p a rows p') :
    SameFrames w.rows.sessions.rows rows.sessions.rows ∧ SameUsers w.rows.accounts rows.accounts ∧ RunHeld w p' := by
  cases ha with
  | authorize | renew | createSession => exact hp.elim
  | saveRevoked hu =>
    have haccounts : rows.accounts = w.rows.accounts := by
      unfold Authentication.SessionRepository.update at hu
      split_ifs at hu
      cases hu
      rfl
    exact ⟨sameFrames_update hu hp, haccounts ▸ SameUsers.refl h, trivial⟩
  | revokeOthers => exact ⟨sameFrames_revokeWhere _ _ _, SameUsers.refl h, trivial⟩
  | findAccount hfound =>
    exact ⟨SameFrames.refl _, SameUsers.refl h, h.accountBound (List.mem_of_find?_eq_some hfound)⟩
  | @commitReset _ _ account _ _ _ hcommit =>
    obtain ⟨hsessions, -⟩ := Authentication.ResetPassword.commit_eq_some hcommit
    have haccounts : ∃ account' : AuthenticationAccount, account'.id = account.id ∧
        account'.userId = account.userId ∧
        rows.accounts = updateWhere (·.id == account'.id) (fun _ => account') w.rows.accounts := by
      obtain ⟨_, -, hcommit⟩ := Option.bind_eq_some_iff.mp hcommit
      obtain ⟨w₁, h₁, hcommit⟩ := Option.bind_eq_some_iff.mp hcommit
      obtain ⟨passwordHash, -, hcommit⟩ := Option.bind_eq_some_iff.mp hcommit
      obtain ⟨w₂, h₂, hcommit⟩ := Option.bind_eq_some_iff.mp hcommit
      unfold Authentication.PasswordResetRepository.update at h₁
      unfold Authentication.AccountRepository.update at h₂
      split_ifs at h₁ h₂
      cases h₁; cases h₂; cases hcommit
      exact ⟨account.update (some passwordHash) _, rfl, rfl, rfl⟩
    obtain ⟨account', hid, huser, haccounts⟩ := haccounts
    refine ⟨?_, ?_, trivial⟩
    · rw [hsessions]
      exact sameFrames_revokeWhere _ _ _
    · rw [haccounts]
      refine sameUsers_update h fun r hr hkey => ?_
      exact (hp.2 r hr (hkey.trans hid)).trans huser.symm
  | fail => exact ⟨SameFrames.refl _, SameUsers.refl h, trivial⟩

theorem runHeld_of_starts {ports : Authentication.Ports} {s : Authentication.Start} {p : Authentication.Proc}
    (hissuing : isIssuing s = false) (h : Authentication.Starts ports w.rows s p) : RunHeld w p := by
  cases h with
  | refreshToken | login => cases hissuing
  | logout hr =>
    obtain ⟨r, hr, hrevoke⟩ := Authentication.Logout.exists_of_read hr
    obtain ⟨hid, hframe⟩ := frame_of_revoke hrevoke
    exact ⟨r, hr, hid.symm, hframe.symm⟩
  | revokeSession hr =>
    obtain ⟨r, hr, hrevoke⟩ := Authentication.RevokeSession.exists_of_read hr
    obtain ⟨hid, hframe⟩ := frame_of_revoke hrevoke
    exact ⟨r, hr, hid.symm, hframe.symm⟩
  | revokeAllSessions | resetPassword => trivial

theorem Sound.of_accounts (h : Sound w) {accounts : List AuthenticationAccount}
    (haccounts : SameUsers w.rows.accounts accounts) :
    Sound (w.withAccounts accounts) ∧ Advances w (w.withAccounts accounts) :=
  h.of_rows (SameFrames.refl _) haccounts fun hadv p hp => hadv.runHeld (h.runs p hp)

/-- A new account: no session and no run knows its id. -/
theorem Sound.of_newAccount (h : Sound w) {account : AuthenticationAccount} (hnew : account.id ∉ w.accountIds) :
    Sound { w.withAccounts (account :: w.rows.accounts) with accountIds := account.id :: w.accountIds } ∧
      Advances w { w.withAccounts (account :: w.rows.accounts) with accountIds := account.id :: w.accountIds } := by
  have hadv : Advances w
      { w.withAccounts (account :: w.rows.accounts) with accountIds := account.id :: w.accountIds } := by
    refine ⟨fun _ hs => hs, ?_, fun _ hu => hu, fun _ _ hc => hc, fun _ ht => ht⟩
    rintro id userId ⟨hid, hall⟩
    refine ⟨List.mem_cons_of_mem _ hid, fun a ha hkey => ?_⟩
    rcases List.mem_cons.mp ha with rfl | ha
    · exact absurd (hkey ▸ hid) hnew
    · exact hall a ha hkey
  refine ⟨⟨h.identity, ?_, fun a ha => ?_, fun s hs => ?_, fun p hp => hadv.runHeld (h.runs p hp),
    fun t ht => hadv.bound (h.tokens t ht)⟩, hadv⟩
  · exact h.accountKeys.cons fun a ha hid => hnew (hid ▸ h.accountIds a ha)
  · rcases List.mem_cons.mp ha with rfl | ha
    · exact List.mem_cons_self
    · exact List.mem_cons_of_mem _ (h.accountIds a ha)
  · exact ⟨hadv.accounts _ _ (h.sessions s hs).1, (h.sessions s hs).2⟩

/-- **What goes on besides the requests** takes nothing back. -/
theorem Sound.background {ports : Ports} {l : Background} (h : Sound w) (hs : background ports w l = some w') :
    Sound w' ∧ Advances w w' := by
  cases l with
  | identity i a =>
    obtain ⟨st, hst, rfl⟩ := Option.map_eq_some_iff.mp hs
    exact h.of_identity hst
  | write write =>
    obtain ⟨st, hst, rfl⟩ := Option.map_eq_some_iff.mp hs
    exact h.of_identity hst
  | session s =>
    simp only [Http.background] at hs
    split_ifs at hs with hissuing
    obtain ⟨auth, hauth, rfl⟩ := Option.map_eq_some_iff.mp hs
    obtain ⟨rows, p, hstart, rfl⟩ := Interleaving.step_start.mp hauth
    obtain ⟨rfl, hstarts⟩ := Authentication.start_starts hstart
    refine h.of_rows (SameFrames.refl _) (SameUsers.refl h) fun hadv q hq => ?_
    have hp := runHeld_of_starts ((Bool.not_eq_true _).mp hissuing) hstarts
    exact hadv.runHeld (Pool.forall_mem_concat h.runs hp q hq)
  | sessionAct i a =>
    obtain ⟨auth, hauth, rfl⟩ := Option.map_eq_some_iff.mp hs
    obtain ⟨p, rows, p', hp, hact, rfl⟩ := Interleaving.step_act.mp hauth
    obtain ⟨hsessions, haccounts, hp'⟩ :=
      rows_of_acts h (h.runs p (Pool.mem_of_getElem? hp)) (Authentication.act_acts hact)
    refine h.of_rows hsessions haccounts fun hadv q hq => ?_
    rcases List.mem_or_eq_of_mem_set hq with hq | rfl
    · exact hadv.runHeld (h.runs q hq)
    · exact hadv.runHeld hp'
  | addAccount account =>
    simp only [Http.background] at hs
    split_ifs at hs with hnew
    cases hs
    exact h.of_newAccount (by simpa using hnew)
  | saveAccount account =>
    simp only [Http.background] at hs
    split_ifs at hs with hany
    cases hs
    obtain ⟨a, ha, hsame⟩ := List.any_eq_true.mp hany
    rw [Bool.and_eq_true, beq_iff_eq, beq_iff_eq] at hsame
    refine h.of_accounts (sameUsers_update h fun r hr hid => ?_)
    rw [h.accountKeys.eq_of_key_eq hr ha (hid.trans hsame.1.symm)]
    exact hsame.2
  | removeAccount id =>
    cases hs
    refine h.of_accounts ⟨h.accountKeys.sublist List.filter_sublist, fun a ha => ?_⟩
    exact ⟨a, (List.mem_filter.mp ha).1, rfl, rfl⟩

/-! ## Tokens -/

/-- A token is signed for a session that is stored. -/
theorem Sound.of_token (h : Sound w) {t : Token} (ht : t.Bound w) :
    Sound { w with tokens := t :: w.tokens } ∧ Advances w { w with tokens := t :: w.tokens } := by
  have hadv : Advances w { w with tokens := t :: w.tokens } :=
    ⟨fun _ h => h, fun _ _ h => h, fun _ h => h, fun _ _ h => h, fun _ h => List.mem_cons_of_mem _ h⟩
  refine ⟨⟨h.identity, h.accountKeys, h.accountIds, h.sessions, fun p hp => hadv.runHeld (h.runs p hp),
    fun t' ht' => ?_⟩, hadv⟩
  rcases List.mem_cons.mp ht' with rfl | ht'
  · exact hadv.bound ht
  · exact hadv.bound (h.tokens t' ht')

/-- A login writes a session of the account. -/
theorem Sound.of_login {ports : Authentication.Ports} {account : AuthenticationAccount} {id token : String}
    {ip agent : Option String} {now : ℕ} {session : AuthenticationSession} {rows : Authentication.World} (h : Sound w)
    (haccount : AccountBound w account.id account.userId)
    (hsession : Authentication.Login.session ports account id token ip agent now = .ok session)
    (hc : Authentication.SessionRepository.create w.rows session = some rows) :
    Sound { w with auth := ⟨rows, w.auth.procs⟩ } ∧ Advances w { w with auth := ⟨rows, w.auth.procs⟩ } ∧
      session ∈ rows.sessions.rows ∧ session.ownerId = account.userId := by
  obtain ⟨-, hrows, -⟩ := Authentication.SessionRepository.create_eq_some hc
  have haccounts : rows.accounts = w.rows.accounts := by
    obtain ⟨_, -, rfl⟩ := Option.map_eq_some_iff.mp hc
    rfl
  have hfields : session.authenticationAccountId = account.id ∧ session.ownerId = account.userId ∧
      session.expiresAt = session.createdAt + accessTokenMaxAge := by
    obtain ⟨expiresAt, he, hsession⟩ := Effect.except_bind_eq_ok.mp hsession
    obtain ⟨_, -, hsession⟩ := Effect.except_bind_eq_ok.mp hsession
    cases hsession
    unfold Authentication.ExpirationDate.create at he
    split_ifs at he
    cases he
    exact ⟨rfl, rfl, rfl⟩
  obtain ⟨hid, howner, hlife⟩ := hfields
  have hadv : Advances w { w with auth := ⟨rows, w.auth.procs⟩ } := by
    refine ⟨?_, ?_, fun _ hu => hu, fun _ _ hc => hc, fun _ ht => ht⟩
    · rintro s ⟨r, hr, hr'⟩
      exact ⟨r, hrows ▸ List.mem_cons_of_mem _ hr, hr'⟩
    · rintro id userId ⟨hmem, hall⟩
      exact ⟨hmem, fun a ha => hall a (haccounts ▸ ha)⟩
  refine ⟨⟨h.identity, haccounts ▸ h.accountKeys, fun a ha => h.accountIds a (haccounts ▸ ha), fun s hs => ?_,
    fun p hp => hadv.runHeld (h.runs p hp), fun t ht => hadv.bound (h.tokens t ht)⟩, hadv,
    hrows ▸ List.mem_cons_self, howner⟩
  rcases List.mem_cons.mp (hrows ▸ hs) with rfl | hs
  · exact ⟨hid ▸ howner ▸ hadv.accounts _ _ haccount, hlife⟩
  · exact ⟨hadv.accounts _ _ (h.sessions s hs).1, (h.sessions s hs).2⟩

/-- A refresh writes the session it has read. -/
theorem Sound.of_refresh {ports : Authentication.Ports} {session renewed : AuthenticationSession} {token : String}
    {now : ℕ} {rows : Authentication.World} (h : Sound w) (hheld : SessionHeld w session)
    (hrenew : Authentication.RefreshToken.renew ports session token now = .ok renewed)
    (hu : Authentication.SessionRepository.update w.rows none renewed = some rows) :
    Sound { w with auth := ⟨rows, w.auth.procs⟩ } ∧ Advances w { w with auth := ⟨rows, w.auth.procs⟩ } := by
  have haccounts : rows.accounts = w.rows.accounts := by
    unfold Authentication.SessionRepository.update at hu
    split_ifs at hu
    cases hu
    rfl
  obtain ⟨hid, hframe⟩ := frame_of_renew hrenew
  refine h.of_rows (sameFrames_update hu ?_) (haccounts ▸ SameUsers.refl h) fun hadv p hp => hadv.runHeld (h.runs p hp)
  obtain ⟨r, hr, hid', hframe'⟩ := hheld
  exact ⟨r, hr, hid'.trans hid.symm, hframe'.trans hframe.symm⟩

end World

end Neltrik.Http
