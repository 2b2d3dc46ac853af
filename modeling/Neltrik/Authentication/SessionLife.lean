import Neltrik.Authentication.Steps

/-! # How long a session lives

`Login` gives the session the life of the access token it returns. `RefreshToken` returns another access
token and sets a new window for the refresh token, and hands the `expiresAt` of the session back to `renew`.
So no run changes the `expiresAt` of a session (`endures_of_acts`), and what `SessionValidatorProvider`
accepts ends with the access token of the login, however often the session is refreshed (`session_life`). -/

namespace Neltrik.Authentication.SessionLife

open Neltrik.Lib Neltrik.Lib.Machine Neltrik.Lib.Table
open Neltrik.Authorization (AuthenticationAccount)

/-! ## The validator -/

/-- The states of the user, the account and the tenant of a session. -/
structure OwnerState where
  userStatus : String
  emailVerified : Bool
  tenantStatus : String
  deriving DecidableEq

/-- What the guards ask for, and the state of the owner. -/
structure SessionResolution extends OwnerState where
  isValid : Bool
  deriving DecidableEq

/-- `findByIdWithOwnerState`; the guard reads outside of any scope. -/
def findByIdWithOwnerState (ownerState : AuthenticationSession → OwnerState) (w : World) (id : String) :
    Option (AuthenticationSession × OwnerState) :=
  (SessionRepository.findById w none id).map fun session => (session, ownerState session)

/-- `SessionValidatorProvider.resolve`. -/
def resolve (ownerState : AuthenticationSession → OwnerState) (w : World) (sessionId : String) (now : ℕ) :
    SessionResolution :=
  match findByIdWithOwnerState ownerState w sessionId with
  | none => { isValid := false, userStatus := "SUSPENDED", emailVerified := false, tenantStatus := "SUSPENDED" }
  | some (session, state) =>
    if session.isRevoked ∨ session.isExpired now then
      { isValid := false, userStatus := "SUSPENDED", emailVerified := false, tenantStatus := "SUSPENDED" }
    else { state with isValid := true }

/-- The session of the id is revoked. -/
def Revoked (w : World) (id : String) : Prop := ∃ s ∈ w.sessions.rows, s.id = id ∧ s.isRevoked = true

/-- The row of the session, with its end. -/
def Ends (w : World) (id : String) (expiresAt : ℕ) : Prop :=
  ∃ s ∈ w.sessions.rows, s.id = id ∧ s.expiresAt = expiresAt

theorem findById_of_mem {w : World} {s : AuthenticationSession} (hs : s ∈ w.sessions.rows) :
    SessionRepository.findById w none s.id = some s := by
  have hfound := w.sessions.keyed.find?_key hs
  unfold SessionRepository.findById SessionRepository.inScope
  simp only [Option.all_none, Bool.and_true]
  exact hfound

/-- **What the validator accepts** of a session that is stored. -/
theorem isValid_resolve_iff {w : World} {id : String} {expiresAt now : ℕ} (h : Ends w id expiresAt)
    (ownerState : AuthenticationSession → OwnerState) :
    (resolve ownerState w id now).isValid = true ↔ now < expiresAt ∧ ¬ Revoked w id := by
  obtain ⟨s, hs, rfl, rfl⟩ := h
  have hrevoked : Revoked w s.id ↔ s.isRevoked = true := by
    constructor
    · rintro ⟨r, hr, hid, hrev⟩
      rwa [w.sessions.eq_of_key_eq hr hs hid] at hrev
    · exact fun hrev => ⟨s, hs, rfl, hrev⟩
  have hexpired : s.isExpired now = true ↔ s.expiresAt ≤ now := by
    unfold AuthenticationSession.isExpired ExpirationDate.isExpired
    exact decide_eq_true_iff
  unfold resolve findByIdWithOwnerState
  rw [findById_of_mem hs, hrevoked]
  dsimp only [Option.map_some]
  by_cases hc : s.isRevoked = true ∨ s.isExpired now = true
  · rw [if_pos hc]
    refine iff_of_false Bool.false_ne_true ?_
    rintro ⟨hlt, hlive⟩
    have := hexpired.mp (hc.resolve_left hlive)
    omega
  · rw [if_neg hc]
    obtain ⟨hlive, hnot⟩ := not_or.mp hc
    exact iff_of_true rfl ⟨not_le.mp fun hle => hnot (hexpired.mpr hle), hlive⟩

/-! ## What a copy keeps -/

theorem expiresAt_of_renew {ports : Ports} {s s' : AuthenticationSession} {token : String} {now : ℕ}
    (h : RefreshToken.renew ports s token now = .ok s') : s'.id = s.id ∧ s'.expiresAt = s.expiresAt := by
  obtain ⟨_, -, h⟩ := Effect.except_bind_eq_ok.mp h
  obtain ⟨_, -, h⟩ := Effect.except_bind_eq_ok.mp h
  cases h
  exact ⟨rfl, rfl⟩

theorem expiresAt_of_revoke {s : AuthenticationSession} {s' : AuthenticationSession.IsRevoked} {now : ℕ}
    (h : s.revoke now = .ok s') : s'.val.id = s.id ∧ s'.val.expiresAt = s.expiresAt := by
  unfold AuthenticationSession.revoke at h
  split_ifs at h
  cases h
  exact ⟨rfl, rfl⟩

theorem expiresAt_of_login {ports : Ports} {account : AuthenticationAccount} {id token : String}
    {ip agent : Option String} {now : ℕ} {s : AuthenticationSession}
    (h : Login.session ports account id token ip agent now = .ok s) :
    s.id = id ∧ s.expiresAt = calculateAccessTokenExpiration now := by
  obtain ⟨expiresAt, he, h⟩ := Effect.except_bind_eq_ok.mp h
  obtain ⟨_, -, h⟩ := Effect.except_bind_eq_ok.mp h
  cases h
  unfold ExpirationDate.create at he
  split_ifs at he
  cases he
  exact ⟨rfl, rfl⟩

/-! ## The invariant -/

/-- The session a process holds is stored with the same end. -/
def Stored (w : World) : Proc → Prop
  | .refreshing _ _ s | .authorized _ _ s => Ends w s.id s.expiresAt
  | .revoking _ s => Ends w s.val.id s.val.expiresAt
  | _ => True

/-- No session is lost, and none gets another end. -/
def Endures (w w' : World) : Prop := ∀ s ∈ w.sessions.rows, Ends w' s.id s.expiresAt

theorem Endures.ends {w w' : World} (h : Endures w w') {id : String} {expiresAt : ℕ}
    (hw : Ends w id expiresAt) : Ends w' id expiresAt := by
  obtain ⟨s, hs, rfl, rfl⟩ := hw
  exact h s hs

theorem Endures.refl (w : World) : Endures w w := fun s hs => ⟨s, hs, rfl, rfl⟩

theorem Endures.stored {w w' : World} (h : Endures w w') {p : Proc} (hp : Stored w p) : Stored w' p := by
  cases p with
  | refreshing | authorized | revoking => exact h.ends hp
  | _ => trivial

/-- The row of the key is the one the process holds, as far as the end goes. -/
theorem endures_of_update {w w' : World} {owner : Option String} {s : AuthenticationSession}
    (h : SessionRepository.update w owner s = some w') (hs : Ends w s.id s.expiresAt) : Endures w w' := by
  obtain ⟨hmem, hrows, -⟩ := SessionRepository.update_eq_some h
  obtain ⟨r₀, hr₀, hid₀, he₀⟩ := hs
  intro r hr
  by_cases hsel : SessionRepository.selects owner s r = true
  · have hid : s.id = r.id := SessionRepository.id_of_selects hsel
    have hr' : r = r₀ := w.sessions.eq_of_key_eq hr hr₀ (hid.symm.trans hid₀.symm)
    exact ⟨s, hmem, hid, by rw [hr', he₀]⟩
  · exact ⟨r, hrows ▸ mem_updateWhere.mpr (Or.inr ⟨hr, (Bool.not_eq_true _).mp hsel⟩), rfl, rfl⟩

theorem endures_revokeWhere (w : World) (p : AuthenticationSession → Bool) (now : ℕ) :
    Endures w (SessionRepository.revokeWhere w p now) := by
  intro r hr
  by_cases hp : (p r && r.revokedAt.isNone) = true
  · exact ⟨_, mem_updateWhere.mpr (Or.inl ⟨r, hr, hp, rfl⟩), rfl, rfl⟩
  · exact ⟨r, mem_updateWhere.mpr (Or.inr ⟨hr, (Bool.not_eq_true _).mp hp⟩), rfl, rfl⟩

section Step
variable {ports : Ports} {w w' : World} {p p' : Proc} {a : Action}

theorem endures_of_acts (h : Acts ports w p a w' p') (hp : Stored w p) : Endures w w' := by
  cases h with
  | authorize | findAccount | fail => exact Endures.refl w
  | renew hr hu =>
    obtain ⟨hid, he⟩ := expiresAt_of_renew hr
    have hends := endures_of_update hu (by rw [hid, he]; exact hp)
    exact hends
  | createSession hs hc =>
    obtain ⟨-, hrows, -⟩ := SessionRepository.create_eq_some hc
    exact fun r hr => ⟨r, hrows ▸ List.mem_cons_of_mem _ hr, rfl, rfl⟩
  | saveRevoked hu => exact endures_of_update hu hp
  | revokeOthers => exact endures_revokeWhere w _ _
  | commitReset hc =>
    obtain ⟨hsessions, -⟩ := ResetPassword.commit_eq_some hc
    intro r hr
    unfold Ends
    rw [hsessions]
    exact endures_revokeWhere w _ _ r hr

theorem stored_of_acts (h : Acts ports w p a w' p') (hp : Stored w p) : Stored w' p' := by
  cases h with
  | authorize => exact hp
  | _ => trivial

theorem stored_of_starts {s : Start} (h : Starts ports w s p) : Stored w p := by
  cases h with
  | refreshToken hr => exact ⟨_, (RefreshToken.mem_of_read hr).1, rfl, rfl⟩
  | logout hr =>
    obtain ⟨r, hr, hrevoke⟩ := Logout.exists_of_read hr
    obtain ⟨hid, he⟩ := expiresAt_of_revoke hrevoke
    exact ⟨r, hr, hid.symm, he.symm⟩
  | revokeSession hr =>
    obtain ⟨r, hr, hrevoke⟩ := RevokeSession.exists_of_read hr
    obtain ⟨hid, he⟩ := expiresAt_of_revoke hrevoke
    exact ⟨r, hr, hid.symm, he.symm⟩
  | _ => trivial

end Step

/-- What every state has. -/
abbrev Inv : System → Prop := Interleaving.Inv (fun _ => True) Stored (fun _ _ => True)

theorem inv_step {ports : Ports} {st st' : System} {l : Label} (h : Inv st)
    (hs : step ports st l = some st') : Inv st' := by
  refine Interleaving.Inv.step (G := fun _ _ => True) (fun _ _ _ => trivial) ?_ ?_ h trivial hs
  · intro st s w p hi _ hw
    obtain ⟨rfl, hstarts⟩ := start_starts hw
    exact ⟨trivial, stored_of_starts hstarts, fun q hq => ⟨hi.procs q hq, trivial⟩⟩
  · intro st i a p w p' hi _ hp hw
    have hacts := act_acts hw
    have hends := endures_of_acts hacts (hi.proc hp)
    exact ⟨trivial, stored_of_acts hacts (hi.proc hp), fun j q _ hq => ⟨hends.stored (hi.proc hq), trivial⟩⟩

/-- **A step changes the end of no session.** -/
theorem endures_step {ports : Ports} {st st' : System} {l : Label} (h : Inv st)
    (hs : step ports st l = some st') : Endures st.world st'.world := by
  cases l with
  | start s =>
    obtain ⟨w, p, hw, rfl⟩ := Interleaving.step_start.mp hs
    obtain ⟨rfl, -⟩ := start_starts hw
    exact Endures.refl _
  | act i a =>
    obtain ⟨p, w, p', hp, hw, rfl⟩ := Interleaving.step_act.mp hs
    exact endures_of_acts (act_acts hw) (h.proc hp)

/-- A login stores a session that ends with the access token. -/
theorem ends_of_createSession {ports : Ports} {st st' : System} {i : ℕ} {id token : String}
    {ip agent : Option String} {now : ℕ} (hs : step ports st (.act i (.createSession id token ip agent now)) = some st') :
    Ends st'.world id (now + accessTokenMaxAge) := by
  obtain ⟨p, w, p', hp, hw, rfl⟩ := Interleaving.step_act.mp hs
  cases act_acts hw with
  | createSession hsession hc =>
    obtain ⟨hid, he⟩ := expiresAt_of_login hsession
    obtain ⟨-, hrows, -⟩ := SessionRepository.create_eq_some hc
    exact ⟨_, hrows ▸ List.mem_cons_self, hid, he⟩

/-- **A session lives as long as the access token of its login**: whatever runs before and after, in every
state and at every instant `n`. -/
theorem session_life {ports : Ports} {st₀ st₁ st₂ st : System} {before after : List Label} {i : ℕ}
    {id token : String} {ip agent : Option String} {t₀ : ℕ} (hidle : st₀.procs = [])
    (hbefore : run (step ports) st₀ before = some st₁)
    (hlogin : step ports st₁ (.act i (.createSession id token ip agent t₀)) = some st₂)
    (hafter : run (step ports) st₂ after = some st) (ownerState : AuthenticationSession → OwnerState) (n : ℕ) :
    (resolve ownerState st.world id n).isValid = true ↔ n < t₀ + accessTokenMaxAge ∧ ¬ Revoked st.world id := by
  have h₁ : Inv st₁ := run_inv (fun _ _ _ => inv_step) (Interleaving.Inv.of_nil trivial hidle) hbefore
  have hstep : ∀ st l st', Inv st ∧ Ends st.world id (t₀ + accessTokenMaxAge) → step ports st l = some st' →
      Inv st' ∧ Ends st'.world id (t₀ + accessTokenMaxAge) :=
    fun st l st' h hs => ⟨inv_step h.1 hs, (endures_step h.1 hs).ends h.2⟩
  have h := run_inv hstep ⟨inv_step h₁ hlogin, ends_of_createSession hlogin⟩ hafter
  exact isValid_resolve_iff h.2 ownerState

/-! ## A refresh fourteen minutes after the login -/

/-- Any password is right. -/
def lifePorts : Ports := { examplePorts with compare := fun _ _ => true }

/-- An account without sessions. -/
def lifeSystem : System :=
  { world :=
      { sessions := KeyedTable.empty,
        accounts := [⟨"a1", "u1", "email-password", "ann@acme.io", true, some "$2b$10$e0MYzXyjpJS7Pd0RVvHwHe", 0, 0⟩],
        resets := [], issued := [] }
    procs := [] }

/-- A login under way. -/
def loginStarts : List Label := [.start (.login "ann@acme.io" "secret")]

/-- Its session, at `0`. -/
def loginStep : Label := .act 0 (.createSession "s1" firstToken none none 0)

/-- A refresh under way, a minute before the session ends. -/
def refreshStarts : List Label := [.start (.refreshToken none firstToken 840000), .act 1 .findAccount]

/-- Its renewal. -/
def refreshStep : Label := .act 1 (.renew secondToken 840000)

/-- A user and a tenant that are active. -/
def activeOwner : AuthenticationSession → OwnerState := fun _ =>
  { userStatus := "ACTIVE", emailVerified := true, tenantStatus := "ACTIVE" }

theorem session_life_refreshed : ∃ st₁ st₂ st, run (step lifePorts) lifeSystem loginStarts = some st₁ ∧
    step lifePorts st₁ loginStep = some st₂ ∧
    run (step lifePorts) st₂ (refreshStarts ++ [refreshStep]) = some st ∧
    ∀ n, (resolve activeOwner st.world "s1" n).isValid = true ↔
      n < 0 + accessTokenMaxAge ∧ ¬ Revoked st.world "s1" := by
  have hrun : (run (step lifePorts) lifeSystem
      (loginStarts ++ (loginStep :: (refreshStarts ++ [refreshStep])))).isSome = true := by decide +kernel
  obtain ⟨st, hst⟩ := Option.isSome_iff_exists.mp hrun
  obtain ⟨st₁, h₁, hst⟩ := run_append_eq_some.mp hst
  obtain ⟨st₂, h₂, hst⟩ := run_cons_eq_some.mp hst
  exact ⟨st₁, st₂, st, h₁, h₂, hst, session_life rfl h₁ h₂ hst activeOwner⟩

/-- The session of the access token a step returns, and the instant. -/
def returned (st : System) : Label → Option (String × ℕ)
  | .act _ (.createSession id _ _ _ now) => some (id, now)
  | .act i (.renew _ now) =>
    match st.procs[i]? with
    | some (.authorized _ _ session) => some (session.id, now)
    | _ => none
  | _ => none

/-- Two minutes later the session has ended, and the token of the refresh has twelve more. -/
def endsEarly (st : System) : Bool :=
  returned st refreshStep == some ("s1", 840000) &&
    (step lifePorts st refreshStep).any fun st' =>
      !(resolve activeOwner st'.world "s1" 960000).isValid && st'.world.sessions.rows.all (!·.isRevoked)

theorem refreshed_session_ends_early : ¬ ∀ (ports : Ports) (st₀ st st' : System) (ls : List Label) (l : Label)
    (id : String) (t n : ℕ) (ownerState : AuthenticationSession → OwnerState), st₀.procs = [] →
    st₀.world.sessions.rows = [] → run (step ports) st₀ ls = some st → step ports st l = some st' →
      returned st l = some (id, t) → n < t + accessTokenMaxAge → ¬ Revoked st'.world id →
        (resolve ownerState st'.world id n).isValid = true := by
  intro h
  have hrun : (run (step lifePorts) lifeSystem (loginStarts ++ (loginStep :: refreshStarts))).any endsEarly = true := by
    decide +kernel
  obtain ⟨st, hst, hearly⟩ := (Option.any_eq_true _ _).mp hrun
  rw [endsEarly, Bool.and_eq_true, beq_iff_eq] at hearly
  obtain ⟨st', hst', hend⟩ := (Option.any_eq_true _ _).mp hearly.2
  rw [Bool.and_eq_true, Bool.not_eq_true', List.all_eq_true] at hend
  have hlive : ¬ Revoked st'.world "s1" := by
    rintro ⟨s, hs, -, hrevoked⟩
    have hnot := hend.2 s hs
    rw [hrevoked] at hnot
    cases hnot
  have hvalid := h lifePorts lifeSystem st st' _ refreshStep "s1" 840000 960000 activeOwner rfl rfl hst hst' hearly.1
    (by decide) hlive
  rw [hend.1] at hvalid
  cases hvalid

end Neltrik.Authentication.SessionLife
