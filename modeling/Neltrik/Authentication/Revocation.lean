import Neltrik.Authentication.Steps

/-! # The revocation of a session

An update writes the whole row that was read. Every writer but `RefreshToken` writes rows that are
revoked, or leaves the revoked ones alone; `RefreshToken` writes one that was not revoked when it was
read. So a revocation is undone by the `RefreshToken` runs it overtakes, and by nothing else. -/

namespace Neltrik.Authentication

open Neltrik.Lib Neltrik.Lib.Table Neltrik.Lib.Machine Neltrik.Lib.Pool

/-- The session of the id is revoked. -/
def Revoked (w : World) (id : String) : Prop := ∃ s ∈ w.sessions.rows, s.id = id ∧ s.isRevoked = true

instance (w : World) (id : String) : Decidable (Revoked w id) :=
  inferInstanceAs (Decidable (∃ s ∈ w.sessions.rows, s.id = id ∧ s.isRevoked = true))

/-- The session a `RefreshToken` run is about, from its read on. -/
def Proc.refreshes : Proc → Option String
  | .refreshing _ _ s | .authorized _ _ s => some s.id
  | .refreshed id _ _ => some id
  | _ => none

/-- A session that is revoked stays so, and no `RefreshToken` run that starts from then on succeeds
for it; runs are numbered in the order they start. -/
structure StaysRevoked (st st' : System) : Prop where
  rows : ∀ id, Revoked st.world id → Revoked st'.world id
  runs : ∀ id, Revoked st.world id → ∀ i ≥ st.procs.length, ∀ t ν,
    st'.procs[i]? ≠ some (.refreshed id t ν)

/-- The write of a `RefreshToken` run does not meet a revoked row. -/
def WritesUnrevoked (st : System) : Label → Prop
  | .act i (.renew _ _) => ∀ owner t s, st.procs[i]? = some (.authorized owner t s) →
      ¬ Revoked st.world s.id
  | _ => True

/-- Only the write of a `RefreshToken` run is asked for. -/
theorem writesUnrevoked_of_renew {st : System} {l : Label}
    (h : ∀ i ν now, l = .act i (.renew ν now) → WritesUnrevoked st l) : WritesUnrevoked st l := by
  cases l with
  | start s => trivial
  | act i a =>
    cases a with
    | findAccount | createSession | saveRevoked | revokeOthers | commitReset | fail => trivial
    | renew ν now => exact h i ν now rfl

/-! ## Rows -/

theorem Revoked.of_rows {w w' : World} (h : w'.sessions.rows = w.sessions.rows) {id : String}
    (hr : Revoked w id) : Revoked w' id := by
  obtain ⟨s, hs, he⟩ := hr
  exact ⟨s, h ▸ hs, he⟩

/-- An update of a revoked copy, or of a row that is not revoked. -/
theorem Revoked.of_update {w w' : World} {owner : Option String} {s : AuthenticationSession}
    (hu : SessionRepository.update w owner s = some w') (h : s.isRevoked = true ∨ ¬ Revoked w s.id)
    {id : String} (hr : Revoked w id) : Revoked w' id := by
  obtain ⟨hmem, hrows, -⟩ := SessionRepository.update_eq_some hu
  obtain ⟨r, hr, rfl, hrev⟩ := hr
  by_cases hid : r.id = s.id
  · have hs : s.isRevoked = true := h.resolve_right fun hn => hn ⟨r, hr, hid, hrev⟩
    exact ⟨s, hmem, hid.symm, hs⟩
  · refine ⟨r, hrows ▸ mem_updateWhere.mpr (Or.inr ⟨hr, ?_⟩), rfl, hrev⟩
    rw [SessionRepository.selects, Bool.and_eq_false_iff]
    exact Or.inl (by simpa using hid)

theorem Revoked.of_revokeWhere {w : World} {p : AuthenticationSession → Bool} {now : ℕ} {id : String}
    (hr : Revoked w id) : Revoked (SessionRepository.revokeWhere w p now) id := by
  obtain ⟨r, hr, rfl, hrev⟩ := hr
  -- the condition leaves out the rows that are revoked
  have hsome : r.revokedAt.isNone = false := by
    rw [AuthenticationSession.isRevoked] at hrev
    rw [← Option.not_isSome, hrev]; rfl
  exact ⟨r, mem_updateWhere.mpr (Or.inr ⟨hr, by rw [hsome, Bool.and_false]⟩), rfl, hrev⟩

/-! ## Actions -/

section Acts
variable {ports : Ports} {w w' : World} {p p' : Proc} {a : Action}

/-- **Every action keeps what is revoked** but the write of a `RefreshToken` run on a revoked row. -/
theorem Acts.revoked (h : Acts ports w p a w' p')
    (hg : ∀ owner t s ν now, p = .authorized owner t s → a = .renew ν now → ¬ Revoked w s.id)
    {id : String} (hr : Revoked w id) : Revoked w' id := by
  cases h with
  | authorize | findAccount | fail => exact hr
  | renew hs hu =>
    refine Revoked.of_update hu (Or.inr ?_) hr
    rw [(RefreshToken.renew_eq_ok hs).1]
    exact hg _ _ _ _ _ rfl rfl
  | createSession _ hc =>
    obtain ⟨-, hrows, -⟩ := SessionRepository.create_eq_some hc
    obtain ⟨s, hs, he⟩ := hr
    exact ⟨s, hrows ▸ List.mem_cons_of_mem _ hs, he⟩
  | @saveRevoked _ s _ hu => exact Revoked.of_update hu (Or.inl s.property) hr
  | revokeOthers => exact hr.of_revokeWhere
  | commitReset hc =>
    have hs := (ResetPassword.commit_eq_some hc).1
    exact Revoked.of_rows (congrArg KeyedTable.rows hs) hr.of_revokeWhere

/-- The write of a `RefreshToken` run leaves the row of its session unrevoked. -/
theorem not_revoked_of_renew {owner : Option String} {s s' : AuthenticationSession} {ν : String} {now : ℕ}
    (hs : RefreshToken.renew ports s ν now = .ok s')
    (hu : SessionRepository.update w owner s' = some w') : ¬ Revoked w' s.id := by
  rintro ⟨r, hr, hid, hrev⟩
  obtain ⟨hid', hlive, -⟩ := RefreshToken.renew_eq_ok hs
  obtain ⟨hmem, -, -⟩ := SessionRepository.update_eq_some hu
  have he : r = s' := w'.sessions.eq_of_key_eq hr hmem (hid.trans hid'.symm)
  rw [he, hlive] at hrev
  cases hrev

/-- A run that is about a session has been so before. -/
theorem Acts.refreshes (h : Acts ports w p a w' p') {id : String} (hr : p'.refreshes = some id) :
    p.refreshes = some id := by
  cases h with
  | authorize | renew => exact hr
  | createSession | saveRevoked | revokeOthers | findAccount | commitReset | fail => cases hr

/-- A run starts for sessions only that are not revoked. -/
theorem Starts.refreshes {s : Start} (h : Starts ports w s p) {id : String}
    (hr : p.refreshes = some id) : ¬ Revoked w id := by
  cases h with
  | login | logout | revokeSession | revokeAllSessions | resetPassword => cases hr
  | refreshToken hread =>
    rintro ⟨r, hmem, hid, hrev⟩
    obtain ⟨-, -, -, hlive, -⟩ := RefreshToken.read_eq_ok.mp hread
    have he := w.sessions.eq_of_key_eq hmem (RefreshToken.mem_of_read hread).1
      (hid.trans (Option.some.inj hr).symm)
    rw [he, hlive] at hrev
    cases hrev

end Acts

/-! ## Runs -/

/-- What lasts from `st` on: the revoked rows, and that no later run is about them. -/
structure Lasts (st st' : System) : Prop where
  rows : ∀ id, Revoked st.world id → Revoked st'.world id
  runs : ∀ id, Revoked st.world id → ∀ i ≥ st.procs.length, ∀ p, st'.procs[i]? = some p →
    p.refreshes ≠ some id

theorem Lasts.refl (st : System) : Lasts st st where
  rows _ h := h
  runs id _ i hi p hp := by
    obtain ⟨hlt, -⟩ := List.getElem?_eq_some_iff.mp hp
    omega

theorem Lasts.staysRevoked {st st' : System} (h : Lasts st st') : StaysRevoked st st' where
  rows := h.rows
  runs id hr i hi _ _ hp := h.runs id hr i hi _ hp rfl

theorem Lasts.step {ports : Ports} {st₀ st st' : System} {l : Label} (h : Lasts st₀ st)
    (hg : WritesUnrevoked st l) (hs : step ports st l = some st') : Lasts st₀ st' := by
  cases l with
  | start s =>
    obtain ⟨w, p, hw, rfl⟩ := Interleaving.step_start.mp hs
    obtain ⟨rfl, hp⟩ := start_starts hw
    refine ⟨h.rows, fun id hr i hi q hq hid => ?_⟩
    rcases getElem?_concat_cases hq with ⟨-, rfl⟩ | ⟨-, hq⟩
    · exact hp.refreshes hid (h.rows id hr)
    · exact h.runs id hr i hi q hq hid
  | act i a =>
    obtain ⟨p, w, p', hp, hw, rfl⟩ := Interleaving.step_act.mp hs
    have ha := act_acts hw
    refine ⟨fun id hr => ha.revoked ?_ (h.rows id hr), fun id hr j hj q hq hid => ?_⟩
    · rintro owner t s ν now rfl rfl
      exact hg owner t s hp
    · rcases getElem?_set_cases hq with ⟨rfl, rfl⟩ | ⟨-, hq⟩
      · exact h.runs id hr j hj p hp (ha.refreshes hid)
      · exact h.runs id hr j hj q hq hid

theorem writesUnrevoked_of_staysRevoked {ports : Ports} {st st' : System} {l : Label}
    (hs : step ports st l = some st') (h : StaysRevoked st st') : WritesUnrevoked st l := by
  refine writesUnrevoked_of_renew fun i ν now hl => ?_
  subst hl
  intro owner t s hp hr
  obtain ⟨p, w, p', hp', hw, rfl⟩ := Interleaving.step_act.mp hs
  rw [hp] at hp'
  cases hp'
  cases act_acts hw with
  | renew hrenew hu => exact not_revoked_of_renew hrenew hu (h.rows s.id hr)

/-- **A revocation is permanent exactly when no `RefreshToken` run writes a revoked row**, in every
interleaving of any number of runs. -/
theorem revocation_permanent_iff {ports : Ports} {st st' : System} {ls : List Label}
    (hr : run (step ports) st ls = some st') :
    AllPairs (step ports) StaysRevoked st ls ↔ AllSteps (step ports) WritesUnrevoked st ls :=
  allPairs_iff_allSteps Lasts.refl (fun _ _ _ _ h hg hs => h.step hg hs)
    (fun _ _ h => h.staysRevoked) (fun _ _ _ hs h => writesUnrevoked_of_staysRevoked hs h) hr

/-! ### A refresh before and across a logout -/

section Example

/-- The condition, computed. -/
def checkUnrevoked (st : System) : Label → Bool
  | .act i (.renew _ _) => match st.procs[i]? with
    | some (.authorized _ _ s) =>
      st.world.sessions.rows.all fun r => !(r.id == s.id && r.isRevoked)
    | _ => true
  | _ => true

theorem writesUnrevoked_of_check (st : System) (l : Label) (h : checkUnrevoked st l = true) :
    WritesUnrevoked st l := by
  refine writesUnrevoked_of_renew fun i ν now hl => ?_
  subst hl
  rintro owner t s hp ⟨r, hr, hid, hrev⟩
  simp only [checkUnrevoked, hp, List.all_eq_true] at h
  have := h r hr
  simp [hid, hrev] at this

/-- A refresh that is over before the session is revoked. -/
def refreshThenLogout : List Label :=
  [ .start (.refreshToken none firstToken 1000), .act 0 .findAccount, .act 0 (.renew secondToken 2000),
    .start (.logout (some "u1") secondToken 3000), .start (.revokeAllSessions "u1" "s2"),
    .act 1 .saveRevoked, .act 2 (.revokeOthers 4000) ]

theorem revocation_permanent_iff_refreshThenLogout :
    (run (step examplePorts) ⟨exampleWorld, []⟩ refreshThenLogout).any
      (fun st => decide (Revoked st.world "s1")) = true ∧
    AllPairs (step examplePorts) StaysRevoked ⟨exampleWorld, []⟩ refreshThenLogout := by
  have hrun : (run (step examplePorts) ⟨exampleWorld, []⟩ refreshThenLogout).any
      (fun st => decide (Revoked st.world "s1")) = true := by
    decide +kernel
  obtain ⟨st, hst, -⟩ := (Option.any_eq_true _ _).mp hrun
  refine ⟨hrun, (revocation_permanent_iff hst).mpr ?_⟩
  exact allSteps_of_checkSteps writesUnrevoked_of_check (by decide +kernel)

/-- The session is revoked between the read and the write of a refresh. -/
def refreshAcrossLogout : List Label :=
  [ .start (.refreshToken none firstToken 1000), .act 0 .findAccount,
    .start (.logout (some "u1") firstToken 2000), .act 1 .saveRevoked, .act 0 (.renew secondToken 3000) ]

theorem revocation_undone_by_refresh : ¬ ∀ (ports : Ports) (w : World) (ls : List Label),
    AllPairs (step ports) StaysRevoked ⟨w, []⟩ ls := by
  intro hall
  have h := hall examplePorts exampleWorld refreshAcrossLogout
  have hmid : ((run (step examplePorts) ⟨exampleWorld, []⟩ (refreshAcrossLogout.take 4)).bind fun st =>
      (run (step examplePorts) st (refreshAcrossLogout.drop 4)).map fun st' =>
        (decide (Revoked st.world "s1"), decide (Revoked st'.world "s1"))) = some (true, false) := by
    decide +kernel
  obtain ⟨st, hst, hmid⟩ := Option.bind_eq_some_iff.mp hmid
  obtain ⟨st', hst', hrows⟩ := Option.map_eq_some_iff.mp hmid
  obtain ⟨hbefore, hafter⟩ := Prod.mk.inj hrows
  have hstays := h _ _ (List.take_append_drop 4 _ ▸ List.prefix_rfl) st st' hst hst'
  exact of_decide_eq_false hafter (hstays.rows "s1" (of_decide_eq_true hbefore))

end Example

end Neltrik.Authentication
