import Neltrik.Authentication.Steps

/-! # The rotation of the refresh tokens

Each `RefreshToken` run that succeeds replaces the token of its session by a new one. The stored
digest is that of the token issued last, whoever wrote it, as long as the session is not revoked.

A run compares the token it was given at its read only. `Chain` says what is left of that comparison
later on: the token is still the one issued last, or another run has been given it and has succeeded. -/

namespace Neltrik.Authentication

open Neltrik.Lib Neltrik.Lib.Table Neltrik.Lib.Machine Neltrik.Lib.Pool

/-- The token that the last `RefreshToken` run of the session, or else its `Login`, has returned. -/
def lastIssued (w : World) (id : String) : Option String :=
  (w.issued.find? fun x => x.1 == id).map Prod.snd

/-- A run that starts with the token is about the session. -/
def Accepts (ports : Ports) (w : World) (id token : String) (now : ℕ) : Prop :=
  ∃ s, RefreshToken.read ports w none token now = .ok s ∧ s.id = id

/-- The session and the token a run that has succeeded was given. -/
def Proc.consumed : Proc → Option (String × String)
  | .refreshed id t _ => some (id, t)
  | _ => none

/-- The session and the token of a run in flight. -/
def Proc.presented : Proc → Option (String × String)
  | .refreshing _ t s | .authorized _ t s => some (s.id, t)
  | _ => none

/-- Not both have been given one token. -/
def Once (p q : Proc) : Prop := ∀ x, p.consumed = some x → q.consumed ≠ some x

/-- Refresh tokens are single use, and with no run in flight a session that is neither revoked nor
expired takes exactly the one issued last. -/
structure SingleUse (ports : Ports) (st : System) : Prop where
  once : Apart Once st.procs
  current : (∀ p ∈ st.procs, p.isOver = true) → ∀ s ∈ st.world.sessions.rows, ∀ token now,
    Accepts ports st.world s.id token now ↔ s.isExpired now = false ∧ s.isRevoked = false ∧
      s.isRefreshTokenExpired now = false ∧ lastIssued st.world s.id = some token

/-- `randomUUID` returns a token it has not returned before. -/
def FreshTokens (st : System) : Label → Prop
  | .act _ (.renew ν _) | .act _ (.createSession _ ν _ _ _) => ν ≠ "" ∧ ∀ x ∈ st.world.issued, x.2 ≠ ν
  | _ => True

/-- No other `RefreshToken` run has written the session since the read of the one that writes it now:
the token it was given is still the one issued last. -/
def WritesLast (st : System) : Label → Prop
  | .act i (.renew _ _) => ∀ owner t s, st.procs[i]? = some (.authorized owner t s) →
      lastIssued st.world s.id = some t
  | _ => True

/-- Only the write of a `RefreshToken` run is asked for. -/
theorem writesLast_of_renew {st : System} {l : Label}
    (h : ∀ i ν now, l = .act i (.renew ν now) → WritesLast st l) : WritesLast st l := by
  cases l with
  | start s => trivial
  | act i a =>
    cases a with
    | findAccount | createSession | saveRevoked | revokeOthers | commitReset | fail => trivial
    | renew ν now => exact h i ν now rfl

/-- Where the digests of the sessions come from. -/
structure Issued (ports : Ports) (w : World) : Prop where
  keyed : Keyed Prod.snd w.issued
  nonempty : ∀ x ∈ w.issued, x.2 ≠ ""
  rows : ∀ s ∈ w.sessions.rows, ∃ t, (s.id, t) ∈ w.issued ∧ s.refreshTokenHash = ports.hash t ∧
    (s.isRevoked = false → lastIssued w s.id = some t)

/-! ## The history -/

theorem lastIssued_cons (w w' : World) {id id' ν : String} (h : w'.issued = (id, ν) :: w.issued) :
    lastIssued w' id' = if id = id' then some ν else lastIssued w id' := by
  unfold lastIssued
  rw [h, List.find?_cons]
  by_cases he : id = id'
  · rw [if_pos he]; simp [he]
  · rw [if_neg he, show (id == id') = false from beq_eq_false_iff_ne.mpr he]

theorem lastIssued_congr {w w' : World} (h : w'.issued = w.issued) (id : String) :
    lastIssued w' id = lastIssued w id := by
  unfold lastIssued; rw [h]

section Issued
variable {ports : Ports} (hinj : Function.Injective ports.hash) {w : World} (hw : Issued ports w)
include hinj hw

/-- A token that a row has the digest of was issued for it. -/
theorem Issued.of_hash {s : AuthenticationSession} (hs : s ∈ w.sessions.rows) {t : String}
    (h : s.refreshTokenHash = ports.hash t) :
    (s.id, t) ∈ w.issued ∧ (s.isRevoked = false → lastIssued w s.id = some t) := by
  obtain ⟨t', hm, hh, hl⟩ := hw.rows s hs
  have he : t' = t := hinj (hh.symm.trans h)
  exact ⟨he ▸ hm, he ▸ hl⟩

/-- **The token a session takes** is the one issued last. -/
theorem Issued.accepts_iff {s : AuthenticationSession} (hs : s ∈ w.sessions.rows) {t : String} {now : ℕ} :
    Accepts ports w s.id t now ↔ s.isExpired now = false ∧ s.isRevoked = false ∧
      s.isRefreshTokenExpired now = false ∧ lastIssued w s.id = some t := by
  constructor
  · rintro ⟨r, hr, hid⟩
    obtain ⟨hmem, hh⟩ := RefreshToken.mem_of_read hr
    obtain ⟨-, -, hexp, hlive, hrexp⟩ := RefreshToken.read_eq_ok.mp hr
    have he : r = s := w.sessions.eq_of_key_eq hmem hs hid
    subst he
    exact ⟨hexp, hlive, hrexp, (hw.of_hash hinj hmem hh).2 hlive⟩
  · rintro ⟨hexp, hlive, hrexp, hlast⟩
    obtain ⟨t', hm, hh, hl⟩ := hw.rows s hs
    have ht : t' = t := Option.some.inj ((hl hlive).symm.trans hlast)
    subst ht
    -- no other row has the digest: a token was issued for one session only
    have hf : SessionRepository.findByRefreshTokenHash w none (ports.hash t') = some s := by
      have hsome : (SessionRepository.findByRefreshTokenHash w none (ports.hash t')).isSome = true :=
        List.find?_isSome.mpr ⟨s, hs, by simp [hh, SessionRepository.inScope]⟩
      obtain ⟨r, hr⟩ := Option.isSome_iff_exists.mp hsome
      have hrmem := List.mem_of_find?_eq_some hr
      have hrh : r.refreshTokenHash = ports.hash t' := by
        have := List.find?_some hr
        rw [Bool.and_eq_true, beq_iff_eq] at this
        exact this.1
      have hx := hw.keyed.eq_of_key_eq (hw.of_hash hinj hrmem hrh).1 hm rfl
      rw [hr, w.sessions.eq_of_key_eq hrmem hs (congrArg Prod.fst hx)]
    exact ⟨s, RefreshToken.read_eq_ok.mpr ⟨hw.nonempty _ hm, hf, hexp, hlive, hrexp⟩, rfl⟩

end Issued

/-! ## What the actions do to the digests -/

section Issued
variable {ports : Ports} {w w' : World} (hw : Issued ports w)
include hw

/-- Rows with old digests, all new ones of them revoked. -/
theorem Issued.of_rows (hi : w'.issued = w.issued)
    (hr : ∀ s ∈ w'.sessions.rows, s ∈ w.sessions.rows ∨
      s.isRevoked = true ∧ ∃ t, (s.id, t) ∈ w.issued ∧ s.refreshTokenHash = ports.hash t) :
    Issued ports w' where
  keyed := hi ▸ hw.keyed
  nonempty := hi ▸ hw.nonempty
  rows s hs := by
    rw [lastIssued_congr hi, hi]
    rcases hr s hs with hs | ⟨hrev, t, hm, hh⟩
    · exact hw.rows s hs
    · exact ⟨t, hm, hh, fun hlive => by rw [hrev] at hlive; cases hlive⟩

theorem Issued.of_revokeWhere {p : AuthenticationSession → Bool} {now : ℕ} {s : AuthenticationSession}
    (hs : s ∈ (SessionRepository.revokeWhere w p now).sessions.rows) : s ∈ w.sessions.rows ∨
      s.isRevoked = true ∧ ∃ t, (s.id, t) ∈ w.issued ∧ s.refreshTokenHash = ports.hash t := by
  obtain ⟨r, hr, hid, hh, hrev | rfl⟩ := SessionRepository.mem_revokeWhere hs
  · obtain ⟨t, ht, hrh, -⟩ := hw.rows r hr
    exact Or.inr ⟨hrev, t, hid ▸ ht, hh.symm.trans hrh⟩
  · exact Or.inl hr

/-- A new token, for a row of its own. -/
theorem Issued.cons {s : AuthenticationSession} {ν : String} (hi : w'.issued = (s.id, ν) :: w.issued)
    (hfresh : ν ≠ "" ∧ ∀ x ∈ w.issued, x.2 ≠ ν) (hh : s.refreshTokenHash = ports.hash ν)
    (hr : ∀ r ∈ w'.sessions.rows, r = s ∨ r ∈ w.sessions.rows ∧ r.id ≠ s.id) : Issued ports w' where
  keyed := hi ▸ hw.keyed.cons hfresh.2
  nonempty := by
    rw [hi]
    exact List.forall_mem_cons.mpr ⟨hfresh.1, hw.nonempty⟩
  rows r hmem := by
    rw [lastIssued_cons w w' hi, hi]
    rcases hr r hmem with rfl | ⟨hmem, hne⟩
    · exact ⟨ν, List.mem_cons_self, hh, fun _ => if_pos rfl⟩
    · obtain ⟨t, hm, hrh, hl⟩ := hw.rows r hmem
      exact ⟨t, List.mem_cons_of_mem _ hm, hrh, fun hlive => by rw [if_neg hne.symm]; exact hl hlive⟩

end Issued

/-! ## The chain of the tokens -/

/-- There is a session of the id. -/
def HasRow (w : World) (id : String) : Prop := ∃ s ∈ w.sessions.rows, s.id = id

/-- The invariant of the rotation. -/
structure Chain (ports : Ports) (st : System) : Prop where
  issued : Issued ports st.world
  presented : ∀ p ∈ st.procs, ∀ x, p.presented = some x → HasRow st.world x.1 ∧ x ∈ st.world.issued ∧
    (lastIssued st.world x.1 = some x.2 ∨ ∃ q ∈ st.procs, q.consumed = some x)
  consumed : ∀ p ∈ st.procs, ∀ x, p.consumed = some x → HasRow st.world x.1 ∧ x ∈ st.world.issued ∧
    lastIssued st.world x.1 ≠ some x.2
  revoking : ∀ p ∈ st.procs, ∀ owner s, p = .revoking owner s →
    ∃ t, (s.val.id, t) ∈ st.world.issued ∧ s.val.refreshTokenHash = ports.hash t

/-- What becomes of the rows and the history. -/
inductive Rotates (ports : Ports) (w w' : World) : Proc → Proc → Prop
  /-- No new token: the run has not refreshed anything, and what it writes is revoked. -/
  | same {p p'} (hi : w'.issued = w.issued) (hw : Issued ports w')
      (hr : ∀ id, HasRow w id → HasRow w' id) (hp : p.consumed = none)
      (hp' : p'.consumed = none) (hpr : ∀ x, p'.presented = some x → p.presented = some x)
      (hrev : ∀ owner s, p' ≠ .revoking owner s) : Rotates ports w w' p p'
  | login {account p} {id ν : String} (hi : w'.issued = (id, ν) :: w.issued) (hw : Issued ports w')
      (hr : ∀ id, HasRow w id → HasRow w' id) (hnew : ¬ HasRow w id) (hp : p = .loggingIn account) :
      Rotates ports w w' p .done
  | refresh {owner t s p} {ν : String} (hi : w'.issued = (s.id, ν) :: w.issued) (hw : Issued ports w')
      (hr : ∀ id, HasRow w id → HasRow w' id) (hfresh : ∀ x ∈ w.issued, x.2 ≠ ν)
      (hp : p = .authorized owner t s) : Rotates ports w w' p (.refreshed s.id t ν)

section Step
variable {ports : Ports} {st : System} (h : Chain ports st) {i : ℕ} {p p' : Proc} {w' : World}
include h

/-- Each action, by what becomes of the rows and the history. -/
theorem Chain.rotates {a : Action} (hp : st.procs[i]? = some p) (hf : FreshTokens st (.act i a))
    (ha : Acts ports st.world p a w' p') : Rotates ports st.world w' p p' := by
  cases ha with
  | authorize ha => exact .same rfl h.issued (fun _ hr => hr) rfl rfl (fun _ hx => hx) nofun
  | findAccount ha => exact .same rfl h.issued (fun _ hr => hr) rfl rfl nofun nofun
  | fail ho =>
    refine .same rfl h.issued (fun _ hr => hr) ?_ rfl nofun nofun
    cases p with
    | refreshed => cases ho
    | _ => rfl
  | @renew _ _ _ ν _ s' w₁ hr hu =>
    obtain ⟨hid, -, hh⟩ := RefreshToken.renew_eq_ok hr
    obtain ⟨-, -, hi⟩ := SessionRepository.update_eq_some hu
    have hi' : (s'.id, ν) :: w₁.issued = (s'.id, ν) :: st.world.issued := by rw [hi]
    refine .refresh (by rw [← hid, ← hi']) (h.issued.cons (s := s') (by rw [← hid, ← hi']) hf hh ?_) ?_
      hf.2 rfl
    · exact fun r hr => SessionRepository.mem_of_update hu hr
    · rintro id ⟨r, hr, rfl⟩
      exact SessionRepository.exists_of_update hu r hr
  | @createSession _ _ ν _ _ _ s w₁ hs hc =>
    obtain ⟨hid, -, hh⟩ := Login.session_eq_ok hs
    obtain ⟨hnew, hrows, hi⟩ := SessionRepository.create_eq_some hc
    subst hid
    refine .login (by rw [hi]) (h.issued.cons (s := s) (by rw [hi]) hf hh ?_) ?_ ?_ rfl
    · intro r hr
      rcases List.mem_cons.mp (hrows ▸ hr) with rfl | hr
      · exact Or.inl rfl
      · exact Or.inr ⟨hr, hnew r hr⟩
    · rintro id ⟨r, hr, rfl⟩
      exact ⟨r, hrows ▸ List.mem_cons_of_mem _ hr, rfl⟩
    · rintro ⟨r, hr, hid⟩
      exact hnew r hr hid
  | @saveRevoked _ s _ hu =>
    obtain ⟨-, -, hi⟩ := SessionRepository.update_eq_some hu
    refine .same hi (h.issued.of_rows hi fun r hr => ?_) ?_ rfl rfl nofun nofun
    · rcases SessionRepository.mem_of_update hu hr with rfl | ⟨hr, -⟩
      · exact Or.inr ⟨s.property, h.revoking _ (mem_of_getElem? hp) _ _ rfl⟩
      · exact Or.inl hr
    · rintro id ⟨r, hr, rfl⟩
      exact SessionRepository.exists_of_update hu r hr
  | revokeOthers =>
    refine .same rfl (h.issued.of_rows rfl fun r hr => h.issued.of_revokeWhere hr) ?_ rfl rfl nofun nofun
    rintro id ⟨r, hr, rfl⟩
    exact SessionRepository.exists_of_revokeWhere r hr
  | commitReset hc =>
    obtain ⟨hs, hi⟩ := ResetPassword.commit_eq_some hc
    refine .same hi (h.issued.of_rows hi fun r hr => ?_) ?_ rfl rfl nofun nofun
    · rw [hs] at hr
      exact h.issued.of_revokeWhere hr
    · rintro id ⟨r, hr, rfl⟩
      unfold HasRow
      rw [hs]
      exact SessionRepository.exists_of_revokeWhere r hr

/-- What an action has to leave of the chain for the other runs, and what the run that acts adds. -/
theorem Chain.move (hp : st.procs[i]? = some p) (hw : Issued ports w')
    (hr : ∀ id, HasRow st.world id → HasRow w' id) (hi : st.world.issued ⊆ w'.issued)
    (hlast : ∀ x, HasRow st.world x.1 → lastIssued st.world x.1 = some x.2 →
      lastIssued w' x.1 = some x.2 ∨ p'.consumed = some x)
    (hgone : ∀ x ∈ st.world.issued, HasRow st.world x.1 → lastIssued st.world x.1 ≠ some x.2 →
      lastIssued w' x.1 ≠ some x.2)
    (hn : p.consumed = none) (hpres : ∀ x, p'.presented = some x → p.presented = some x)
    (hcons : ∀ x, p'.consumed = some x → p.presented = some x ∧ lastIssued w' x.1 ≠ some x.2)
    (hrev : ∀ owner s, p' ≠ .revoking owner s) : Chain ports ⟨w', st.procs.set i p'⟩ := by
  have hmem := mem_of_getElem? hp
  have hself : p' ∈ st.procs.set i p' := List.mem_set (List.getElem?_eq_some_iff.mp hp).1 _
  have hold : ∀ q ∈ st.procs.set i p', q = p' ∨ q ∈ st.procs := fun q hq =>
    (List.mem_or_eq_of_mem_set hq).symm
  refine ⟨hw, fun q hq x hx => ?_, fun q hq x hx => ?_, fun q hq owner s hs => ?_⟩
  · have hq₀ : ∃ q₀ ∈ st.procs, q₀.presented = some x := by
      rcases hold q hq with rfl | hq
      · exact ⟨p, hmem, hpres x hx⟩
      · exact ⟨q, hq, hx⟩
    obtain ⟨q₀, hm₀, hx₀⟩ := hq₀
    obtain ⟨hrow, hiss, hlst⟩ := h.presented q₀ hm₀ x hx₀
    refine ⟨hr _ hrow, hi hiss, ?_⟩
    rcases hlst with hlst | ⟨q', hq', hx'⟩
    · exact (hlast x hrow hlst).imp_right fun hx => ⟨p', hself, hx⟩
    · -- who has consumed a token is not the run that acts
      refine Or.inr ⟨q', mem_set_of_ne hp hq' fun he => ?_, hx'⟩
      rw [he, hn] at hx'; cases hx'
  · rcases hold q hq with rfl | hq
    · obtain ⟨hx, hlst⟩ := hcons x hx
      obtain ⟨hrow, hiss, -⟩ := h.presented p hmem x hx
      exact ⟨hr _ hrow, hi hiss, hlst⟩
    · obtain ⟨hrow, hiss, hlst⟩ := h.consumed q hq x hx
      exact ⟨hr _ hrow, hi hiss, hgone x hiss hrow hlst⟩
  · rcases hold q hq with rfl | hq
    · exact absurd hs (hrev owner s)
    · obtain ⟨t, ht, hh⟩ := h.revoking q hq owner s hs
      exact ⟨t, hi ht, hh⟩

/-- **The chain goes on**, as long as each run that writes was given the token issued last. -/
theorem Chain.act (hp : st.procs[i]? = some p) (hrot : Rotates ports st.world w' p p')
    (hg : ∀ owner t s, p = .authorized owner t s → p'.consumed ≠ none →
      lastIssued st.world s.id = some t) : Chain ports ⟨w', st.procs.set i p'⟩ := by
  cases hrot with
  | same hi hw hr hn hn' hpres hrev =>
    have hlast := lastIssued_congr hi
    refine h.move hp hw hr (hi ▸ List.Subset.refl _) ?_ ?_ hn hpres ?_ hrev
    · exact fun x _ hx => Or.inl ((hlast _).trans hx)
    · exact fun x _ _ hx => by rw [hlast]; exact hx
    · exact fun x hx => by rw [hn'] at hx; cases hx
  | login hi hw hr hnew hpl =>
    have hlast : ∀ id', HasRow st.world id' → lastIssued w' id' = lastIssued st.world id' := by
      intro id' hrow
      rw [lastIssued_cons st.world w' hi, if_neg]
      rintro rfl
      exact hnew hrow
    refine h.move hp hw hr (hi ▸ List.subset_cons_self _ _) ?_ ?_ (by rw [hpl]; rfl) nofun nofun nofun
    · exact fun x hrow hx => Or.inl ((hlast _ hrow).trans hx)
    · exact fun x _ hrow hx => by rw [hlast _ hrow]; exact hx
  | @refresh owner t s _ ν hi hw hr hfresh hpa =>
    have hpres : p.presented = some (s.id, t) := by rw [hpa]; rfl
    have hlast : ∀ id', lastIssued w' id' = if s.id = id' then some ν else lastIssued st.world id' :=
      fun id' => lastIssued_cons st.world w' hi
    refine h.move hp hw hr (hi ▸ List.subset_cons_self _ _) ?_ ?_ (by rw [hpa]; rfl) nofun ?_ nofun
    · intro x _ hx
      by_cases hid : s.id = x.1
      · -- the run that acts has just consumed the token that was the last one
        rw [← hid, hg owner t s hpa nofun] at hx
        exact Or.inr (by rw [Proc.consumed, hid, Option.some.inj hx])
      · exact Or.inl (by rw [hlast, if_neg hid]; exact hx)
    · intro x hiss _ hx
      rw [hlast]
      split_ifs with hid
      · exact fun he => hfresh x hiss (Option.some.inj he).symm
      · exact hx
    · rintro x ⟨⟩
      obtain ⟨-, hiss, -⟩ := h.presented p (mem_of_getElem? hp) _ hpres
      refine ⟨hpres, ?_⟩
      rw [hlast, if_pos rfl]
      exact fun he => hfresh _ hiss (Option.some.inj he).symm

/-- A run that starts has read a row whose digest is that of its token. -/
theorem Chain.start (hinj : Function.Injective ports.hash) {s : Start}
    (hs : Starts ports st.world s p) : Chain ports ⟨st.world, st.procs ++ [p]⟩ := by
  have hold : ∀ q ∈ st.procs ++ [p], q ∈ st.procs ∨ q = p := fun q hq => by simpa using hq
  refine ⟨h.issued, fun q hq x hx => ?_, fun q hq x hx => ?_, fun q hq owner r hr => ?_⟩
  · rcases hold q hq with hq | rfl
    · obtain ⟨hrow, hiss, hlst⟩ := h.presented q hq x hx
      refine ⟨hrow, hiss, hlst.imp_right ?_⟩
      rintro ⟨q', hq', hx'⟩
      exact ⟨q', List.mem_append_left _ hq', hx'⟩
    · cases hs with
      | refreshToken hread =>
        cases hx
        obtain ⟨hmem, hh⟩ := RefreshToken.mem_of_read hread
        obtain ⟨-, -, -, hlive, -⟩ := RefreshToken.read_eq_ok.mp hread
        obtain ⟨hiss, hlst⟩ := h.issued.of_hash hinj hmem hh
        exact ⟨⟨_, hmem, rfl⟩, hiss, Or.inl (hlst hlive)⟩
      | login | logout | revokeSession | revokeAllSessions | resetPassword => cases hx
  · rcases hold q hq with hq | rfl
    · exact h.consumed q hq x hx
    · cases hs <;> cases hx
  · rcases hold q hq with hq | rfl
    · exact h.revoking q hq owner r hr
    · have hr₀ : ∃ row ∈ st.world.sessions.rows, r.val.id = row.id ∧
          r.val.refreshTokenHash = row.refreshTokenHash := by
        cases hs with
        | logout hread => cases hr; exact Logout.read_eq_ok hread
        | revokeSession hread => cases hr; exact RevokeSession.read_eq_ok hread
        | refreshToken | login | revokeAllSessions | resetPassword => cases hr
      obtain ⟨row, hrow, hid, hh⟩ := hr₀
      obtain ⟨t, ht, hth, -⟩ := h.issued.rows row hrow
      exact ⟨t, hid ▸ ht, hh.trans hth⟩

end Step

/-! ## Runs -/

section Runs
variable {ports : Ports} (hinj : Function.Injective ports.hash) {st st' : System} {l : Label}
include hinj

theorem Chain.step (h : Chain ports st) (hf : FreshTokens st l) (hg : WritesLast st l)
    (hs : step ports st l = some st') : Chain ports st' := by
  cases l with
  | start s =>
    obtain ⟨w, p, hw, rfl⟩ := Interleaving.step_start.mp hs
    obtain ⟨rfl, hp⟩ := start_starts hw
    exact h.start hinj hp
  | act i a =>
    obtain ⟨p, w, p', hp, hw, rfl⟩ := Interleaving.step_act.mp hs
    have ha := act_acts hw
    refine h.act hp (h.rotates hp hf ha) ?_
    rintro owner t s rfl hne
    cases ha with
    | renew => exact hg owner t s hp
    | fail => exact absurd rfl hne

theorem Chain.current (h : Chain ports st) : (∀ p ∈ st.procs, p.isOver = true) →
    ∀ s ∈ st.world.sessions.rows, ∀ token now, Accepts ports st.world s.id token now ↔
      s.isExpired now = false ∧ s.isRevoked = false ∧ s.isRefreshTokenExpired now = false ∧
        lastIssued st.world s.id = some token :=
  fun _ _ hs _ _ => h.issued.accepts_iff hinj hs

end Runs

theorem once_symm (p q : Proc) (h : Once p q) : Once q p := fun x hq hp => h x hp hq

/-- A run that writes over another one has been given a token the other one has consumed. -/
theorem SingleUse.writesLast {ports : Ports} {st st' : System} {l : Label} (h : Chain ports st)
    (hu : SingleUse ports st') (hs : step ports st l = some st') : WritesLast st l := by
  refine writesLast_of_renew fun i ν now hl => ?_
  subst hl
  intro owner t s hp
  obtain ⟨p, w, p', hp', hw, rfl⟩ := Interleaving.step_act.mp hs
  rw [hp] at hp'
  cases hp'
  cases act_acts hw with
  | renew hr hupd =>
    obtain ⟨-, -, hlst⟩ := h.presented _ (mem_of_getElem? hp) (s.id, t) rfl
    refine hlst.resolve_right ?_
    rintro ⟨q, hq, hx⟩
    obtain ⟨j, hj⟩ := List.getElem?_of_mem hq
    have hij : i ≠ j := by
      rintro rfl
      rw [hp] at hj
      rw [← Option.some.inj hj] at hx
      cases hx
    refine hu.once i j (.refreshed s.id t ν) q hij ?_ ?_ (s.id, t) rfl hx
    · exact List.getElem?_set_self (List.getElem?_eq_some_iff.mp hp).1
    · rw [List.getElem?_set_ne hij]; exact hj

/-- What a run consumes is the token issued last, and what the others have consumed is not. -/
theorem SingleUse.once_step {ports : Ports} {st st' : System} {l : Label} (h : Chain ports st)
    (hu : SingleUse ports st) (hg : WritesLast st l) (hs : step ports st l = some st') :
    Apart Once st'.procs := by
  cases l with
  | start s =>
    obtain ⟨w, p, hw, rfl⟩ := Interleaving.step_start.mp hs
    obtain ⟨rfl, hp⟩ := start_starts hw
    refine hu.once.concat once_symm fun q _ x hx => ?_
    cases hp <;> cases hx
  | act i a =>
    obtain ⟨p, w, p', hp, hw, rfl⟩ := Interleaving.step_act.mp hs
    refine hu.once.set once_symm fun j q _ hq x hx hx' => ?_
    obtain ⟨-, -, hlst⟩ := h.consumed q (mem_of_getElem? hq) x hx'
    cases act_acts hw with
    | renew hr hupd =>
      cases hx
      exact hlst (hg _ _ _ hp)
    | authorize | createSession | saveRevoked | revokeOthers | findAccount | commitReset | fail =>
      cases hx

/-- **One step keeps the tokens single use** exactly when it does not write over another refresh. -/
theorem singleUse_step_iff {ports : Ports} (hinj : Function.Injective ports.hash) {st st' : System}
    {l : Label} (h : Chain ports st) (hu : SingleUse ports st) (hf : FreshTokens st l)
    (hs : step ports st l = some st') : SingleUse ports st' ↔ WritesLast st l := by
  constructor
  · exact fun hu' => hu'.writesLast h hs
  · exact fun hg => ⟨hu.once_step h hg hs, (h.step hinj hf hg hs).current hinj⟩

/-- **Refresh tokens are single use exactly when no `RefreshToken` run writes over another one**, in
every interleaving of any number of runs. -/
theorem single_use_iff {ports : Ports} (hinj : Function.Injective ports.hash) {w : World}
    (hw : Issued ports w) {st : System} {ls : List Label}
    (hf : AllSteps (step ports) FreshTokens ⟨w, []⟩ ls)
    (hr : run (step ports) ⟨w, []⟩ ls = some st) :
    AllStates (step ports) (SingleUse ports) ⟨w, []⟩ ls ↔
      AllSteps (step ports) WritesLast ⟨w, []⟩ ls := by
  have hnone : ∀ p : Proc, p ∉ ([] : List Proc) := fun _ => List.not_mem_nil
  have h : Chain ports ⟨w, []⟩ :=
    ⟨hw, fun p hp => absurd hp (hnone p), fun p hp => absurd hp (hnone p),
      fun p hp => absurd hp (hnone p)⟩
  exact allStates_iff_allSteps (C := FreshTokens) (G := WritesLast) (I := Chain ports)
    (fun _ _ _ h _ hf hg hs => h.step hinj hf hg hs)
    (fun _ _ _ h hu hf hs => singleUse_step_iff hinj h hu hf hs) h
    ⟨apart_nil, h.current hinj⟩ hf hr

/-! ### Two refreshes, one after the other and side by side -/

section Example

theorem injective_exampleHash : Function.Injective exampleHash := by
  have htag : ∀ a b : String, "sha256:" ++ a = "sha256:" ++ b → a = b := by
    intro a b h
    have := congrArg String.toList h
    rw [String.toList_append, String.toList_append] at this
    exact String.toList_inj.mp (List.append_cancel_left this)
  have hhex : ∀ a b : String, b.toList.head? ≠ some 's' → "sha256:" ++ a ≠ b := by
    intro a b hb h
    refine hb ?_
    rw [← h, String.toList_append]
    rfl
  intro a b h
  have hv := congrArg Subtype.val h
  unfold exampleHash at hv
  split_ifs at hv with ha₁ hb₁ hb₂ hb₃ ha₂ hb₁ hb₂ hb₃ ha₃ hb₁ hb₂ hb₃ hb₁ hb₂ hb₃
  · exact ha₁.trans hb₁.symm
  · exact absurd hv (by decide)
  · exact absurd hv (by decide)
  · exact absurd hv.symm (hhex _ _ (by decide))
  · exact absurd hv (by decide)
  · exact ha₂.trans hb₂.symm
  · exact absurd hv (by decide)
  · exact absurd hv.symm (hhex _ _ (by decide))
  · exact absurd hv (by decide)
  · exact absurd hv (by decide)
  · exact ha₃.trans hb₃.symm
  · exact absurd hv.symm (hhex _ _ (by decide))
  · exact absurd hv (hhex _ _ (by decide))
  · exact absurd hv (hhex _ _ (by decide))
  · exact absurd hv (hhex _ _ (by decide))
  · exact htag a b hv

theorem issued_exampleWorld : Issued examplePorts exampleWorld where
  keyed := by decide
  nonempty := by decide
  rows s hs := by
    obtain rfl : s = exampleSession := by simpa [exampleWorld] using hs
    exact ⟨firstToken, List.mem_singleton.mpr rfl, rfl, fun _ => rfl⟩

/-- The condition on new tokens, computed. -/
def checkFresh (st : System) : Label → Bool
  | .act _ (.renew ν _) | .act _ (.createSession _ ν _ _ _) =>
    ν != "" && st.world.issued.all fun x => x.2 != ν
  | _ => true

theorem freshTokens_of_check (st : System) (l : Label) (h : checkFresh st l = true) :
    FreshTokens st l := by
  cases l with
  | start s => trivial
  | act i a =>
    cases a with
    | renew ν now | createSession id ν ip agent now => simpa [checkFresh, FreshTokens] using h
    | findAccount | saveRevoked | revokeOthers | commitReset | fail => trivial

/-- The condition on the writes, computed. -/
def checkLast (st : System) : Label → Bool
  | .act i (.renew _ _) => match st.procs[i]? with
    | some (.authorized _ t s) => lastIssued st.world s.id == some t
    | _ => true
  | _ => true

theorem writesLast_of_check (st : System) (l : Label) (h : checkLast st l = true) :
    WritesLast st l := by
  refine writesLast_of_renew fun i ν now hl => ?_
  subst hl
  intro owner t s hp
  simpa [checkLast, hp] using h

/-- The second token is presented twice, but one of the two runs fails. -/
def oneAfterTheOther : List Label :=
  [ .start (.refreshToken none firstToken 1000), .act 0 .findAccount, .act 0 (.renew secondToken 2000),
    .start (.refreshToken none secondToken 3000), .start (.refreshToken none secondToken 3000),
    .act 1 .findAccount, .act 2 .fail, .act 1 (.renew thirdToken 4000) ]

theorem single_use_iff_oneAfterTheOther :
    (run (step examplePorts) ⟨exampleWorld, []⟩ oneAfterTheOther).any (fun st =>
      st.procs.filterMap Proc.consumed == [("s1", firstToken), ("s1", secondToken)]) = true ∧
    AllStates (step examplePorts) (SingleUse examplePorts) ⟨exampleWorld, []⟩ oneAfterTheOther := by
  have hrun : (run (step examplePorts) ⟨exampleWorld, []⟩ oneAfterTheOther).any (fun st =>
      st.procs.filterMap Proc.consumed == [("s1", firstToken), ("s1", secondToken)]) = true := by
    decide +kernel
  obtain ⟨st, hst, -⟩ := (Option.any_eq_true _ _).mp hrun
  have hf : AllSteps (step examplePorts) FreshTokens ⟨exampleWorld, []⟩ oneAfterTheOther :=
    allSteps_of_checkSteps freshTokens_of_check (by decide +kernel)
  refine ⟨hrun, (single_use_iff injective_exampleHash issued_exampleWorld hf hst).mpr ?_⟩
  exact allSteps_of_checkSteps writesLast_of_check (by decide +kernel)

/-- Both runs read the session before one of them writes it. -/
def sideBySide : List Label :=
  [ .start (.refreshToken none firstToken 1000), .start (.refreshToken none firstToken 1000),
    .act 0 .findAccount, .act 1 .findAccount, .act 0 (.renew secondToken 2000),
    .act 1 (.renew thirdToken 3000) ]

theorem token_used_twice_sideBySide : ¬ ∀ ports : Ports, Function.Injective ports.hash →
    ∀ w, Issued ports w → ∀ ls, AllSteps (step ports) FreshTokens ⟨w, []⟩ ls →
      AllStates (step ports) (SingleUse ports) ⟨w, []⟩ ls := by
  intro hall
  have hf : AllSteps (step examplePorts) FreshTokens ⟨exampleWorld, []⟩ sideBySide :=
    allSteps_of_checkSteps freshTokens_of_check (by decide +kernel)
  have hrun : (run (step examplePorts) ⟨exampleWorld, []⟩ sideBySide).any (fun st =>
      st.procs == [.refreshed "s1" firstToken secondToken, .refreshed "s1" firstToken thirdToken]) =
      true := by
    decide +kernel
  obtain ⟨st, hst, hprocs⟩ := (Option.any_eq_true _ _).mp hrun
  have hu := (hall _ injective_exampleHash _ issued_exampleWorld sideBySide hf).last hst
  rw [beq_iff_eq] at hprocs
  have hfirst : st.procs[0]? = some (.refreshed "s1" firstToken secondToken) := by rw [hprocs]; rfl
  have hsecond : st.procs[1]? = some (.refreshed "s1" firstToken thirdToken) := by rw [hprocs]; rfl
  exact hu.once 0 1 _ _ (by decide) hfirst hsecond ("s1", firstToken) rfl rfl

end Example

end Neltrik.Authentication
