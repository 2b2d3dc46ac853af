import Neltrik.Authorization.RoleTenants
import Neltrik.Authorization.Escalation

/-! # When a new invitation is refused

An invitation is usable while it is pending and not past its date. `CreateInvitation` asks for one with
the stored status and with the text as it came in; no use case stores that an invitation has expired,
and what it stores is the trimmed text. `refused_iff_usable_iff` says for which requests that makes no
difference, in every state that creating, consuming and revoking invitations lead to. -/

namespace Neltrik.Authorization.Invitations

open Neltrik.Lib Neltrik.Lib.Effect Neltrik.Lib.Machine Neltrik.Shared

/-! ## Histories of invitations -/

/-- Each use case reads the clock at its own instant. `others` is what is done to the other tables. -/
inductive Op where
  | create (input : CreateInvitationInput) (id newToken : String) (now : ℕ)
  | consume (token : String) (now : ℕ)
  | revoke (scope : Option String) (token : String) (now : ℕ)
  | others (tables : Db)

/-- The use case may throw. -/
def step (db : Db) : Op → Option Db
  | .create input id newToken now => some (CreateInvitation.execute input id newToken now db).2
  | .consume token now => some (InvitationApi.consume token now db).2
  | .revoke scope token now => some (RevokeInvitation.execute scope token now db).2
  | .others tables => some { tables with invitations := db.invitations }

/-- The recipients are as `Recipient.create` leaves them. -/
def Trimmed (db : Db) : Prop := ∀ i ∈ db.invitations, trim i.recipient = i.recipient

theorem Recipient.create_eq_ok {text recipient : String} (h : Recipient.create text = .ok recipient) :
    recipient = trim text := by
  unfold Recipient.create at h
  dsimp only at h
  split_ifs at h
  cases h
  rfl

section
variable {db : Db}

/-! ## What the use cases store -/

theorem CreateInvitation.recipient_of_build {input : CreateInvitationInput} {id newToken : String} {now : ℕ}
    {i : Invitation} (h : CreateInvitation.build input id newToken now = .ok i) :
    trim i.recipient = i.recipient := by
  obtain ⟨recipient, hr, h⟩ := except_bind_eq_ok.mp h
  obtain ⟨_, -, h⟩ := except_bind_eq_ok.mp h
  obtain ⟨_, -, h⟩ := except_bind_eq_ok.mp h
  cases h
  rw [Recipient.create_eq_ok hr, trim_trim]

/-- A write of an invitation that has the recipient of a stored one. -/
theorem triple_update {i : Invitation} (hdb : Trimmed db) (hi : trim i.recipient = i.recipient) :
    Triple (fun s => s = db) (InvitationRepository.update i) (fun _ => Trimmed) fun _ => Trimmed := by
  refine Triple.change (fun s s' hs h => ?_) fun s _ hs _ => hs ▸ hdb
  rw [hs] at h
  split_ifs at h
  cases h
  intro i' hi'
  rcases Table.mem_updateWhere.mp hi' with ⟨-, -, -, rfl⟩ | ⟨hi', -⟩
  · exact hi
  · exact hdb i' hi'

theorem trimmed_create (hdb : Trimmed db) (input : CreateInvitationInput) (id newToken : String) (now : ℕ) :
    Trimmed (CreateInvitation.execute input id newToken now db).2 := by
  have hkeep : Triple (fun s => s = db) (CreateInvitation.execute input id newToken now) (fun _ => Trimmed)
      fun _ => Trimmed := by
    have hthrow : ∀ e : AccessError, Triple (fun s => s = db) (Effect.throw e : UseCase Unit)
        (fun _ => Trimmed) fun _ => Trimmed := fun e => Triple.throw fun s hs => hs ▸ hdb
    refine Triple.ite (fun _ => hthrow _) fun _ => ?_
    refine Triple.bind_reads (TenantApi.reads_validate _) (fun _ => hdb) fun _ _ => ?_
    refine Triple.bind_reads (AuthorizationRoleApi.reads_validateForTenant _ _) (fun _ => hdb) fun _ _ => ?_
    refine Triple.ite (fun _ => hthrow _) fun _ => ?_
    refine Triple.bind_read (Triple.ite (fun _ => hthrow _) fun _ => ?_)
    refine Triple.bind_reads (Reads.lift fun _ hb => hb) (fun _ => hdb) fun invitation hb => ?_
    refine Triple.change (fun s s' hs h => ?_) fun s _ hs _ => hs ▸ hdb
    rw [hs] at h
    split_ifs at h
    cases h
    exact List.forall_mem_cons.mpr ⟨CreateInvitation.recipient_of_build hb, hdb⟩
  exact hkeep.snd rfl

theorem recipient_of_restore (i : Invitation) (now : ℕ) : (i.restore now).recipient = i.recipient := by
  unfold Invitation.restore
  split_ifs <;> rfl

theorem recipient_of_use {i i' : Invitation} {now : ℕ} (h : i.use now = .ok i') :
    i'.recipient = i.recipient := by
  obtain ⟨_, -, h⟩ := except_bind_eq_ok.mp h
  obtain ⟨_, -, h⟩ := except_bind_eq_ok.mp h
  cases h
  rfl

theorem recipient_of_revoke {i i' : Invitation} {now : ℕ} (h : i.revoke now = .ok i') :
    i'.recipient = i.recipient := by
  obtain ⟨_, -, h⟩ := except_bind_eq_ok.mp h
  obtain ⟨_, -, h⟩ := except_bind_eq_ok.mp h
  by_cases hrevoked : i.isRevoked = true
  · rw [if_pos hrevoked] at h
    cases h
  · rw [if_neg hrevoked] at h
    cases h
    rfl

/-- **Consuming and revoking** leave the recipients: a row is read, checked, changed in memory by `f` and
written back. -/
theorem triple_change (hdb : Trimmed db) {scope : Option String} {token : String} {now : ℕ}
    {used revoked expired : AccessError}
    {f : Invitation → Except AccessError Invitation}
    (hf : ∀ i i', f i = .ok i' → i'.recipient = i.recipient) :
    Triple (fun s => s = db) (do
      let invitation ← orElse (InvitationRepository.getByToken (← Effect.read) scope token now) .invitationNotFound
      if invitation.isUsed then Effect.throw used
      else if invitation.isRevoked then Effect.throw revoked
      else if invitation.isExpired now then Effect.throw expired
      else
        let invitation ← Effect.lift (f invitation)
        InvitationRepository.update invitation) (fun _ => Trimmed) fun _ => Trimmed := by
  have hthrow : ∀ e : AccessError, Triple (fun s => s = db) (Effect.throw e : UseCase Unit)
      (fun _ => Trimmed) fun _ => Trimmed := fun e => Triple.throw fun s hs => hs ▸ hdb
  refine Triple.bind_read ?_
  refine Triple.bind_reads (InvitationRepository.reads_getByToken scope token now _) (fun _ => hdb) fun i hi => ?_
  refine Triple.ite (fun _ => hthrow _) fun _ => Triple.ite (fun _ => hthrow _) fun _ => ?_
  refine Triple.ite (fun _ => hthrow _) fun _ => ?_
  refine Triple.bind_reads (Reads.lift fun _ hu => hu) (fun _ => hdb) fun i' hi' => ?_
  obtain ⟨row, hrow, rfl⟩ := hi
  have hrecipient : i'.recipient = row.recipient := (hf _ i' hi').trans (recipient_of_restore row now)
  refine triple_update hdb ?_
  rw [hrecipient]
  exact hdb row hrow

/-- **One step** leaves the stored recipients trimmed. -/
theorem trimmed_step {db' : Db} {op : Op} (hdb : Trimmed db) (h : step db op = some db') : Trimmed db' := by
  cases op with
  | create input id newToken now =>
    obtain rfl := Option.some.inj h
    exact trimmed_create hdb input id newToken now
  | consume token now =>
    obtain rfl := Option.some.inj h
    exact Triple.snd (I := Trimmed) (triple_change hdb fun _ _ => recipient_of_use) rfl
  | revoke scope token now =>
    obtain rfl := Option.some.inj h
    exact Triple.snd (I := Trimmed) (triple_change hdb fun _ _ => recipient_of_revoke) rfl
  | others tables =>
    obtain rfl := Option.some.inj h
    exact hdb

/-! ## The two sides -/

/-- The checks before the lookup pass. -/
structure Passes (db : Db) (input : CreateInvitationInput) : Prop where
  tenantId : input.tenantId ≠ ""
  tenant : (TenantRepository.get db input.tenantId).isSome = true
  role : (RoleTenantRepository.getRolesByTenant db input.tenantId).any (·.id == input.roleId) = true
  mechanism : input.mechanism = "manual"

instance (db : Db) (input : CreateInvitationInput) : Decidable (Passes db input) :=
  decidable_of_iff (input.tenantId ≠ "" ∧ (TenantRepository.get db input.tenantId).isSome = true ∧
      (RoleTenantRepository.getRolesByTenant db input.tenantId).any (·.id == input.roleId) = true ∧
      input.mechanism = "manual")
    ⟨fun h => ⟨h.1, h.2.1, h.2.2.1, h.2.2.2⟩, fun h => ⟨h.tenantId, h.tenant, h.role, h.mechanism⟩⟩

/-- A pending row of the tenant with the very text. -/
def Stored (db : Db) (tenantId recipient : String) : Prop :=
  ∃ i ∈ db.invitations, i.tenantId = tenantId ∧ i.recipient = recipient ∧ i.isPending = true

/-- A pending invitation, in the words of the documents: not used, not revoked and not past its date. -/
def Usable (db : Db) (tenantId recipient : String) (now : ℕ) : Prop :=
  ∃ i ∈ db.invitations, i.tenantId = tenantId ∧ i.recipient = recipient ∧ i.isPending = true ∧
    i.isExpired now = false

theorem TenantApi.validate_cases (db : Db) (id : String) :
    ((TenantRepository.get db id).isSome = true ∧ TenantApi.validate id db = (.ok (), db)) ∨
    (¬ (TenantRepository.get db id).isSome = true ∧
      TenantApi.validate id db = (.error .tenantNotFound, db)) := by
  have hget : TenantApi.getById id db = orElse (TenantRepository.get db id) .tenantNotFound db := rfl
  cases h : TenantRepository.get db id with
  | none =>
    rw [h] at hget
    exact Or.inr ⟨nofun, bind_of_error hget⟩
  | some t =>
    rw [h] at hget
    exact Or.inl ⟨rfl, bind_of_ok hget⟩

theorem AuthorizationRoleApi.validateForTenant_of_any {roleId tenantId : String}
    (h : (RoleTenantRepository.getRolesByTenant db tenantId).any (·.id == roleId) = true) :
    AuthorizationRoleApi.validateForTenant roleId tenantId db = (.ok (), db) := by
  unfold AuthorizationRoleApi.validateForTenant
  rw [read_bind, if_pos h]
  rfl

theorem AuthorizationRoleApi.validateForTenant_of_not_any {roleId tenantId : String}
    (h : ¬ (RoleTenantRepository.getRolesByTenant db tenantId).any (·.id == roleId) = true) :
    AuthorizationRoleApi.validateForTenant roleId tenantId db = (.error .roleNotEnabledForTenant, db) := by
  unfold AuthorizationRoleApi.validateForTenant
  rw [read_bind, if_neg h]
  rfl

theorem findPending_isSome_iff {tenantId recipient : String} {now : ℕ} :
    (InvitationRepository.findPendingByTenantAndRecipient db tenantId recipient now).isSome = true ↔
      Stored db tenantId recipient := by
  unfold InvitationRepository.findPendingByTenantAndRecipient Stored Invitation.isPending
  rw [Option.isSome_map, List.find?_isSome]
  simp only [Bool.and_eq_true, beq_iff_eq, and_assoc]

/-- Making and storing the invitation never finds that there is one already. -/
theorem create_ne_alreadyExists (input : CreateInvitationInput) (id newToken : String) (now : ℕ) :
    ((Effect.lift (CreateInvitation.build input id newToken now) >>= InvitationRepository.create) db).1 ≠
      .error .invitationAlreadyExists := by
  have hbuild : ∀ e, CreateInvitation.build input id newToken now = .error e →
      e ≠ .invitationAlreadyExists := by
    intro e he
    unfold CreateInvitation.build Recipient.create Token.create ExpirationDate.create at he
    dsimp only at he
    split_ifs at he <;> cases he <;> nofun
  cases hb : CreateInvitation.build input id newToken now with
  | error e =>
    intro h
    exact hbuild e hb (Except.error.inj h)
  | ok i =>
    have hrun : (Effect.lift (.ok i) >>= InvitationRepository.create) db = InvitationRepository.create i db :=
      bind_of_ok rfl
    rw [hrun]
    unfold InvitationRepository.create Effect.change
    dsimp only
    split_ifs <;> nofun

/-- **A new invitation is refused** when the checks before the lookup pass and a pending row has the
text of the request. -/
theorem refused_iff (input : CreateInvitationInput) (id newToken : String) (now : ℕ) :
    (CreateInvitation.execute input id newToken now db).1 = .error .invitationAlreadyExists ↔
      Passes db input ∧ Stored db input.tenantId input.recipient := by
  unfold CreateInvitation.execute
  by_cases htenantId : input.tenantId = ""
  · rw [if_pos htenantId]
    exact iff_of_false nofun fun h => h.1.tenantId htenantId
  rw [if_neg htenantId]
  rcases TenantApi.validate_cases db input.tenantId with ⟨htenant, hrun⟩ | ⟨htenant, hrun⟩
  case inr =>
    rw [bind_of_error hrun]
    exact iff_of_false nofun fun h => htenant h.1.tenant
  rw [bind_of_ok hrun]
  by_cases hrole : (RoleTenantRepository.getRolesByTenant db input.tenantId).any (·.id == input.roleId) = true
  case neg =>
    rw [bind_of_error (AuthorizationRoleApi.validateForTenant_of_not_any hrole)]
    exact iff_of_false nofun fun h => hrole h.1.role
  rw [bind_of_ok (AuthorizationRoleApi.validateForTenant_of_any hrole)]
  by_cases hmechanism : input.mechanism ≠ "manual"
  · rw [if_pos hmechanism]
    exact iff_of_false nofun fun h => hmechanism h.1.mechanism
  rw [if_neg hmechanism, read_bind]
  have hpasses : Passes db input := ⟨htenantId, htenant, hrole, not_not.mp hmechanism⟩
  by_cases hfound : (InvitationRepository.findPendingByTenantAndRecipient db input.tenantId input.recipient
      now).isSome = true
  · rw [if_pos hfound]
    exact iff_of_true rfl ⟨hpasses, findPending_isSome_iff.mp hfound⟩
  · rw [if_neg hfound]
    exact iff_of_false (create_ne_alreadyExists input id newToken now) fun h =>
      hfound (findPending_isSome_iff.mpr h.2)

/-! ## When the two sides agree -/

/-- A usable invitation of the recipient is one the request can find: it passes the checks before the
lookup and its text is trimmed. And where there are pending rows for a trimmed text, one of them is
not past its date. -/
structure FindsUsable (db : Db) (input : CreateInvitationInput) (now : ℕ) : Prop where
  found : Usable db input.tenantId (trim input.recipient) now →
    Passes db input ∧ trim input.recipient = input.recipient
  usable : Passes db input → Stored db input.tenantId input.recipient →
    Usable db input.tenantId input.recipient now

theorem Usable.stored {tenantId recipient : String} {now : ℕ} (h : Usable db tenantId recipient now) :
    Stored db tenantId recipient := by
  obtain ⟨i, hi, htenant, hrecipient, hpending, -⟩ := h
  exact ⟨i, hi, htenant, hrecipient, hpending⟩

theorem Stored.trimmed (hdb : Trimmed db) {tenantId recipient : String} (h : Stored db tenantId recipient) :
    trim recipient = recipient := by
  obtain ⟨i, hi, -, rfl, -⟩ := h
  exact hdb i hi

/-- **A new invitation is refused exactly when a usable one exists**, exactly when the request finds the
usable ones and only those. -/
theorem refused_iff_usable_iff {db₀ : Db} (h₀ : db₀.invitations = []) {ops : List Op}
    (hr : run step db₀ ops = some db) (input : CreateInvitationInput) {recipient : String}
    (hrecipient : Recipient.create input.recipient = .ok recipient) (id newToken : String) (now : ℕ) :
    ((CreateInvitation.execute input id newToken now db).1 = .error .invitationAlreadyExists ↔
      Usable db input.tenantId recipient now) ↔ FindsUsable db input now := by
  have hdb : Trimmed db := run_inv (fun _ _ _ h hs => trimmed_step h hs)
    (fun i hi => absurd hi (h₀ ▸ List.not_mem_nil)) hr
  rw [refused_iff, Recipient.create_eq_ok hrecipient]
  constructor
  · intro hiff
    refine ⟨fun husable => ?_, fun hpasses hstored => ?_⟩
    · obtain ⟨hpasses, hstored⟩ := hiff.mpr husable
      exact ⟨hpasses, hstored.trimmed hdb⟩
    · have husable := hiff.mp ⟨hpasses, hstored⟩
      rw [hstored.trimmed hdb] at husable
      exact husable
  · intro hfinds
    constructor
    · rintro ⟨hpasses, hstored⟩
      rw [hstored.trimmed hdb]
      exact hfinds.usable hpasses hstored
    · intro husable
      obtain ⟨hpasses, htrim⟩ := hfinds.found husable
      rw [htrim] at husable
      exact ⟨hpasses, husable.stored⟩

end

/-! ### One person invited twice -/

section Example

instance (db : Db) (tenantId recipient : String) (now : ℕ) : Decidable (Usable db tenantId recipient now) :=
  inferInstanceAs (Decidable (∃ i ∈ db.invitations, _))

/-- An invitation of the recipient. -/
def invite (recipient : String) : CreateInvitationInput := ⟨"acme", "member", recipient, "manual"⟩

/-- Eve is invited at the instant 1. -/
def inviteEve : Op := .create (invite "eve@acme.io ") "i1" "6f1c2b9e-3f5a-4c1d-9a77-0c2f4f6d8e11" 1

/-- A second invitation by the same text, while the first can be used. -/
theorem refused_iff_usable_iff_eve : ∃ db, run step seeded [inviteEve] = some db ∧
    ((CreateInvitation.execute (invite "eve@acme.io") "i2" "6f1c2b9e-3f5a-4c1d-9a77-0c2f4f6d8e12" 2 db).1 =
      .error .invitationAlreadyExists ↔ Usable db "acme" "eve@acme.io" 2) := by
  have hrun : (run step seeded [inviteEve]).any (fun db =>
      decide (Passes db (invite "eve@acme.io") ∧ Usable db "acme" "eve@acme.io" 2)) = true := by decide +kernel
  obtain ⟨db, hdb, hfinds⟩ := (Option.any_eq_true _ _).mp hrun
  obtain ⟨hpasses, husable⟩ := of_decide_eq_true hfinds
  refine ⟨db, hdb, (refused_iff_usable_iff (show seeded.invitations = [] from rfl) hdb (invite "eve@acme.io")
    (show Recipient.create "eve@acme.io" = .ok "eve@acme.io" by decide) _ _ 2).mpr ?_⟩
  exact ⟨fun _ => ⟨hpasses, show trim "eve@acme.io" = "eve@acme.io" by decide⟩, fun _ _ => husable⟩

/-- With a space before the address it is invited a second time, and once the first invitation is past
its date it is never invited again. -/
theorem refused_without_usable :
    (run step seeded [inviteEve]).any (fun db => decide (Usable db "acme" "eve@acme.io" 2 ∧
      (CreateInvitation.execute (invite " eve@acme.io") "i2" "6f1c2b9e-3f5a-4c1d-9a77-0c2f4f6d8e12" 2 db).1 =
        .ok ())) = true ∧
    (run step seeded [inviteEve]).any (fun db =>
      decide (¬ Usable db "acme" "eve@acme.io" (calculateExpirationDate 1) ∧
      (CreateInvitation.execute (invite "eve@acme.io") "i2" "6f1c2b9e-3f5a-4c1d-9a77-0c2f4f6d8e12"
        (calculateExpirationDate 1) db).1 = .error .invitationAlreadyExists)) = true := by
  decide +kernel

end Example

end Neltrik.Authorization.Invitations
