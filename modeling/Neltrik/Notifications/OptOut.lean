import Neltrik.Notifications.UseCases

/-! # Whose opt-out counts

`SendNotificationOhs` looks for the preference of the recipient through the tenant client. The client
puts the acting user in the place of the owner, and the acting tenant beside it, so what is found is
the preference of whoever sends (`asked`).

`keeps_recipients_choice_iff`: the channels that are kept are those the recipient has not opted out of
exactly when the notification is transactional or, on each of its channels, the row that is asked for
opts out exactly when the recipient's own does. -/

namespace Neltrik.Notifications.OptOut

open Neltrik.Lib Neltrik.Lib.Effect Neltrik.Lib.Table Neltrik.Prisma

variable {ports : Ports}

/-! ## The query -/

/-- The owner and the tenant of the row that is looked for. -/
structure Asked where
  ownerId : String
  tenantId : Option String

/-- A query for the preferences of an owner, as the tenant client passes it on. -/
def asked (store : Option TenantContext) (ownerId : String) : Asked :=
  if isPlatformAdmin store then ⟨ownerId, none⟩
  else ⟨(truthy (getCurrentUserId store)).getD ownerId, truthy (getCurrentTenant store)⟩

/-- The rows of a user, in any tenant. -/
def own (ownerId : String) : Asked := ⟨ownerId, none⟩

/-- The row is one that is asked for. -/
def matching (who : Asked) (channel : NotificationChannel) (category : NotificationCategory)
    (p : NotificationPreference) : Bool :=
  p.ownerId == who.ownerId && who.tenantId.all (p.tenantId == ·) && p.channel == channel &&
    p.category == category

/-- There is a row that is asked for, and it refuses marketing on the channel. -/
def optedOut (s : Store ports) (who : Asked) (channel : NotificationChannel) : Bool :=
  s.preferences.rows.any fun p => matching who channel .marketing p && !p.enabled

/-! ### The columns of a preference -/

section
variable (p : NotificationPreference)

@[simp] theorem equals_owner (ownerId : String) :
    equals ownerId (p.row "ownerId") = (p.ownerId == ownerId) := rfl

@[simp] theorem equals_tenant (tenantId : String) :
    equals tenantId (p.row "tenantId") = (p.tenantId == tenantId) := rfl

@[simp] theorem equals_channel (channel : NotificationChannel) :
    equals channel.value (p.row "channel") = (p.channel == channel) := by
  show (p.channel.value == channel.value) = _
  cases p.channel <;> cases channel <;> decide

@[simp] theorem equals_category (category : NotificationCategory) :
    equals category.value (p.row "category") = (p.category == category) := by
  show (p.category.value == category.value) = _
  cases p.category <;> cases category <;> decide

end

/-- **The rows the query selects** are those of the acting user, in the acting tenant. -/
theorem holds_query (store : Option TenantContext) (p : NotificationPreference) (ownerId : String)
    (channel : NotificationChannel) (category : NotificationCategory) :
    Where.holds p.row ((allOperations store .notificationPreference .findFirst
      (some [.field "ownerId" (equals ownerId), .field "channel" (equals channel.value),
        .field "category" (equals category.value)])).getD []) =
      matching (asked store ownerId) channel category p := by
  unfold asked matching
  by_cases hadmin : isPlatformAdmin store = true
  · rw [allOperations, if_pos hadmin, if_pos hadmin]
    simp [Where.holds, Condition.holds, Bool.and_assoc]
  · have hscope : ∀ t u : Option String, inScope .notificationPreference t u p.row =
        (t.all (p.tenantId == ·) && u.all (p.ownerId == ·)) := by
      intro t u
      simp [inScope, tenantModels, tenantModelsWithGlobal, ownershipModels]
    rw [allOperations_eq ((Bool.not_eq_true _).mp hadmin) rfl, if_neg hadmin, Where.holds_append,
      holds_requestConditions, requestScope, hscope, requestConditions, scopeConditions, resolveScope]
    -- only the owner of the caller can get lost: the query names no tenant
    rcases truthy (getCurrentTenant store) with _ | t <;>
      rcases truthy (getCurrentUserId store) with _ | u <;>
      simp [Where.kept, tenantModels, tenantModelsWithGlobal, ownershipModels, tenantCondition,
        ownerCondition, Condition.key, Where.holds, Condition.holds] <;> grind

/-- **The preference that is resolved** is that of the rows that are asked for. -/
theorem resolve_eq (store : Option TenantContext) (s : Store ports) (ownerId : String)
    (channel : NotificationChannel) :
    ResolveNotificationPreference.execute store s ownerId channel .marketing =
      !optedOut s (asked store ownerId) channel := by
  have hkey : ∀ p p' : NotificationPreference,
      matching (asked store ownerId) channel .marketing p = true →
      matching (asked store ownerId) channel .marketing p' = true →
      preferenceKey p = preferenceKey p' := by
    intro p p' h h'
    simp only [matching, Bool.and_eq_true, beq_iff_eq] at h h'
    obtain ⟨⟨⟨ho, -⟩, hch⟩, hca⟩ := h
    obtain ⟨⟨⟨ho', -⟩, hch'⟩, hca'⟩ := h'
    rw [preferenceKey, preferenceKey, ho, ho', hch, hch', hca, hca']
  have hfind : ResolveNotificationPreference.execute store s ownerId channel .marketing =
      (s.preferences.rows.find? (matching (asked store ownerId) channel .marketing)).all
        NotificationPreference.isEnabled := by
    unfold ResolveNotificationPreference.execute findByOwnerAndChannelAndCategory findFirst
    simp only [holds_query]
    cases s.preferences.rows.find? (matching (asked store ownerId) channel .marketing) <;> rfl
  rw [hfind, s.preferences.keyed.all_find? hkey, optedOut, List.not_any_eq_all_not]
  refine congrArg (s.preferences.rows.all ·) (funext fun p => ?_)
  rw [Bool.not_and, Bool.not_not]
  rfl

/-! ## The channels that are kept -/

/-- The recipient lets a notification through on a channel: their own preference for marketing is
absent or enabled, or the notification is transactional. -/
def lets (s : Store ports) (input : SendNotificationInput) (channel : NotificationChannel) : Bool :=
  input.code.category == .transactional || !optedOut s (own input.recipientId) channel

/-- The channels the recipient lets through are those of the notification, and there is none when
nothing is left. -/
structure KeepsRecipientsChoice (store : Option TenantContext) (s : Store ports)
    (input : SendNotificationInput) : Prop where
  kept : SendNotificationOhs.filterChannels store s input = input.channels.filter (lets s input)
  none_left : (∀ channel ∈ input.channels, lets s input channel = false) → ∀ (id : String) (now : ℕ),
    (SendNotificationOhs.execute store input id now s).2 = s ∧
      ∀ id', (SendNotificationOhs.execute store input id now s).1 ≠ .ok (some id')
  created : ∀ (id id' : String) (now : ℕ) (s' : Store ports),
    SendNotificationOhs.execute store input id now s = (.ok (some id'), s') →
    ∃ n ∈ s'.notifications, n.id = id' ∧ n.channels = input.channels.filter (lets s input)

section
variable {store : Option TenantContext} {s : Store ports} {input : SendNotificationInput}

theorem filterChannels_eq : SendNotificationOhs.filterChannels store s input =
    input.channels.filter fun channel => input.code.category == .transactional ||
      !optedOut s (asked store input.recipientId) channel := by
  unfold SendNotificationOhs.filterChannels
  by_cases hc : input.code.category = .transactional
  · simp [hc]
  · have hb : (input.code.category == .transactional) = false := by simpa using hc
    simp [hc, hb, resolve_eq]

/-- **The channels are the recipient's choice** when the rows that are asked for refuse what the
recipient's own refuse. -/
theorem filterChannels_eq_filter_lets_iff :
    SendNotificationOhs.filterChannels store s input = input.channels.filter (lets s input) ↔
      input.code.category = .transactional ∨ ∀ channel ∈ input.channels,
        optedOut s (asked store input.recipientId) channel =
          optedOut s (own input.recipientId) channel := by
  rw [filterChannels_eq, filter_eq_filter_iff]
  unfold lets
  by_cases hc : input.code.category = .transactional
  · simp [hc]
  · have hb : (input.code.category == .transactional) = false := by simpa using hc
    simp [hc, hb]

/-- **What the use case stores** has the channels that are kept. -/
theorem execute_triple (id : String) (now : ℕ) :
    Triple (fun s' => s' = s) (SendNotificationOhs.execute store input id now)
      (fun r s' => ∀ id', r = some id' → ∃ n ∈ s'.notifications, n.id = id' ∧
        n.channels = SendNotificationOhs.filterChannels store s input) fun _ _ => True := by
  unfold SendNotificationOhs.execute
  refine Triple.bind_read (Triple.ite (fun _ => Triple.throw fun _ _ => trivial) fun _ => ?_)
  refine Triple.bind_read (Triple.ite (fun _ => Triple.pure fun _ _ => nofun) fun _ => ?_)
  -- the templates are only looked up, whatever is found
  refine Triple.bind (R := fun _ _ => True) (fun _ _ => ⟨fun _ _ _ => trivial, fun _ _ _ => trivial⟩)
    fun _ => ?_
  refine Triple.bind (R := fun n _ => n.id = id ∧
    n.channels = SendNotificationOhs.filterChannels store s input) ?_ fun n => ?_
  · exact Triple.lift (fun n hn _ _ => Notification.create_eq_ok hn) fun _ _ _ _ => trivial
  have hstored : ∀ s₁ : Store ports, n.id = id ∧
      n.channels = SendNotificationOhs.filterChannels store s input → n ∈ s₁.notifications →
      ∃ n' ∈ s₁.notifications, n'.id = n.id ∧
        n'.channels = SendNotificationOhs.filterChannels store s input :=
    fun s₁ hn hmem => ⟨n, hmem, rfl, hn.2⟩
  refine Triple.bind (R := fun _ s₁ => ∃ n' ∈ s₁.notifications, n'.id = n.id ∧
    n'.channels = SendNotificationOhs.filterChannels store s input) ?_ fun _ => ?_
  · refine Triple.change (fun s₁ s₂ hn hs => ?_) fun _ _ _ _ => trivial
    split_ifs at hs
    cases hs
    exact hstored _ hn List.mem_cons_self
  refine Triple.bind (R := fun _ s₁ => ∃ n' ∈ s₁.notifications, n'.id = n.id ∧
    n'.channels = SendNotificationOhs.filterChannels store s input) ?_ fun _ => ?_
  · refine Triple.change (fun s₁ s₂ hn hs => ?_) fun _ _ _ _ => trivial
    obtain ⟨-, -, rfl⟩ := except_map_eq_ok.mp hs
    exact hn
  · refine Triple.pure fun s₁ hn id' hid => ?_
    cases hid
    exact hn

theorem execute_triple_of_none_left
    (h : SendNotificationOhs.filterChannels store s input = []) (id : String) (now : ℕ) :
    Triple (fun s' => s' = s) (SendNotificationOhs.execute store input id now)
      (fun r s' => s' = s ∧ r = none) fun _ s' => s' = s := by
  unfold SendNotificationOhs.execute
  refine Triple.bind_read (Triple.ite (fun _ => Triple.throw fun _ hs => hs) fun _ => ?_)
  refine Triple.bind_read (Triple.ite (fun _ => Triple.pure fun _ hs => ⟨hs, rfl⟩) fun hne => ?_)
  exact absurd h hne

end

/-- **Marketing is the recipient's choice** exactly when the notification is transactional or, on every
channel, the row that is asked for refuses what the recipient's own refuses. -/
theorem keeps_recipients_choice_iff (store : Option TenantContext) (s : Store ports)
    (input : SendNotificationInput) :
    KeepsRecipientsChoice store s input ↔
      input.code.category = .transactional ∨ ∀ channel ∈ input.channels,
        optedOut s (asked store input.recipientId) channel =
          optedOut s (own input.recipientId) channel := by
  rw [← filterChannels_eq_filter_lets_iff]
  refine ⟨KeepsRecipientsChoice.kept, fun hkept => ⟨hkept, fun hnone id now => ?_, ?_⟩⟩
  · have hleft : SendNotificationOhs.filterChannels store s input = [] := by
      rw [hkept, List.filter_eq_nil_iff]
      intro channel hchannel
      rw [hnone channel hchannel]
      exact nofun
    have hrun := execute_triple_of_none_left hleft id now
    refine ⟨(hrun.conseq (fun _ hs => hs) (fun _ _ hr => hr.1) fun _ _ hs => hs).snd rfl, ?_⟩
    intro id' hid
    exact nomatch ((hrun s rfl).1 _ _ (Prod.ext hid rfl)).2
  · intro id id' now s' hrun
    rw [← hkept]
    exact (execute_triple id now s rfl).1 _ _ hrun id' rfl

/-! ### Somebody else sends -/

/-- The queue and the sender always answer. -/
def sendsAll : Ports := ⟨fun html => html, fun _ => .ok (), fun _ => .ok ()⟩

/-- `v` has refused marketing by email. -/
def refused : Store sendsAll where
  tenants := ["t"]
  preferences := ⟨[⟨"p", "t", "v", .email, .marketing, false, 0, 0, 0, by decide, by decide⟩],
    keyed_singleton _ _⟩
  templates := (NotificationTemplate.create ⟨"w", none, .welcome, .email, "es", some "Hola", "Bienvenido",
    true, 0, 0, 0⟩).toOption.toList
  notifications := []
  jobs := []
  sent := []

/-- A welcome to `v`. -/
def welcome : SendNotificationInput := ⟨"t", "v", some "v@x", .welcome, [.email], [], "es"⟩

/-- The user `u` of the same tenant sends it: the channel is kept, and the job is enqueued. -/
theorem mails_who_opted_out :
    ¬ KeepsRecipientsChoice (some ⟨some "t", some "u", false⟩) refused welcome ∧
      (SendNotificationOhs.execute (some ⟨some "t", some "u", false⟩) welcome "n" 0 refused).2.jobs =
        ["n"] := by
  refine ⟨fun h => absurd h.kept ?_, ?_⟩ <;> decide

end Neltrik.Notifications.OptOut
