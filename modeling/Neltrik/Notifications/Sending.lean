import Neltrik.Notifications.UseCases

/-! # Sending is all or nothing

`SendNotificationOhsUseCase` stores the row of a notification and then enqueues its job. Any of its
calls may throw: `Faults` says which of those before the queue do, `ports.enqueue` what the queue does.
Without faults the run is that of `SendNotificationOhs`.

`all_or_nothing_iff`: a run leaves the row and the job, or neither, exactly when the queue takes the
job if the run gets as far as the queue. -/

namespace Neltrik.Notifications.Sending

open Neltrik.Lib Neltrik.Lib.Effect Neltrik.Prisma

variable {ports : Ports}

/-- What the calls throw beyond what they make of the tables. The preferences and the templates are
resolved one by one. -/
structure Faults where
  validate : Option NotificationError
  preference : ℕ → Option NotificationError
  template : ℕ → Option NotificationError
  create : Option NotificationError

/-- Every call returns. -/
def noFaults : Faults := ⟨none, fun _ => none, fun _ => none, none⟩

/-- The call throws, or does what it does. -/
def faulty {α : Type} (fault : Option NotificationError) (call : UseCase ports α) : UseCase ports α :=
  match fault with
  | some e => Effect.throw e
  | none => call

/-! ## The use case, call by call -/

section
variable (faults : Faults) (store : Option TenantContext) (input : SendNotificationInput)

/-- The loop of `filterChannels`; `k` preferences have been resolved. -/
def allowed : ℕ → List NotificationChannel → UseCase ports (List NotificationChannel)
  | _, [] => return []
  | k, channel :: channels => do
    let accepted ← faulty (faults.preference k) do
      return ResolveNotificationPreference.execute store (← Effect.read) input.recipientId channel
        .marketing
    let rest ← allowed (k + 1) channels
    return if accepted then channel :: rest else rest

/-- The channels that the preferences let through. -/
def filterChannels : UseCase ports (List NotificationChannel) :=
  if input.code.category = .transactional then return input.channels
  else allowed faults store input 0 input.channels

/-- The loop over the channels that are left; `k` templates have been resolved. -/
def resolveTemplates : ℕ → List NotificationChannel → UseCase ports Unit
  | _, [] => return ()
  | k, channel :: channels => do
    let _ ← faulty (faults.template k)
      (ResolveNotificationTemplate.execute store input.code channel input.locale (some input.tenantId))
    resolveTemplates (k + 1) channels

/-- The notification of the channels that are left. -/
def notificationOf (channels : List NotificationChannel) (id : String) (now : ℕ) :
    Except NotificationError Notification :=
  Notification.create
    { id, tenantId := input.tenantId, recipientId := input.recipientId
      recipientEmail := input.recipientEmail, code := input.code, channels
      payload := input.payload, locale := input.locale, status := .pending, attempts := 0
      lastError := none, sentAt := none, readAt := none, createdAt := now, updatedAt := now }

/-- The tenant has to exist. -/
def validate : UseCase ports Unit := do
  if (← Effect.read).tenants.contains input.tenantId = false then Effect.throw .tenantNotFound
  else return ()

/-- The job of the delivery. -/
def enqueue (id : String) : UseCase ports Unit :=
  Effect.change fun s => (ports.enqueue id).map fun _ => { s with jobs := id :: s.jobs }

/-- `SendNotificationOhsUseCase.execute`, each call with its fault. -/
def execute (id : String) (now : ℕ) : UseCase ports (Option String) := do
  faulty faults.validate (validate input)
  let channels ← filterChannels faults store input
  if channels = [] then return none
  else
    resolveTemplates faults store input 0 channels
    let notification ← Effect.lift (notificationOf input channels id now)
    faulty faults.create (NotificationRepository.create notification)
    enqueue notification.id
    return some notification.id

end

/-! ## What the calls before the queue return -/

section
variable {α : Type} {c : Prop} {m : UseCase ports α} {s : Store ports} {R : α → Prop}

theorem settles_faulty {fault : Option NotificationError} (hm : Settles c m s R) :
    Settles (fault = none ∧ c) (faulty fault m) s R := by
  constructor
  · rintro ⟨rfl, hc⟩
    exact hm.ok hc
  · intro h
    cases fault with
    | none => exact hm.error fun hc => h ⟨rfl, hc⟩
    | some e => exact ⟨e, rfl⟩

end

section
variable (faults : Faults) (store : Option TenantContext) (input : SendNotificationInput)
  (s : Store ports)

theorem validate_of_contains (h : s.tenants.contains input.tenantId ≠ false) :
    validate input s = (.ok (), s) := by
  show (if s.tenants.contains input.tenantId = false then Effect.throw .tenantNotFound
    else pure () : UseCase ports Unit) s = _
  rw [if_neg h]
  rfl

theorem validate_of_not_contains (h : s.tenants.contains input.tenantId = false) :
    validate input s = (.error .tenantNotFound, s) := by
  show (if s.tenants.contains input.tenantId = false then Effect.throw .tenantNotFound
    else pure () : UseCase ports Unit) s = _
  rw [if_pos h]
  rfl

theorem settles_validate :
    Settles (s.tenants.contains input.tenantId = true) (validate input) s fun _ => True := by
  constructor
  · intro h
    exact ⟨(), validate_of_contains input s (by rw [h]; exact nofun), trivial⟩
  · intro h
    exact ⟨_, validate_of_not_contains input s ((Bool.not_eq_true _).mp h)⟩

/-- The calls from `k` on: the first one and the `n` after it. -/
theorem noFault_cons (fault : ℕ → Option NotificationError) (k n : ℕ) :
    (fault k = none ∧ ∀ i < n, fault (k + 1 + i) = none) ↔ ∀ i < n + 1, fault (k + i) = none := by
  constructor
  · rintro ⟨h0, h⟩ i hi
    rcases i with _ | i
    · exact h0
    · have := h i (by omega)
      rwa [Nat.add_assoc, Nat.add_comm 1 i] at this
  · intro h
    refine ⟨h 0 (by omega), fun i hi => ?_⟩
    have := h (i + 1) (by omega)
    rwa [Nat.add_comm i 1, ← Nat.add_assoc] at this

theorem settles_allowed (k : ℕ) (channels : List NotificationChannel) :
    Settles (∀ i < channels.length, faults.preference (k + i) = none)
      (allowed faults store input k channels) s (· = channels.filter fun channel =>
        ResolveNotificationPreference.execute store s input.recipientId channel .marketing) := by
  induction channels generalizing k with
  | nil => exact (Settles.of_eq rfl).iff (by simp)
  | cons channel channels ih =>
    have hcall : Settles True (do
        return ResolveNotificationPreference.execute store (← Effect.read) input.recipientId channel
          .marketing : UseCase ports Bool) s
        (· = ResolveNotificationPreference.execute store s input.recipientId channel .marketing) :=
      Settles.of_eq rfl
    rw [List.filter_cons, allowed]
    refine ((settles_faulty hcall).bind fun accepted ha => (ih (k + 1)).map fun rest hrest => ?_).iff ?_
    · rw [ha, hrest]
    · rw [and_true]
      exact noFault_cons faults.preference k channels.length

/-- The preferences that are asked for. -/
def asks : ℕ := if input.code.category = .transactional then 0 else input.channels.length

theorem settles_filterChannels :
    Settles (∀ i < asks input, faults.preference i = none) (filterChannels faults store input) s
      (· = SendNotificationOhs.filterChannels store s input) := by
  unfold filterChannels SendNotificationOhs.filterChannels asks
  by_cases hc : input.code.category = .transactional
  · rw [if_pos hc, if_pos hc, if_pos hc]
    exact (Settles.of_eq rfl).iff (by simp)
  · rw [if_neg hc, if_neg hc, if_neg hc]
    exact (settles_allowed faults store input s 0 input.channels).iff (by simp only [Nat.zero_add])

/-- There is a template for the channel. -/
def hasTemplate (channel : NotificationChannel) : Bool :=
  (findActiveByCombination store s input.code channel input.locale (some input.tenantId)).isSome

theorem settles_resolveTemplate (channel : NotificationChannel) :
    Settles (hasTemplate store input s channel = true)
      (ResolveNotificationTemplate.execute store input.code channel input.locale (some input.tenantId)) s
      fun _ => True := by
  have hrun : ResolveNotificationTemplate.execute store input.code channel input.locale
      (some input.tenantId) s = orElse (findActiveByCombination store s input.code channel input.locale
        (some input.tenantId)) .templateNotFound s := rfl
  unfold hasTemplate
  constructor
  · intro h
    obtain ⟨t, ht⟩ := Option.isSome_iff_exists.mp h
    rw [hrun, ht]
    exact ⟨t, rfl, trivial⟩
  · intro h
    rw [hrun, Option.not_isSome_iff_eq_none.mp h]
    exact ⟨_, rfl⟩

theorem settles_resolveTemplates (k : ℕ) (channels : List NotificationChannel) :
    Settles ((∀ i < channels.length, faults.template (k + i) = none) ∧
        ∀ channel ∈ channels, hasTemplate store input s channel = true)
      (resolveTemplates faults store input k channels) s fun _ => True := by
  induction channels generalizing k with
  | nil => exact ⟨fun _ => ⟨(), rfl, trivial⟩, fun h => absurd (by simp) h⟩
  | cons channel channels ih =>
    rw [resolveTemplates]
    refine ((settles_faulty (settles_resolveTemplate store input s channel)).bind fun _ _ => ih (k + 1)).iff ?_
    rw [List.forall_mem_cons, List.length_cons,
      ← noFault_cons faults.template k channels.length]
    exact and_and_and_comm

theorem settles_notificationOf (channels : List NotificationChannel) (id : String) (now : ℕ) :
    Settles ((notificationOf input channels id now).toOption.isSome = true)
      (Effect.lift (notificationOf input channels id now)) s
      fun n => n.id = id ∧ n.status = .pending :=
  Settles.lift.mono fun _ hn => ⟨(Notification.create_eq_ok hn).1, Notification.create_status hn⟩

end

/-! ## The run -/

/-- The run gets as far as the queue. -/
structure Reaches (faults : Faults) (store : Option TenantContext) (s : Store ports)
    (input : SendNotificationInput) (id : String) (now : ℕ) : Prop where
  validated : faults.validate = none ∧ s.tenants.contains input.tenantId = true
  asked : ∀ i < asks input, faults.preference i = none
  allowed : SendNotificationOhs.filterChannels store s input ≠ []
  resolved : (∀ i < (SendNotificationOhs.filterChannels store s input).length, faults.template i = none) ∧
    ∀ channel ∈ SendNotificationOhs.filterChannels store s input, hasTemplate store input s channel = true
  valid : (notificationOf input (SendNotificationOhs.filterChannels store s input) id now).toOption.isSome =
    true
  created : faults.create = none ∧ ∀ n ∈ s.notifications, n.id ≠ id

section
variable {faults : Faults} {store : Option TenantContext} {s : Store ports}
  {input : SendNotificationInput} {id : String} {now : ℕ}

theorem create_cases (faults : Faults) (s : Store ports) (n : Notification) :
    ((faults.create = none ∧ ∀ m ∈ s.notifications, m.id ≠ n.id) ∧
      faulty faults.create (NotificationRepository.create n) s =
        (.ok (), { s with notifications := n :: s.notifications })) ∨
    (¬ (faults.create = none ∧ ∀ m ∈ s.notifications, m.id ≠ n.id) ∧
      ∃ e, faulty faults.create (NotificationRepository.create n) s = (.error e, s)) := by
  unfold faulty
  cases hfault : faults.create with
  | some e => exact Or.inr ⟨fun h => (nomatch h.1), e, rfl⟩
  | none =>
    by_cases hany : s.notifications.any (·.id == n.id) = true
    · refine Or.inr ⟨fun h => ?_, .uniqueViolation, change_of_error (if_pos hany)⟩
      obtain ⟨m, hm, hid⟩ := List.any_eq_true.mp hany
      exact h.2 m hm (beq_iff_eq.mp hid)
    · refine Or.inl ⟨⟨rfl, fun m hm hid => hany ?_⟩, change_of_ok (if_neg hany)⟩
      exact List.any_eq_true.mpr ⟨m, hm, beq_iff_eq.mpr hid⟩

/-- **The run up to the queue**: the row is stored, or nothing is and no id is returned. -/
theorem execute_cases :
    (Reaches faults store s input id now ∧ ∃ n : Notification, n.id = id ∧ n.status = .pending ∧
      execute faults store input id now s =
        (enqueue id >>= fun _ => pure (some id)) { s with notifications := n :: s.notifications }) ∨
    (¬ Reaches faults store s input id now ∧ (execute faults store input id now s).2 = s ∧
      ∀ id', (execute faults store input id now s).1 ≠ .ok (some id')) := by
  rw [execute]
  rcases (settles_faulty (settles_validate input s)).bind_cases _ with ⟨hvalid, _, -, hrun⟩ | ⟨hvalid, e, hrun⟩
  case inr => rw [hrun]; exact Or.inr ⟨fun h => hvalid h.validated, rfl, nofun⟩
  rw [hrun]
  rcases (settles_filterChannels faults store input s).bind_cases _ with
    ⟨hasked, channels, rfl, hrun⟩ | ⟨hasked, e, hrun⟩
  case inr => rw [hrun]; exact Or.inr ⟨fun h => hasked h.asked, rfl, nofun⟩
  rw [hrun]
  by_cases hallowed : SendNotificationOhs.filterChannels store s input = []
  · rw [if_pos hallowed]
    exact Or.inr ⟨fun h => h.allowed hallowed, rfl, nofun⟩
  rw [if_neg hallowed]
  rcases (settles_resolveTemplates faults store input s 0 _).bind_cases _ with
    ⟨hresolved, _, -, hrun⟩ | ⟨hresolved, e, hrun⟩
  case inr =>
    rw [hrun]
    refine Or.inr ⟨fun h => hresolved ?_, rfl, nofun⟩
    simpa only [Nat.zero_add] using h.resolved
  rw [hrun]
  rcases (settles_notificationOf input s _ id now).bind_cases _ with
    ⟨hnew, n, ⟨hid, hpending⟩, hrun⟩ | ⟨hnew, e, hrun⟩
  case inr => rw [hrun]; exact Or.inr ⟨fun h => hnew h.valid, rfl, nofun⟩
  rw [hrun, hid]
  rcases create_cases faults s n with ⟨hcreated, hrun⟩ | ⟨hcreated, e, hrun⟩ <;> rw [hid] at hcreated
  · rw [bind_of_ok hrun]
    simp only [Nat.zero_add] at hresolved
    exact Or.inl ⟨⟨hvalid, hasked, hallowed, hresolved, hnew, hcreated⟩, n, hid, hpending, rfl⟩
  · rw [bind_of_error hrun]
    exact Or.inr ⟨fun h => hcreated h.created, rfl, nofun⟩

/-- The row and the job of the notification are there, once each. -/
structure Left (s s' : Store ports) (id : String) : Prop where
  row : ∃ n : Notification, n.id = id ∧ n.status = .pending ∧ s'.notifications = n :: s.notifications
  only : ∀ n ∈ s.notifications, n.id ≠ id
  job : s'.jobs = id :: s.jobs

/-- No row and no job is left behind. -/
structure Nothing (s s' : Store ports) : Prop where
  rows : s'.notifications = s.notifications
  jobs : s'.jobs = s.jobs

/-- What a run that returned or threw `outcome` has left. -/
def AllOrNothing (s : Store ports) (outcome : Except NotificationError (Option String))
    (s' : Store ports) : Prop :=
  match outcome with
  | .ok (some id) => Left s s' id
  | _ => Nothing s s'

theorem AllOrNothing.of_ne {outcome : Except NotificationError (Option String)} {s' : Store ports}
    (h : ∀ id', outcome ≠ .ok (some id')) : AllOrNothing s outcome s' ↔ Nothing s s' := by
  rcases outcome with e | _ | id'
  · exact Iff.rfl
  · exact Iff.rfl
  · exact absurd rfl (h id')

end

/-- **A run leaves the row and the job or neither** exactly when the queue takes the job, if the run gets
as far as the queue. -/
theorem all_or_nothing_iff (faults : Faults) (store : Option TenantContext) (s : Store ports)
    (input : SendNotificationInput) (id : String) (now : ℕ) :
    AllOrNothing s (execute faults store input id now s).1 (execute faults store input id now s).2 ↔
      (Reaches faults store s input id now → ports.enqueue id = .ok ()) := by
  have hcases : (Reaches faults store s input id now ∧ _) ∨ _ := execute_cases
  rcases hcases with ⟨hreaches, n, hid, hpending, hrun⟩ | ⟨hstops, hs, hne⟩
  · rw [hrun, imp_iff_right hreaches]
    cases henqueue : ports.enqueue id with
    | error e =>
      have hthrows : (enqueue id >>= fun _ => pure (some id))
          { s with notifications := n :: s.notifications } =
          (.error e, { s with notifications := n :: s.notifications }) :=
        bind_of_error (change_of_error (by rw [henqueue]; rfl))
      rw [hthrows]
      exact ⟨fun h => absurd h.rows (List.cons_ne_self n s.notifications), nofun⟩
    | ok u =>
      have hreturns : (enqueue id >>= fun _ => pure (some id))
          { s with notifications := n :: s.notifications } =
          (.ok (some id), { s with notifications := n :: s.notifications, jobs := id :: s.jobs }) :=
        bind_of_ok (change_of_ok (by rw [henqueue]; rfl))
      rw [hreturns]
      exact iff_of_true ⟨⟨n, hid, hpending, rfl⟩, hreaches.created.2, rfl⟩ rfl
  · rw [AllOrNothing.of_ne hne, hs]
    exact iff_of_true ⟨rfl, rfl⟩ fun h => absurd h hstops

/-! ### Without faults -/

theorem resolveTemplates_noFaults (store : Option TenantContext) (input : SendNotificationInput) (k : ℕ)
    (channels : List NotificationChannel) :
    resolveTemplates noFaults store input k channels =
      (Effect.forEach (fun channel => do
        let _ ← ResolveNotificationTemplate.execute store input.code channel input.locale
          (some input.tenantId)
        return ()) channels : UseCase ports Unit) := by
  induction channels generalizing k with
  | nil => rfl
  | cons channel channels ih =>
    rw [resolveTemplates, Effect.forEach, ih]
    simp only [faulty, noFaults, bind_assoc, pure_bind]

/-- **Without faults** the run is that of the use case. -/
theorem execute_noFaults (store : Option TenantContext) (input : SendNotificationInput) (id : String)
    (now : ℕ) (s : Store ports) :
    execute noFaults store input id now s = SendNotificationOhs.execute store input id now s := by
  have hchannels : filterChannels noFaults store input s =
      (.ok (SendNotificationOhs.filterChannels store s input), s) := by
    obtain ⟨channels, hrun, rfl⟩ := (settles_filterChannels noFaults store input s).ok fun _ _ => rfl
    exact hrun
  rw [SendNotificationOhs.execute, read_bind]
  by_cases htenant : s.tenants.contains input.tenantId = false
  · rw [if_pos htenant]
    exact bind_of_error (validate_of_not_contains input s htenant)
  · rw [if_neg htenant, read_bind]
    refine (bind_of_ok (validate_of_contains input s htenant)).trans ((bind_of_ok hchannels).trans ?_)
    simp only [resolveTemplates_noFaults]
    rfl

/-! ### A row without a job -/

/-- A queue that does not answer. -/
def queueDown : Ports :=
  ⟨fun html => html, fun _ => .error (.external "Connection is closed."), fun _ => .ok ()⟩

/-- Nothing is stored. -/
def empty : Store queueDown where
  tenants := ["t"]
  preferences := .empty
  templates := (NotificationTemplate.create ⟨"r", none, .resetPassword, .email, "es", some "Hola", "Hola",
    true, 0, 0, 0⟩).toOption.toList
  notifications := []
  jobs := []
  sent := []

/-- A mail that no preference can stop. -/
def reset : SendNotificationInput := ⟨"t", "v", some "v@x", .resetPassword, [.email], [], "es"⟩

/-- The queue is down: the run throws, and the row stays `PENDING` without a job. -/
theorem leaves_row_without_job :
    ¬ AllOrNothing empty (execute noFaults none reset "n" 0 empty).1
        (execute noFaults none reset "n" 0 empty).2 ∧
      (execute noFaults none reset "n" 0 empty).2.notifications.map (·.status) = [.pending] ∧
      (execute noFaults none reset "n" 0 empty).2.jobs = [] := by
  refine ⟨fun h => ?_, by decide, by decide⟩
  have hnothing : Nothing empty (execute noFaults none reset "n" 0 empty).2 := h
  exact absurd (congrArg List.length hnothing.rows) (by decide)

end Neltrik.Notifications.Sending
