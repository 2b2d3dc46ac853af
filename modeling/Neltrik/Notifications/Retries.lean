import Neltrik.Lib.Trace
import Neltrik.Notifications.UseCases

/-! # Retries of a delivery

`SendNotificationJobsUseCase` run again and again on one notification, one run after another. How each
pass through the `try` of `sendEmail` ends is given with the run; the updates of the repository succeed.
`run_refines` is the step from the tables to this.

`at_most_one_email_iff`: no notification is mailed twice, whatever fails, exactly when its channels
have `EMAIL` at most once. -/

namespace Neltrik.Notifications.Retries

open Neltrik.Lib Neltrik.Lib.Effect

/-- How the `try` of `sendEmail` ends: the template or the rendering throws, the sender throws, or the
sender takes the email. -/
inductive Attempt where
  | prevented (e : NotificationError)
  | refused (e : NotificationError)
  | delivered
  deriving DecidableEq

/-- The stored row, how often the sender has been called and how often it took the email. -/
structure Mailbox where
  row : Notification
  calls : ℕ
  delivered : ℕ

/-- A part of a run of the job. -/
abbrev Job := Effect Mailbox NotificationError

/-- One run: how its passes end, the first one first, and when it runs. -/
structure Run where
  attempts : ℕ → Attempt
  now : ℕ

/-! ## The job -/

/-- The `try` of `sendEmail`. -/
def deliver : Attempt → Job Unit
  | .prevented e => Effect.throw e
  | .refused e => fun s => (.error e, { s with calls := s.calls + 1 })
  | .delivered => fun s => (.ok (), { s with calls := s.calls + 1, delivered := s.delivered + 1 })

/-- `NotificationRepository.update`. -/
def update (n : Notification) : Job Unit := fun s => (.ok (), { s with row := n })

/-- The `catch` of `sendEmail`. -/
def fail (n : Notification) (e : NotificationError) (now : ℕ) : Job Unit := do
  let n ← Effect.lift (n.markAsFailed e.message now)
  update n
  Effect.throw e

/-- `SendNotificationJobsUseCase.sendEmail`. -/
def sendEmail (attempt : Attempt) (n : Notification) (now : ℕ) : Job Unit := fun s =>
  match deliver attempt s with
  | (.ok _, s') => (.ok (), s')
  | (.error e, s') => fail n e now s'

/-- The loop over the channels; `k` passes have been made. -/
def sendAll (run : Run) : ℕ → Notification → List NotificationChannel → Job Notification
  | _, n, [] => return n
  | k, n, channel :: channels => do
    let n := n.registerAttempt run.now
    if channel = .email then
      sendEmail (run.attempts k) n run.now
      sendAll run (k + 1) n channels
    else sendAll run k n channels

/-- `SendNotificationJobsUseCase.execute` on the row. -/
def execute (run : Run) : Job String := do
  let n := (← Effect.read).row
  if n.isSent then return n.id
  else
    let n ← sendAll run 0 n n.channels
    let n ← Effect.lift (n.markAsSent run.now)
    update n
    return n.id

/-! ## What a run does -/

/-- The emails of the channels. -/
abbrev emails (channels : List NotificationChannel) : ℕ := channels.count .email

theorem sendEmail_of_delivered {attempt : Attempt} (h : attempt = .delivered) (n : Notification)
    (now : ℕ) (s : Mailbox) : sendEmail attempt n now s =
      (.ok (), { s with calls := s.calls + 1, delivered := s.delivered + 1 }) := by
  rw [h]
  rfl

/-- The row of a failed delivery. -/
def Failed (n row : Notification) : Prop := row.isSent = false ∧ row.channels = n.channels

theorem sendEmail_of_ne {attempt : Attempt} (h : attempt ≠ .delivered) {n : Notification}
    (hn : n.isSent = false) (now : ℕ) (s : Mailbox) : ∃ e s', sendEmail attempt n now s = (.error e, s') ∧
      Failed n s'.row ∧ s'.delivered = s.delivered := by
  have hfail : ∀ (e : NotificationError) (s : Mailbox), ∃ s', fail n e now s = (.error e, s') ∧
      Failed n s'.row ∧ s'.delivered = s.delivered := by
    intro e s
    have hmark : n.markAsFailed e.message now =
        .ok { n with status := .failed, lastError := some e.message, updatedAt := now } := by
      unfold Notification.markAsFailed
      rw [hn]
      rfl
    unfold fail
    rw [hmark]
    exact ⟨_, rfl, ⟨rfl, rfl⟩, rfl⟩
  cases attempt with
  | delivered => exact absurd rfl h
  | prevented e =>
    obtain ⟨s', hs'⟩ := hfail e s
    exact ⟨e, s', hs'⟩
  | refused e =>
    obtain ⟨s', hs'⟩ := hfail e { s with calls := s.calls + 1 }
    exact ⟨e, s', hs'⟩

/-- **The loop**: every pass succeeds and as many emails as channels for them are taken, or one pass does
not, the loop throws, and fewer are. -/
theorem sendAll_cases (run : Run) (k : ℕ) {n : Notification} (hn : n.isSent = false)
    (channels : List NotificationChannel) (s : Mailbox) :
    (∃ n' s', sendAll run k n channels s = (.ok n', s') ∧ Failed n n' ∧
      s'.delivered = s.delivered + emails channels) ∨
    (∃ e s', sendAll run k n channels s = (.error e, s') ∧ Failed n s'.row ∧
      s'.delivered < s.delivered + emails channels ∧ ∃ i, run.attempts i ≠ .delivered) := by
  induction channels generalizing k n s with
  | nil => exact Or.inl ⟨n, s, rfl, ⟨hn, rfl⟩, rfl⟩
  | cons channel channels ih =>
    rw [sendAll]
    by_cases hc : channel = .email
    · have hcount : emails (channel :: channels) = emails channels + 1 := by
        rw [hc]
        exact List.count_cons_self
      rw [if_pos hc, hcount]
      by_cases hattempt : run.attempts k = .delivered
      · rw [bind_of_ok (sendEmail_of_delivered hattempt _ _ _)]
        rcases ih (k + 1) (n := n.registerAttempt run.now) hn
          { s with calls := s.calls + 1, delivered := s.delivered + 1 } with
          ⟨n', s', hrun, hn', hs'⟩ | ⟨e, s', hrun, hn', hs', hi⟩
        · exact Or.inl ⟨n', s', hrun, hn', by dsimp only at hs'; omega⟩
        · exact Or.inr ⟨e, s', hrun, hn', by dsimp only at hs'; omega, hi⟩
      · obtain ⟨e, s', hrun, hn', hs'⟩ :=
          sendEmail_of_ne hattempt (n := n.registerAttempt run.now) hn run.now s
        exact Or.inr ⟨e, s', bind_of_error hrun, hn', by omega, k, hattempt⟩
    · have hcount : emails (channel :: channels) = emails channels := List.count_cons_of_ne hc
      rw [if_neg hc, hcount]
      exact ih k (n := n.registerAttempt run.now) hn s

theorem execute_of_isSent {s : Mailbox} (hs : s.row.isSent = true) (run : Run) :
    execute run s = (.ok s.row.id, s) := by
  show (if s.row.isSent then pure s.row.id else _ : Job String) s = _
  rw [if_pos hs]
  rfl

theorem execute_of_not_isSent {s : Mailbox} (hs : s.row.isSent = false) (run : Run) :
    execute run s = (sendAll run 0 s.row s.row.channels >>= fun n =>
      Effect.lift (n.markAsSent run.now) >>= fun n => update n >>= fun _ => pure n.id) s := by
  show (if s.row.isSent then pure s.row.id else _ : Job String) s = _
  rw [hs]
  rfl

/-- The loop of the run goes through all the channels. -/
def completes (s : Mailbox) (run : Run) : Bool :=
  !s.row.isSent && (sendAll run 0 s.row s.row.channels s).1.toOption.isSome

/-- **A run on a row that is not sent** completes, or throws and leaves it unsent. -/
theorem execute_cases {s : Mailbox} (hs : s.row.isSent = false) (run : Run) :
    (completes s run = true ∧ ∃ id s', execute run s = (.ok id, s') ∧ s'.row.isSent = true ∧
      s'.row.channels = s.row.channels ∧ s'.delivered = s.delivered + emails s.row.channels) ∨
    (completes s run = false ∧ ∃ e s', execute run s = (.error e, s') ∧ s'.row.isSent = false ∧
      s'.row.channels = s.row.channels ∧ s'.delivered < s.delivered + emails s.row.channels ∧
      ∃ i, run.attempts i ≠ .delivered) := by
  rw [execute_of_not_isSent hs, completes, hs]
  rcases sendAll_cases run 0 hs s.row.channels s with
    ⟨n, s₁, hrun, ⟨hn, hchannels⟩, hdelivered⟩ | ⟨e, s₁, hrun, ⟨hn, hchannels⟩, hdelivered, hi⟩
  · have hmark : n.markAsSent run.now =
        .ok { n with status := .sent, sentAt := some run.now, updatedAt := run.now } := by
      unfold Notification.markAsSent
      rw [hn]
      rfl
    rw [bind_of_ok hrun, hrun, hmark]
    exact Or.inl ⟨rfl, _, _, rfl, rfl, hchannels, hdelivered⟩
  · rw [bind_of_error hrun, hrun]
    exact Or.inr ⟨rfl, e, s₁, rfl, hn, hchannels, hdelivered, hi⟩

/-! ## The job over the tables -/

section Refinement
open Neltrik.Prisma
variable {ports : Ports} (store : Option TenantContext) (s₀ : Store ports) (n₀ : Notification)

/-- How the `try` of `sendEmail` ends with the tables as they are. -/
def attemptOf : Attempt :=
  match findActiveByCombination store s₀ n₀.code .email n₀.locale (some n₀.tenantId) with
  | none => .prevented .templateNotFound
  | some t =>
    match SendNotificationJobs.compose t n₀ with
    | .error e => .prevented e
    | .ok email =>
      match ports.send email with
      | .error e => .refused e
      | .ok _ => .delivered

/-- The notifications have in common what the job reads and never writes. -/
structure SameMail (n n' : Notification) : Prop where
  id : n.id = n'.id
  tenantId : n.tenantId = n'.tenantId
  recipientId : n.recipientId = n'.recipientId
  recipientEmail : n.recipientEmail = n'.recipientEmail
  code : n.code = n'.code
  payload : n.payload = n'.payload
  locale : n.locale = n'.locale

theorem SameMail.row {n n' : Notification} (h : SameMail n n') : n.row = n'.row := by
  funext name
  unfold Notification.row
  rw [h.id, h.tenantId, h.recipientId]

theorem SameMail.attemptOf {n n' : Notification} (h : SameMail n n') :
    attemptOf store s₀ n = attemptOf store s₀ n' := by
  have hcompose : ∀ t : NotificationTemplate ports.sanitizeHtml,
      SendNotificationJobs.compose t n = SendNotificationJobs.compose t n' := by
    intro t
    unfold SendNotificationJobs.compose
    rw [h.payload, h.recipientEmail]
  unfold Retries.attemptOf
  simp only [hcompose, h.code, h.locale, h.tenantId]

/-- The tables hold the row of the mailbox. -/
structure Simulates (s : Store ports) (m : Mailbox) : Prop where
  found : NotificationRepository.findById store s n₀.id = some m.row
  sent : s.sent.length = m.calls
  templates : s.templates = s₀.templates
  mail : SameMail m.row n₀

/-- The two operations end the same way, in states that go together. -/
structure Sim {α : Type} (f : UseCase ports α) (g : Job α) (s : Store ports) (m : Mailbox) : Prop where
  outcome : (f s).1 = (g m).1
  after : Simulates store s₀ n₀ (f s).2 (g m).2

variable {store s₀ n₀} {s : Store ports} {m : Mailbox} {α β : Type}

theorem Sim.lift (h : Simulates store s₀ n₀ s m) (x : Except NotificationError α) :
    Sim store s₀ n₀ (Effect.lift x) (Effect.lift x) s m := ⟨rfl, h⟩

theorem Sim.of_eq {f : UseCase ports α} {g : Job α} {r : Except NotificationError α} {s' : Store ports}
    {m' : Mailbox} (hf : f s = (r, s')) (hg : g m = (r, m')) (h : Simulates store s₀ n₀ s' m') :
    Sim store s₀ n₀ f g s m := by
  refine ⟨?_, ?_⟩
  · rw [hf, hg]
  · rw [hf, hg]
    exact h

/-- Both throw the same or both return the same. -/
theorem Sim.cases {f : UseCase ports α} {g : Job α} (h : Sim store s₀ n₀ f g s m) :
    ∃ r s' m', f s = (r, s') ∧ g m = (r, m') ∧ Simulates store s₀ n₀ s' m' :=
  ⟨(f s).1, (f s).2, (g m).2, rfl, Prod.ext h.outcome.symm rfl, h.after⟩

theorem Sim.congr {f f' : UseCase ports α} {g g' : Job α} {s' : Store ports} {m' : Mailbox}
    (hf : f s = f' s') (hg : g m = g' m') (h : Sim store s₀ n₀ f' g' s' m') : Sim store s₀ n₀ f g s m := by
  obtain ⟨r, s'', m'', hf', hg', hafter⟩ := h.cases
  exact Sim.of_eq (hf.trans hf') (hg.trans hg') hafter

theorem Sim.bind {f : UseCase ports α} {g : Job α} {f' : α → UseCase ports β} {g' : α → Job β}
    (h : Sim store s₀ n₀ f g s m)
    (h' : ∀ a s' m', g m = (.ok a, m') → Simulates store s₀ n₀ s' m' → Sim store s₀ n₀ (f' a) (g' a) s' m') :
    Sim store s₀ n₀ (f >>= f') (g >>= g') s m := by
  obtain ⟨r, s', m', hf, hg, hafter⟩ := h.cases
  rcases r with e | a
  · exact Sim.of_eq (bind_of_error hf) (bind_of_error hg) hafter
  · obtain ⟨r', s'', m'', hf', hg', hafter'⟩ := (h' a s' m' hg hafter).cases
    exact Sim.of_eq ((bind_of_ok hf).trans hf') ((bind_of_ok hg).trans hg') hafter'

theorem Sim.update (h : Simulates store s₀ n₀ s m) {n : Notification} (hn : SameMail n n₀) :
    Sim store s₀ n₀ (NotificationRepository.update store n) (update n) s m := by
  let selects (n' : Notification) : Bool := Where.holds n'.row
    ((allOperations store .notification .findFirst (some [.field "id" (equals n₀.id)])).getD [])
  have hselects : ∀ n' : Notification, Where.holds n'.row
      ((allOperations store .notification .update (some [.field "id" (equals n.id)])).getD []) =
        selects n' := by
    intro n'
    rw [hn.id]
    rfl
  have hrow : selects m.row = true := by
    have hfound := List.find?_some h.found
    exact hfound
  have hnew : selects n = true := by
    show Where.holds n.row _ = true
    rw [hn.row, ← h.mail.row]
    exact hrow
  have hex : ∃ n' ∈ s.notifications, selects n' = true :=
    ⟨m.row, List.mem_of_find?_eq_some h.found, hrow⟩
  have hrun : NotificationRepository.update store n s =
      (.ok (), { s with notifications := Table.updateWhere selects (fun _ => n) s.notifications }) := by
    refine change_of_ok ?_
    simp only [hselects]
    exact if_pos (List.any_eq_true.mpr hex)
  exact Sim.of_eq hrun rfl ⟨Table.find?_updateWhere hnew hex, h.sent, h.templates, hn⟩

theorem SameMail.registerAttempt {n : Notification} (h : SameMail n n₀) (now : ℕ) :
    SameMail (n.registerAttempt now) n₀ :=
  ⟨h.id, h.tenantId, h.recipientId, h.recipientEmail, h.code, h.payload, h.locale⟩

theorem SameMail.markAsFailed {n n' : Notification} (h : SameMail n n₀) {reason : String} {now : ℕ}
    (hn : n.markAsFailed reason now = .ok n') : SameMail n' n₀ := by
  unfold Notification.markAsFailed at hn
  split at hn
  · cases hn
  · cases hn
    exact ⟨h.id, h.tenantId, h.recipientId, h.recipientEmail, h.code, h.payload, h.locale⟩

theorem SameMail.markAsSent {n n' : Notification} (h : SameMail n n₀) {now : ℕ}
    (hn : n.markAsSent now = .ok n') : SameMail n' n₀ := by
  unfold Notification.markAsSent at hn
  split at hn
  · cases hn
  · cases hn
    exact ⟨h.id, h.tenantId, h.recipientId, h.recipientEmail, h.code, h.payload, h.locale⟩

theorem Sim.fail (h : Simulates store s₀ n₀ s m) {n : Notification} (hn : SameMail n n₀)
    (e : NotificationError) (now : ℕ) :
    Sim store s₀ n₀ (SendNotificationJobs.fail store n e now) (fail n e now) s m := by
  refine Sim.bind (Sim.lift h _) fun n' s' m' hmark h' => ?_
  refine Sim.bind (Sim.update h' (hn.markAsFailed (Prod.mk.inj hmark).1)) fun _ s'' m'' _ h'' => ?_
  exact ⟨rfl, h''⟩

/-- How the attempt ends, once the template is found. -/
theorem attemptOf_of_found {n : Notification} {t : NotificationTemplate ports.sanitizeHtml}
    (h : findActiveByCombination store s n.code .email n.locale (some n.tenantId) = some t) :
    attemptOf store s n = match SendNotificationJobs.compose t n with
      | .error e => .prevented e
      | .ok email => match ports.send email with
        | .error e => .refused e
        | .ok _ => .delivered := by
  unfold attemptOf
  rw [h]

theorem deliver_sim (h : Simulates store s₀ n₀ s m) {n : Notification} (hn : SameMail n n₀) :
    Sim store s₀ n₀ (SendNotificationJobs.deliver store n) (deliver (attemptOf store s₀ n₀)) s m := by
  have hattempt : attemptOf store s₀ n₀ = attemptOf store s n := by
    rw [← hn.attemptOf]
    unfold attemptOf findActiveByCombination
    rw [h.templates]
  have hcalled : ∀ (email : Email) (d : ℕ), Simulates store s₀ n₀ { s with sent := s.sent ++ [email] }
      { m with calls := m.calls + 1, delivered := d } := by
    intro email d
    refine ⟨h.found, ?_, h.templates, h.mail⟩
    show (s.sent ++ [email]).length = m.calls + 1
    rw [List.length_append, h.sent]
    rfl
  have hrun : SendNotificationJobs.deliver store n s =
      (orElse (findActiveByCombination store s n.code .email n.locale (some n.tenantId))
        .templateNotFound >>= fun t => Effect.lift (SendNotificationJobs.compose t n) >>=
          SendNotificationJobs.send) s := rfl
  rw [hattempt]
  rcases hfind : findActiveByCombination store s n.code .email n.locale (some n.tenantId) with _ | t
  · have hend : attemptOf store s n = .prevented .templateNotFound := by
      unfold attemptOf
      rw [hfind]
    rw [hfind] at hrun
    rw [hend]
    exact Sim.of_eq hrun rfl h
  have hend := attemptOf_of_found hfind
  rw [hfind, bind_of_ok (show orElse (some t) NotificationError.templateNotFound s = _ from rfl)] at hrun
  rcases hcompose : SendNotificationJobs.compose t n with e | email
  · rw [hcompose] at hrun hend
    rw [hend]
    exact Sim.of_eq hrun rfl h
  have hsent : SendNotificationJobs.deliver store n s =
      (ports.send email, { s with sent := s.sent ++ [email] }) := by
    rw [hrun, hcompose]
    rfl
  rw [hcompose] at hend
  dsimp only at hend
  rcases hsend : ports.send email with e | u
  · rw [hsend] at hsent hend
    rw [hend]
    exact Sim.of_eq hsent rfl (hcalled email m.delivered)
  · rw [hsend] at hsent hend
    rw [hend]
    exact Sim.of_eq hsent rfl (hcalled email (m.delivered + 1))

theorem sendEmail_sim (h : Simulates store s₀ n₀ s m) {n : Notification} (hn : SameMail n n₀) (now : ℕ) :
    Sim store s₀ n₀ (SendNotificationJobs.sendEmail store n now)
      (sendEmail (attemptOf store s₀ n₀) n now) s m := by
  obtain ⟨r, s', m', hl, hr, hafter⟩ := (deliver_sim h hn).cases
  rcases r with e | u
  · refine Sim.congr ?_ ?_ (Sim.fail hafter hn e now)
    · unfold SendNotificationJobs.sendEmail
      rw [hl]
    · unfold sendEmail
      rw [hr]
  · have hsent : SendNotificationJobs.sendEmail store n now s = (.ok (), s') := by
      unfold SendNotificationJobs.sendEmail
      rw [hl]
    have hsent' : sendEmail (attemptOf store s₀ n₀) n now m = (.ok (), m') := by
      unfold sendEmail
      rw [hr]
    exact Sim.of_eq hsent hsent' hafter

theorem sendAll_sim (run : Run) (hrun : ∀ k, run.attempts k = attemptOf store s₀ n₀)
    (channels : List NotificationChannel) (k : ℕ) {n : Notification} (hn : SameMail n n₀)
    (h : Simulates store s₀ n₀ s m) :
    Sim store s₀ n₀ (SendNotificationJobs.sendAll store run.now n channels) (sendAll run k n channels) s m := by
  induction channels generalizing k n s m with
  | nil => exact ⟨rfl, h⟩
  | cons channel channels ih =>
    rw [SendNotificationJobs.sendAll, sendAll]
    by_cases hc : channel = .email
    · rw [if_pos hc, if_pos hc, hrun k]
      refine Sim.bind (sendEmail_sim h (hn.registerAttempt run.now) run.now) fun _ s' m' _ h' => ?_
      exact ih (k + 1) (hn.registerAttempt run.now) h'
    · rw [if_neg hc, if_neg hc]
      exact ih k (hn.registerAttempt run.now) h

theorem SameMail.sendAll {run : Run} {channels : List NotificationChannel} {k : ℕ} {n n' : Notification}
    {m' : Mailbox} (hn : SameMail n n₀) (hrun : sendAll run k n channels m = (.ok n', m')) :
    SameMail n' n₀ := by
  induction channels generalizing k n m with
  | nil =>
    cases hrun
    exact hn
  | cons channel channels ih =>
    rw [Retries.sendAll] at hrun
    by_cases hc : channel = .email
    · rw [if_pos hc] at hrun
      rcases hsend : sendEmail (run.attempts k) (n.registerAttempt run.now) run.now m with ⟨e | u, m₁⟩
      · rw [bind_of_error hsend] at hrun
        cases hrun
      · rw [bind_of_ok hsend] at hrun
        exact ih (hn.registerAttempt run.now) hrun
    · rw [if_neg hc] at hrun
      exact ih (hn.registerAttempt run.now) hrun

theorem id_of_findById {id : String} {n : Notification}
    (h : NotificationRepository.findById store s id = some n) : n.id = id := by
  have hrow : Where.holds n.row ((allOperations store .notification .findFirst
      (some [.field "id" (equals id)])).getD []) = true := by
    have hsome := List.find?_some h
    exact hsome
  have hkey : "id" ∉ ["tenantId", "OR", "ownerId"] := by decide
  have hid := holds_of_allOperations rfl hrow (List.mem_singleton.mpr rfl) (key_notMem_requestConditions hkey)
  rw [Condition.holds] at hid
  exact beq_iff_eq.mp hid

/-- **The job over the tables** is the run whose passes all end as the tables and the sender make them:
it ends the same way, with the same row and the same number of emails handed over. -/
theorem run_refines {id : String} {n : Notification}
    (h : NotificationRepository.findById store s id = some n) (now d : ℕ) :
    Sim store s n (SendNotificationJobs.execute store id now)
      (execute ⟨fun _ => attemptOf store s n, now⟩) s ⟨n, s.sent.length, d⟩ := by
  have hsame : SameMail n n := ⟨rfl, rfl, rfl, rfl, rfl, rfl, rfl⟩
  have hstart : Simulates store s n s ⟨n, s.sent.length, d⟩ :=
    ⟨by rw [id_of_findById h]; exact h, rfl, rfl, hsame⟩
  have hl : SendNotificationJobs.execute store id now s =
      (if n.isSent then pure n.id
        else SendNotificationJobs.sendAll store now n n.channels >>= fun n =>
          Effect.lift (n.markAsSent now) >>= fun n =>
            NotificationRepository.update store n >>= fun _ => pure n.id : UseCase ports String) s :=
    bind_of_ok (show orElse (NotificationRepository.findById store s id) .notFound s = (.ok n, s) by
      rw [h]; rfl)
  by_cases hsent : n.isSent = true
  · rw [if_pos hsent] at hl
    have hr := execute_of_isSent (s := ⟨n, s.sent.length, d⟩) hsent ⟨fun _ => attemptOf store s n, now⟩
    exact Sim.of_eq hl hr hstart
  · rw [if_neg hsent] at hl
    have hr := execute_of_not_isSent (s := ⟨n, s.sent.length, d⟩) ((Bool.not_eq_true _).mp hsent)
      ⟨fun _ => attemptOf store s n, now⟩
    refine Sim.congr hl hr ?_
    refine Sim.bind (sendAll_sim ⟨fun _ => attemptOf store s n, now⟩ (fun _ => rfl) n.channels 0 hsame hstart)
      fun n₁ s₁ m₁ hrun₁ h₁ => ?_
    refine Sim.bind (Sim.lift h₁ _) fun n₂ s₂ m₂ hrun₂ h₂ => ?_
    have hn₂ := (hsame.sendAll hrun₁).markAsSent (Prod.mk.inj hrun₂).1
    exact Sim.bind (Sim.update h₂ hn₂) fun _ _ _ _ h₃ => ⟨rfl, h₃⟩

end Refinement

/-! ## Runs one after another -/

/-- A run as a step, whatever it returns. -/
def step (s : Mailbox) (run : Run) : Option Mailbox := some (execute run s).2

/-- What is seen of a run. -/
structure Outcome where
  /-- It returned normally. -/
  returned : Bool
  completed : Bool
  /-- The sender has been called. -/
  called : Bool
  deriving DecidableEq

/-- What is seen of a run. -/
def outcome (s : Mailbox) (run : Run) : Outcome where
  returned := (execute run s).1.toOption.isSome
  completed := completes s run
  called := (execute run s).2.calls != s.calls

/-- The runs on a notification, the first one first. -/
def history (s : Mailbox) (runs : List Run) : List Outcome :=
  Machine.trace step (fun s run => some (outcome s run)) s runs

theorem step_eq_some {s s' : Mailbox} {run : Run} : step s run = some s' ↔ (execute run s).2 = s' :=
  Option.some_inj

theorem history_cons (s : Mailbox) (run : Run) (runs : List Run) :
    history s (run :: runs) = outcome s run :: history (execute run s).2 runs := rfl

/-- What has been seen when the runs are over. -/
structure AtMostOneEmail (s : Mailbox) (runs : List Run) (s' : Mailbox) : Prop where
  once : s'.delivered ≤ 1
  quiet : (history s runs).Pairwise fun o o' => o.returned = true → o'.called = false
  sent_iff : s'.row.isSent = true ↔ ∃ o ∈ history s runs, o.completed = true

/-- A notification that is sent stays as it is. -/
theorem quiet_of_isSent {s s' : Mailbox} {runs : List Run} (hs : s.row.isSent = true)
    (hr : Machine.run step s runs = some s') :
    s' = s ∧ ∀ o ∈ history s runs, o.called = false ∧ o.completed = false := by
  induction runs with
  | nil =>
    cases hr
    exact ⟨rfl, fun o ho => absurd ho List.not_mem_nil⟩
  | cons run runs ih =>
    obtain ⟨s₁, h₁, hr₁⟩ := Machine.run_cons_eq_some.mp hr
    have hrun := execute_of_isSent hs run
    have hs₁ : s₁ = s := by
      rw [← step_eq_some.mp h₁, hrun]
    rw [hs₁] at hr₁
    obtain ⟨hs', hrest⟩ := ih hr₁
    refine ⟨hs', fun o ho => ?_⟩
    rw [history_cons, hrun] at ho
    rcases List.mem_cons.mp ho with rfl | ho
    · simp [outcome, hrun, completes, hs]
    · exact hrest o ho

/-- **Runs on a notification with one email at most** mail it once at most. -/
theorem atMostOneEmail_of_count {s s' : Mailbox} {runs : List Run} (hs : s.row.isSent = false)
    (hd : s.delivered = 0) (hcount : emails s.row.channels ≤ 1)
    (hr : Machine.run step s runs = some s') : AtMostOneEmail s runs s' := by
  induction runs generalizing s with
  | nil =>
    cases hr
    exact ⟨by omega, List.Pairwise.nil, iff_of_false (by rw [hs]; exact nofun) nofun⟩
  | cons run runs ih =>
    obtain ⟨s₁, h₁, hr₁⟩ := Machine.run_cons_eq_some.mp hr
    rcases execute_cases hs run with ⟨hc, id, s₂, hrun, hsent, -, hdelivered⟩ |
      ⟨hc, e, s₂, hrun, hunsent, hchannels, hdelivered, -⟩
    · have hs₂ : s₂ = s₁ := by rw [← step_eq_some.mp h₁, hrun]
      rw [hs₂] at hrun hsent hdelivered
      obtain ⟨rfl, hquiet⟩ := quiet_of_isSent hsent hr₁
      have hhist : history s (run :: runs) = outcome s run :: history s' runs := by
        rw [history_cons, hrun]
      refine ⟨by omega, ?_, iff_of_true hsent ⟨outcome s run, ?_, hc⟩⟩
      · rw [hhist]
        have hpairs : (history s' runs).Pairwise fun o o' => o.returned = true → o'.called = false :=
          List.pairwise_of_forall_mem_list fun _ _ o' ho' _ => (hquiet o' ho').1
        exact List.pairwise_cons.mpr ⟨fun o' ho' _ => (hquiet o' ho').1, hpairs⟩
      · rw [hhist]
        exact List.mem_cons_self
    · have hs₂ : s₂ = s₁ := by rw [← step_eq_some.mp h₁, hrun]
      rw [hs₂] at hrun hunsent hchannels hdelivered
      obtain ⟨honce, hquiet, hsent⟩ := ih hunsent (by omega) (by rw [hchannels]; exact hcount) hr₁
      have hhist : history s (run :: runs) = outcome s run :: history s₁ runs := by
        rw [history_cons, hrun]
      have hreturned : (outcome s run).returned = false := by simp [outcome, hrun, Except.toOption]
      refine ⟨honce, ?_, ?_⟩
      · rw [hhist]
        refine List.pairwise_cons.mpr ⟨fun o' _ h => ?_, hquiet⟩
        rw [hreturned] at h
        exact nomatch h
      · rw [hsent, hhist]
        simp [show (outcome s run).completed = false from hc]

/-- **No notification is mailed twice**, and a run that has returned ends its delivery, exactly when its
channels have `EMAIL` at most once. -/
theorem at_most_one_email_iff {p : NotificationProps} {n : Notification}
    (h : Notification.create p = .ok n) :
    (∀ runs s', Machine.run step ⟨n, 0, 0⟩ runs = some s' → AtMostOneEmail ⟨n, 0, 0⟩ runs s') ↔
      emails p.channels ≤ 1 := by
  have hn : n.isSent = false := by
    unfold Notification.isSent
    rw [Notification.create_status h]
    rfl
  rw [← (Notification.create_eq_ok h).2]
  constructor
  · intro hall
    obtain ⟨s', hr⟩ : ∃ s', Machine.run step ⟨n, 0, 0⟩ [⟨fun _ => .delivered, 0⟩] = some s' := ⟨_, rfl⟩
    have honce := (hall _ s' hr).once
    rcases execute_cases (s := ⟨n, 0, 0⟩) hn ⟨fun _ => .delivered, 0⟩ with
      ⟨-, id, s₂, hrun, -, -, hdelivered⟩ | ⟨-, e, s₂, -, -, -, -, i, hi⟩
    · obtain rfl : s' = s₂ := by
        cases hr
        rw [hrun]
      dsimp only at hdelivered
      omega
    · exact absurd rfl hi
  · intro hcount runs s' hr
    exact atMostOneEmail_of_count hn rfl hcount hr

/-- A welcome on some channels. -/
def welcome (channels : List NotificationChannel) : NotificationProps where
  id := "n"
  tenantId := "t"
  recipientId := "v"
  recipientEmail := some "v@x"
  code := .welcome
  channels
  payload := []
  locale := "es"
  status := .pending
  attempts := 0
  lastError := none
  sentAt := none
  readAt := none
  createdAt := 0
  updatedAt := 0

theorem at_most_one_email_iff_welcome : ∃ n, Notification.create (welcome [.email, .inApp]) = .ok n ∧
    ∀ runs s', Machine.run step ⟨n, 0, 0⟩ runs = some s' → AtMostOneEmail ⟨n, 0, 0⟩ runs s' :=
  ⟨_, rfl, (at_most_one_email_iff (p := welcome [.email, .inApp]) rfl).mpr (by decide)⟩

/-- `EMAIL` twice: one run mails twice, and a retry after the second email was refused mails again. -/
theorem mails_twice : ∃ n, Notification.create (welcome [.email, .email]) = .ok n ∧
    (∃ s', Machine.run step ⟨n, 0, 0⟩ [⟨fun _ => .delivered, 0⟩] = some s' ∧ s'.delivered = 2 ∧
      ¬ AtMostOneEmail ⟨n, 0, 0⟩ [⟨fun _ => .delivered, 0⟩] s') ∧
    ∃ s', Machine.run step ⟨n, 0, 0⟩ [⟨fun k => if k = 0 then .delivered else .refused .notFound, 0⟩,
      ⟨fun _ => .delivered, 1⟩] = some s' ∧ s'.delivered = 3 := by
  refine ⟨_, rfl, ⟨_, rfl, rfl, fun h => absurd h.once (by decide)⟩, _, rfl, rfl⟩

end Neltrik.Notifications.Retries
