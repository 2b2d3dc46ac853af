import Neltrik.Lib.Effect
import Neltrik.Lib.Table
import Neltrik.Notifications.Template
import Neltrik.Prisma.Scope

/-! # Sending a notification

The tables of the module, their repositories over the tenant client, and the use cases that filter the
channels of a notification by the preferences of its recipient, store it and enqueue its job, and the
job that renders its template and hands the email to the sender.

`store` is the context of the request, `none` in a job. `sent` is the list of the emails that have been
handed to the sender, in their order. -/

namespace Neltrik.Notifications

open Neltrik.Lib Neltrik.Lib.Table Neltrik.Prisma Neltrik.Shared

/-- What the sender is handed. -/
structure Email where
  recipient : Option String
  subject : String
  body : String
  html : String
  deriving DecidableEq

/-- The calls that leave the module. -/
structure Ports where
  sanitizeHtml : String → String
  /-- What the queue and the sender throw, if they do. -/
  enqueue : String → Except NotificationError Unit
  send : Email → Except NotificationError Unit

/-- The unique index of the preferences. -/
def preferenceKey (p : NotificationPreference) : String × NotificationChannel × NotificationCategory :=
  (p.ownerId, p.channel, p.category)

/-- The tables, the queue and the emails that have been handed over. -/
structure Store (ports : Ports) where
  tenants : List String
  preferences : KeyedTable preferenceKey
  templates : List (NotificationTemplate ports.sanitizeHtml)
  notifications : List Notification
  jobs : List String
  sent : List Email

/-- A use case, or one of its calls: it returns or throws, and may write first. -/
abbrev UseCase (ports : Ports) := Effect (Store ports) NotificationError

variable {ports : Ports}

/-- A row, or an error when there is none. -/
def orElse {α : Type} (row : Option α) (e : NotificationError) : UseCase ports α :=
  match row with
  | some a => return a
  | none => Effect.throw e

/-! ## Repositories -/

/-- The columns that queries name. -/
def NotificationPreference.row (p : NotificationPreference) : Row Bool
  | "id" => .string p.id
  | "tenantId" => .string p.tenantId
  | "ownerId" => .string p.ownerId
  | "channel" => .string p.channel.value
  | "category" => .string p.category.value
  | "enabled" => .other p.enabled
  | _ => .null

/-- The columns that queries name. -/
def NotificationTemplateProps.row (t : NotificationTemplateProps) : Row Bool
  | "id" => .string t.id
  | "tenantId" => t.tenantId.elim .null .string
  | "code" => .string t.code.value
  | "channel" => .string t.channel.value
  | "locale" => .string t.locale
  | "isActive" => .other t.isActive
  | _ => .null

/-- The columns that queries name. -/
def Notification.row (n : Notification) : Row Bool
  | "id" => .string n.id
  | "tenantId" => .string n.tenantId
  | "recipientId" => .string n.recipientId
  | _ => .null

/-- The filter `{ [name]: true }`. -/
def isTrue : Value Bool → Bool
  | .other b => b
  | _ => false

/-- `findFirst` of the tenant client. -/
def findFirst {α : Type} (store : Option TenantContext) (model : Model) (row : α → Row Bool)
    (rows : List α) (w : Where Bool) : Option α :=
  rows.find? fun a => Where.holds (row a) ((allOperations store model .findFirst (some w)).getD [])

/-- `PrismaNotificationPreferenceRepository.findByOwnerAndChannelAndCategory`. -/
def findByOwnerAndChannelAndCategory (store : Option TenantContext) (s : Store ports) (ownerId : String)
    (channel : NotificationChannel) (category : NotificationCategory) : Option NotificationPreference :=
  findFirst store .notificationPreference NotificationPreference.row s.preferences.rows
    [.field "ownerId" (equals ownerId), .field "channel" (equals channel.value),
      .field "category" (equals category.value)]

/-- The template of the tenant, or else the global one. -/
def findActiveByCombination (store : Option TenantContext) (s : Store ports) (code : NotificationCode)
    (channel : NotificationChannel) (locale : String) (tenantId : Option String) :
    Option (NotificationTemplate ports.sanitizeHtml) :=
  let find (tenant : Value Bool → Bool) :=
    findFirst store .notificationTemplate (fun t => NotificationTemplateProps.row t.toNotificationTemplateProps)
      s.templates
      [.field "code" (equals code.value), .field "channel" (equals channel.value),
        .field "locale" (equals locale), .field "isActive" isTrue, .field "tenantId" tenant]
  ((truthy tenantId).bind fun t => find (equals t)).orElse fun _ => find isNull

namespace NotificationRepository

/-- `create`, with the primary key. -/
def create (n : Notification) : UseCase ports Unit :=
  Effect.change fun s =>
    if s.notifications.any (·.id == n.id) then .error .uniqueViolation
    else .ok { s with notifications := n :: s.notifications }

/-- `findFirst` by the id, in the scope of the request. -/
def findById (store : Option TenantContext) (s : Store ports) (id : String) : Option Notification :=
  findFirst store .notification Notification.row s.notifications [.field "id" (equals id)]

/-- `update` by the id, of the whole row. -/
def update (store : Option TenantContext) (n : Notification) : UseCase ports Unit :=
  Effect.change fun s =>
    let selects (n' : Notification) : Bool := Where.holds n'.row
      ((allOperations store .notification .update (some [.field "id" (equals n.id)])).getD [])
    if s.notifications.any selects then
      .ok { s with notifications := updateWhere selects (fun _ => n) s.notifications }
    else .error .recordNotFound

end NotificationRepository

/-! ## Internal use cases -/

/-- `ResolveNotificationPreferenceInternalUseCase.execute`. -/
def ResolveNotificationPreference.execute (store : Option TenantContext) (s : Store ports)
    (ownerId : String) (channel : NotificationChannel) (category : NotificationCategory) : Bool :=
  match findByOwnerAndChannelAndCategory store s ownerId channel category with
  | none => true
  | some preference => preference.isEnabled

/-- `ResolveNotificationTemplateInternalUseCase.execute`. -/
def ResolveNotificationTemplate.execute (store : Option TenantContext) (code : NotificationCode)
    (channel : NotificationChannel) (locale : String) (tenantId : Option String) :
    UseCase ports (NotificationTemplate ports.sanitizeHtml) := do
  orElse (findActiveByCombination store (← Effect.read) code channel locale tenantId) .templateNotFound

/-! ## `SendNotificationOhsUseCase` -/

/-- What other modules ask for. -/
structure SendNotificationInput where
  tenantId : String
  recipientId : String
  recipientEmail : Option String
  code : NotificationCode
  channels : List NotificationChannel
  payload : JsonObject
  locale : String

namespace SendNotificationOhs

/-- The channels that the preferences let through; transactional ones all are. -/
def filterChannels (store : Option TenantContext) (s : Store ports) (input : SendNotificationInput) :
    List NotificationChannel :=
  if input.code.category = .transactional then input.channels
  else
    input.channels.filter fun channel =>
      ResolveNotificationPreference.execute store s input.recipientId channel .marketing

/-- `SendNotificationOhsUseCase.execute`. -/
def execute (store : Option TenantContext) (input : SendNotificationInput) (id : String) (now : ℕ) :
    UseCase ports (Option String) := do
  if (← Effect.read).tenants.contains input.tenantId = false then Effect.throw .tenantNotFound
  else
    let channels := filterChannels store (← Effect.read) input
    if channels = [] then return none
    else
      Effect.forEach (fun channel => do
        let _ ← ResolveNotificationTemplate.execute store input.code channel input.locale
          (some input.tenantId)
        return ()) channels
      let notification ← Effect.lift (Notification.create
        { id, tenantId := input.tenantId, recipientId := input.recipientId
          recipientEmail := input.recipientEmail, code := input.code, channels
          payload := input.payload, locale := input.locale, status := .pending, attempts := 0
          lastError := none, sentAt := none, readAt := none, createdAt := now, updatedAt := now })
      NotificationRepository.create notification
      Effect.change fun s =>
        (ports.enqueue notification.id).map fun _ => { s with jobs := notification.id :: s.jobs }
      return some notification.id

end SendNotificationOhs

/-! ## `SendNotificationJobsUseCase` -/

namespace SendNotificationJobs

/-- The email of a template and a payload. -/
def compose (template : NotificationTemplate ports.sanitizeHtml) (n : Notification) :
    Except NotificationError Email :=
  match template.subject.filter (· != "") with
  | none => .error (.templateWithoutSubject template.code)
  | some subject =>
    let missing := (extractVariables template.body).filter fun v => !n.payload.has v
    if missing ≠ [] then .error (.templateVariableMissing missing)
    else
      let renderedSubject := render subject n.payload
      let renderedBody := render template.body n.payload
      .ok
        { recipient := n.recipientEmail, subject := renderedSubject, body := renderedBody
          html := renderedBody }

/-- `emailSender.send`; the email has been handed over, also when the sender throws. -/
def send (email : Email) : UseCase ports Unit := fun s =>
  (ports.send email, { s with sent := s.sent ++ [email] })

/-- The `try` of `sendEmail`. -/
def deliver (store : Option TenantContext) (n : Notification) : UseCase ports Unit := do
  let template ← ResolveNotificationTemplate.execute store n.code .email n.locale (some n.tenantId)
  let email ← Effect.lift (compose template n)
  send email

/-- The `catch` of `sendEmail`. -/
def fail (store : Option TenantContext) (n : Notification) (e : NotificationError) (now : ℕ) :
    UseCase ports Unit := do
  let n ← Effect.lift (n.markAsFailed e.message now)
  NotificationRepository.update store n
  Effect.throw e

/-- The attempt is stored before the email is handed over, and its outcome after. -/
def sendEmail (store : Option TenantContext) (n : Notification) (now : ℕ) : UseCase ports Unit := fun s =>
  match deliver store n s with
  | (.ok _, s') => (.ok (), s')
  | (.error e, s') => fail store n e now s'

/-- The loop over the channels. -/
def sendAll (store : Option TenantContext) (now : ℕ) (n : Notification) :
    List NotificationChannel → UseCase ports Notification
  | [] => return n
  | channel :: channels => do
    let n := n.registerAttempt now
    if channel = .email then
      sendEmail store n now
      sendAll store now n channels
    else sendAll store now n channels

/-- `SendNotificationJobsUseCase.execute`. -/
def execute (store : Option TenantContext) (notificationId : String) (now : ℕ) :
    UseCase ports String := do
  let n ← orElse (NotificationRepository.findById store (← Effect.read) notificationId) .notFound
  if n.isSent then return n.id
  else
    let n ← sendAll store now n n.channels
    let n ← Effect.lift (n.markAsSent now)
    NotificationRepository.update store n
    return n.id

end SendNotificationJobs

end Neltrik.Notifications
