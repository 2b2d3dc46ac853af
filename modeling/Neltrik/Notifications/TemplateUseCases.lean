import Neltrik.Authorization.UseCases
import Neltrik.Lib.Effect
import Neltrik.Lib.Table
import Neltrik.Notifications.Template
import Neltrik.Prisma.Pagination
import Mathlib.Data.Prod.Lex
import Mathlib.Data.String.Basic

/-! # The use cases of the templates

The table `notification_templates`, its repository over the tenant client, and the six use cases that
administrators call. `store` is the context of the request; `db` has the tenants `TenantApi` looks up. -/

namespace Neltrik.Notifications.Templates

open Neltrik.Lib Neltrik.Lib.Table Neltrik.Lib.Paging Neltrik.Prisma

/-- The table of the templates. -/
abbrev TemplateStore (sanitizeHtml : String → String) :=
  KeyedTable fun t : NotificationTemplate sanitizeHtml => t.id

/-- A use case, or one of its calls. -/
abbrev UseCase (sanitizeHtml : String → String) := Effect (TemplateStore sanitizeHtml) NotificationError

variable {sanitizeHtml : String → String}

/-! ## `PrismaNotificationTemplateRepository` -/

/-- The columns that queries name. -/
def columns (t : NotificationTemplate sanitizeHtml) : Row (Bool ⊕ ℕ)
  | "id" => .string t.id
  | "tenantId" => t.tenantId.elim .null .string
  | "code" => .string t.code.value
  | "channel" => .string t.channel.value
  | "locale" => .string t.locale
  | "isActive" => .other (.inl t.isActive)
  | "version" => .other (.inr t.version)
  | _ => .null

/-- The filter `{ version }`. -/
def isVersion (version : ℕ) : Value (Bool ⊕ ℕ) → Bool
  | .other (.inr n) => n == version
  | _ => false

/-- The rows that the tenant client gives to an operation. -/
def selects (store : Option TenantContext) (operation : Operation) (args : Option (Where (Bool ⊕ ℕ)))
    (t : NotificationTemplate sanitizeHtml) : Bool :=
  Where.holds (columns t) ((allOperations store .notificationTemplate operation args).getD [])

/-- The columns of `notification_templates_active_unique`. -/
def sameCombination (t t' : NotificationTemplate sanitizeHtml) : Bool :=
  t'.code == t.code && t'.channel == t.channel && t'.locale == t.locale && t'.tenantId == t.tenantId

/-- The index refuses the row: it is active, and so is another row with its columns. -/
def violatesIndex (s : TemplateStore sanitizeHtml) (t : NotificationTemplate sanitizeHtml) : Bool :=
  t.isActive && s.rows.any fun t' => t'.id != t.id && t'.isActive && sameCombination t t'

namespace PrismaNotificationTemplateRepository

/-- `create`, with the primary key and the unique index. -/
def create (template : NotificationTemplate sanitizeHtml) : UseCase sanitizeHtml Unit :=
  Effect.change fun s =>
    if violatesIndex s template then .error .uniqueViolation
    else (s.insert template).elim (.error .uniqueViolation) .ok

/-- `findFirst` by the id, in the scope of the request. -/
def findById (store : Option TenantContext) (s : TemplateStore sanitizeHtml) (id : String) :
    Option (NotificationTemplate sanitizeHtml) :=
  s.rows.find? (selects store .findFirst (some [.field "id" (equals id)]))

/-- The query of the client without a scope. -/
def findActiveByCombinationCandidates (s : TemplateStore sanitizeHtml) (code : NotificationCode)
    (channel : NotificationChannel) (locale : String) (tenantId excludeId : Option String) :
    List (NotificationTemplate sanitizeHtml) :=
  s.rows.filter fun t => t.code == code && t.channel == channel && t.locale == locale && t.isActive &&
    t.tenantId == tenantId && (truthy excludeId).all (t.id != ·)

/-- The rows of `updateMany`: the one of the template, in the version that has been read. -/
def selectsVersion (store : Option TenantContext) (template : NotificationTemplate sanitizeHtml) :
    NotificationTemplate sanitizeHtml → Bool :=
  selects store .updateMany
    (some [.field "id" (equals template.id), .field "version" (isVersion template.version)])

theorem id_of_selectsVersion {store : Option TenantContext} {template t : NotificationTemplate sanitizeHtml}
    (h : selectsVersion store template t = true) : t.id = template.id := by
  have hkey : "id" ∉ ["tenantId", "OR", "ownerId"] := by decide
  have hid := holds_of_allOperations rfl h List.mem_cons_self (key_notMem_requestConditions hkey)
  rw [Condition.holds] at hid
  exact beq_iff_eq.mp hid

/-- The table after `updateMany`. -/
def written (store : Option TenantContext) (template : NotificationTemplate sanitizeHtml)
    (s : TemplateStore sanitizeHtml) : TemplateStore sanitizeHtml :=
  s.update (selectsVersion store template) (fun _ => template.bump) fun _ h => by
    rw [NotificationTemplate.bump_id, id_of_selectsVersion h]

@[simp] theorem rows_written (store : Option TenantContext) (template : NotificationTemplate sanitizeHtml)
    (s : TemplateStore sanitizeHtml) : (written store template s).rows =
      updateWhere (selectsVersion store template) (fun _ => template.bump) s.rows := rfl

/-- `updateMany` of the version that has been read, which has to find a row. -/
def update (store : Option TenantContext) (template : NotificationTemplate sanitizeHtml) :
    UseCase sanitizeHtml Unit :=
  Effect.change fun s =>
    if s.rows.any (selectsVersion store template) = false then .error .optimisticLock
    else if violatesIndex s template then .error .uniqueViolation
    else .ok (written store template s)

/-- Ordered by `createdAt` and `id`, both descending. Ids are generated, never empty. -/
def listing (store : Option TenantContext) :
    Listing (NotificationTemplate sanitizeHtml) String (ℕ ×ₗ String) where
  id t := t.id
  key t := toLex (t.createdAt, t.id)
  selects := selects store .findMany none
  valid t := t.id != ""

/-- `findByTenantIncludingGlobal`; the tenant comes from the scope of the client. -/
def findByTenantIncludingGlobal (store : Option TenantContext) (s : TemplateStore sanitizeHtml)
    (cursor : Option String) (limit : ℕ) : List (NotificationTemplate sanitizeHtml) :=
  findMany (listing store) s.rows (withPaginationArgs cursor limit)

/-- The rows of the scope and the filters, one page and one row more. -/
def findAll (store : Option TenantContext) (s : TemplateStore sanitizeHtml) (cursor : Option String)
    (limit : ℕ) : List (NotificationTemplate sanitizeHtml) :=
  findMany (listing store) s.rows (withPaginationArgs cursor limit)

end PrismaNotificationTemplateRepository

/-! ## The use cases -/

/-- `TenantApi.isPlatformTenant`, which throws when there is no such tenant. -/
def isPlatformTenant (db : Authorization.Db) (id : String) : Except NotificationError Bool :=
  match (Authorization.TenantApi.isPlatformTenant id db).1 with
  | .ok b => .ok b
  | .error _ => .error .tenantNotFound

/-- A row, or `NotificationTemplateNotFoundError` when there is none. -/
def orNotFound (row : Option (NotificationTemplate sanitizeHtml)) :
    Except NotificationError (NotificationTemplate sanitizeHtml) :=
  row.elim (.error .templateNotFound) .ok

section
variable (store : Option TenantContext) (db : Authorization.Db)

/-- What the request of a creation has. -/
structure CreateNotificationTemplateInput where
  actorTenantId : String
  targetTenantId : Option String
  code : NotificationCode
  channel : NotificationChannel
  locale : String
  subject : Option String
  body : String

/-- `id` is what the generator of ids returns. -/
def CreateNotificationTemplate.execute (input : CreateNotificationTemplateInput) (id : String) (now : ℕ) :
    UseCase sanitizeHtml String := do
  let isPlatformActor ← Effect.lift (isPlatformTenant db input.actorTenantId)
  if isPlatformActor = false ∧ input.targetTenantId ≠ some input.actorTenantId then Effect.throw .forbidden
  else
    let template ← Effect.lift (NotificationTemplate.create
      { id, tenantId := input.targetTenantId, code := input.code, channel := input.channel
        locale := input.locale, subject := input.subject, body := input.body, isActive := true
        version := 0, createdAt := now, updatedAt := now })
    let candidates := PrismaNotificationTemplateRepository.findActiveByCombinationCandidates
      (← Effect.read) input.code input.channel input.locale input.targetTenantId none
    if candidates.any template.hasConflict then Effect.throw .templateAlreadyExists
    else
      PrismaNotificationTemplateRepository.create template
      return template.id

/-- `GetNotificationTemplateUseCase.execute`. -/
def GetNotificationTemplate.execute (actorTenantId id : String) :
    UseCase sanitizeHtml (NotificationTemplate sanitizeHtml) := do
  let template ← Effect.lift (orNotFound
    (PrismaNotificationTemplateRepository.findById store (← Effect.read) id))
  let isPlatformActor ← Effect.lift (isPlatformTenant db actorTenantId)
  if isPlatformActor = false ∧ template.tenantId ≠ none ∧ template.tenantId ≠ some actorTenantId then
    Effect.throw .forbidden
  else return template

/-- The schema lets no limit below 1 pass. -/
structure ListNotificationTemplatesInput where
  actorTenantId : String
  cursor : Option String
  limit : ℕ
  limit_pos : 1 ≤ limit

/-- `ListNotificationTemplatesUseCase.execute`. -/
def ListNotificationTemplates.execute (input : ListNotificationTemplatesInput) :
    UseCase sanitizeHtml (PaginateOutput (NotificationTemplate sanitizeHtml)) := do
  let isPlatformActor ← Effect.lift (isPlatformTenant db input.actorTenantId)
  let s ← Effect.read
  let templates := if isPlatformActor then
      PrismaNotificationTemplateRepository.findAll store s input.cursor input.limit
    else PrismaNotificationTemplateRepository.findByTenantIncludingGlobal store s input.cursor input.limit
  return paginate templates input.limit fun t => t.id

/-- What `update`, `activate` and `desactivate` ask first. -/
def findOwn (actorTenantId id : String) : UseCase sanitizeHtml (NotificationTemplate sanitizeHtml) := do
  let template ← Effect.lift (orNotFound
    (PrismaNotificationTemplateRepository.findById store (← Effect.read) id))
  let isPlatformActor ← Effect.lift (isPlatformTenant db actorTenantId)
  if isPlatformActor = false then
    if template.tenantId = none then Effect.throw .forbidden
    else if template.tenantId ≠ some actorTenantId then Effect.throw .forbidden
    else return template
  else return template

/-- `UpdateNotificationTemplateUseCase.execute`. -/
def UpdateNotificationTemplate.execute (actorTenantId id : String) (subject : Option String) (body : String)
    (now : ℕ) : UseCase sanitizeHtml String := do
  let template ← findOwn store db actorTenantId id
  let template ← Effect.lift (template.updateContent subject body now)
  PrismaNotificationTemplateRepository.update store template
  return template.id

/-- `ActivateNotificationTemplateUseCase.execute`. -/
def ActivateNotificationTemplate.execute (actorTenantId id : String) (now : ℕ) :
    UseCase sanitizeHtml String := do
  let template ← findOwn store db actorTenantId id
  if template.isActive then return template.id
  else
    let candidates := PrismaNotificationTemplateRepository.findActiveByCombinationCandidates
      (← Effect.read) template.code template.channel template.locale template.tenantId (some template.id)
    if candidates.any template.hasConflict then Effect.throw .templateAlreadyExists
    else
      let template := template.activate now
      PrismaNotificationTemplateRepository.update store template
      return template.id

/-- `DesactivateNotificationTemplateUseCase.execute`. -/
def DesactivateNotificationTemplate.execute (actorTenantId id : String) (now : ℕ) :
    UseCase sanitizeHtml String := do
  let template ← findOwn store db actorTenantId id
  if template.isActive = false then return template.id
  else
    let template := template.desactivate now
    PrismaNotificationTemplateRepository.update store template
    return template.id

/-! ## Calls -/

/-- What an administrator can ask for; the tenant of the actor comes from the request. -/
inductive Op where
  | create (targetTenantId : Option String) (code : NotificationCode) (channel : NotificationChannel)
    (locale : String) (subject : Option String) (body id : String) (now : ℕ)
  | get (id : String)
  | list (cursor : Option String) (limit : ℕ) (limit_pos : 1 ≤ limit)
  | update (id : String) (subject : Option String) (body : String) (now : ℕ)
  | activate (id : String) (now : ℕ)
  | desactivate (id : String) (now : ℕ)

/-- What a use case returns. -/
inductive Output (sanitizeHtml : String → String) where
  | id (id : String)
  | template (t : NotificationTemplate sanitizeHtml)
  | page (p : PaginateOutput (NotificationTemplate sanitizeHtml))

/-- The handler of a call. -/
def execute (actorTenantId : String) : Op → UseCase sanitizeHtml (Output sanitizeHtml)
  | .create targetTenantId code channel locale subject body id now => do
    let id ← CreateNotificationTemplate.execute db
      { actorTenantId, targetTenantId, code, channel, locale, subject, body } id now
    return .id id
  | .get id => do
    let t ← GetNotificationTemplate.execute store db actorTenantId id
    return .template t
  | .list cursor limit limit_pos => do
    let p ← ListNotificationTemplates.execute store db { actorTenantId, cursor, limit, limit_pos }
    return .page p
  | .update id subject body now => do
    let id ← UpdateNotificationTemplate.execute store db actorTenantId id subject body now
    return .id id
  | .activate id now => do
    let id ← ActivateNotificationTemplate.execute store db actorTenantId id now
    return .id id
  | .desactivate id now => do
    let id ← DesactivateNotificationTemplate.execute store db actorTenantId id now
    return .id id

end

end Neltrik.Notifications.Templates
