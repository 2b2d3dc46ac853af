import Neltrik.Lib.Interleaving
import Neltrik.Notifications.PreferenceSystem
import Neltrik.Notifications.TemplateUseCases

/-! # Templates in time

`Create-`, `Update-`, `Activate-` and `DesactivateNotificationTemplate` as processes over the table of the
templates. An action is one access to the database with what the code computes after it until the next one;
`db` has the tenants that `TenantApi` looks up, and the tenant of an actor keeps its type. A run that throws
before its first write leaves no trace.

`ids` are the ids of the rows there have been: `IdGenerator` returns no id twice. -/

namespace Neltrik.Notifications.TemplateRuns

open Neltrik.Lib Neltrik.Prisma Neltrik.Notifications.Templates
open Neltrik.Notifications.Preferences (Actor)

variable (sanitizeHtml : String → String)

/-- The table of the templates. -/
structure World where
  templates : TemplateStore sanitizeHtml
  ids : List String

/-- What is done to a copy. -/
inductive TemplateEdit where
  | updateContent (subject : Option String) (body : String)
  | activate
  | desactivate
  deriving DecidableEq

/-- A run at the access that comes next. -/
inductive Proc where
  | creating (actorTenantId : String) (template : NotificationTemplate sanitizeHtml)
  /-- `ActivateNotificationTemplate` that has found an inactive template. -/
  | activating (actor : Actor) (template : NotificationTemplate sanitizeHtml)
  | editing (actor : Actor) (template : NotificationTemplate sanitizeHtml) (edit : TemplateEdit)
  | returned (id : String)
  | failed

variable {sanitizeHtml}

/-- The method of the entity. -/
def TemplateEdit.apply (template : NotificationTemplate sanitizeHtml) (now : ℕ) :
    TemplateEdit → Except NotificationError (NotificationTemplate sanitizeHtml)
  | updateContent subject body => template.updateContent subject body now
  | activate => .ok (template.activate now)
  | desactivate => .ok (template.desactivate now)

/-- A use case with its input. -/
inductive Start where
  | create (input : CreateNotificationTemplateInput) (id : String) (now : ℕ)
  | edit (actor : Actor) (id : String) (edit : TemplateEdit)

/-- The next access of a run, which may fail. -/
inductive Action where
  | create
  | findCandidates
  | update (now : ℕ)
  /-- The access throws. -/
  | fail

/-- The write of a repository, if it goes through. -/
def commit (write : Templates.UseCase sanitizeHtml Unit) (s : TemplateStore sanitizeHtml) :
    Option (TemplateStore sanitizeHtml) :=
  match write s with
  | (.ok _, s) => some s
  | (.error _, _) => none

/-- A row that is active already has what the template has. -/
def conflicts (w : World sanitizeHtml) (template : NotificationTemplate sanitizeHtml) (excludeId : Option String) : Bool :=
  (PrismaNotificationTemplateRepository.findActiveByCombinationCandidates w.templates template.code template.channel
    template.locale template.tenantId excludeId).any template.hasConflict

section
variable (db : Authorization.Db)

/-- The new template of a create that may make it. -/
def newTemplate (input : CreateNotificationTemplateInput) (id : String) (now : ℕ) :
    Except NotificationError (NotificationTemplate sanitizeHtml) :=
  (isPlatformTenant db input.actorTenantId).bind fun isPlatformActor =>
    if isPlatformActor = false ∧ input.targetTenantId ≠ some input.actorTenantId then .error .forbidden
    else NotificationTemplate.create
      { id, tenantId := input.targetTenantId, code := input.code, channel := input.channel
        locale := input.locale, subject := input.subject, body := input.body, isActive := true
        version := 0, createdAt := now, updatedAt := now }

/-- A run up to its first write, or up to the next access. -/
def start (w : World sanitizeHtml) : Start → Option (World sanitizeHtml × Proc sanitizeHtml)
  | .create input id now =>
    match newTemplate db input id now with
    | .ok template => if conflicts w template none then none else some (w, .creating input.actorTenantId template)
    | .error _ => none
  | .edit actor id edit =>
    match (findOwn actor.context db actor.tenantId id w.templates).1 with
    | .error _ => none
    | .ok template =>
      match edit with
      | .updateContent subject body => some (w, .editing actor template (.updateContent subject body))
      | .activate => some (w, if template.isActive then .returned template.id else .activating actor template)
      | .desactivate => some (w, if template.isActive then .editing actor template .desactivate else .returned template.id)

end

/-- The next access of a run, and what the code computes after it. -/
def act (_ : List (Proc sanitizeHtml)) (w : World sanitizeHtml) :
    Proc sanitizeHtml → Action → Option (World sanitizeHtml × Proc sanitizeHtml)
  | .creating _ template, .create =>
    if w.ids.contains template.id then none
    else match commit (PrismaNotificationTemplateRepository.create template) w.templates with
      | some templates => some ({ templates, ids := template.id :: w.ids }, .returned template.id)
      | none => some (w, .failed)
  | .activating actor template, .findCandidates =>
    some (w, if conflicts w template (some template.id) then .failed else .editing actor template .activate)
  | .editing actor template edit, .update now =>
    match edit.apply template now with
    | .error _ => some (w, .failed)
    | .ok new =>
      match commit (PrismaNotificationTemplateRepository.update actor.context new) w.templates with
      | some templates => some ({ w with templates }, .returned template.id)
      | none => some (w, .failed)
  | .returned _, .fail | .failed, .fail => none
  | _, .fail => some (w, .failed)
  | _, _ => none

/-- A step of the system. -/
abbrev Label := Interleaving.Label Start Action

/-- The world and the runs. -/
abbrev State (sanitizeHtml : String → String) := Interleaving.State (World sanitizeHtml) (Proc sanitizeHtml)

/-- The runs interleaved. -/
abbrev step (db : Authorization.Db) : State sanitizeHtml → Label → Option (State sanitizeHtml) :=
  Interleaving.step (start db) act

end Neltrik.Notifications.TemplateRuns
