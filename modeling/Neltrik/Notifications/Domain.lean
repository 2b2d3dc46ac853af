import Neltrik.Shared.Json
import Mathlib.Data.Nat.Notation
import Mathlib.Tactic.SplitIfs

/-! # Notifications and preferences

The catalogs and the entities of the module `notifications` but for the template. The constructors
keep what they check; the codes, channels and categories are types, as the inputs have them. `now` is
the instant `new Date()` returns, in milliseconds. -/

namespace Neltrik.Notifications

open Neltrik.Shared

/-- `NOTIFICATION_CHANNEL`. -/
inductive NotificationChannel where
  | email | inApp
  deriving DecidableEq, Repr

/-- As it is stored. -/
def NotificationChannel.value : NotificationChannel → String
  | email => "EMAIL"
  | inApp => "IN_APP"

/-- `NOTIFICATION_CATEGORY`. -/
inductive NotificationCategory where
  | transactional | marketing
  deriving DecidableEq, Repr

/-- As it is stored. -/
def NotificationCategory.value : NotificationCategory → String
  | transactional => "TRANSACTIONAL"
  | marketing => "MARKETING"

/-- `NOTIFICATION_CODES`. -/
inductive NotificationCode where
  | resetPassword | emailVerification | invitation | welcome
  deriving DecidableEq, Repr

namespace NotificationCode

/-- As it is stored. -/
def value : NotificationCode → String
  | resetPassword => "RESET_PASSWORD"
  | emailVerification => "EMAIL_VERIFICATION"
  | invitation => "INVITATION"
  | welcome => "WELCOME"

/-- `NOTIFICATION_CODE_CATEGORIES`. -/
def category : NotificationCode → NotificationCategory
  | resetPassword | emailVerification | invitation => .transactional
  | welcome => .marketing

/-- `NOTIFICATION_VARIABLES`. -/
def notificationVariables : NotificationCode → List String
  | resetPassword => ["name", "email", "resetUrl", "tenantName"]
  | emailVerification => ["name", "email", "verificationUrl", "tenantName"]
  | invitation => ["inviterName", "tenantName", "invitationUrl"]
  | welcome => ["name", "tenantName"]

end NotificationCode

theorem NotificationChannel.value_inj {c c' : NotificationChannel} : c.value = c'.value ↔ c = c' := by
  cases c <;> cases c' <;> decide

theorem NotificationCategory.value_inj {c c' : NotificationCategory} : c.value = c'.value ↔ c = c' := by
  cases c <;> cases c' <;> decide

/-! ## Errors -/

/-- The errors of the module, by the class the source throws. -/
inductive NotificationError where
  | channelsRequired | localeRequired | recipientEmailRequired | recipientRequired | tenantRequired
  | invalidStatusTransition | cannotBeMarkedAsRead | notFound
  | preferenceOwnerRequired
  | templateNotFound | templateBodyRequired | templateLocaleRequired | templateSubjectRequired
  | invalidTemplateLocale
  | invalidTemplateHtml (errors : List String)
  | invalidTemplateVariable (invalid : List String)
  | templateVariableMissing (missing : List String)
  | templateAlreadyExists
  /-- `new Error` in `sendEmail`. -/
  | templateWithoutSubject (code : NotificationCode)
  | tenantNotFound | uniqueViolation | recordNotFound
  | forbidden | optimisticLock
  /-- What a provider or the queue throws. -/
  | external (message : String)
  deriving DecidableEq

/-- The text of the error; those of other modules do not get into a notification. -/
def NotificationError.message : NotificationError → String
  | channelsRequired => "Notification channels are required"
  | localeRequired => "Notification locale is required"
  | recipientEmailRequired => "Notification recipient email is required"
  | recipientRequired => "Notification recipient is required"
  | tenantRequired => "Tenant is required"
  | invalidStatusTransition => "Notification status transition is invalid"
  | cannotBeMarkedAsRead => "Notification cannot be marked as read"
  | notFound => "Notification not found"
  | preferenceOwnerRequired => "Owner is required"
  | templateNotFound => "Notification template not found"
  | templateBodyRequired => "Notification template body is required"
  | templateLocaleRequired => "Notification template locale is required"
  | templateSubjectRequired => "Notification template subject is required"
  | invalidTemplateLocale => "Notification template locale is invalid"
  | invalidTemplateHtml _ => "Invalid template HTML"
  | invalidTemplateVariable _ => "Invalid template variables"
  | templateVariableMissing _ => "Template variables missing"
  | templateAlreadyExists => "Notification template already exists"
  | templateWithoutSubject code => "Template " ++ code.value ++ " has no subject for EMAIL channel"
  | forbidden => "You are not allowed to perform this action"
  | optimisticLock => "The record was modified by another user. Please refresh and try again."
  | external message => message
  | tenantNotFound | uniqueViolation | recordNotFound => ""

/-- A string counts as true when it is there and not empty. -/
def isPresent (s : Option String) : Bool := s.any (· != "")

/-! ## Notifications -/

/-- `NOTIFICATION_STATUS`. -/
inductive NotificationStatus where
  | pending | sent | failed
  deriving DecidableEq, Repr

/-- The fields of a notification. -/
structure NotificationProps where
  id : String
  tenantId : String
  recipientId : String
  recipientEmail : Option String
  code : NotificationCode
  channels : List NotificationChannel
  payload : JsonObject
  locale : String
  status : NotificationStatus
  attempts : ℕ
  lastError : Option String
  sentAt : Option ℕ
  readAt : Option ℕ
  createdAt : ℕ
  updatedAt : ℕ

/-- A notification with what its constructor has checked. -/
structure Notification extends NotificationProps where
  tenantId_ne : tenantId ≠ ""
  recipientId_ne : recipientId ≠ ""
  channels_ne : channels ≠ []
  recipientEmail_present : channels.contains .email = true → isPresent recipientEmail = true
  locale_ne : locale ≠ ""

namespace Notification

/-- The private constructor, with the errors in the order of its checks. -/
def ofProps (p : NotificationProps) : Except NotificationError Notification :=
  if ht : p.tenantId ≠ "" then
    if hr : p.recipientId ≠ "" then
      if hc : p.channels ≠ [] then
        if he : p.channels.contains .email = true → isPresent p.recipientEmail = true then
          if hl : p.locale ≠ "" then .ok ⟨p, ht, hr, hc, he, hl⟩
          else .error .localeRequired
        else .error .recipientEmailRequired
      else .error .channelsRequired
    else .error .recipientRequired
  else .error .tenantRequired

/-- A new notification is `PENDING` and has not been tried. -/
def create (p : NotificationProps) : Except NotificationError Notification :=
  ofProps
    { p with
      status := .pending, attempts := 0, lastError := none, sentAt := none, readAt := none
      updatedAt := p.createdAt }

/-- By the status. -/
def isSent (n : Notification) : Bool := n.status == .sent

/-- One attempt more, whatever the status. -/
def registerAttempt (n : Notification) (now : ℕ) : Notification :=
  { n with attempts := n.attempts + 1, updatedAt := now }

/-- Not from `SENT`. -/
def markAsSent (n : Notification) (now : ℕ) : Except NotificationError Notification :=
  if n.isSent then .error .invalidStatusTransition
  else .ok { n with status := .sent, sentAt := some now, updatedAt := now }

/-- Not from `SENT`; the reason is kept. -/
def markAsFailed (n : Notification) (reason : String) (now : ℕ) : Except NotificationError Notification :=
  if n.isSent then .error .invalidStatusTransition
  else .ok { n with status := .failed, lastError := some reason, updatedAt := now }

/-- Of a notification in the application. -/
def markAsRead (n : Notification) (now : ℕ) : Except NotificationError Notification :=
  if n.channels.contains .inApp = false then .error .cannotBeMarkedAsRead
  else if n.readAt.isSome then .ok n
  else .ok { n with readAt := some now, updatedAt := now }

theorem create_eq_ok {p : NotificationProps} {n : Notification} (h : create p = .ok n) :
    n.id = p.id ∧ n.channels = p.channels := by
  unfold create ofProps at h
  split_ifs at h
  cases h
  exact ⟨rfl, rfl⟩

theorem create_status {p : NotificationProps} {n : Notification} (h : create p = .ok n) :
    n.status = .pending := by
  unfold create ofProps at h
  split_ifs at h
  cases h
  rfl

end Notification

/-! ## Preferences -/

/-- The fields of a preference. -/
structure NotificationPreference where
  id : String
  tenantId : String
  ownerId : String
  channel : NotificationChannel
  category : NotificationCategory
  enabled : Bool
  version : ℕ
  createdAt : ℕ
  updatedAt : ℕ
  tenantId_ne : tenantId ≠ ""
  ownerId_ne : ownerId ≠ ""

/-- What the owner has chosen. -/
def NotificationPreference.isEnabled (p : NotificationPreference) : Bool := p.enabled

end Neltrik.Notifications
