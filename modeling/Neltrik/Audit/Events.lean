import Neltrik.Shared.Json
import Neltrik.Shared.Text

/-! # Audit events

What the use cases and the guards hand to the module `audit`, the catalogs it is checked against, and the
event that is stored. The address and the agent of the client are `null` in every call. -/

namespace Neltrik.Shared

/-- `AuditMetadata` of a handler. -/
structure AuditMetadata where
  action : String
  resource : String
  deriving DecidableEq

/-- What a record is asked with. -/
structure AuditRecordInput extends AuditMetadata where
  resourceId : Option String
  userId : Option String
  userEmail : Option String
  tenantId : Option String
  status : String
  metadata : List (String × String)
  deriving DecidableEq

end Neltrik.Shared

namespace Neltrik.Audit

open Neltrik.Shared

/-- `AUDIT_STATUS`. -/
inductive AuditStatus where
  | success | failed | denied
  deriving DecidableEq, Repr

/-- `AUDIT_ACTION`. -/
def auditActions : List String :=
  ["USER_SUSPENDED", "USER_REACTIVATED", "USER_ROLE_CHANGED", "TENANT_SUSPENDED", "TENANT_REACTIVATED"]

/-- `AUDIT_RESOURCE`. -/
def auditResources : List String := ["USER", "TENANT"]

/-- What the constructor throws. -/
inductive AuditError where
  | invalidAuditAction | invalidAuditResource | emptyAction | emptyResource
  deriving DecidableEq, Repr

/-- The metadata of every call is an object of strings. -/
structure CreateAuditEventInput where
  userId : Option String
  userEmail : Option String
  tenantId : Option String
  action : String
  resource : String
  resourceId : Option String
  status : AuditStatus
  metadata : List (String × String)
  deriving DecidableEq

/-- The fields of an event. -/
structure AuditEventProps where
  id : String
  userId : Option String
  userEmail : Option String
  tenantId : Option String
  action : String
  resource : String
  resourceId : Option String
  status : AuditStatus
  metadata : List (String × String)
  createdAt : ℕ
  deriving DecidableEq

/-- An event with what its constructor has checked. -/
structure AuditEvent extends AuditEventProps where
  action_ne : isBlank action = false
  resource_ne : isBlank resource = false
  deriving DecidableEq

/-- The constructor. -/
def AuditEvent.create (p : AuditEventProps) : Except AuditError AuditEvent :=
  if ha : isBlank p.action = false then
    if hr : isBlank p.resource = false then .ok ⟨p, ha, hr⟩
    else .error .emptyResource
  else .error .emptyAction

/-- `CreateAuditEventOhsUseCase.execute`, up to the write; `AuditMetadata.create` takes an object of strings. -/
def CreateAuditEvent.execute (input : CreateAuditEventInput) (id : String) (now : ℕ) :
    Except AuditError AuditEvent :=
  if auditActions.contains input.action = false then .error .invalidAuditAction
  else if auditResources.contains input.resource = false then .error .invalidAuditResource
  else AuditEvent.create
    { id, userId := input.userId, userEmail := input.userEmail, tenantId := input.tenantId,
      action := input.action, resource := input.resource, resourceId := input.resourceId,
      status := input.status, metadata := input.metadata, createdAt := now }

/-- The status of a text. -/
def AuditStatus.ofString (status : String) : Option AuditStatus :=
  if status = "SUCCESS" then some .success
  else if status = "FAILED" then some .failed
  else if status = "DENIED" then some .denied
  else none

/-- `AuditRecorderProvider.record`: what is handed on, if the input is in the catalogs. -/
def AuditRecorder.record (input : AuditRecordInput) : Option CreateAuditEventInput :=
  if auditActions.contains input.action = false then none
  else if auditResources.contains input.resource = false then none
  else (AuditStatus.ofString input.status).map fun status =>
    { userId := input.userId, userEmail := input.userEmail, tenantId := input.tenantId,
      action := input.action, resource := input.resource, resourceId := input.resourceId, status,
      metadata := input.metadata }

/-- Nothing in the catalogs is blank. -/
theorem exists_execute_eq_ok {input : CreateAuditEventInput} (ha : input.action ∈ auditActions)
    (hr : input.resource ∈ auditResources) (id : String) (now : ℕ) :
    ∃ event, CreateAuditEvent.execute input id now = .ok event ∧ event.toAuditEventProps =
      { id, userId := input.userId, userEmail := input.userEmail, tenantId := input.tenantId,
        action := input.action, resource := input.resource, resourceId := input.resourceId,
        status := input.status, metadata := input.metadata, createdAt := now } := by
  have haction : isBlank input.action = false := by
    have hall : ∀ a ∈ auditActions, isBlank a = false := by decide
    exact hall _ ha
  have hresource : isBlank input.resource = false := by
    have hall : ∀ r ∈ auditResources, isBlank r = false := by decide
    exact hall _ hr
  unfold CreateAuditEvent.execute AuditEvent.create
  rw [if_neg (by simpa using ha), if_neg (by simpa using hr)]
  simp only [haction, hresource, dite_true]
  exact ⟨_, rfl, rfl⟩

end Neltrik.Audit
