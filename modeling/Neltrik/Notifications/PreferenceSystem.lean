import Neltrik.Lib.Interleaving
import Neltrik.Notifications.UseCases

/-! # Preferences in time

`Create-`, `Update-` and `DeleteNotificationPreference` as processes over the table of the preferences. An action
is one access to the database with what the code computes after it until the next one; a run that throws
before its first write leaves no trace.

`ids` are the ids of the rows there have been: `IdGenerator` returns no id twice. -/

namespace Neltrik.Notifications

open Neltrik.Lib Neltrik.Lib.Table Neltrik.Prisma

/-! ## The entity -/

namespace NotificationPreference

/-- A new preference is enabled, and has an owner. -/
def create (id tenantId ownerId : String) (channel : NotificationChannel) (category : NotificationCategory)
    (now : ℕ) : Except NotificationError NotificationPreference :=
  if ht : tenantId ≠ "" then
    if ho : ownerId ≠ "" then .ok
      { id, tenantId, ownerId, channel, category, enabled := true, version := 0, createdAt := now, updatedAt := now,
        tenantId_ne := ht, ownerId_ne := ho }
    else .error .preferenceOwnerRequired
  else .error .tenantRequired

/-- It does nothing to one that is enabled. -/
def enable (p : NotificationPreference) (now : ℕ) : NotificationPreference :=
  if p.enabled then p else { p with enabled := true, updatedAt := now }

/-- It does nothing to one that is disabled. -/
def disable (p : NotificationPreference) (now : ℕ) : NotificationPreference :=
  if p.enabled then { p with enabled := false, updatedAt := now } else p

/-- What `UpdateNotificationPreference` does to its copy. -/
def choose (p : NotificationPreference) (enabled : Bool) (now : ℕ) : NotificationPreference :=
  if enabled then p.enable now else p.disable now

/-- The row that `update` writes. -/
def bump (p : NotificationPreference) : NotificationPreference := { p with version := p.version + 1 }

end NotificationPreference

/-! ## `PrismaNotificationPreferenceRepository` -/

namespace PrismaNotificationPreferenceRepository

/-- The columns that queries name. -/
def columns (p : NotificationPreference) : Row (Bool ⊕ ℕ)
  | "id" => .string p.id
  | "tenantId" => .string p.tenantId
  | "ownerId" => .string p.ownerId
  | "channel" => .string p.channel.value
  | "category" => .string p.category.value
  | "enabled" => .other (.inl p.enabled)
  | "version" => .other (.inr p.version)
  | _ => .null

/-- The filter `{ version }`. -/
def isVersion (version : ℕ) : Value (Bool ⊕ ℕ) → Bool
  | .other (.inr n) => n == version
  | _ => false

/-- The rows that the tenant client gives to an operation. -/
def selects (store : Option TenantContext) (operation : Operation) (args : Where (Bool ⊕ ℕ))
    (p : NotificationPreference) : Bool :=
  Where.holds (columns p) ((allOperations store .notificationPreference operation (some args)).getD [])

/-- `findFirst` by the id, in the scope of the request. -/
def findById (store : Option TenantContext) (rows : List NotificationPreference) (id : String) :
    Option NotificationPreference :=
  rows.find? (selects store .findFirst [.field "id" (equals id)])

/-- `findFirst` by the unique columns, in the scope of the request. -/
def findByOwnerAndChannelAndCategory (store : Option TenantContext) (rows : List NotificationPreference)
    (ownerId : String) (channel : NotificationChannel) (category : NotificationCategory) :
    Option NotificationPreference :=
  rows.find? (selects store .findFirst
    [.field "ownerId" (equals ownerId), .field "channel" (equals channel.value),
      .field "category" (equals category.value)])

/-- The primary key and `notification_preferences_owner_id_channel_category_key`. -/
def taken (rows : List NotificationPreference) (p : NotificationPreference) : Bool :=
  rows.any fun p' => p'.id == p.id || preferenceKey p' == preferenceKey p

/-- The rows of `updateMany`: the one of the copy, in the version that has been read. -/
def selectsVersion (store : Option TenantContext) (p : NotificationPreference) : NotificationPreference → Bool :=
  selects store .updateMany [.field "id" (equals p.id), .field "version" (isVersion p.version)]

/-- `updateMany` of the version that has been read, which has to find a row. -/
def update (store : Option TenantContext) (rows : List NotificationPreference) (p : NotificationPreference) :
    Option (List NotificationPreference) :=
  if rows.any (selectsVersion store p) then some (updateWhere (selectsVersion store p) (fun _ => p.bump) rows) else none

/-- `delete` by the id, in the scope of the request. -/
def delete (store : Option TenantContext) (rows : List NotificationPreference) (id : String) :
    Option (List NotificationPreference) :=
  let selected := selects store .delete [.field "id" (equals id)]
  if rows.any selected then some (rows.filter fun p => !selected p) else none

end PrismaNotificationPreferenceRepository

/-! ## The system -/

namespace Preferences

open PrismaNotificationPreferenceRepository

/-- The user of a request. -/
structure Actor where
  userId : String
  tenantId : String
  roleCode : String
  deriving DecidableEq

/-- `TenantInterceptor.intercept`. -/
def Actor.context (actor : Actor) : Option TenantContext :=
  let isPlatformAdmin := actor.roleCode == "PLATFORM_ADMIN"
  some { tenantId := if isPlatformAdmin then none else some actor.tenantId, userId := some actor.userId, isPlatformAdmin }

/-- The table of the preferences. -/
structure World where
  preferences : List NotificationPreference
  ids : List String

/-- A run at the access that comes next. -/
inductive Proc where
  /-- `CreateNotificationPreference` that has found no preference, and one that has met the unique index. -/
  | creating (actor : Actor) (channel : NotificationChannel) (category : NotificationCategory)
  | conflicting (actor : Actor) (channel : NotificationChannel) (category : NotificationCategory)
  | updating (actor : Actor) (preference : NotificationPreference) (enabled : Bool)
  | deleting (actor : Actor) (preference : NotificationPreference)
  | returned (id : String)
  | failed

/-- A use case with its input. -/
inductive Start where
  | create (actor : Actor) (channel : NotificationChannel) (category : NotificationCategory)
  | update (actor : Actor) (preferenceId : String) (enabled : Bool)
  | delete (actor : Actor) (preferenceId : String)

/-- The next access of a run, which may fail. -/
inductive Action where
  | create (id : String) (now : ℕ)
  | findExisting
  | update (now : ℕ)
  | delete
  /-- The access throws. -/
  | fail

/-- `findByOwnerAndChannelAndCategory` for a create. -/
def existing (w : World) (actor : Actor) (channel : NotificationChannel) (category : NotificationCategory) :
    Option NotificationPreference :=
  PrismaNotificationPreferenceRepository.findByOwnerAndChannelAndCategory actor.context w.preferences actor.userId
    channel category

/-- `findById` and the check of the owner. -/
def findOwn (w : World) (actor : Actor) (preferenceId : String) : Option NotificationPreference :=
  (findById actor.context w.preferences preferenceId).filter (·.ownerId == actor.userId)

/-- A run up to its first access. -/
def start (w : World) : Start → Option (World × Proc)
  | .create actor channel category =>
    match existing w actor channel category with
    | some _ => none
    | none => some (w, .creating actor channel category)
  | .update actor preferenceId enabled =>
    (findOwn w actor preferenceId).map fun preference => (w, .updating actor preference enabled)
  | .delete actor preferenceId =>
    (findOwn w actor preferenceId).map fun preference => (w, .deleting actor preference)

/-- The next access of a run, and what the code computes after it. -/
def act (_ : List Proc) (w : World) : Proc → Action → Option (World × Proc)
  | .creating actor channel category, .create id now =>
    if w.ids.contains id then none
    else match NotificationPreference.create id actor.tenantId actor.userId channel category now with
      | .error _ => some (w, .failed)
      | .ok p =>
        if taken w.preferences p then some (w, .conflicting actor channel category)
        else some ({ preferences := p :: w.preferences, ids := id :: w.ids }, .returned id)
  | .conflicting actor channel category, .findExisting =>
    match existing w actor channel category with
    | some preference => some (w, .returned preference.id)
    | none => some (w, .failed)
  | .updating actor preference enabled, .update now =>
    match update actor.context w.preferences (preference.choose enabled now) with
    | some preferences => some ({ w with preferences }, .returned preference.id)
    | none => some (w, .failed)
  | .deleting actor preference, .delete =>
    match delete actor.context w.preferences preference.id with
    | some preferences => some ({ w with preferences }, .returned preference.id)
    | none => some (w, .failed)
  | .returned _, .fail | .failed, .fail => none
  | _, .fail => some (w, .failed)
  | _, _ => none

/-- A step of the system. -/
abbrev Label := Interleaving.Label Start Action

/-- The world and the runs. -/
abbrev State := Interleaving.State World Proc

/-- The runs interleaved. -/
abbrev step : State → Label → Option State := Interleaving.step start act

end Preferences

end Neltrik.Notifications
