import Neltrik.Lib.Interleaving
import Neltrik.Notifications.UseCases

/-! # Lost updates of a notification

The delivery job and the reader of a notification, side by side. `SendNotificationJobs` and
`MarkNotificationAsRead` read the row, change their copy and write the whole row back, the job after
all its emails; `MarkAllNotificationsAsRead` is one conditional update. The row has no version.

`no_lost_update_iff`: a row that is sent stays sent and one that is read stays read exactly when no run
writes back a copy in which something is missing that the row has got since the copy was read
(`keepsNews`). That `sentAt` goes with the status and `readAt` with the channel holds in any case. -/

namespace Neltrik.Notifications.LostUpdates

open Neltrik.Lib Neltrik.Prisma Neltrik.Shared

/-! ## The runs -/

/-- What a column has that is neither `null` nor a string. -/
inductive Column where
  | channels (channels : List NotificationChannel)
  | date (at' : ℕ)

/-- The columns that queries name. -/
def columns (n : Notification) : Row Column
  | "id" => .string n.id
  | "tenantId" => .string n.tenantId
  | "recipientId" => .string n.recipientId
  | "channels" => .other (.channels n.channels)
  | "readAt" => n.readAt.elim .null fun at' => .other (.date at')
  | _ => .null

/-- The filter `{ channels: { has: channel } }`. -/
def has (channel : NotificationChannel) : Value Column → Bool
  | .other (.channels channels) => channels.contains channel
  | _ => false

/-- The row is the one with the id, for the tenant client. -/
def selects (store : Option TenantContext) (operation : Operation) (id : String) (row : Notification) :
    Bool :=
  Where.holds (columns row)
    ((allOperations store .notification operation (some [.field "id" (equals id)])).getD [])

/-- `NotificationRepository.markAllInAppAsRead`. -/
def markAllInAppAsRead (store : Option TenantContext) (tenantId recipientId : String) (now : ℕ)
    (row : Notification) : Notification :=
  if Where.holds (columns row) ((allOperations store .notification .updateMany
      (some [.field "tenantId" (equals tenantId), .field "recipientId" (equals recipientId),
        .field "channels" (has .inApp), .field "readAt" isNull])).getD []) then
    { row with readAt := some now, updatedAt := now }
  else row

/-- `NotificationRepository.update`; it throws when there is no such row. -/
def update (store : Option TenantContext) (n row : Notification) : Notification :=
  if selects store .update n.id row then n else row

/-- A run, at the statement it is at. `read` is the row as the run has read it, `n` the copy. -/
inductive Proc where
  | sendNotification (store : Option TenantContext) (id : String)
  | sending (store : Option TenantContext) (read n : Notification) (channels : List NotificationChannel)
  | failing (store : Option TenantContext) (read n : Notification)
  | markAsRead (store : Option TenantContext) (id actorUserId : String)
  | marking (store : Option TenantContext) (read n : Notification)
  | done

/-- A run of the job, or a request of the recipient. -/
inductive Start where
  | sendNotification (store : Option TenantContext) (id : String)
  | markAsRead (store : Option TenantContext) (id actorUserId : String)
  | markAllAsRead (store : Option TenantContext) (tenantId userId : String) (now : ℕ)

/-- What a run does next: it reads the row, goes through a channel, or writes its copy back. -/
inductive Action where
  | read (now : ℕ)
  | channel (outcome : Except NotificationError Unit) (now : ℕ)
  | write (now : ℕ)

/-- What a start reads, or writes at once. -/
def start (row : Notification) : Start → Option (Notification × Proc)
  | .sendNotification store id => some (row, .sendNotification store id)
  | .markAsRead store id actorUserId => some (row, .markAsRead store id actorUserId)
  | .markAllAsRead store tenantId userId now =>
    some (markAllInAppAsRead store tenantId userId now row, .done)

/-- The next access of a run. -/
def act (_ : List Proc) (row : Notification) : Proc → Action → Option (Notification × Proc)
  | .sendNotification store id, .read _ =>
    if selects store .findFirst id row then
      if row.isSent then some (row, .done) else some (row, .sending store row row row.channels)
    else some (row, .done)
  | .sending store read n (channel :: channels), .channel outcome now =>
    let n := n.registerAttempt now
    if channel = .email then
      match outcome with
      | .ok _ => some (row, .sending store read n channels)
      | .error e =>
        match n.markAsFailed e.message now with
        | .ok n => some (row, .failing store read n)
        | .error _ => some (row, .done)
    else some (row, .sending store read n channels)
  | .sending store _ n [], .write now =>
    match n.markAsSent now with
    | .ok n => some (update store n row, .done)
    | .error _ => some (row, .done)
  | .failing store _ n, .write _ => some (update store n row, .done)
  | .markAsRead store id actorUserId, .read now =>
    if selects store .findFirst id row then
      if row.recipientId = actorUserId then
        match row.markAsRead now with
        | .ok n => some (row, .marking store row n)
        | .error _ => some (row, .done)
      else some (row, .done)
    else some (row, .done)
  | .marking store _ n, .write _ => some (update store n row, .done)
  | _, _ => none

/-- The row and the runs. -/
abbrev State := Interleaving.State Notification Proc
/-- A step of the system. -/
abbrev Label := Interleaving.Label Start Action

/-- The runs interleaved on the row. -/
abbrev step : State → Label → Option State := Interleaving.step start act

/-! ### What an action does -/

/-- The actions of a run, by the statement it is at. -/
inductive Acts (row : Notification) : Proc → Action → Notification → Proc → Prop
  | leave {p : Proc} {a : Action} (ha : ∀ now, a ≠ .write now) : Acts row p a row .done
  | refuse {store : Option TenantContext} {read n : Notification} {now : ℕ} {e : NotificationError}
      (hsent : n.markAsSent now = .error e) : Acts row (.sending store read n []) (.write now) row .done
  | readToSend {store : Option TenantContext} {id : String} {now : ℕ}
      (hselects : selects store .findFirst id row = true) (hsent : row.isSent = false) :
      Acts row (.sendNotification store id) (.read now) row (.sending store row row row.channels)
  | attempt {store : Option TenantContext} {read n : Notification} {channel : NotificationChannel}
      {channels : List NotificationChannel} {outcome : Except NotificationError Unit} {now : ℕ} :
      Acts row (.sending store read n (channel :: channels)) (.channel outcome now) row
        (.sending store read (n.registerAttempt now) channels)
  | fail {store : Option TenantContext} {read n n' : Notification} {channel : NotificationChannel}
      {channels : List NotificationChannel} {e : NotificationError} {now : ℕ}
      (hfail : (n.registerAttempt now).markAsFailed e.message now = .ok n') :
      Acts row (.sending store read n (channel :: channels)) (.channel (.error e) now) row
        (.failing store read n')
  | writeSent {store : Option TenantContext} {read n n' : Notification} {now : ℕ}
      (hsent : n.markAsSent now = .ok n') :
      Acts row (.sending store read n []) (.write now) (update store n' row) .done
  | writeFailed {store : Option TenantContext} {read n : Notification} {now : ℕ} :
      Acts row (.failing store read n) (.write now) (update store n row) .done
  | readToMark {store : Option TenantContext} {id actorUserId : String} {n : Notification} {now : ℕ}
      (hselects : selects store .findFirst id row = true) (hread : row.markAsRead now = .ok n) :
      Acts row (.markAsRead store id actorUserId) (.read now) row (.marking store row n)
  | writeRead {store : Option TenantContext} {read n : Notification} {now : ℕ} :
      Acts row (.marking store read n) (.write now) (update store n row) .done

theorem act_acts {procs : List Proc} {row row' : Notification} {p p' : Proc} {a : Action}
    (h : act procs row p a = some (row', p')) : Acts row p a row' p' := by
  unfold act at h
  split at h
  · split at h
    · rename_i hselects
      split at h
      · cases h
        exact .leave nofun
      · rename_i hsent
        cases h
        exact .readToSend hselects ((Bool.not_eq_true _).mp hsent)
    · cases h
      exact .leave nofun
  · split at h
    · split at h
      · cases h
        exact .attempt
      · dsimp only at h
        split at h
        · rename_i hfail
          cases h
          exact .fail hfail
        · cases h
          exact .leave nofun
    · cases h
      exact .attempt
  · split at h
    · rename_i hsent
      cases h
      exact .writeSent hsent
    · rename_i hsent
      cases h
      exact .refuse hsent
  · cases h
    exact .writeFailed
  · split at h
    · rename_i hselects
      split at h
      · split at h
        · rename_i hread
          cases h
          exact .readToMark hselects hread
        · cases h
          exact .leave nofun
      · cases h
        exact .leave nofun
    · cases h
      exact .leave nofun
  · cases h
    exact .writeRead
  · cases h

/-! ## The invariant -/

/-- `sentAt` goes with the status, and `readAt` with the channel. -/
structure Consistent (n : Notification) : Prop where
  sentAt : n.sentAt.isSome = n.isSent
  readAt : n.readAt.isSome = true → n.channels.contains .inApp = true

theorem consistent_of_create {p : NotificationProps} {n : Notification}
    (h : Notification.create p = .ok n) : Consistent n := by
  unfold Notification.create Notification.ofProps at h
  split_ifs at h
  cases h
  exact ⟨rfl, fun h => absurd h Bool.false_ne_true⟩

/-- The rows have in common what no run writes. -/
structure Same (n n' : Notification) : Prop where
  id : n.id = n'.id
  tenantId : n.tenantId = n'.tenantId
  channels : n.channels = n'.channels

theorem Same.refl (n : Notification) : Same n n := ⟨rfl, rfl, rfl⟩

theorem Same.trans {n₁ n₂ n₃ : Notification} (h : Same n₁ n₂) (h' : Same n₂ n₃) : Same n₁ n₃ :=
  ⟨h.id.trans h'.id, h.tenantId.trans h'.tenantId, h.channels.trans h'.channels⟩

theorem Same.symm {n n' : Notification} (h : Same n n') : Same n' n :=
  ⟨h.id.symm, h.tenantId.symm, h.channels.symm⟩

/-- A query by the id finds the row of that id in the tenant of the request. -/
theorem selects_eq (store : Option TenantContext) {operation : Operation}
    (hop : isWriteOperation operation = false) (id : String) (row : Notification) :
    selects store operation id row = (row.id == id &&
      (isPlatformAdmin store || (truthy (getCurrentTenant store)).all (row.tenantId == ·))) := by
  have hkey : "id" ∉ ["tenantId", "OR", "ownerId"] := by decide
  have hscope : requestScope store .notification (columns row) =
      (truthy (getCurrentTenant store)).all (row.tenantId == ·) := by
    simp [requestScope, inScope, tenantModels, tenantModelsWithGlobal, ownershipModels, columns, equals]
  have hkeys : ∀ c ∈ [(.field "id" (equals id) : Condition Column)],
      c.key ∉ (requestConditions store .notification : Where Column).map Condition.key :=
    List.forall_mem_singleton.mpr (key_notMem_requestConditions hkey)
  unfold selects
  rw [holds_allOperations hop hkeys, hscope]
  simp [Where.holds, Condition.holds, columns, equals]

theorem Same.selects {n n' : Notification} (h : Same n n') {store : Option TenantContext}
    {operation operation' : Operation} (hop : isWriteOperation operation = false)
    (hop' : isWriteOperation operation' = false) {id : String} :
    LostUpdates.selects store operation id n = LostUpdates.selects store operation' id n' := by
  rw [selects_eq store hop, selects_eq store hop', h.id, h.tenantId]

/-- The row of the copy `n`, which was read as `read`, is still the one the run works on. -/
structure CopyOf (row : Notification) (store : Option TenantContext) (n : Notification) : Prop where
  same : Same n row
  selected : selects store .update n.id row = true
  consistent : Consistent n

theorem CopyOf.later {row row' n : Notification} {store : Option TenantContext} (h : CopyOf row store n)
    (hrow : Same row' row) : CopyOf row' store n :=
  ⟨h.same.trans hrow.symm, (hrow.selects rfl rfl).trans h.selected, h.consistent⟩

/-- The copy of a delivery that is not over: neither sent nor read by the job itself. -/
structure Unsent (row : Notification) (store : Option TenantContext) (read n : Notification) : Prop where
  copy : CopyOf row store n
  read_unsent : read.isSent = false
  unsent : n.isSent = false
  readAt : n.readAt = read.readAt

/-- The copy of a reader: read, and sent if the row was. -/
structure Read (row : Notification) (store : Option TenantContext) (read n : Notification) : Prop where
  copy : CopyOf row store n
  sent : n.isSent = read.isSent
  readAt : n.readAt.isSome = true

/-- What the copy of a run has to do with the row. -/
def Holds (row : Notification) : Proc → Prop
  | .sending store read n _ => Unsent row store read n
  | .failing store read n => Unsent row store read n
  | .marking store read n => Read row store read n
  | _ => True

theorem Holds.later {row row' : Notification} {p : Proc} (h : Holds row p) (hrow : Same row' row) :
    Holds row' p := by
  cases p with
  | sending => exact ⟨h.copy.later hrow, h.read_unsent, h.unsent, h.readAt⟩
  | failing => exact ⟨h.copy.later hrow, h.read_unsent, h.unsent, h.readAt⟩
  | marking => exact ⟨h.copy.later hrow, h.sent, h.readAt⟩
  | _ => trivial

section
variable {row row' n n' : Notification} {store : Option TenantContext} {read : Notification} {now : ℕ}

theorem CopyOf.update (h : CopyOf row store n) : update store n row = n := by
  unfold LostUpdates.update
  rw [if_pos h.selected]

theorem Unsent.registerAttempt (h : Unsent row store read n) (now : ℕ) :
    Unsent row store read (n.registerAttempt now) :=
  ⟨⟨⟨h.copy.same.id, h.copy.same.tenantId, h.copy.same.channels⟩, h.copy.selected,
    ⟨h.copy.consistent.sentAt, h.copy.consistent.readAt⟩⟩, h.read_unsent, h.unsent, h.readAt⟩

theorem Unsent.markAsFailed (h : Unsent row store read n) {reason : String}
    (hn : n.markAsFailed reason now = .ok n') : Unsent row store read n' := by
  unfold Notification.markAsFailed at hn
  rw [h.unsent] at hn
  cases hn
  have hsentAt : n.sentAt.isSome = false := h.copy.consistent.sentAt.trans h.unsent
  exact ⟨⟨⟨h.copy.same.id, h.copy.same.tenantId, h.copy.same.channels⟩, h.copy.selected,
    ⟨hsentAt, h.copy.consistent.readAt⟩⟩, h.read_unsent, rfl, h.readAt⟩

theorem Unsent.markAsSent (h : Unsent row store read n) (hn : n.markAsSent now = .ok n') :
    CopyOf row store n' ∧ n'.isSent = true ∧ n'.readAt = read.readAt := by
  unfold Notification.markAsSent at hn
  rw [h.unsent] at hn
  cases hn
  exact ⟨⟨⟨h.copy.same.id, h.copy.same.tenantId, h.copy.same.channels⟩, h.copy.selected,
    ⟨rfl, h.copy.consistent.readAt⟩⟩, rfl, h.readAt⟩

/-- A copy that has just been read. -/
theorem copyOf_self {id : String} (hrow : Consistent row)
    (hselects : selects store .findFirst id row = true) : CopyOf row store row := by
  refine ⟨Same.refl row, ?_, hrow⟩
  rw [selects_eq store rfl, Bool.and_eq_true] at hselects
  rw [selects_eq store rfl, hselects.2, beq_self_eq_true]
  rfl

theorem read_of_markAsRead {id : String} (hrow : Consistent row)
    (hselects : selects store .findFirst id row = true) (hn : row.markAsRead now = .ok n) :
    Read row store row n := by
  have hcopy := copyOf_self hrow hselects
  unfold Notification.markAsRead at hn
  split_ifs at hn with hchannel hread
  · cases hn
    exact ⟨hcopy, rfl, hread⟩
  · cases hn
    refine ⟨⟨⟨rfl, rfl, rfl⟩, hcopy.selected, ⟨hrow.sentAt, fun _ => ?_⟩⟩, rfl, rfl⟩
    exact (Bool.not_eq_false _).mp hchannel

/-- **Marking all as read** reads what has the channel and is not read. -/
theorem markAll_cases (row : Notification) (store : Option TenantContext) (tenantId recipientId : String)
    (now : ℕ) : markAllInAppAsRead store tenantId recipientId now row = row ∨
      row.channels.contains .inApp = true ∧ markAllInAppAsRead store tenantId recipientId now row =
        { row with readAt := some now, updatedAt := now } := by
  unfold markAllInAppAsRead
  split_ifs with hrow
  · have hkey : "channels" ∉ ["tenantId", "OR", "ownerId"] := by decide
    have hhas := holds_of_allOperations (c := .field "channels" (has .inApp)) rfl hrow (by simp)
      (key_notMem_requestConditions hkey)
    rw [Condition.holds] at hhas
    exact Or.inr ⟨hhas, rfl⟩
  · exact Or.inl rfl

end

/-- What every state has. -/
abbrev Inv : State → Prop := Interleaving.Inv Consistent Holds fun _ _ => True

/-- **What an action leaves**: the row with the same channels, consistent, and what the run holds. -/
theorem holds_of_acts {row row' : Notification} {p p' : Proc} {a : Action} (hrow : Consistent row)
    (hp : Holds row p) (h : Acts row p a row' p') : Same row' row ∧ Consistent row' ∧ Holds row' p' := by
  have hsame : Same row row := Same.refl row
  cases h with
  | leave => exact ⟨hsame, hrow, trivial⟩
  | refuse => exact ⟨hsame, hrow, trivial⟩
  | readToSend hselects hsent => exact ⟨hsame, hrow, copyOf_self hrow hselects, hsent, hsent, rfl⟩
  | attempt => exact ⟨hsame, hrow, Unsent.registerAttempt hp _⟩
  | fail hfail => exact ⟨hsame, hrow, (Unsent.registerAttempt hp _).markAsFailed hfail⟩
  | writeSent hsent =>
    obtain ⟨hcopy, -, -⟩ := Unsent.markAsSent hp hsent
    rw [hcopy.update]
    exact ⟨hcopy.same, hcopy.consistent, trivial⟩
  | writeFailed =>
    have hcopy := Unsent.copy hp
    rw [hcopy.update]
    exact ⟨hcopy.same, hcopy.consistent, trivial⟩
  | readToMark hselects hread => exact ⟨hsame, hrow, read_of_markAsRead hrow hselects hread⟩
  | writeRead =>
    have hcopy := Read.copy hp
    rw [hcopy.update]
    exact ⟨hcopy.same, hcopy.consistent, trivial⟩

theorem holds_of_start {row row' : Notification} {s : Start} {p : Proc} (hrow : Consistent row)
    (h : start row s = some (row', p)) : Same row' row ∧ Consistent row' ∧ Holds row' p := by
  cases s with
  | sendNotification =>
    cases h
    exact ⟨Same.refl row, hrow, trivial⟩
  | markAsRead =>
    cases h
    exact ⟨Same.refl row, hrow, trivial⟩
  | markAllAsRead store tenantId userId now =>
    cases h
    rcases markAll_cases row store tenantId userId now with heq | ⟨hchannel, heq⟩
    · rw [heq]
      exact ⟨Same.refl row, hrow, trivial⟩
    · rw [heq]
      exact ⟨⟨rfl, rfl, rfl⟩, ⟨hrow.sentAt, fun _ => hchannel⟩, trivial⟩

theorem Inv.step {st st' : State} {l : Label} (hi : Inv st) (h : step st l = some st') : Inv st' := by
  refine Interleaving.Inv.step (G := fun _ _ => True) (fun _ _ _ => trivial) ?_ ?_ hi trivial h
  · intro st s row p hi _ hstart
    obtain ⟨hsame, hrow, hp⟩ := holds_of_start hi.world hstart
    exact ⟨hrow, hp, fun q hq => ⟨(hi.procs q hq).later hsame, trivial⟩⟩
  · intro st i a p row p' hi _ hp hact
    obtain ⟨hsame, hrow, hp'⟩ := holds_of_acts hi.world (hi.proc hp) (act_acts hact)
    exact ⟨hrow, hp', fun j q _ hq => ⟨(hi.proc hq).later hsame, trivial⟩⟩

/-! ## Lost updates -/

/-- What is sent stays sent, and what is read stays read. -/
structure Kept (row row' : Notification) : Prop where
  sent : row.isSent = true → row'.isSent = true
  readAt : row.readAt.isSome = true → row'.readAt.isSome = true

theorem Kept.refl (row : Notification) : Kept row row := ⟨id, id⟩

theorem Kept.trans {row₁ row₂ row₃ : Notification} (h : Kept row₁ row₂) (h' : Kept row₂ row₃) :
    Kept row₁ row₃ :=
  ⟨fun hs => h'.sent (h.sent hs), fun hr => h'.readAt (h.readAt hr)⟩

/-- The row has become sent since it was read. -/
def newlySent (row read : Notification) : Bool := row.isSent && !read.isSent

/-- The row has been marked as read since it was read. -/
def newlyRead (row read : Notification) : Bool := row.readAt.isSome && read.readAt.isNone

/-- A run that writes the row back has seen that it is sent and that it is read, if it is, or writes it
itself: a completed delivery makes it sent, and a reader makes it read. -/
def seesNews (row : Notification) : Proc → Bool
  | .sending _ read _ _ => !newlyRead row read
  | .failing _ read _ => !newlySent row read && !newlyRead row read
  | .marking _ read _ => !newlySent row read
  | _ => true

/-- The update of the row. -/
def Action.isWrite : Action → Bool
  | .write _ => true
  | _ => false

/-- The step writes no older news than the row has. -/
def keepsNews (st : State) : Label → Bool
  | .act i a => !a.isWrite || st.procs[i]?.all (seesNews st.world)
  | .start _ => true

section
variable {row row' n read : Notification} {store : Option TenantContext} {p p' : Proc} {a : Action}

theorem kept_sent_iff (h : n.isSent = read.isSent) :
    (row.isSent = true → n.isSent = true) ↔ newlySent row read = false := by
  unfold newlySent
  rw [h]
  cases row.isSent <;> cases read.isSent <;> decide

theorem kept_readAt_iff (h : n.readAt = read.readAt) :
    (row.readAt.isSome = true → n.readAt.isSome = true) ↔ newlyRead row read = false := by
  unfold newlyRead
  rw [h]
  cases row.readAt <;> cases read.readAt <;> simp

/-- **An action loses nothing** exactly when it does not write, or the run has seen the news. -/
theorem kept_of_acts (hp : Holds row p) (h : Acts row p a row' p') :
    Kept row row' ↔ (!a.isWrite || seesNews row p) = true := by
  cases h with
  | leave ha =>
    cases a with
    | write now => exact absurd rfl (ha now)
    | _ => exact iff_of_true (Kept.refl _) rfl
  | refuse hsent =>
    unfold Notification.markAsSent at hsent
    rw [Unsent.unsent hp] at hsent
    cases hsent
  | writeSent hsent =>
    obtain ⟨hcopy, hsent, hread⟩ := Unsent.markAsSent hp hsent
    rw [hcopy.update]
    show _ ↔ (!newlyRead row _) = true
    rw [Bool.not_eq_true', ← kept_readAt_iff hread]
    exact ⟨Kept.readAt, fun h => ⟨fun _ => hsent, h⟩⟩
  | writeFailed =>
    have hsent := (Unsent.unsent hp).trans (Unsent.read_unsent hp).symm
    rw [(Unsent.copy hp).update]
    show _ ↔ (!newlySent row _ && !newlyRead row _) = true
    rw [Bool.and_eq_true, Bool.not_eq_true', Bool.not_eq_true', ← kept_sent_iff hsent,
      ← kept_readAt_iff (Unsent.readAt hp)]
    exact ⟨fun h => ⟨h.sent, h.readAt⟩, fun h => ⟨h.1, h.2⟩⟩
  | writeRead =>
    rw [(Read.copy hp).update]
    show _ ↔ (!newlySent row _) = true
    rw [Bool.not_eq_true', ← kept_sent_iff (Read.sent hp)]
    exact ⟨Kept.sent, fun h => ⟨h, fun _ => Read.readAt hp⟩⟩
  | _ => exact iff_of_true (Kept.refl _) rfl

end

/-- **A step loses nothing** exactly when the run that writes has seen the news or writes it itself. -/
theorem kept_iff {st st' : State} {l : Label} (hi : Inv st) (h : step st l = some st') :
    Kept st.world st'.world ↔ keepsNews st l = true := by
  cases l with
  | start s =>
    obtain ⟨row, p, hstart, rfl⟩ := Interleaving.step_start.mp h
    refine iff_of_true ?_ rfl
    cases s with
    | sendNotification => cases hstart; exact Kept.refl _
    | markAsRead => cases hstart; exact Kept.refl _
    | markAllAsRead store tenantId userId now =>
      cases hstart
      rcases markAll_cases st.world store tenantId userId now with heq | ⟨-, heq⟩
      · rw [heq]
        exact Kept.refl _
      · rw [heq]
        exact ⟨fun hs => hs, fun _ => rfl⟩
  | act i a =>
    obtain ⟨p, row, p', hp, hact, rfl⟩ := Interleaving.step_act.mp h
    rw [keepsNews, hp]
    exact kept_of_acts (hi.proc hp) (act_acts hact)

/-- In every state of the run `sentAt` goes with the status and `readAt` with the channel, and from
every state on what is sent stays sent and what is read stays read. -/
structure NoLostUpdate (st : State) (ls : List Label) : Prop where
  consistent : Machine.AllStates step (fun s => Consistent s.world) st ls
  kept : Machine.AllPairs step (fun s s' => Kept s.world s'.world) st ls

/-- **No update of the notification is lost exactly when** no run writes back a copy without what the
row has got since it was read. -/
theorem no_lost_update_iff {row : Notification} (hrow : Consistent row) {st' : State} {ls : List Label}
    (hr : Machine.run step ⟨row, []⟩ ls = some st') :
    NoLostUpdate ⟨row, []⟩ ls ↔
      Machine.AllSteps step (fun st l => keepsNews st l = true) ⟨row, []⟩ ls := by
  have hinit : Inv ⟨row, []⟩ := Interleaving.Inv.of_nil hrow rfl
  have hpairs : Machine.AllPairs step (fun s s' => Kept s.world s'.world) ⟨row, []⟩ ls ↔ _ :=
    Machine.allPairs_iff_allSteps_of_inv (I := Inv) (J := fun s s' => Kept s.world s'.world)
      (fun _ _ _ hi hs => hi.step hs) (fun s => Kept.refl s.world)
      (fun _ _ _ _ hi hk hg hs => hk.trans ((kept_iff hi hs).mpr hg)) (fun _ _ h => h)
      (fun _ _ _ hi hs hk => (kept_iff hi hs).mp hk) hinit hr
  rw [← hpairs]
  refine ⟨NoLostUpdate.kept, fun h => ⟨?_, h⟩⟩
  intro pre hpre s hs
  exact (Machine.run_inv (fun _ _ _ hi hs => Inv.step hi hs) hinit hs).world

/-- A welcome to `ann`, by email and in the application, that is still to be sent. -/
def welcome : Notification where
  id := "n"
  tenantId := "acme"
  recipientId := "ann"
  recipientEmail := some "ann@acme.io"
  code := .welcome
  channels := [.email, .inApp]
  payload := []
  locale := "es"
  status := .pending
  attempts := 0
  lastError := none
  sentAt := none
  readAt := none
  createdAt := 0
  updatedAt := 0
  tenantId_ne := by decide
  recipientId_ne := by decide
  channels_ne := by decide
  recipientEmail_present := by decide
  locale_ne := by decide

/-- The recipient in their tenant. -/
def recipient : Option TenantContext := some ⟨some "acme", some "ann", false⟩

theorem consistent_welcome : Consistent welcome := ⟨rfl, nofun⟩

/-- The email is refused and sent by the retry, then the notification is read. -/
def retryThenReadRun : List Label :=
  [.start (.sendNotification none "n"), .act 0 (.read 1),
    .act 0 (.channel (.error (.external "Mailbox full")) 2), .act 0 (.write 2),
    .start (.sendNotification none "n"), .act 1 (.read 3), .act 1 (.channel (.ok ()) 4),
    .act 1 (.channel (.ok ()) 4), .act 1 (.write 4),
    .start (.markAsRead recipient "n" "ann"), .act 2 (.read 5), .act 2 (.write 5)]

theorem no_lost_update_iff_retryThenRead : NoLostUpdate ⟨welcome, []⟩ retryThenReadRun := by
  have hrun : (Machine.run step ⟨welcome, []⟩ retryThenReadRun).isSome = true := by decide
  obtain ⟨st, hst⟩ := Option.isSome_iff_exists.mp hrun
  exact (no_lost_update_iff consistent_welcome hst).mpr
    (Machine.allSteps_of_checkSteps (fun _ _ h => h) (by decide))

/-- The recipient reads while the email is on its way. -/
def readWhileSendingRun : List Label :=
  [.start (.sendNotification none "n"), .act 0 (.read 1), .start (.markAsRead recipient "n" "ann"),
    .act 1 (.read 2), .act 0 (.channel (.ok ()) 3), .act 0 (.channel (.ok ()) 3), .act 0 (.write 3),
    .act 1 (.write 4)]

/-- The recipient marks all as read while the email is on its way. -/
def readAllWhileSendingRun : List Label :=
  [.start (.sendNotification none "n"), .act 0 (.read 1), .start (.markAllAsRead recipient "acme" "ann" 2),
    .act 0 (.channel (.ok ()) 3), .act 0 (.channel (.ok ()) 3), .act 0 (.write 3)]

/-- The row that was sent is `PENDING` again, and the one that was read is unread. -/
theorem updates_lost : ¬ NoLostUpdate ⟨welcome, []⟩ readWhileSendingRun ∧
    ¬ NoLostUpdate ⟨welcome, []⟩ readAllWhileSendingRun := by
  have hsent : ((Machine.run step ⟨welcome, []⟩ (readWhileSendingRun.take 7)).any fun st =>
      st.world.isSent && (Machine.run step st (readWhileSendingRun.drop 7)).any fun st' =>
        !st'.world.isSent) = true := by decide
  have hread : ((Machine.run step ⟨welcome, []⟩ (readAllWhileSendingRun.take 3)).any fun st =>
      st.world.readAt.isSome && (Machine.run step st (readAllWhileSendingRun.drop 3)).any fun st' =>
        st'.world.readAt.isNone) = true := by decide
  constructor
  · intro h
    obtain ⟨st, hst, hlost⟩ := (Option.any_eq_true _ _).mp hsent
    obtain ⟨hbefore, hafter⟩ := Bool.and_eq_true_iff.mp hlost
    obtain ⟨st', hst', hnot⟩ := (Option.any_eq_true _ _).mp hafter
    have hkept := (h.kept _ _ List.prefix_rfl st st' hst hst').sent hbefore
    rw [hkept] at hnot
    exact nomatch hnot
  · intro h
    obtain ⟨st, hst, hlost⟩ := (Option.any_eq_true _ _).mp hread
    obtain ⟨hbefore, hafter⟩ := Bool.and_eq_true_iff.mp hlost
    obtain ⟨st', hst', hnot⟩ := (Option.any_eq_true _ _).mp hafter
    have hkept := (h.kept _ _ List.prefix_rfl st st' hst hst').readAt hbefore
    rw [Option.isNone_iff_eq_none.mp hnot] at hkept
    exact nomatch hkept

end Neltrik.Notifications.LostUpdates
