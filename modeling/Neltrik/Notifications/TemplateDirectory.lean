import Neltrik.Lib.Directory
import Neltrik.Notifications.TemplateSystem

/-! # Templates are a directory

In time the table of the templates is the map from codes, channels, locales and tenants to the content of the
template that is active for them (`published`). Every run of the four use cases is a run of that map, whatever
the interleaving (`directory_kept`): content is published where there is none, and replaced and withdrawn where
there is some, by the tenant it is for or by the platform. -/

namespace Neltrik.Notifications.TemplateRuns

open Neltrik.Lib Neltrik.Lib.Machine Neltrik.Lib.Table Neltrik.Lib.Serial Neltrik.Lib.Directory Neltrik.Prisma
open Neltrik.Notifications.Templates Neltrik.Notifications.Templates.PrismaNotificationTemplateRepository
open Neltrik.Notifications.Preferences (Actor)

variable {sanitizeHtml : String → String}

/-- What the unique index is on. -/
abbrev Combination := NotificationCode × NotificationChannel × String × Option String

/-- The combination of a template. -/
def combination (t : NotificationTemplate sanitizeHtml) : Combination := (t.code, t.channel, t.locale, t.tenantId)

/-- `notification_templates_active_unique`. -/
def index (t : NotificationTemplate sanitizeHtml) : Option Combination :=
  if t.isActive then some (combination t) else none

/-- What a mail is made of. -/
def content (t : NotificationTemplate sanitizeHtml) : Option String × String := (t.subject, t.body)

/-- The actor of the tenant may change what is for `tenantId`. -/
def Entitled (db : Authorization.Db) (actorTenantId : String) (tenantId : Option String) : Prop :=
  isPlatformTenant db actorTenantId = .ok true ∨ tenantId = some actorTenantId

/-! ## The copies -/

section Copies
variable {t t' r : NotificationTemplate sanitizeHtml} {s : TemplateStore sanitizeHtml}

theorem edit_apply {edit : TemplateEdit} {now : ℕ} (h : edit.apply t now = .ok t') :
    t'.id = t.id ∧ t'.version = t.version ∧ combination t' = combination t := by
  cases edit with
  | updateContent subject body =>
    simp only [TemplateEdit.apply, NotificationTemplate.updateContent] at h
    split_ifs at h
    cases h
    exact ⟨rfl, rfl, rfl⟩
  | activate =>
    cases h
    unfold NotificationTemplate.activate
    split_ifs <;> exact ⟨rfl, rfl, rfl⟩
  | desactivate =>
    cases h
    unfold NotificationTemplate.desactivate
    split_ifs <;> exact ⟨rfl, rfl, rfl⟩

/-- The rows under their ids, each with the versions that updates give it. -/
def templates : Versioned (NotificationTemplate sanitizeHtml) String (TemplateEdit × ℕ) NotificationError where
  key t := t.id
  ver t := t.version
  apply t op := (op.1.apply t op.2).map NotificationTemplate.bump
  key_apply h := by
    obtain ⟨t', ht', rfl⟩ := Effect.except_map_eq_ok.mp h
    exact (edit_apply ht').1
  ver_apply h := by
    obtain ⟨t', ht', rfl⟩ := Effect.except_map_eq_ok.mp h
    exact Nat.lt_succ_of_le (edit_apply ht').2.1.ge

theorem index_eq_some {k : Combination} : index t = some k ↔ t.isActive = true ∧ combination t = k := by
  unfold index
  split_ifs with h
  · rw [Option.some_inj]
    exact ⟨fun hk => ⟨h, hk⟩, fun hk => hk.2⟩
  · exact ⟨nofun, fun hk => absurd hk.1 h⟩

/-- What the index of the database is for. -/
theorem index_ne_of_not_violates (h : violatesIndex s t = false) (hr : r ∈ s.rows) (hne : r.id ≠ t.id)
    {k : Combination} (ht : index t = some k) : index r ≠ some k := by
  obtain ⟨hactive, rfl⟩ := index_eq_some.mp ht
  intro hk
  obtain ⟨hactive', hcombination⟩ := index_eq_some.mp hk
  have hviolates : violatesIndex s t = true := by
    unfold violatesIndex
    rw [hactive, Bool.true_and, List.any_eq_true]
    refine ⟨r, hr, ?_⟩
    obtain ⟨hcode, hchannel, hlocale, htenant⟩ :
        r.code = t.code ∧ r.channel = t.channel ∧ r.locale = t.locale ∧ r.tenantId = t.tenantId := by
      simpa [combination] using hcombination
    simp [sameCombination, hne, hactive', hcode, hchannel, hlocale, htenant]
  rw [h] at hviolates
  cases hviolates

theorem matching_of_selectsVersion {store : Option TenantContext} (h : selectsVersion store t r = true) :
    OptimisticLock.matching templates.key templates.ver t r = true := by
  have hversion : "version" ∉ ["tenantId", "OR", "ownerId"] := by decide
  have hv := holds_of_allOperations rfl h (List.mem_cons_of_mem _ List.mem_cons_self)
    (key_notMem_requestConditions hversion)
  rw [Condition.holds] at hv
  exact OptimisticLock.matching_iff.mpr ⟨id_of_selectsVersion h, beq_iff_eq.mp hv⟩

end Copies

/-! ## Steps -/

section Writes
variable {s s' : TemplateStore sanitizeHtml} {t : NotificationTemplate sanitizeHtml}

theorem commit_change {g : TemplateStore sanitizeHtml → Except NotificationError (TemplateStore sanitizeHtml)} :
    commit (Effect.change g) s = (g s).toOption := by
  unfold commit Effect.change
  cases g s <;> rfl

theorem commit_create (h : commit (create t) s = some s') : violatesIndex s t = false ∧ s'.rows = t :: s.rows := by
  rw [create, commit_change, Effect.toOption_eq_some] at h
  split_ifs at h with hv
  cases hi : s.insert t with
  | none => rw [hi] at h; cases h
  | some s₁ =>
    rw [hi] at h
    cases h
    exact ⟨Bool.eq_false_of_not_eq_true hv, (KeyedTable.insert_eq_some hi).2⟩

theorem commit_update {store : Option TenantContext} (h : commit (update store t) s = some s') :
    (∃ r ∈ s.rows, selectsVersion store t r = true) ∧ violatesIndex s t = false ∧
      s'.rows = updateWhere (selectsVersion store t) (fun _ => t.bump) s.rows := by
  rw [update, commit_change, Effect.toOption_eq_some] at h
  split_ifs at h with hany hv
  cases h
  rw [Bool.not_eq_false] at hany
  exact ⟨List.any_eq_true.mp hany, Bool.eq_false_of_not_eq_true hv, rfl⟩

end Writes

section Reads
variable {db : Authorization.Db} {t : NotificationTemplate sanitizeHtml} {id actorTenantId : String}

/-- What is found may be changed by the actor. -/
theorem entitled_of_findOwn {store : Option TenantContext} {s : TemplateStore sanitizeHtml}
    (h : (findOwn store db actorTenantId id s).1 = .ok t) : t ∈ s.rows ∧ Entitled db actorTenantId t.tenantId := by
  have hreads : Effect.Reads s (findOwn store db actorTenantId id) fun r =>
      r ∈ s.rows ∧ Entitled db actorTenantId r.tenantId := by
    unfold findOwn
    refine Effect.Triple.bind_read (Effect.Reads.bind (Effect.Reads.lift fun r hr => hr) fun r hr => ?_)
    have hmem : r ∈ s.rows := by
      cases hfind : findById store s id with
      | none => rw [hfind] at hr; cases hr
      | some r' =>
        rw [hfind] at hr
        cases hr
        exact List.mem_of_find?_eq_some hfind
    refine Effect.Reads.bind (Effect.Reads.lift fun b hb => hb) fun b hb => ?_
    refine Effect.Reads.ite (fun _ => ?_) fun hplatform => Effect.Reads.pure ⟨hmem, Or.inl ?_⟩
    · refine Effect.Reads.ite (fun _ => Effect.Reads.throw) fun _ => ?_
      exact Effect.Reads.ite (fun _ => Effect.Reads.throw) fun htenant =>
        Effect.Reads.pure ⟨hmem, Or.inr (not_not.mp htenant)⟩
    · rw [hb, Bool.eq_true_of_not_eq_false hplatform]
  exact hreads.of_ok h

theorem isActive_of_create {p : NotificationTemplateProps} (h : NotificationTemplate.create p = .ok t) :
    t.isActive = true := by
  unfold NotificationTemplate.create NotificationTemplate.ofProps at h
  split_ifs at h
  cases h
  rfl

theorem entitled_of_newTemplate {input : CreateNotificationTemplateInput} {now : ℕ}
    (h : newTemplate db input id now = .ok t) :
    t.isActive = true ∧ Entitled db input.actorTenantId t.tenantId := by
  obtain ⟨isPlatformActor, hplatform, h⟩ := Effect.except_bind_eq_ok.mp h
  split_ifs at h with hforbidden
  refine ⟨isActive_of_create h, ?_⟩
  obtain ⟨-, htenant⟩ := NotificationTemplate.create_ok h
  rw [htenant]
  cases isPlatformActor with
  | true => exact Or.inl hplatform
  | false => exact Or.inr (by simpa using hforbidden)

end Reads

/-- What an action commits. -/
def commitOf (w : World sanitizeHtml) : Proc sanitizeHtml → Action →
    Option (Commit (NotificationTemplate sanitizeHtml) String (TemplateEdit × ℕ))
  | .creating _ template, .create =>
    (commit (create template) w.templates).map fun _ => .create template
  | .editing actor template edit, .update now =>
    (edit.apply template now).toOption.bind fun new =>
      (commit (update actor.context new) w.templates).map fun _ => .edit template.id (edit, now)
  | _, _ => none

/-- What a start does. -/
inductive Starts (db : Authorization.Db) (w : World sanitizeHtml) : Proc sanitizeHtml → Prop
  | create {actorTenantId : String} {t : NotificationTemplate sanitizeHtml} (hactive : t.isActive = true)
      (hentitled : Entitled db actorTenantId t.tenantId) : Starts db w (.creating actorTenantId t)
  | activate {actor : Actor} {t : NotificationTemplate sanitizeHtml} (ht : t ∈ w.templates.rows)
      (hentitled : Entitled db actor.tenantId t.tenantId) : Starts db w (.activating actor t)
  | edit {actor : Actor} {t : NotificationTemplate sanitizeHtml} {edit : TemplateEdit} (ht : t ∈ w.templates.rows)
      (hentitled : Entitled db actor.tenantId t.tenantId) : Starts db w (.editing actor t edit)
  | returned {id : String} : Starts db w (.returned id)

/-- What an action does, and what it commits. -/
inductive Acts (w : World sanitizeHtml) : Proc sanitizeHtml → Action → World sanitizeHtml → Proc sanitizeHtml →
    Option (Commit (NotificationTemplate sanitizeHtml) String (TemplateEdit × ℕ)) → Prop
  | create {actorTenantId : String} {t : NotificationTemplate sanitizeHtml} {s : TemplateStore sanitizeHtml}
      (hnew : t.id ∉ w.ids) (hindex : violatesIndex w.templates t = false) (hrows : s.rows = t :: w.templates.rows) :
      Acts w (.creating actorTenantId t) .create ⟨s, t.id :: w.ids⟩ (.returned t.id) (some (.create t))
  | free {actor : Actor} {t : NotificationTemplate sanitizeHtml} :
      Acts w (.activating actor t) .findCandidates w (.editing actor t .activate) none
  | update {actor : Actor} {t new r : NotificationTemplate sanitizeHtml} {edit : TemplateEdit} {now : ℕ}
      {s : TemplateStore sanitizeHtml} (happly : edit.apply t now = .ok new) (hr : r ∈ w.templates.rows)
      (hsel : selectsVersion actor.context new r = true) (hindex : violatesIndex w.templates new = false)
      (hrows : s.rows = updateWhere (selectsVersion actor.context new) (fun _ => new.bump) w.templates.rows) :
      Acts w (.editing actor t edit) (.update now) ⟨s, w.ids⟩ (.returned t.id) (some (.edit t.id (edit, now)))
  | fails {p : Proc sanitizeHtml} {a : Action} : Acts w p a w .failed none

section Invert
variable {db : Authorization.Db} {w w' : World sanitizeHtml} {p' : Proc sanitizeHtml}

theorem start_starts {s : Start} (h : start db w s = some (w', p')) : w' = w ∧ Starts db w p' := by
  cases s with
  | create input id now =>
    simp only [start] at h
    split at h
    · split_ifs at h
      cases h
      obtain ⟨hactive, hentitled⟩ := entitled_of_newTemplate ‹_›
      exact ⟨rfl, .create hactive hentitled⟩
    · cases h
  | edit actor id edit =>
    simp only [start] at h
    split at h
    · cases h
    · rename_i t ht
      obtain ⟨hmem, hentitled⟩ := entitled_of_findOwn ht
      cases edit with
      | updateContent subject body =>
        cases h
        exact ⟨rfl, .edit hmem hentitled⟩
      | activate =>
        cases h
        split_ifs
        · exact ⟨rfl, .returned⟩
        · exact ⟨rfl, .activate hmem hentitled⟩
      | desactivate =>
        cases h
        split_ifs
        · exact ⟨rfl, .edit hmem hentitled⟩
        · exact ⟨rfl, .returned⟩

theorem act_acts {procs : List (Proc sanitizeHtml)} {p : Proc sanitizeHtml} {a : Action}
    (h : act procs w p a = some (w', p')) : Acts w p a w' p' (commitOf w p a) := by
  cases p with
  | creating actorTenantId t =>
    cases a with
    | create =>
      simp only [act, commitOf] at h ⊢
      split_ifs at h with hnew
      cases hc : commit (create t) w.templates with
      | none =>
        rw [hc] at h
        cases h
        exact .fails
      | some s =>
        rw [hc] at h
        cases h
        obtain ⟨hindex, hrows⟩ := commit_create hc
        exact .create (by simpa using hnew) hindex hrows
    | fail => cases h; exact .fails
    | _ => cases h
  | activating actor t =>
    cases a with
    | findCandidates =>
      simp only [act] at h
      cases h
      split_ifs
      · exact .fails
      · exact .free
    | fail => cases h; exact .fails
    | _ => cases h
  | editing actor t edit =>
    cases a with
    | update now =>
      simp only [act, commitOf] at h ⊢
      cases happly : edit.apply t now with
      | error e =>
        rw [happly] at h
        cases h
        exact .fails
      | ok new =>
        rw [happly] at h
        simp only [Except.toOption, Option.bind_some] at h ⊢
        cases hc : commit (update actor.context new) w.templates with
        | none =>
          rw [hc] at h
          cases h
          exact .fails
        | some s =>
          rw [hc] at h
          cases h
          obtain ⟨⟨r, hr, hsel⟩, hindex, hrows⟩ := commit_update hc
          exact .update happly hr hsel hindex hrows
    | fail => cases h; exact .fails
    | _ => cases h
  | returned | failed => cases a <;> cases h

end Invert

/-! ## The lock and the index -/

/-- The templates that a process has read. -/
def Proc.copies : Proc sanitizeHtml → List (NotificationTemplate sanitizeHtml)
  | .activating _ t | .editing _ t _ => [t]
  | _ => []

/-- What a step commits. -/
def committed (st : State sanitizeHtml) : Label → Option (Commit (NotificationTemplate sanitizeHtml) String (TemplateEdit × ℕ))
  | .start _ => none
  | .act i a => st.procs[i]?.bind fun p => commitOf st.world p a

/-- The copies and the ids are in order. -/
abbrev Tidy (st : State sanitizeHtml) : Prop :=
  Serial.Tidy templates (fun st : State sanitizeHtml => st.world.templates.rows)
    (fun st => st.procs.flatMap Proc.copies) (fun st => st.world.ids) st

section Lock
variable {db : Authorization.Db} {st st' : State sanitizeHtml} {w : World sanitizeHtml}

theorem touches_act {i : ℕ} {p p' : Proc sanitizeHtml} {a : Action}
    {c : Option (Commit (NotificationTemplate sanitizeHtml) String (TemplateEdit × ℕ))}
    (hp : st.procs[i]? = some p) (h : Acts st.world p a w p' c) :
    Touches templates st.world.templates.rows st.world.ids (st.procs.flatMap Proc.copies) w.templates.rows w.ids c := by
  cases h with
  | create hnew _ hrows => exact .create hnew hrows rfl
  | free | fails => exact .silent rfl rfl
  | @update actor t new r edit now s happly hr hsel _ hrows =>
    obtain ⟨hid, hversion, -⟩ := edit_apply happly
    obtain ⟨hk, hv⟩ := OptimisticLock.matching_iff.mp (matching_of_selectsVersion hsel)
    refine .edit (List.mem_flatMap.mpr ⟨_, List.mem_of_getElem? hp, List.mem_cons_self⟩)
      (Effect.except_map_eq_ok.mpr ⟨new, happly, rfl⟩) ⟨r, hr, ?_⟩ (fun hkeyed => ?_) rfl
    · exact OptimisticLock.matching_iff.mpr ⟨hk.trans hid, hv.trans hversion⟩
    · have hwrite : updateWhere (selectsVersion actor.context new) (fun _ => new.bump) st.world.templates.rows =
          OptimisticLock.write templates.key templates.ver st.world.templates.rows new new.bump :=
        updateWhere_eq_write hkeyed (fun _ h => matching_of_selectsVersion h) hr hsel
      exact hrows.trans (hwrite.trans (OptimisticLock.write_congr hid hversion))

theorem locked (db : Authorization.Db) : Locked templates (step db) (fun st : State sanitizeHtml => st.world.templates.rows)
    (fun st => st.procs.flatMap Proc.copies) (fun st => st.world.ids) committed := by
  refine locked_of_processes (fun w : World sanitizeHtml => w.templates.rows) World.ids Proc.copies ?_ ?_
  · intro st s w p hw
    obtain ⟨rfl, hstarts⟩ := start_starts hw
    refine ⟨.silent rfl rfl, fun t ht => ?_⟩
    cases hstarts with
    | create | returned => exact absurd ht List.not_mem_nil
    | activate hmem | edit hmem => exact List.mem_singleton.mp ht ▸ hmem
  · intro st i p a w p' hp ha
    have ha := act_acts ha
    have hcommit : committed st (.act i a) = commitOf st.world p a := by rw [committed, hp, Option.bind_some]
    refine ⟨hcommit ▸ touches_act hp ha, fun t ht => ?_⟩
    generalize commitOf st.world p a = c at ha
    cases ha with
    | free => exact Or.inl ht
    | create | update | fails => exact absurd ht List.not_mem_nil

theorem acts_of_commit {l : Label} {c : Commit (NotificationTemplate sanitizeHtml) String (TemplateEdit × ℕ)}
    (hs : step db st l = some st') (hc : committed st l = some c) :
    ∃ i a p w p', l = .act i a ∧ st.procs[i]? = some p ∧ Acts st.world p a w p' (some c) := by
  cases l with
  | start s => cases hc
  | act i a =>
    obtain ⟨p, w, p', hp, ha, rfl⟩ := Interleaving.step_act.mp hs
    rw [committed, hp, Option.bind_some] at hc
    exact ⟨i, a, p, w, p', rfl, hp, hc ▸ act_acts ha⟩

/-- No row is active beside another of its combination. -/
theorem respects (db : Authorization.Db) : Respects templates (step db)
    (fun st : State sanitizeHtml => st.world.templates.rows) (fun st => st.procs.flatMap Proc.copies)
    (fun st => st.world.ids) index := by
  intro st l st' _ _ hs n hn hfresh r hr hne k hk
  cases l with
  | start s =>
    obtain ⟨w, p, hw, rfl⟩ := Interleaving.step_start.mp hs
    obtain ⟨rfl, -⟩ := start_starts hw
    exact absurd hn hfresh
  | act i a =>
    obtain ⟨p, w, p', hp, ha, rfl⟩ := Interleaving.step_act.mp hs
    have ha := act_acts ha
    generalize commitOf st.world p a = c at ha
    cases ha with
    | free | fails => exact absurd hn hfresh
    | @create actorTenantId t s _ hindex hrows =>
      have hn : n ∈ s.rows := hn
      rw [hrows] at hn
      rcases List.mem_cons.mp hn with rfl | hn
      · exact index_ne_of_not_violates hindex hr hne hk
      · exact absurd hn hfresh
    | @update actor t new r₀ edit now s _ _ _ hindex hrows =>
      have hn : n ∈ s.rows := hn
      rw [hrows] at hn
      rcases mem_updateWhere.mp hn with ⟨-, -, -, rfl⟩ | ⟨hn, -⟩
      · exact index_ne_of_not_violates hindex hr hne hk
      · exact absurd hn hfresh

end Lock

/-! ## Actors -/

/-- The tenant of the actor and the template a process is about. -/
def Proc.subject : Proc sanitizeHtml → Option (String × NotificationTemplate sanitizeHtml)
  | .creating actorTenantId t => some (actorTenantId, t)
  | .activating actor t | .editing actor t _ => some (actor.tenantId, t)
  | .returned _ | .failed => none

/-- A process is about a template that its actor may change, and a new template is active. -/
structure Coherent (db : Authorization.Db) (st : State sanitizeHtml) : Prop where
  tidy : Tidy st
  unique : Unique index st.world.templates.rows
  entitled : ∀ p ∈ st.procs, ∀ x ∈ p.subject, Entitled db x.1 x.2.tenantId
  active : ∀ actorTenantId t, Proc.creating actorTenantId t ∈ st.procs → t.isActive = true

/-! ## What is published -/

/-- The active text of a combination. -/
def published (st : State sanitizeHtml) : Combination → Option (Option String × String) :=
  view index content st.world.templates.rows

/-- A change of the published texts. -/
abbrev Publication := Change Combination (Option String × String)

/-- What a step changes of it. -/
abbrev publication (st : State sanitizeHtml) (l : Label) : Option Publication :=
  change templates (fun st : State sanitizeHtml => st.world.templates.rows) committed index content st l

/-- What an edit is to change. -/
def TemplateEdit.change (t : NotificationTemplate sanitizeHtml) : TemplateEdit → Publication
  | updateContent subject body => ⟨index t, (index t).map fun k => (k, (subject, body))⟩
  | activate => ⟨index t, some (combination t, content t)⟩
  | desactivate => ⟨index t, none⟩

/-- What a process is to change. -/
def Proc.change : Proc sanitizeHtml → Option Publication
  | .creating _ t => some ⟨none, some (combination t, content t)⟩
  | .editing _ t edit => some (edit.change t)
  | _ => none

/-- The request has been answered. -/
def Proc.hasReturned : Proc sanitizeHtml → Bool
  | .returned _ => true
  | _ => false

/-- A process that returns has made its change, and nothing else changes what is published. -/
def Performs (db : Authorization.Db) (st : State sanitizeHtml) (l : Label) : Prop :=
  ∀ (st' : State sanitizeHtml) i a p p', l = .act i a → step db st l = some st' → st.procs[i]? = some p →
    st'.procs[i]? = some p' → publication st l = if p'.hasReturned then p.change else none

/-- A process changes only what its actor may change. -/
def EntitledChange (db : Authorization.Db) (st : State sanitizeHtml) : Prop :=
  ∀ p ∈ st.procs, ∀ c ∈ p.change, ∃ x ∈ p.subject, (∀ k ∈ c.goes, Entitled db x.1 k.2.2.2) ∧
    ∀ e ∈ c.comes, Entitled db x.1 e.1.2.2.2

section Change
variable {t new : NotificationTemplate sanitizeHtml} {edit : TemplateEdit} {now : ℕ}

theorem entry_apply (h : edit.apply t now = .ok new) : entry index content new.bump = (edit.change t).comes := by
  cases edit with
  | updateContent subject body =>
    simp only [TemplateEdit.apply, NotificationTemplate.updateContent] at h
    split_ifs at h
    cases h
    rfl
  | activate =>
    cases h
    unfold NotificationTemplate.activate
    split_ifs with hactive
    · exact (Option.map_eq_some_iff.mpr ⟨combination t, index_eq_some.mpr ⟨hactive, rfl⟩, rfl⟩)
    · rfl
  | desactivate =>
    cases h
    unfold NotificationTemplate.desactivate
    split_ifs with hactive
    · rfl
    · unfold entry index
      rw [NotificationTemplate.bump, if_neg hactive]
      rfl

theorem tenantId_of_index {k : Combination} (h : index t = some k) : k.2.2.2 = t.tenantId := by
  rw [← (index_eq_some.mp h).2]
  rfl

theorem goes_change : (edit.change t).goes = index t := by
  cases edit <;> rfl

/-- The change is under the combination of the template. -/
theorem tenantId_of_change (t : NotificationTemplate sanitizeHtml) (edit : TemplateEdit) : (∀ k ∈ (edit.change t).goes, k.2.2.2 = t.tenantId) ∧
    ∀ e ∈ (edit.change t).comes, e.1.2.2.2 = t.tenantId := by
  refine ⟨fun k hk => tenantId_of_index (goes_change ▸ hk), fun e he => ?_⟩
  cases edit with
  | updateContent subject body =>
    obtain ⟨k, hk, rfl⟩ := Option.map_eq_some_iff.mp he
    exact tenantId_of_index hk
  | activate =>
    cases he
    rfl
  | desactivate => cases he

end Change

section Coherent
variable {db : Authorization.Db} {st st' : State sanitizeHtml} {l : Label}

theorem Coherent.after_step (h : Coherent db st) (hs : step db st l = some st') : Coherent db st' := by
  have htidy := h.tidy.after_step (locked db) hs
  have hunique := unique_step (locked db) (respects db) h.tidy h.unique hs
  cases l with
  | start s =>
    obtain ⟨w, p, hw, rfl⟩ := Interleaving.step_start.mp hs
    obtain ⟨-, hstarts⟩ := start_starts hw
    refine ⟨htidy, hunique, fun q hq x hx => ?_, fun actorTenantId t hq => ?_⟩
    · rcases List.mem_append.mp hq with hq | hq
      · exact h.entitled q hq x hx
      · obtain rfl := List.mem_singleton.mp hq
        cases hstarts with
        | create _ hentitled | activate _ hentitled | edit _ hentitled => cases hx; exact hentitled
        | returned => cases hx
    · rcases List.mem_append.mp hq with hq | hq
      · exact h.active actorTenantId t hq
      · obtain rfl := List.mem_singleton.mp hq
        cases hstarts with
        | create hactive => exact hactive
  | act i a =>
    obtain ⟨p, w, p', hp, ha, rfl⟩ := Interleaving.step_act.mp hs
    have ha := act_acts ha
    generalize commitOf st.world p a = c at ha
    refine ⟨htidy, hunique, fun q hq x hx => ?_, fun actorTenantId t hq => ?_⟩
    · rcases List.mem_or_eq_of_mem_set hq with hq | rfl
      · exact h.entitled q hq x hx
      · cases ha with
        | free => exact h.entitled _ (List.mem_of_getElem? hp) x hx
        | create | update | fails => cases hx
    · rcases List.mem_or_eq_of_mem_set hq with hq | rfl
      · exact h.active actorTenantId t hq
      · cases ha

theorem Coherent.performs (h : Coherent db st) (l : Label) : Performs db st l := by
  rintro st' i a p p' rfl hs hp hp'
  obtain ⟨q, w, q', hq, ha, rfl⟩ := Interleaving.step_act.mp hs
  obtain rfl : q = p := Option.some.inj (hq.symm.trans hp)
  obtain rfl : q' = p' := by
    have hlt := (List.getElem?_eq_some_iff.mp hq).1
    simpa [List.getElem?_set_self hlt] using hp'
  have hcommit : committed st (.act i a) = commitOf st.world q a := by rw [committed, hq, Option.bind_some]
  have ha := act_acts ha
  rw [← hcommit] at ha
  unfold publication Directory.change
  generalize committed st (.act i a) = c at ha
  cases ha with
  | create =>
    have hactive := h.active _ _ (List.mem_of_getElem? hq)
    rw [Option.map_some, after, Option.bind_some, entry, index, if_pos hactive]
    rfl
  | free | fails => rfl
  | @update actor t new r₀ edit now s happly hr₀ hsel =>
    -- the row that is written is the copy
    obtain rfl : r₀ = t := by
      obtain ⟨hid, hversion, -⟩ := edit_apply happly
      obtain ⟨hk, hv⟩ := OptimisticLock.matching_iff.mp (matching_of_selectsVersion hsel)
      refine h.tidy.eq_of_matching (List.mem_flatMap.mpr ⟨_, List.mem_of_getElem? hq, List.mem_cons_self⟩) hr₀ ?_
      exact OptimisticLock.matching_iff.mpr ⟨hk.trans hid, hv.trans hversion⟩
    have hrow : rowOf templates st.world.templates.rows r₀.id = some r₀ := (rowOf_eq_some h.tidy.keyed).mpr ⟨hr₀, rfl⟩
    have happly' : templates.apply r₀ (edit, now) = .ok new.bump := Effect.except_map_eq_ok.mpr ⟨new, happly, rfl⟩
    rw [Option.map_some, before, after, hrow, Option.bind_some, Option.bind_some, happly']
    exact congrArg some (Change.ext goes_change.symm (entry_apply happly))

theorem Coherent.entitledChange (h : Coherent db st) : EntitledChange db st := by
  intro p hp c hc
  cases p with
  | creating actorTenantId t =>
    cases hc
    refine ⟨(actorTenantId, t), rfl, fun k hk => absurd hk (Option.not_mem_none k), fun e he => ?_⟩
    cases he
    exact h.entitled _ hp _ rfl
  | editing actor t edit =>
    cases hc
    obtain ⟨hgoes, hcomes⟩ := tenantId_of_change t edit
    have hentitled := h.entitled _ hp _ rfl
    exact ⟨(actor.tenantId, t), rfl, fun k hk => hgoes k hk ▸ hentitled, fun e he => hcomes e he ▸ hentitled⟩
  | activating | returned | failed => cases hc

end Coherent

/-! ## Senders -/

section Resolve
variable {ports : Ports} {s : Store ports} {store : Option TenantContext}

/-- Outside of any scope the query is for the combination alone. -/
theorem holds_query (hstore : store = none ∨ isPlatformAdmin store = true) (code : NotificationCode)
    (channel : NotificationChannel) (locale : String) (tenantId : Option String)
    (t : NotificationTemplate ports.sanitizeHtml) :
    Where.holds t.row ((allOperations store .notificationTemplate .findFirst
      (some [.field "code" (equals code.value), .field "channel" (equals channel.value),
        .field "locale" (equals locale), .field "isActive" isTrue,
        .field "tenantId" (tenantId.elim isNull equals)])).getD []) =
      decide (index t = some (code, channel, locale, tenantId)) := by
  have hasked : ∀ w : Where Bool, (allOperations store .notificationTemplate .findFirst (some w)).getD [] = w := by
    intro w
    rcases hstore with rfl | hadmin
    · rfl
    · rw [allOperations, if_pos hadmin, Option.getD_some]
  have htenant : tenantId.elim isNull equals (t.tenantId.elim .null .string : Value Bool) = true ↔
      t.tenantId = tenantId := by
    cases tenantId <;> cases t.tenantId <;> simp [isNull, equals]
  have hcode : t.code.value = code.value ↔ t.code = code := by
    cases t.code <;> cases code <;> decide
  rw [hasked, Bool.eq_iff_iff, decide_eq_true_iff, index_eq_some]
  simp only [Where.holds_eq_all, List.all_cons, List.all_nil, Condition.holds, NotificationTemplateProps.row,
    Bool.and_eq_true, htenant]
  simp only [combination, Prod.mk.injEq, equals, isTrue, beq_iff_eq, hcode, NotificationChannel.value_inj, and_true]
  tauto

/-- Outside of any scope, what is sent to the users of a tenant is what is published for the tenant, or else for
all. -/
theorem resolve_published {st : State ports.sanitizeHtml} (hrows : s.templates = st.world.templates.rows)
    (hstore : store = none ∨ isPlatformAdmin store = true) (code : NotificationCode)
    (channel : NotificationChannel) (locale : String) (tenantId : Option String) :
    (findActiveByCombination store s code channel locale tenantId).map content =
      ((truthy tenantId).bind fun t => published st (code, channel, locale, some t)).or
        (published st (code, channel, locale, none)) := by
  have hfind : ∀ tenantId : Option String, (findFirst store .notificationTemplate
      (fun t => NotificationTemplateProps.row t.toNotificationTemplateProps) s.templates
      [.field "code" (equals code.value), .field "channel" (equals channel.value),
        .field "locale" (equals locale), .field "isActive" isTrue,
        .field "tenantId" (tenantId.elim isNull equals)]).map content =
      published st (code, channel, locale, tenantId) := by
    intro tenantId
    unfold findFirst published view
    simp only [holds_query hstore, hrows]
  unfold findActiveByCombination
  dsimp only
  rw [Option.orElse_eq_or, Option.map_or, ← hfind none, Option.map_bind]
  simp only [← hfind (some _)]
  rfl

theorem toOption_execute {code : NotificationCode} {channel : NotificationChannel} {locale : String}
    {tenantId : Option String} : (ResolveNotificationTemplate.execute store code channel locale tenantId s).1.toOption =
      findActiveByCombination store s code channel locale tenantId := by
  unfold ResolveNotificationTemplate.execute
  rw [Effect.read_bind]
  cases findActiveByCombination store s code channel locale tenantId <;> rfl

end Resolve

/-! ## Runs -/

/-- The primary key and the index, and the ids are those that have been generated. -/
structure Consistent (w : World sanitizeHtml) : Prop where
  unique : ∀ t ∈ w.templates.rows, violatesIndex w.templates t = false
  ids : ∀ t ∈ w.templates.rows, t.id ∈ w.ids

theorem Consistent.coherent {st : State sanitizeHtml} (h : Consistent st.world) (hidle : st.procs = [])
    (db : Authorization.Db) : Coherent db st := by
  have hcopies : st.procs.flatMap Proc.copies = [] := by rw [hidle]; rfl
  refine ⟨.of_no_copies st.world.templates.keyed h.ids hcopies, ?_, hidle ▸ List.forall_mem_nil _,
    fun _ _ hp => absurd (hidle ▸ hp) List.not_mem_nil⟩
  intro r hr r' hr' k hk hk'
  by_contra hne
  have hid : r'.id ≠ r.id := fun hid => hne (st.world.templates.keyed.eq_of_key_eq hr hr' hid.symm)
  exact index_ne_of_not_violates (h.unique r hr) hr' hid hk hk'

/-- **The table of the templates is what has been published**, in every interleaving. -/
theorem directory_kept {ports : Ports} {db : Authorization.Db} {st st' : State ports.sanitizeHtml} {ls : List Label}
    (h : Consistent st.world) (hidle : st.procs = []) (hr : run (step db) st ls = some st') :
    (trace (step db) publication st ls).foldlM Change.apply (published st) = .ok (published st') ∧
      AllSteps (step db) (fun s l => Performs db s l ∧ EntitledChange db s) st ls ∧
      ∀ (s : Store ports) (store : Option TenantContext) code channel locale tenantId,
        s.templates = st'.world.templates.rows → store = none ∨ isPlatformAdmin store = true →
        (ResolveNotificationTemplate.execute store code channel locale tenantId s).1.toOption.map content =
          ((truthy tenantId).bind fun t => published st' (code, channel, locale, some t)).or
            (published st' (code, channel, locale, none)) := by
  have hcoherent := h.coherent hidle db
  refine ⟨(run_view (locked db) (respects db) hcoherent.tidy hcoherent.unique hr).1, ?_, ?_⟩
  · exact (allSteps_of_inv (I := Coherent db) (G := fun _ _ => True) (fun _ _ _ h _ hs => h.after_step hs) hcoherent
      (allSteps_of_forall (fun _ _ _ => trivial) st)).mono fun s l h => ⟨h.performs l, h.entitledChange⟩
  · intro s store code channel locale tenantId hrows hstore
    rw [toOption_execute]
    exact resolve_published hrows hstore code channel locale tenantId

/-! ### A race -/

/-- A tenant. -/
def initech : Authorization.Db where
  tenants :=
    (Authorization.Tenant.create ⟨"initech", "Initech", "initech", .customer, .active, 0, 0, 0, none⟩).toOption.toList
  roles := []
  permissions := []
  rolePermissions := []
  roleTenants := []
  invitations := []
  users := []
  accounts := []

/-- Any body is clean. -/
def plainHtml : Ports := ⟨fun html => html, fun _ => .ok (), fun _ => .ok ()⟩

/-- Nothing is published. -/
def noTemplates : State plainHtml.sanitizeHtml := ⟨⟨⟨[], List.nodup_nil⟩, []⟩, []⟩

/-- The creation of a template with the body. -/
def greeting (body : String) : CreateNotificationTemplateInput :=
  ⟨"initech", some "initech", .welcome, .inApp, "es", none, body⟩

/-- An admin of the tenant. -/
def tenantAdmin : Actor := ⟨"admin", "initech", "TENANT_ADMIN"⟩

/-- Two creates that have both found no conflict, and two edits of the version that has been created. -/
def greetingRun : List Label :=
  [.start (.create (greeting "Hola") "a" 0), .start (.create (greeting "Buenas") "b" 1), .act 0 .create, .act 1 .create,
    .start (.edit tenantAdmin "a" (.updateContent none "Hola a todos")), .start (.edit tenantAdmin "a" .desactivate),
    .act 2 (.update 2), .act 3 (.update 3)]

theorem directory_kept_greetingRun : ∃ st', run (step initech) noTemplates greetingRun = some st' ∧
    (trace (step initech) publication noTemplates greetingRun).length = 2 ∧
    published st' (.welcome, .inApp, "es", some "initech") = some (none, "Hola a todos") ∧
    (trace (step initech) publication noTemplates greetingRun).foldlM Change.apply (published noTemplates) =
      .ok (published st') := by
  have hrun : (run (step initech) noTemplates greetingRun).any fun st' =>
      published st' (.welcome, .inApp, "es", some "initech") == some (none, "Hola a todos") := by decide +kernel
  obtain ⟨st', hst', hpublished⟩ := (Option.any_eq_true _ _).mp hrun
  have hconsistent : Consistent noTemplates.world :=
    ⟨fun t ht => absurd ht List.not_mem_nil, fun t ht => absurd ht List.not_mem_nil⟩
  exact ⟨st', hst', by decide +kernel, beq_iff_eq.mp hpublished, (directory_kept hconsistent rfl hst').1⟩

end Neltrik.Notifications.TemplateRuns
