import Neltrik.Lib.Directory
import Neltrik.Notifications.OptOut
import Neltrik.Notifications.PreferenceSystem

/-! # Preferences are choices

In time the table of the preferences is the map from owners, channels and categories to what the owner has
chosen (`choices`). Every run of the three use cases is a run of that map, whatever the interleaving
(`choices_kept`): a preference is created where there is none, and changed and removed where there is one, by
its owner alone. -/

namespace Neltrik.Notifications.Preferences

open Neltrik.Lib Neltrik.Lib.Machine Neltrik.Lib.Table Neltrik.Lib.Serial Neltrik.Lib.Directory Neltrik.Prisma
open PrismaNotificationPreferenceRepository

/-! ## The copies -/

section Choose
variable (p : NotificationPreference) (enabled : Bool) (now : ℕ)

@[simp] theorem choose_id : (p.choose enabled now).id = p.id := by
  unfold NotificationPreference.choose NotificationPreference.enable NotificationPreference.disable
  split_ifs <;> rfl

@[simp] theorem choose_version : (p.choose enabled now).version = p.version := by
  unfold NotificationPreference.choose NotificationPreference.enable NotificationPreference.disable
  split_ifs <;> rfl

@[simp] theorem preferenceKey_choose : preferenceKey (p.choose enabled now) = preferenceKey p := by
  unfold NotificationPreference.choose NotificationPreference.enable NotificationPreference.disable
  split_ifs <;> rfl

end Choose

theorem create_eq_ok {id tenantId ownerId : String} {channel : NotificationChannel} {category : NotificationCategory}
    {now : ℕ} {p : NotificationPreference}
    (h : NotificationPreference.create id tenantId ownerId channel category now = .ok p) :
    p.id = id ∧ preferenceKey p = (ownerId, channel, category) := by
  unfold NotificationPreference.create at h
  split_ifs at h
  cases h
  exact ⟨rfl, rfl⟩

/-- The rows under their ids, each with the versions that updates give it. -/
def preferences : Versioned NotificationPreference String (Bool × ℕ) Empty where
  key p := p.id
  ver p := p.version
  apply p choice := .ok (p.choose choice.1 choice.2).bump
  key_apply h := by cases h; exact choose_id _ _ _
  ver_apply h := by cases h; exact Nat.lt_succ_of_le (choose_version _ _ _).ge

/-! ## Queries -/

section Queries
variable {store : Option TenantContext} {operation : Operation} {p q : NotificationPreference} {id : String}

theorem id_of_selects (hop : isWriteOperation operation = false)
    (h : selects store operation [.field "id" (equals id)] p = true) : p.id = id := by
  have hkey : "id" ∉ ["tenantId", "OR", "ownerId"] := by decide
  have hid := holds_of_allOperations hop h List.mem_cons_self (key_notMem_requestConditions hkey)
  rw [Condition.holds] at hid
  exact beq_iff_eq.mp hid

theorem matching_of_selectsVersion (h : selectsVersion store p q = true) :
    OptimisticLock.matching preferences.key preferences.ver p q = true := by
  have hid : "id" ∉ ["tenantId", "OR", "ownerId"] := by decide
  have hversion : "version" ∉ ["tenantId", "OR", "ownerId"] := by decide
  have h₁ := holds_of_allOperations rfl h List.mem_cons_self (key_notMem_requestConditions hid)
  have h₂ := holds_of_allOperations rfl h (List.mem_cons_of_mem _ List.mem_cons_self)
    (key_notMem_requestConditions hversion)
  rw [Condition.holds] at h₁ h₂
  exact OptimisticLock.matching_iff.mpr ⟨beq_iff_eq.mp h₁, beq_iff_eq.mp h₂⟩

theorem selectsVersion_choose (enabled : Bool) (now : ℕ) :
    selectsVersion store (p.choose enabled now) = selectsVersion store p := by
  unfold selectsVersion
  rw [choose_id, choose_version]

/-- The scope puts the actor in the place of the owner, who is the actor already. -/
theorem ownerId_of_selects {actor : Actor} {args : Where (Bool ⊕ ℕ)} (hop : isWriteOperation operation = false)
    (h : selects actor.context operation args p = true)
    (hargs : .field "ownerId" (equals actor.userId) ∈ args) : p.ownerId = actor.userId := by
  by_cases hkey : "ownerId" ∈ (requestConditions actor.context .notificationPreference : Where (Bool ⊕ ℕ)).map Condition.key
  · by_cases hadmin : isPlatformAdmin actor.context = true
    · unfold selects at h
      rw [allOperations, if_pos hadmin, Option.getD_some, Where.holds_eq_all, List.all_eq_true] at h
      have howner := h _ hargs
      rw [Condition.holds] at howner
      exact beq_iff_eq.mp howner
    · unfold selects at h
      rw [allOperations_eq ((Bool.not_eq_true _).mp hadmin) hop, Where.holds_append, Bool.and_eq_true] at h
      obtain ⟨c, hc, hck⟩ := List.mem_map.mp hkey
      have hholds := h.2
      rw [Where.holds_eq_all, List.all_eq_true] at hholds
      have hcolumns := hholds c hc
      unfold requestConditions scopeConditions at hc
      rw [List.mem_append, List.mem_append] at hc
      rcases hc with (hc | hc) | hc <;> obtain ⟨u, hu, rfl⟩ := List.mem_map.mp hc
      · exact absurd hck (by simp [tenantCondition, Condition.key])
      · exact absurd hck (by simp [tenantWithGlobalCondition, Condition.key])
      · have hu : truthy (some actor.userId) = some u := Option.mem_toList.mp hu
        rw [holds_ownerCondition] at hcolumns
        exact (beq_iff_eq.mp hcolumns).trans (Option.some.inj (Option.filter_eq_some_iff.mp hu).1).symm
  · have howner := holds_of_allOperations hop h hargs hkey
    rw [Condition.holds] at howner
    exact beq_iff_eq.mp howner

/-- What a create finds is a preference of its actor. -/
theorem preferenceKey_of_existing {w : World} {actor : Actor} {channel : NotificationChannel}
    {category : NotificationCategory} (h : existing w actor channel category = some p) :
    p ∈ w.preferences ∧ preferenceKey p = (actor.userId, channel, category) := by
  have hsel := List.find?_some h
  have howner := ownerId_of_selects rfl hsel List.mem_cons_self
  have hkeys : "channel" ∉ ["tenantId", "OR", "ownerId"] ∧ "category" ∉ ["tenantId", "OR", "ownerId"] := by decide
  have hchannel := holds_of_allOperations rfl hsel (List.mem_cons_of_mem _ List.mem_cons_self)
    (key_notMem_requestConditions hkeys.1)
  have hcategory := holds_of_allOperations rfl hsel
    (List.mem_cons_of_mem _ (List.mem_cons_of_mem _ List.mem_cons_self)) (key_notMem_requestConditions hkeys.2)
  rw [Condition.holds] at hchannel hcategory
  have hchannel := NotificationChannel.value_inj.mp (beq_iff_eq.mp hchannel)
  have hcategory := NotificationCategory.value_inj.mp (beq_iff_eq.mp hcategory)
  refine ⟨List.mem_of_find?_eq_some h, ?_⟩
  rw [preferenceKey, howner, hchannel, hcategory]

end Queries

/-! ## Steps -/

/-- What a start does. -/
inductive Starts (w : World) : Start → Proc → Prop
  | create {actor : Actor} {channel : NotificationChannel} {category : NotificationCategory} :
      Starts w (.create actor channel category) (.creating actor channel category)
  | update {actor : Actor} {p : NotificationPreference} {enabled : Bool} (hp : p ∈ w.preferences)
      (howner : p.ownerId = actor.userId) : Starts w (.update actor p.id enabled) (.updating actor p enabled)
  | delete {actor : Actor} {p : NotificationPreference} (hp : p ∈ w.preferences) (howner : p.ownerId = actor.userId) :
      Starts w (.delete actor p.id) (.deleting actor p)

/-- What an action commits. -/
def commitOf (w : World) : Proc → Action → Option (Commit NotificationPreference String (Bool × ℕ))
  | .creating actor channel category, .create id now =>
    match NotificationPreference.create id actor.tenantId actor.userId channel category now with
    | .ok p => if taken w.preferences p then none else some (.create p)
    | .error _ => none
  | .updating actor p enabled, .update now =>
    if w.preferences.any (selectsVersion actor.context p) then some (.edit p.id (enabled, now)) else none
  | .deleting actor p, .delete =>
    if w.preferences.any (selects actor.context .delete [.field "id" (equals p.id)]) then some (.remove p.id) else none
  | _, _ => none

/-- What an action does, and what it commits. -/
inductive Acts (w : World) :
    Proc → Action → World → Proc → Option (Commit NotificationPreference String (Bool × ℕ)) → Prop
  | create {actor : Actor} {channel : NotificationChannel} {category : NotificationCategory} {now : ℕ}
      {p : NotificationPreference} (hnew : p.id ∉ w.ids) (hkey : preferenceKey p = (actor.userId, channel, category))
      (hfree : ∀ r ∈ w.preferences, preferenceKey r ≠ preferenceKey p) :
      Acts w (.creating actor channel category) (.create p.id now) ⟨p :: w.preferences, p.id :: w.ids⟩
        (.returned p.id) (some (.create p))
  | conflict {actor : Actor} {channel : NotificationChannel} {category : NotificationCategory} {a : Action} :
      Acts w (.creating actor channel category) a w (.conflicting actor channel category) none
  | found {actor : Actor} {channel : NotificationChannel} {category : NotificationCategory} {p : NotificationPreference}
      (hp : p ∈ w.preferences) (hkey : preferenceKey p = (actor.userId, channel, category)) :
      Acts w (.conflicting actor channel category) .findExisting w (.returned p.id) none
  | update {actor : Actor} {p r : NotificationPreference} {enabled : Bool} {now : ℕ} (hr : r ∈ w.preferences)
      (hsel : selectsVersion actor.context p r = true) :
      Acts w (.updating actor p enabled) (.update now)
        { w with
          preferences := updateWhere (selectsVersion actor.context p) (fun _ => (p.choose enabled now).bump)
            w.preferences }
        (.returned p.id) (some (.edit p.id (enabled, now)))
  | delete {actor : Actor} {p r : NotificationPreference} (hr : r ∈ w.preferences)
      (hsel : selects actor.context .delete [.field "id" (equals p.id)] r = true) :
      Acts w (.deleting actor p) .delete
        { w with
          preferences := w.preferences.filter fun r =>
            !selects actor.context .delete [.field "id" (equals p.id)] r }
        (.returned p.id) (some (.remove p.id))
  | fails {p : Proc} {a : Action} : Acts w p a w .failed none

section Invert
variable {w w' : World} {p' : Proc}

theorem findOwn_eq_some {actor : Actor} {id : String} {p : NotificationPreference}
    (h : findOwn w actor id = some p) : p ∈ w.preferences ∧ p.id = id ∧ p.ownerId = actor.userId := by
  obtain ⟨hfind, howner⟩ := Option.filter_eq_some_iff.mp h
  exact ⟨List.mem_of_find?_eq_some hfind, id_of_selects rfl (List.find?_some hfind), beq_iff_eq.mp howner⟩

theorem start_starts {s : Start} (h : start w s = some (w', p')) : w' = w ∧ Starts w s p' := by
  cases s with
  | create actor channel category =>
    simp only [start] at h
    split at h
    · cases h
    · cases h
      exact ⟨rfl, .create⟩
  | update actor preferenceId enabled =>
    obtain ⟨p, hp, he⟩ := Option.map_eq_some_iff.mp h
    cases he
    obtain ⟨hmem, rfl, howner⟩ := findOwn_eq_some hp
    exact ⟨rfl, .update hmem howner⟩
  | delete actor preferenceId =>
    obtain ⟨p, hp, he⟩ := Option.map_eq_some_iff.mp h
    cases he
    obtain ⟨hmem, rfl, howner⟩ := findOwn_eq_some hp
    exact ⟨rfl, .delete hmem howner⟩

theorem act_acts {procs : List Proc} {p : Proc} {a : Action} (h : act procs w p a = some (w', p')) :
    Acts w p a w' p' (commitOf w p a) := by
  cases p with
  | creating actor channel category =>
    cases a with
    | create id now =>
      simp only [act, commitOf] at h ⊢
      split_ifs at h with hnew
      cases hcreate : NotificationPreference.create id actor.tenantId actor.userId channel category now with
      | error e =>
        rw [hcreate] at h
        cases h
        exact .fails
      | ok p =>
        rw [hcreate] at h
        obtain ⟨rfl, hkey⟩ := create_eq_ok hcreate
        dsimp only at h ⊢
        split_ifs at h ⊢ with htaken
        · cases h
          exact .conflict
        · cases h
          refine .create (by simpa using hnew) hkey fun r hr he => htaken ?_
          exact List.any_eq_true.mpr ⟨r, hr, by simp [he]⟩
    | fail => cases h; exact .fails
    | _ => cases h
  | conflicting actor channel category =>
    cases a with
    | findExisting =>
      simp only [act] at h
      split at h
      · cases h
        obtain ⟨hmem, hkey⟩ := preferenceKey_of_existing ‹_›
        exact .found hmem hkey
      · cases h
        exact .fails
    | fail => cases h; exact .fails
    | _ => cases h
  | updating actor p enabled =>
    cases a with
    | update now =>
      simp only [act, commitOf, PrismaNotificationPreferenceRepository.update, selectsVersion_choose] at h ⊢
      split_ifs at h ⊢ with hany
      · cases h
        obtain ⟨r, hr, hsel⟩ := List.any_eq_true.mp hany
        exact .update hr hsel
      · cases h
        exact .fails
    | fail => cases h; exact .fails
    | _ => cases h
  | deleting actor p =>
    cases a with
    | delete =>
      simp only [act, commitOf, PrismaNotificationPreferenceRepository.delete] at h ⊢
      split_ifs at h ⊢ with hany
      · cases h
        obtain ⟨r, hr, hsel⟩ := List.any_eq_true.mp hany
        exact .delete hr hsel
      · cases h
        exact .fails
    | fail => cases h; exact .fails
    | _ => cases h
  | returned | failed => cases a <;> cases h

end Invert

/-! ## The lock and the index -/

/-- The rows a process has read. -/
def Proc.copies : Proc → List NotificationPreference
  | .updating _ p _ | .deleting _ p => [p]
  | _ => []

/-- What a step commits. -/
def commit (st : State) : Label → Option (Commit NotificationPreference String (Bool × ℕ))
  | .start _ => none
  | .act i a => st.procs[i]?.bind fun p => commitOf st.world p a

section Lock
variable {st : State} {w : World}

theorem touches_act {i : ℕ} {p p' : Proc} {a : Action} {c : Option (Commit NotificationPreference String (Bool × ℕ))}
    (hp : st.procs[i]? = some p) (h : Acts st.world p a w p' c) :
    Touches preferences st.world.preferences st.world.ids (st.procs.flatMap Proc.copies) w.preferences w.ids c := by
  have hcopies : ∀ q ∈ p.copies, q ∈ st.procs.flatMap Proc.copies := fun q hq =>
    List.mem_flatMap.mpr ⟨p, List.mem_of_getElem? hp, hq⟩
  cases h with
  | create hnew => exact .create hnew rfl rfl
  | conflict | found | fails => exact .silent rfl rfl
  | update hr hsel =>
    refine .edit (hcopies _ List.mem_cons_self) rfl ⟨_, hr, matching_of_selectsVersion hsel⟩ (fun hkeyed => ?_) rfl
    exact updateWhere_eq_write hkeyed (fun _ h => matching_of_selectsVersion h) hr hsel
  | @delete actor p r hr hsel =>
    have hid : r.id = p.id := id_of_selects rfl hsel
    refine .remove ⟨r, hr, hid⟩ (fun hkeyed => ?_) rfl
    refine List.filter_congr fun q hq => ?_
    by_cases hk : q.id = p.id
    · obtain rfl : q = r := hkeyed.eq_of_key_eq hq hr (hk.trans hid.symm)
      rw [hsel]
      exact (bne_eq_false_iff_eq.mpr hk).symm
    · have hnot : selects actor.context .delete [.field "id" (equals p.id)] q = false := by
        rw [Bool.eq_false_iff]
        exact fun h => hk (id_of_selects rfl h)
      rw [hnot]
      exact (bne_iff_ne.mpr hk).symm

theorem locked : Locked preferences step (fun st => st.world.preferences) (fun st => st.procs.flatMap Proc.copies)
    (fun st => st.world.ids) commit := by
  refine locked_of_processes World.preferences World.ids Proc.copies ?_ ?_
  · intro st s w p hw
    obtain ⟨rfl, hstarts⟩ := start_starts hw
    refine ⟨.silent rfl rfl, fun q hq => ?_⟩
    cases hstarts with
    | create => exact absurd hq List.not_mem_nil
    | update hmem | delete hmem => exact List.mem_singleton.mp hq ▸ hmem
  · intro st i p a w p' hp ha
    have ha := act_acts ha
    have hcommit : commit st (.act i a) = commitOf st.world p a := by rw [commit, hp, Option.bind_some]
    refine ⟨hcommit ▸ touches_act hp ha, fun q hq => ?_⟩
    generalize commitOf st.world p a = c at ha
    cases ha <;> exact absurd hq List.not_mem_nil

end Lock

/-- The unique index. -/
def index (p : NotificationPreference) : Option (String × NotificationChannel × NotificationCategory) :=
  some (preferenceKey p)

/-- The copies and the ids are in order. -/
abbrev Tidy (st : State) : Prop :=
  Serial.Tidy preferences (fun st : State => st.world.preferences) (fun st => st.procs.flatMap Proc.copies)
    (fun st => st.world.ids) st

/-- The user a process acts for. -/
def Proc.userId : Proc → Option String
  | .creating actor _ _ | .conflicting actor _ _ | .updating actor _ _ | .deleting actor _ => some actor.userId
  | .returned _ | .failed => none

/-- The user a step acts for. -/
def actorOf (st : State) : Label → Option String
  | .start _ => none
  | .act i _ => st.procs[i]?.bind Proc.userId

theorem acts_of_commit {st st' : State} {l : Label} {c : Commit NotificationPreference String (Bool × ℕ)}
    (hs : step st l = some st') (hc : commit st l = some c) :
    ∃ i a p w p', l = .act i a ∧ st.procs[i]? = some p ∧ Acts st.world p a w p' (some c) := by
  cases l with
  | start s => cases hc
  | act i a =>
    obtain ⟨p, w, p', hp, ha, rfl⟩ := Interleaving.step_act.mp hs
    rw [commit, hp, Option.bind_some] at hc
    exact ⟨i, a, p, w, p', rfl, hp, hc ▸ act_acts ha⟩

theorem preferenceKey_apply {p q : NotificationPreference} {choice : Bool × ℕ}
    (h : preferences.apply p choice = .ok q) : preferenceKey q = preferenceKey p := by
  cases h
  exact preferenceKey_choose _ _ _

/-- No row comes under the owner, channel and category of another. -/
theorem respects : Respects preferences step (fun st => st.world.preferences)
    (fun st => st.procs.flatMap Proc.copies) (fun st => st.world.ids) index := by
  intro st l st' h hu hs n hn hfresh r hr hne i hi hri
  rcases h.row_after_step locked hs hn with hn | hcreate | ⟨r₀, hr₀, choice, -, happly⟩
  · exact hfresh hn
  · obtain ⟨_, _, _, _, _, -, -, ha⟩ := acts_of_commit hs hcreate
    cases ha with
    | create _ _ hfree => exact hfree r hr (Option.some.inj (hri.trans hi.symm))
  · have hi₀ : index r₀ = some i := by
      rw [← hi, index, index, preferenceKey_apply happly]
    have hkey : preferences.key n = preferences.key r₀ := preferences.key_apply happly
    exact hne (by rw [hkey, hu r hr r₀ hr₀ i hri hi₀])

/-! ## Owners -/

/-- A process holds a preference of its user, and the row that has its id is one of the same owner, channel and
category. -/
structure Coherent (st : State) : Prop where
  tidy : Tidy st
  unique : Unique index st.world.preferences
  own : ∀ p ∈ st.procs, ∀ c ∈ p.copies, p.userId = some c.ownerId
  same : ∀ c ∈ st.procs.flatMap Proc.copies, ∀ r ∈ st.world.preferences, r.id = c.id → preferenceKey r = preferenceKey c

theorem Coherent.after_step {st st' : State} {l : Label} (h : Coherent st) (hs : step st l = some st') : Coherent st' := by
  refine ⟨h.tidy.after_step locked hs, unique_step locked respects h.tidy h.unique hs, ?_, fun c hc r hr hid => ?_⟩
  · cases l with
    | start s =>
      obtain ⟨w, p, hw, rfl⟩ := Interleaving.step_start.mp hs
      obtain ⟨-, hw⟩ := start_starts hw
      intro q hq c hc
      rcases List.mem_append.mp hq with hq | hq
      · exact h.own q hq c hc
      · obtain rfl := List.mem_singleton.mp hq
        cases hw with
        | create => exact absurd hc List.not_mem_nil
        | update _ howner | delete _ howner => rw [List.mem_singleton.mp hc, howner]; rfl
    | act i a =>
      obtain ⟨p, w, p', hp, ha, rfl⟩ := Interleaving.step_act.mp hs
      have ha := act_acts ha
      generalize commitOf st.world p a = e at ha
      intro q hq c hc
      rcases List.mem_or_eq_of_mem_set hq with hq | rfl
      · exact h.own q hq c hc
      · cases ha <;> exact absurd hc List.not_mem_nil
  · have hbefore : c.id ∈ st.world.ids ∧ ∀ r ∈ st.world.preferences, r.id = c.id → preferenceKey r = preferenceKey c := by
      rcases locked.read hs c hc with hc | hc
      · exact ⟨h.tidy.copiesUsed c hc, h.same c hc⟩
      · exact ⟨h.tidy.rowsUsed c hc, fun r hr hid => by rw [h.tidy.keyed.eq_of_key_eq hr hc hid]⟩
    rcases h.tidy.row_after_step locked hs hr with hr | hcreate | ⟨r₀, hr₀, choice, -, happly⟩
    · exact hbefore.2 r hr hid
    · -- the id of a copy is not new
      obtain ⟨_, _, _, _, _, -, -, ha⟩ := acts_of_commit hs hcreate
      cases ha with
      | create hnew => exact absurd (hid ▸ hbefore.1) hnew
    · have hkey : r.id = r₀.id := preferences.key_apply happly
      rw [preferenceKey_apply happly]
      exact hbefore.2 r₀ hr₀ (hkey.symm.trans hid)

/-! ## Choices -/

/-- What the owners have chosen. -/
def choices (st : State) : String × NotificationChannel × NotificationCategory → Option Bool :=
  view index NotificationPreference.isEnabled st.world.preferences

/-- What a step changes of it. -/
abbrev choice (st : State) (l : Label) : Option (Change (String × NotificationChannel × NotificationCategory) Bool) :=
  change preferences (fun st : State => st.world.preferences) commit index NotificationPreference.isEnabled st l

/-- A step changes only what its actor has chosen. -/
def OwnChoice (st : State) (l : Label) : Prop :=
  ∀ st' c, step st l = some st' → choice st l = some c →
    (∀ k ∈ c.goes, actorOf st l = some k.1) ∧ ∀ e ∈ c.comes, actorOf st l = some e.1.1

/-- The process of index `i` is a create for the owner, channel and category. -/
def Creates (st : State) (i : ℕ) (k : String × NotificationChannel × NotificationCategory) : Prop :=
  ∃ actor : Actor, k.1 = actor.userId ∧
    (st.procs[i]? = some (.creating actor k.2.1 k.2.2) ∨ st.procs[i]? = some (.conflicting actor k.2.1 k.2.2))

/-- A create that returns an id has stored its preference, or found that there is one: it has the id. -/
def Answered (st : State) (l : Label) : Prop :=
  ∀ (st' : State) (i : ℕ) k id, step st l = some st' → Creates st i k → st'.procs[i]? = some (.returned id) →
    ∃ p ∈ st'.world.preferences, p.id = id ∧ preferenceKey p = k

theorem Coherent.ownChoice {st : State} (h : Coherent st) (l : Label) : OwnChoice st l := by
  intro st' c hs hc
  obtain ⟨e, he, rfl⟩ := Option.map_eq_some_iff.mp hc
  obtain ⟨i, a, p, w, p', rfl, hp, ha⟩ := acts_of_commit hs he
  have hactor : actorOf st (.act i a) = p.userId := by rw [actorOf, hp, Option.bind_some]
  rw [hactor]
  -- the row with the id of a copy has the owner of the copy
  have hrow : ∀ q ∈ p.copies, ∀ r, rowOf preferences st.world.preferences q.id = some r →
      p.userId = some (preferenceKey r).1 := by
    intro q hq r hr
    obtain ⟨hr, hid⟩ := (rowOf_eq_some h.tidy.keyed).mp hr
    rw [h.own p (List.mem_of_getElem? hp) q hq,
      h.same q (List.mem_flatMap.mpr ⟨p, List.mem_of_getElem? hp, hq⟩) r hr hid]
    rfl
  have hindex : ∀ {o : Option NotificationPreference} {k}, k ∈ o.bind index → ∃ r, o = some r ∧ preferenceKey r = k := by
    intro o k hk
    obtain ⟨r, hr, hk⟩ := Option.bind_eq_some_iff.mp hk
    exact ⟨r, hr, Option.some.inj hk⟩
  cases ha with
  | create _ hkey =>
    refine ⟨fun k hk => absurd hk (Option.not_mem_none k), fun x hx => ?_⟩
    obtain rfl : _ = x := Option.some.inj hx
    exact congrArg some (congrArg Prod.fst hkey).symm
  | update =>
    constructor
    · intro k hk
      obtain ⟨r, hr, rfl⟩ := hindex hk
      exact hrow _ List.mem_cons_self r hr
    · intro x hx
      obtain ⟨q, hq, hx⟩ := Option.bind_eq_some_iff.mp hx
      obtain ⟨r, hr, hq⟩ := Option.bind_eq_some_iff.mp hq
      obtain rfl : _ = x := Option.some.inj hx
      have happly : preferences.apply r _ = .ok q := Effect.toOption_eq_some.mp hq
      rw [hrow _ List.mem_cons_self r hr, preferenceKey_apply happly]
  | delete =>
    refine ⟨fun k hk => ?_, fun x hx => absurd hx (Option.not_mem_none x)⟩
    obtain ⟨r, hr, rfl⟩ := hindex hk
    exact hrow _ List.mem_cons_self r hr

theorem answered (st : State) (l : Label) : Answered st l := by
  rintro st' i ⟨ownerId, channel, category⟩ id hs ⟨actor, rfl, hp⟩ hreturned
  have hlt : i < st.procs.length := by
    rcases hp with hp | hp <;> exact (List.getElem?_eq_some_iff.mp hp).1
  have hother : st'.procs[i]? = st.procs[i]? → False := by
    intro he
    rw [he] at hreturned
    rcases hp with hp | hp <;> rw [hp] at hreturned <;> cases hreturned
  cases l with
  | start s =>
    obtain ⟨w, p, -, rfl⟩ := Interleaving.step_start.mp hs
    exact (hother (List.getElem?_append_left hlt)).elim
  | act j a =>
    obtain ⟨p, w, p', hpj, ha, rfl⟩ := Interleaving.step_act.mp hs
    by_cases hj : j = i
    · subst hj
      obtain rfl : p' = .returned id := by simpa [List.getElem?_set_self hlt] using hreturned
      have ha := act_acts ha
      generalize commitOf st.world p a = c at ha
      rw [hpj] at hp
      rcases hp with hp | hp <;> cases hp <;> cases ha
      · exact ⟨_, List.mem_cons_self, rfl, ‹_›⟩
      · exact ⟨_, ‹_›, rfl, ‹_›⟩
    · exact (hother (List.getElem?_set_ne hj)).elim

/-- Outside of any scope, what the sender of a notification is told is what the owner has chosen. -/
theorem resolve_choices {ports : Ports} {s : Store ports} {st : State} {store : Option TenantContext}
    (hrows : s.preferences.rows = st.world.preferences) (hstore : store = none ∨ isPlatformAdmin store = true)
    (ownerId : String) (channel : NotificationChannel) (category : NotificationCategory) :
    ResolveNotificationPreference.execute store s ownerId channel category =
      (choices st (ownerId, channel, category)).getD true := by
  have hasked : OptOut.asked store ownerId = OptOut.own ownerId := by
    unfold OptOut.asked
    rcases hstore with rfl | hadmin
    · rfl
    · rw [if_pos hadmin]
      rfl
  have hmatching : OptOut.matching (OptOut.own ownerId) channel category =
      fun p => decide (index p = some (ownerId, channel, category)) := by
    funext p
    rw [Bool.eq_iff_iff, decide_eq_true_iff]
    simp [OptOut.matching, OptOut.own, index, preferenceKey, and_assoc]
  have hfind : findByOwnerAndChannelAndCategory store s ownerId channel category =
      st.world.preferences.find? fun p => decide (index p = some (ownerId, channel, category)) := by
    unfold findByOwnerAndChannelAndCategory findFirst
    simp only [OptOut.holds_query, hasked, hmatching, hrows]
  unfold ResolveNotificationPreference.execute choices view
  rw [hfind]
  cases st.world.preferences.find? fun p => decide (index p = some (ownerId, channel, category)) <;> rfl

/-- The primary key and the unique index, and the ids are those that have been generated. -/
structure Consistent (w : World) : Prop where
  keyed : Keyed (fun p : NotificationPreference => p.id) w.preferences
  unique : Keyed preferenceKey w.preferences
  ids : ∀ p ∈ w.preferences, p.id ∈ w.ids

theorem Consistent.coherent {st : State} (h : Consistent st.world) (hidle : st.procs = []) : Coherent st := by
  have hcopies : st.procs.flatMap Proc.copies = [] := by rw [hidle]; rfl
  refine ⟨.of_no_copies h.keyed h.ids hcopies, ?_, hidle ▸ List.forall_mem_nil _, hcopies ▸ List.forall_mem_nil _⟩
  intro r hr r' hr' k hk hk'
  exact h.unique.eq_of_key_eq hr hr' (Option.some.inj (hk.trans hk'.symm))

/-- **The table of the preferences is the map of the choices**, in every interleaving. -/
theorem choices_kept {st st' : State} {ls : List Label} (h : Consistent st.world) (hidle : st.procs = [])
    (hr : run step st ls = some st') :
    (trace step choice st ls).foldlM Change.apply (choices st) = .ok (choices st') ∧
      AllSteps step (fun s l => OwnChoice s l ∧ Answered s l) st ls ∧
      ∀ {ports : Ports} (s : Store ports) (store : Option TenantContext) ownerId channel category,
        s.preferences.rows = st'.world.preferences → store = none ∨ isPlatformAdmin store = true →
        ResolveNotificationPreference.execute store s ownerId channel category =
          (choices st' (ownerId, channel, category)).getD true := by
  have hcoherent := h.coherent hidle
  refine ⟨(run_view locked respects hcoherent.tidy hcoherent.unique hr).1, ?_, ?_⟩
  · exact (allSteps_of_inv (I := Coherent) (G := fun _ _ => True) (fun _ _ _ h _ hs => h.after_step hs) hcoherent
      (allSteps_of_forall (fun _ _ _ => trivial) st)).mono fun s l h => ⟨h.ownChoice l, answered s l⟩
  · exact fun s store ownerId channel category hrows hstore => resolve_choices hrows hstore ownerId channel category

/-! ### A race -/

/-- Nothing has been chosen. -/
def noPreferences : State := ⟨⟨[], []⟩, []⟩

/-- A user of a customer. -/
def customer : Actor := ⟨"u", "t", "CUSTOMER"⟩

/-- Two creates that have both found nothing, an opt-out, and an update that has read the row before it. -/
def optOutRun : List Label :=
  [.start (.create customer .email .marketing), .start (.create customer .email .marketing), .act 0 (.create "p" 0),
    .act 1 (.create "q" 1), .act 1 .findExisting, .start (.update customer "p" false),
    .start (.update customer "p" true), .act 2 (.update 2), .act 3 (.update 3)]

theorem choices_kept_optOutRun : ∃ st', run step noPreferences optOutRun = some st' ∧
    (trace step choice noPreferences optOutRun).length = 2 ∧ choices st' ("u", .email, .marketing) = some false ∧
    (trace step choice noPreferences optOutRun).foldlM Change.apply (choices noPreferences) = .ok (choices st') := by
  have hrun : (run step noPreferences optOutRun).any
      (fun st' => choices st' ("u", .email, .marketing) == some false) = true := by decide +kernel
  obtain ⟨st', hst', hchoice⟩ := (Option.any_eq_true _ _).mp hrun
  have hconsistent : Consistent noPreferences.world := ⟨by decide, by decide, by decide⟩
  exact ⟨st', hst', by decide +kernel, beq_iff_eq.mp hchoice, (choices_kept hconsistent rfl hst').1⟩

end Neltrik.Notifications.Preferences
