import Neltrik.Notifications.TemplateUseCases

/-! # Templates of other tenants

An administrator of a customer tenant works with the templates of the tenant and reads the global ones.
Two stores that have these rows in common are told apart by nothing an actor of the tenant can call, but
for one thing: the cursor of a list may be the id of any row, and stands for the place of that row.

`isolated_iff`: a call returns the same from both stores, and leaves the rows that are not of the tenant,
exactly when it is no list behind a cursor that has its place before different rows (`SamePlace`). -/

namespace Neltrik.Notifications.TemplateIsolation

open Neltrik.Lib Neltrik.Lib.Effect Neltrik.Lib.Table Neltrik.Lib.Paging Neltrik.Prisma
open Neltrik.Notifications.Templates Neltrik.Notifications.Templates.PrismaNotificationTemplateRepository

variable {sanitizeHtml : String → String} {t : String} {userId : Option String} {db : Authorization.Db}
  {s s' : TemplateStore sanitizeHtml}

/-! ## What a tenant has to do with -/

/-- The rows an actor of the tenant may read. -/
def visible (t : String) (r : NotificationTemplate sanitizeHtml) : Bool :=
  r.tenantId == some t || r.tenantId == none

/-- The rows an actor of the tenant may not write. -/
def others (t : String) (s : TemplateStore sanitizeHtml) : List (NotificationTemplate sanitizeHtml) :=
  s.rows.filter (·.tenantId != some t)

/-- The stores agree on the rows of the tenant and the global ones. -/
def Agree (t : String) (s s' : TemplateStore sanitizeHtml) : Prop :=
  ∀ r, visible t r = true → (r ∈ s.rows ↔ r ∈ s'.rows)

/-- The request of a user of the tenant. -/
def request (t : String) (userId : Option String) : Option TenantContext := some ⟨some t, userId, false⟩

def Customer (db : Authorization.Db) (t : String) : Prop :=
  (Authorization.TenantRepository.get db t).any (·.type == .customer) = true

/-- The id a call makes is the id of no row. -/
def Fresh (s : TemplateStore sanitizeHtml) : Op → Prop
  | .create _ _ _ _ _ _ id _ => ∀ r ∈ s.rows, r.id ≠ id
  | _ => True

/-- The rows a list goes through. -/
def seen (t : String) : Listing (NotificationTemplate sanitizeHtml) String (ℕ ×ₗ String) :=
  { listing none with selects := visible t }

/-- As many of these rows lie at the place of the cursor or behind it in both stores, or at most one. -/
def SamePlace (t : String) (s s' : TemplateStore sanitizeHtml) : Op → Prop
  | .list cursor _ _ => ∀ c, truthy cursor = some c →
      (seen t).remaining s.rows c = (seen t).remaining s'.rows c ∨
        ((seen t).remaining s.rows c ≤ 1 ∧ (seen t).remaining s'.rows c ≤ 1)
  | _ => True

/-- **A call does not tell the stores apart**, and writes rows of the tenant only. -/
structure Isolated (store : Option TenantContext) (db : Authorization.Db) (t : String) (op : Op)
    (s s' : TemplateStore sanitizeHtml) : Prop where
  output : (execute store db t op s).1 = (execute store db t op s').1
  others : others t (execute store db t op s).2 = others t s
  others' : TemplateIsolation.others t (execute store db t op s').2 = TemplateIsolation.others t s'

/-! ## The scope of the request -/

theorem visible_iff {r : NotificationTemplate sanitizeHtml} :
    visible t r = true ↔ r.tenantId = some t ∨ r.tenantId = none := by
  unfold visible
  simp

theorem visible_of_tenant {r : NotificationTemplate sanitizeHtml} (h : r.tenantId = some t) :
    visible t r = true := visible_iff.mpr (Or.inl h)

theorem requestScope_eq (ht : t ≠ "") (r : NotificationTemplate sanitizeHtml) :
    requestScope (request t userId) .notificationTemplate (columns r) = visible t r := by
  have htruthy : truthy (some t) = some t := Option.filter_eq_some_iff.mpr ⟨rfl, by simpa using ht⟩
  show inScope .notificationTemplate (truthy (some t)) (truthy userId) (columns r) = visible t r
  rw [htruthy]
  unfold inScope visible columns
  rcases hr : r.tenantId with _ | t' <;>
    simp [tenantModels, tenantModelsWithGlobal, ownershipModels, equals, isNull]

/-- **What the tenant client adds** to a query that does not speak of the tenant. -/
theorem selects_eq (ht : t ≠ "") {operation : Operation} (hop : isWriteOperation operation = false)
    {w : Where (Bool ⊕ ℕ)} (hw : ∀ c ∈ w, c.key ≠ "OR") (r : NotificationTemplate sanitizeHtml) :
    selects (request t userId) operation (some w) r = (Where.holds (columns r) w && visible t r) := by
  have hkeys : ∀ key ∈ (requestConditions (request t userId) .notificationTemplate :
      Where (Bool ⊕ ℕ)).map Condition.key, key = "OR" := by
    unfold requestConditions resolveScope
    rcases truthy (getCurrentTenant (request t userId)) with _ | t' <;> simp [scopeConditions, tenantModels,
      tenantModelsWithGlobal, ownershipModels, tenantWithGlobalCondition, Condition.key]
  unfold selects
  rw [holds_allOperations hop fun c hc hmem => hw c hc (hkeys _ hmem), requestScope_eq ht]
  rfl

theorem selects_none_eq (ht : t ≠ "") (r : NotificationTemplate sanitizeHtml) :
    selects (request t userId) .findMany none r = visible t r := by
  unfold selects
  rw [allOperations_eq rfl rfl, Option.getD_none, Where.holds_append, holds_requestConditions,
    requestScope_eq ht]
  simp [Where.kept, Where.holds]

theorem isPlatformTenant_eq (hdb : Customer db t) : isPlatformTenant db t = .ok false := by
  obtain ⟨tenant, htenant, htype⟩ := (Option.any_eq_true _ _).mp hdb
  have hrun : Authorization.TenantApi.isPlatformTenant t db = (.ok false, db) := by
    unfold Authorization.TenantApi.isPlatformTenant
    have hget : Authorization.TenantApi.getById t db = (.ok tenant, db) := by
      unfold Authorization.TenantApi.getById
      rw [read_bind, htenant]
      rfl
    rw [bind_of_ok hget, beq_iff_eq.mp htype]
    rfl
  unfold isPlatformTenant
  rw [hrun]

/-! ## What is read -/

/-- `findById` finds the one visible row of the id. -/
theorem findById_eq (ht : t ≠ "") (s : TemplateStore sanitizeHtml) (id : String) :
    findById (request t userId) s id =
      s.rows.find? fun r => r.id == id && visible t r := by
  unfold findById
  congr 1
  funext r
  rw [selects_eq ht rfl (by simp [Condition.key])]
  simp [Where.holds, Condition.holds, columns, equals]

theorem findById_eq_of_agree (ht : t ≠ "") (h : Agree t s s') (id : String) :
    findById (request t userId) s id =
      findById (request t userId) s' id := by
  rw [findById_eq ht, findById_eq ht]
  refine s.keyed.find?_eq (fun r r' hr hr' => ?_) fun r hr => h r ((Bool.and_eq_true _ _).mp hr).2
  have hid : r.id = id := beq_iff_eq.mp ((Bool.and_eq_true _ _).mp hr).1
  have hid' : r'.id = id := beq_iff_eq.mp ((Bool.and_eq_true _ _).mp hr').1
  rw [hid, hid']

/-- The conflicts of a template of the tenant are with templates of the tenant. -/
theorem candidates_any_eq (h : Agree t s s') (code : NotificationCode) (channel : NotificationChannel)
    (locale : String) (excludeId : Option String) (f : NotificationTemplate sanitizeHtml → Bool) :
    (findActiveByCombinationCandidates s code channel locale
        (some t) excludeId).any f =
      (findActiveByCombinationCandidates s' code channel locale
        (some t) excludeId).any f := by
  unfold findActiveByCombinationCandidates
  rw [Bool.eq_iff_iff, List.any_eq_true, List.any_eq_true]
  refine exists_congr fun r => and_congr_left fun _ => ?_
  rw [List.mem_filter, List.mem_filter]
  refine and_congr_left fun hr => h r (visible_of_tenant ?_)
  simp only [Bool.and_eq_true, beq_iff_eq] at hr
  exact hr.1.2

theorem violatesIndex_eq (h : Agree t s s') {template : NotificationTemplate sanitizeHtml}
    (htenant : template.tenantId = some t) : violatesIndex s template = violatesIndex s' template := by
  unfold violatesIndex
  congr 1
  rw [Bool.eq_iff_iff, List.any_eq_true, List.any_eq_true]
  refine exists_congr fun r => and_congr_left fun hr => h r (visible_of_tenant ?_)
  simp only [sameCombination, Bool.and_eq_true, beq_iff_eq] at hr
  rw [hr.2.2, htenant]

/-! ## What is written -/

/-- The stores agree, and the rows that are not of the tenant are those of `o` and of `o'`. -/
structure Apart (t : String) (o o' : List (NotificationTemplate sanitizeHtml))
    (s s' : TemplateStore sanitizeHtml) : Prop where
  agree : Agree t s s'
  others : others t s = o
  others' : TemplateIsolation.others t s' = o'

section
variable {o o' : List (NotificationTemplate sanitizeHtml)} {own template : NotificationTemplate sanitizeHtml}

theorem others_insert {s₁ : TemplateStore sanitizeHtml} (htenant : template.tenantId = some t)
    (h : s.insert template = some s₁) : others t s₁ = others t s := by
  unfold others
  rw [(KeyedTable.insert_eq_some h).2, List.filter_cons_of_neg (by simp [htenant])]

/-- A new template of the tenant. -/
theorem alike_create (h : Apart t o o' s s') (htenant : template.tenantId = some t)
    (hfresh : ∀ r ∈ s.rows, r.id ≠ template.id) (hfresh' : ∀ r ∈ s'.rows, r.id ≠ template.id) :
    Alike (Apart t o o') (create template) s
      (create template) s' := by
  refine Alike.change h ?_
  rw [← violatesIndex_eq h.agree htenant]
  by_cases hindex : violatesIndex s template = true
  · exact Or.inr ⟨.uniqueViolation, if_pos hindex, if_pos hindex⟩
  · obtain ⟨s₁, hs₁⟩ : ∃ s₁, s.insert template = some s₁ := ⟨_, dif_pos hfresh⟩
    obtain ⟨s₁', hs₁'⟩ : ∃ s₁', s'.insert template = some s₁' := ⟨_, dif_pos hfresh'⟩
    refine Or.inl ⟨s₁, s₁', ?_, ?_, ⟨fun r hr => ?_, ?_, ?_⟩⟩
    · rw [if_neg hindex, hs₁]
      rfl
    · rw [if_neg hindex, hs₁']
      rfl
    · rw [(KeyedTable.insert_eq_some hs₁).2, (KeyedTable.insert_eq_some hs₁').2]
      rw [List.mem_cons, List.mem_cons, h.agree r hr]
    · rw [others_insert htenant hs₁, h.others]
    · rw [others_insert htenant hs₁', h.others']

theorem selectsVersion_eq (ht : t ≠ "") (r : NotificationTemplate sanitizeHtml) :
    selectsVersion (request t userId) template r =
      ((r.id == template.id && r.version == template.version) && visible t r) := by
  unfold selectsVersion
  rw [selects_eq ht rfl (by simp [Condition.key])]
  simp [Where.holds, Condition.holds, columns, equals, isVersion]

theorem others_written {store : Option TenantContext} (hown : own ∈ s.rows) (hid : template.id = own.id)
    (htenant : own.tenantId = some t) (htenant' : template.tenantId = some t) :
    others t (written store template s) = others t s := by
  unfold others
  rw [rows_written]
  refine filter_updateWhere fun r hr hselects => ?_
  have hkey : r.id = own.id := by rw [id_of_selectsVersion hselects, hid]
  have hrow : r = own := s.eq_of_key_eq hr hown hkey
  rw [hrow, htenant, NotificationTemplate.bump_tenantId, htenant']
  simp

/-- Writing over a template of the tenant. -/
theorem alike_update (userId : Option String) (ht : t ≠ "") (h : Apart t o o' s s') (hown : own ∈ s.rows)
    (hid : template.id = own.id) (htenant : own.tenantId = some t) (htenant' : template.tenantId = some t) :
    Alike (Apart t o o') (update (request t userId) template) s (update (request t userId) template) s' := by
  have hown' : own ∈ s'.rows := (h.agree own (visible_of_tenant htenant)).mp hown
  have hselected : ∀ r, selectsVersion (request t userId) template r = true →
      (r ∈ s.rows ↔ r ∈ s'.rows) := by
    intro r hr
    rw [selectsVersion_eq ht, Bool.and_eq_true] at hr
    exact h.agree r hr.2
  have hany : s.rows.any (selectsVersion (request t userId) template) =
      s'.rows.any (selectsVersion (request t userId) template) := by
    rw [Bool.eq_iff_iff, List.any_eq_true, List.any_eq_true]
    exact exists_congr fun r => and_congr_left fun hr => hselected r hr
  refine Alike.change h ?_
  rw [← violatesIndex_eq h.agree htenant', ← hany]
  by_cases hnone : s.rows.any (selectsVersion (request t userId) template) = false
  · exact Or.inr ⟨.optimisticLock, if_pos hnone, if_pos hnone⟩
  rw [if_neg hnone, if_neg hnone]
  by_cases hindex : violatesIndex s template = true
  · exact Or.inr ⟨.uniqueViolation, if_pos hindex, if_pos hindex⟩
  rw [if_neg hindex, if_neg hindex]
  refine Or.inl ⟨_, _, rfl, rfl, ⟨fun r hr => ?_, ?_, ?_⟩⟩
  · rw [rows_written, rows_written, mem_updateWhere, mem_updateWhere, h.agree r hr]
    refine or_congr_left (exists_congr fun r₀ => ?_)
    constructor
    · rintro ⟨hr₀, hselects, rfl⟩
      exact ⟨(hselected r₀ hselects).mp hr₀, hselects, rfl⟩
    · rintro ⟨hr₀, hselects, rfl⟩
      exact ⟨(hselected r₀ hselects).mpr hr₀, hselects, rfl⟩
  · rw [others_written hown hid htenant htenant', h.others]
  · rw [others_written hown' hid htenant htenant', h.others']

/-! ## The use cases -/

/-- What `findOwn` returns is a template of the tenant. -/
theorem findOwn_ok (hdb : Customer db t) {id : String} {s₁ : TemplateStore sanitizeHtml}
    (h : findOwn (request t userId) db t id s = (.ok own, s₁)) :
    s₁ = s ∧ own ∈ s.rows ∧ own.tenantId = some t := by
  have hreads : Reads s (findOwn (request t userId) db t id) fun r =>
      r ∈ s.rows ∧ r.tenantId = some t := by
    unfold findOwn
    refine Triple.bind_read (Reads.bind (Reads.lift fun r hr => hr) fun r hr => ?_)
    refine Reads.bind (Reads.lift fun b hb => hb) fun b hb => ?_
    have hfalse : b = false := by
      rw [isPlatformTenant_eq hdb] at hb
      exact (Except.ok.inj hb).symm
    refine Reads.ite (fun _ => ?_) fun hb => absurd hfalse hb
    refine Reads.ite (fun _ => Reads.throw) fun _ => ?_
    refine Reads.ite (fun _ => Reads.throw) fun htenant => Reads.pure ⟨?_, not_not.mp htenant⟩
    rcases hfind : findById (request t userId) s id with _ | r'
    · rw [hfind] at hr
      exact absurd hr nofun
    · rw [hfind] at hr
      rw [← Except.ok.inj hr]
      exact List.mem_of_find?_eq_some hfind
  exact (hreads s rfl).1 own s₁ h

theorem alike_findOwn (userId : Option String) (ht : t ≠ "") (h : Apart t o o' s s') (id : String) :
    Alike (Apart t o o') (findOwn (request t userId) db t id) s (findOwn (request t userId) db t id) s' := by
  unfold findOwn
  refine Alike.bind_read ?_
  rw [← findById_eq_of_agree ht h.agree]
  refine Alike.bind_lift h fun r _ => Alike.bind_lift h fun b _ => ?_
  refine Alike.ite (fun _ => ?_) fun _ => Alike.pure h
  refine Alike.ite (fun _ => Alike.throw h) fun _ => ?_
  exact Alike.ite (fun _ => Alike.throw h) fun _ => Alike.pure h

/-- What is left of a use case when the template has been written. -/
theorem alike_update_id (userId : Option String) (ht : t ≠ "") (h : Apart t o o' s s') (hown : own ∈ s.rows)
    (htenant : own.tenantId = some t) (hkept : template.id = own.id ∧ template.tenantId = own.tenantId) :
    Alike (Apart t o o') (update (request t userId) template >>= fun _ => pure template.id) s
      (update (request t userId) template >>= fun _ => pure template.id) s' := by
  have hupdate := alike_update userId ht h hown hkept.1 htenant (hkept.2.trans htenant)
  exact hupdate.bind fun _ _ _ _ _ h' => Alike.pure h'

theorem alike_updateTemplate (userId : Option String) (ht : t ≠ "") (hdb : Customer db t)
    (h : Apart t o o' s s') (id : String) (subject : Option String) (body : String) (now : ℕ) :
    Alike (Apart t o o') (UpdateNotificationTemplate.execute (request t userId) db t id subject body now) s
      (UpdateNotificationTemplate.execute (request t userId) db t id subject body now) s' := by
  unfold UpdateNotificationTemplate.execute
  refine (alike_findOwn userId ht h id).bind fun own s₁ s₁' hrun _ h' => ?_
  obtain ⟨rfl, hown, htenant⟩ := findOwn_ok hdb hrun
  refine Alike.bind_lift h' fun template htemplate => ?_
  exact alike_update_id userId ht h' hown htenant (NotificationTemplate.updateContent_ok htemplate)

theorem alike_activate (userId : Option String) (ht : t ≠ "") (hdb : Customer db t) (h : Apart t o o' s s')
    (id : String) (now : ℕ) :
    Alike (Apart t o o') (ActivateNotificationTemplate.execute (request t userId) db t id now) s
      (ActivateNotificationTemplate.execute (request t userId) db t id now) s' := by
  unfold ActivateNotificationTemplate.execute
  refine (alike_findOwn userId ht h id).bind fun own s₁ s₁' hrun _ h' => ?_
  obtain ⟨rfl, hown, htenant⟩ := findOwn_ok hdb hrun
  refine Alike.ite (fun _ => Alike.pure h') fun _ => Alike.bind_read ?_
  dsimp only
  rw [htenant, candidates_any_eq h'.agree]
  refine Alike.ite (fun _ => Alike.throw h') fun _ => ?_
  exact alike_update_id userId ht h' hown htenant (own.activate_id now)

theorem alike_desactivate (userId : Option String) (ht : t ≠ "") (hdb : Customer db t)
    (h : Apart t o o' s s') (id : String) (now : ℕ) :
    Alike (Apart t o o') (DesactivateNotificationTemplate.execute (request t userId) db t id now) s
      (DesactivateNotificationTemplate.execute (request t userId) db t id now) s' := by
  unfold DesactivateNotificationTemplate.execute
  refine (alike_findOwn userId ht h id).bind fun own s₁ s₁' hrun _ h' => ?_
  obtain ⟨rfl, hown, htenant⟩ := findOwn_ok hdb hrun
  refine Alike.ite (fun _ => Alike.pure h') fun _ => ?_
  exact alike_update_id userId ht h' hown htenant (own.desactivate_id now)

theorem alike_get (userId : Option String) (db : Authorization.Db) (ht : t ≠ "") (h : Apart t o o' s s')
    (id : String) :
    Alike (Apart t o o') (GetNotificationTemplate.execute (request t userId) db t id) s
      (GetNotificationTemplate.execute (request t userId) db t id) s' := by
  unfold GetNotificationTemplate.execute
  refine Alike.bind_read ?_
  rw [← findById_eq_of_agree ht h.agree]
  refine Alike.bind_lift h fun r _ => Alike.bind_lift h fun b _ => ?_
  exact Alike.ite (fun _ => Alike.throw h) fun _ => Alike.pure h

theorem alike_createTemplate (hdb : Customer db t) (h : Apart t o o' s s')
    (input : CreateNotificationTemplateInput) (hactor : input.actorTenantId = t) (id : String) (now : ℕ)
    (hfresh : ∀ r ∈ s.rows, r.id ≠ id) (hfresh' : ∀ r ∈ s'.rows, r.id ≠ id) :
    Alike (Apart t o o') (CreateNotificationTemplate.execute db input id now) s
      (CreateNotificationTemplate.execute db input id now) s' := by
  unfold CreateNotificationTemplate.execute
  rw [hactor, isPlatformTenant_eq hdb]
  refine Alike.bind_lift h fun b hb => ?_
  rw [← Except.ok.inj hb]
  refine Alike.ite (fun _ => Alike.throw h) fun htarget => ?_
  have htarget : input.targetTenantId = some t := not_not.mp fun hne => htarget ⟨rfl, hne⟩
  refine Alike.bind_lift h fun template htemplate => Alike.bind_read ?_
  obtain ⟨hid, htenant⟩ := NotificationTemplate.create_ok htemplate
  dsimp only
  rw [htarget, candidates_any_eq h.agree]
  refine Alike.ite (fun _ => Alike.throw h) fun _ => ?_
  have hcreate := alike_create h (htenant.trans htarget) (hid ▸ hfresh) (hid ▸ hfresh')
  exact hcreate.bind fun _ _ _ _ _ h' => Alike.pure h'

end

/-! ## Lists -/

theorem keyed_seen (s : TemplateStore sanitizeHtml) : Keyed (seen t).key s.rows := by
  have hmap : ((s.rows.map (seen t).key).map fun k => (ofLex k).2).Nodup := by
    rw [List.map_map]
    exact s.keyed
  exact List.Nodup.of_map _ hmap

/-- A list is a page of the rows the tenant sees. -/
theorem execute_list (ht : t ≠ "") (hdb : Customer db t) (s : TemplateStore sanitizeHtml)
    (cursor : Option String) (limit : ℕ) (limit_pos : 1 ≤ limit) :
    execute (request t userId) db t (.list cursor limit limit_pos) s =
      (.ok (.page (paginate (findMany (seen t) s.rows (withPaginationArgs cursor limit)) limit (seen t).id)),
        s) := by
  have hlisting :
      listing (request t userId) = (seen t : Listing (NotificationTemplate sanitizeHtml) _ _) := by
    unfold listing seen
    congr 1
    funext r
    exact selects_none_eq ht r
  have hrun : ListNotificationTemplates.execute (request t userId) db ⟨t, cursor, limit, limit_pos⟩ s =
      (.ok (paginate (findMany (seen t) s.rows (withPaginationArgs cursor limit)) limit (seen t).id), s) := by
    unfold ListNotificationTemplates.execute findByTenantIncludingGlobal
    rw [isPlatformTenant_eq hdb, hlisting]
    rfl
  show (ListNotificationTemplates.execute (request t userId) db ⟨t, cursor, limit, limit_pos⟩ >>=
    fun p => pure (Output.page p)) s = _
  rw [bind_of_ok hrun]
  rfl

theorem isolated_list_iff (ht : t ≠ "") (hdb : Customer db t) (h : Agree t s s') (cursor : Option String)
    (limit : ℕ) (limit_pos : 1 ≤ limit) :
    Isolated (request t userId) db t (.list cursor limit limit_pos) s s' ↔
      SamePlace t s s' (.list cursor limit limit_pos) := by
  have hpage := paginate_findMany_eq_iff (keyed_seen s) (keyed_seen s') h cursor limit_pos
  constructor
  · rintro ⟨hout, -, -⟩
    rw [execute_list ht hdb, execute_list ht hdb] at hout
    exact hpage.mp (Output.page.inj (Except.ok.inj hout))
  · intro hplace
    refine ⟨?_, ?_, ?_⟩
    · rw [execute_list ht hdb, execute_list ht hdb, hpage.mpr hplace]
    · rw [execute_list ht hdb]
    · rw [execute_list ht hdb]

/-- Behind a row that the tenant sees, or behind no row at all, a list is the same in both stores. -/
theorem samePlace_of_visible (h : Agree t s s') {cursor : Option String} {limit : ℕ} {limit_pos : 1 ≤ limit}
    (hcursor : ∀ r, (r ∈ s.rows ∨ r ∈ s'.rows) → some r.id = cursor → visible t r = true) :
    SamePlace t s s' (.list cursor limit limit_pos) := by
  intro c hc
  have hc : cursor = some c := (Option.filter_eq_some_iff.mp hc).1
  have hsame : ∀ r, (r.id == c) = true → (r ∈ s.rows ↔ r ∈ s'.rows) := by
    intro r hr
    have hid : some r.id = cursor := by rw [hc, beq_iff_eq.mp hr]
    constructor
    · intro hmem
      exact (h r (hcursor r (Or.inl hmem) hid)).mp hmem
    · intro hmem
      exact (h r (hcursor r (Or.inr hmem) hid)).mpr hmem
  have hfind : s.rows.find? ((seen t).id · == c) = s'.rows.find? ((seen t).id · == c) :=
    s.keyed.find?_eq (fun r r' hr hr' => (beq_iff_eq.mp hr).trans (beq_iff_eq.mp hr').symm) hsame
  left
  rcases hrow : s.rows.find? ((seen t).id · == c) with _ | row
  · unfold Listing.remaining
    rw [← hfind, hrow]
  · rw [remaining_eq_countP hrow, remaining_eq_countP (hfind ▸ hrow),
      sorted_eq (keyed_seen s) (keyed_seen s') h]

/-! ## The calls -/

theorem isolated_of_alike {store : Option TenantContext} {op : Op}
    (h : Alike (Apart t (others t s) (others t s')) (execute store db t op) s (execute store db t op) s') :
    Isolated store db t op s s' := ⟨h.result, h.state.others, h.state.others'⟩

/-- **Other tenants do not interfere**, exactly when the call is no list behind a cursor that more than
one visible row of one store follows, and not as many of the other. -/
theorem isolated_iff (ht : t ≠ "") (hdb : Customer db t) (userId : Option String) (op : Op)
    (h : Agree t s s') (hfresh : Fresh s op) (hfresh' : Fresh s' op) :
    Isolated (request t userId) db t op s s' ↔ SamePlace t s s' op := by
  have hapart : Apart t (others t s) (others t s') s s' := ⟨h, rfl, rfl⟩
  rcases op with ⟨target, code, channel, locale, subject, body, id, now⟩ | id |
    ⟨cursor, limit, limit_pos⟩ | ⟨id, subject, body, now⟩ | ⟨id, now⟩ | ⟨id, now⟩
  · have hcreate := alike_createTemplate hdb hapart ⟨t, target, code, channel, locale, subject, body⟩ rfl
      id now hfresh hfresh'
    exact iff_of_true (isolated_of_alike (hcreate.bind fun _ _ _ _ _ h' => Alike.pure h')) trivial
  · have hget := alike_get userId db ht hapart id
    exact iff_of_true (isolated_of_alike (hget.bind fun _ _ _ _ _ h' => Alike.pure h')) trivial
  · exact isolated_list_iff ht hdb h cursor limit limit_pos
  · have hupdate := alike_updateTemplate userId ht hdb hapart id subject body now
    exact iff_of_true (isolated_of_alike (hupdate.bind fun _ _ _ _ _ h' => Alike.pure h')) trivial
  · have hactivate := alike_activate userId ht hdb hapart id now
    exact iff_of_true (isolated_of_alike (hactivate.bind fun _ _ _ _ _ h' => Alike.pure h')) trivial
  · have hdesactivate := alike_desactivate userId ht hdb hapart id now
    exact iff_of_true (isolated_of_alike (hdesactivate.bind fun _ _ _ _ _ h' => Alike.pure h')) trivial

/-! ## A customer with two templates, and a template of another one -/

/-- A template for the greetings of a tenant, which is not active. -/
def greeting (id : String) (tenantId : Option String) (createdAt : ℕ) :
    NotificationTemplate fun html => html where
  id
  tenantId
  code := .welcome
  channel := .inApp
  locale := "pt"
  subject := none
  body := "Oi, {{}name{}}"
  isActive := false
  version := 0
  createdAt
  updatedAt := createdAt
  locale_ok := by decide
  subject_present := nofun
  body_ne := by decide
  html_ok := by decide
  variables_ok := by decide

/-- The templates of `acme`, and one of `initech` that was made at the given instant. -/
def stored (createdAt : ℕ) : TemplateStore fun html => html where
  rows := [greeting "a1" (some "acme") 1, greeting "a2" (some "acme") 3,
    greeting "x" (some "initech") createdAt]
  keyed := by
    show ["a1", "a2", "x"].Nodup
    decide

def acme : Authorization.Db where
  tenants :=
    (Authorization.Tenant.create ⟨"acme", "Acme", "acme", .customer, .active, 0, 0, 0, none⟩).toOption.toList
  roles := []
  permissions := []
  rolePermissions := []
  roleTenants := []
  invitations := []
  users := []
  accounts := []

theorem agree_stored (createdAt createdAt' : ℕ) : Agree "acme" (stored createdAt) (stored createdAt') := by
  intro r hr
  have hx : ∀ n, r ≠ greeting "x" (some "initech") n := by
    rintro n rfl
    simp [visible, greeting] at hr
  show r ∈ [_, _, _] ↔ r ∈ [_, _, _]
  simp [hx]

theorem customer_acme : Customer acme "acme" := by
  show _ = true
  decide

/-- A list behind a template of the tenant, and a new template. -/
theorem isolated_iff_acme :
    Isolated (request "acme" (some "ann")) acme "acme" (.list (some "a2") 1 le_rfl) (stored 2) (stored 5) ∧
    Isolated (request "acme" (some "ann")) acme "acme"
      (.create (some "acme") .welcome .inApp "pt" none "Oi" "a3" 7) (stored 2) (stored 5) := by
  constructor
  · refine (isolated_iff (by decide) customer_acme _ (.list (some "a2") 1 le_rfl) (agree_stored 2 5) trivial
      trivial).mpr ?_
    intro c hc
    rw [show c = "a2" from (Option.some.inj hc).symm]
    exact Or.inl (by decide)
  · have hfresh : ∀ n, Fresh (stored n) (.create (some "acme") .welcome .inApp "pt" none "Oi" "a3" 7) := by
      intro n r hr
      simp only [stored, List.mem_cons, List.not_mem_nil, or_false] at hr
      rcases hr with rfl | rfl | rfl <;> simp [greeting]
    exact (isolated_iff (by decide) customer_acme _ _ (agree_stored 2 5) (hfresh 2) (hfresh 5)).mpr trivial

/-- Behind the template of the other tenant, `acme` is shown its own first template or not, by the time
the other one was made. -/
theorem list_shows_createdAt_of_others :
    Agree "acme" (stored 2) (stored 5) ∧
    ¬ Isolated (request "acme" (some "ann")) acme "acme" (.list (some "x") 1 le_rfl) (stored 2) (stored 5) ∧
    (findMany (seen "acme") (stored 2).rows (withPaginationArgs (some "x") 1)).map (·.id) = [] ∧
    (findMany (seen "acme") (stored 5).rows (withPaginationArgs (some "x") 1)).map (·.id) = ["a1"] := by
  refine ⟨agree_stored 2 5, fun h => ?_, by decide, by decide⟩
  have hplace := (isolated_list_iff (by decide) customer_acme (agree_stored 2 5) (some "x") 1 le_rfl).mp h
  have hx := hplace "x" rfl
  revert hx
  decide

end Neltrik.Notifications.TemplateIsolation
