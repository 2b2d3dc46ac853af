import Neltrik.Http.Suspensions

/-! # What is refused, and what is left of it

A guard that throws hands its record to the audit and ends the request, so the records of denials are those of
the refused requests whose handlers ask for it (`denials_audited`).

Of the handlers some serve everybody, whatever a request carries, and those of the vacancies nobody
(`reachable_handlers`). -/

namespace Neltrik.Http

open Neltrik.Lib Neltrik.Lib.Machine
open Neltrik.Audit (AuditRecorder.record CreateAuditEvent.execute AuditStatus)
open Neltrik.Shared (AuditRecordInput)

/-! ## Denials -/

/-- The record of a refused request. -/
def Proc.denials : Proc → List AuditRecordInput
  | .refused r refusal => (auditDenied r.route refusal).toList
  | _ => []

/-- The denials of the world and of a request that is new or goes on. -/
def Denies (w : World) (x : World × Proc) : Prop := x.1.denied = x.2.denials ++ w.denied

theorem denies_refuse (w : World) (r : Request) (refusal : Refusal) : Denies w (refuse w r refusal) := rfl

theorem denies_proceed (ports : Ports) (w : World) (r : Request) (user : Option Principal) :
    Denies w (proceed ports w r user) := by
  rcases proceed_cases ports w r user with ⟨_, -, hp⟩ | ⟨-, hp⟩ | ⟨_, _, -, hp⟩
  · rw [hp]; exact denies_refuse w r _
  · rw [hp]; rfl
  · rw [hp]; rfl

theorem Starts.denies {ports : Ports} {w : World} {r : Request} {x : World × Proc} (h : Starts ports w r x) :
    Denies w x := by
  cases h with
  | refuse => exact denies_refuse w r _
  | proceed => exact denies_proceed ports w r none
  | resolving => rfl

theorem Acts.denies {ports : Ports} {w : World} {p : Proc} {a : Action} {x : World × Proc} (h : Acts ports w p a x) :
    Denies w x ∧ p.denials = [] := by
  cases h with
  | refuse hp =>
    refine ⟨denies_refuse w _ _, ?_⟩
    cases p <;> first | rfl | cases hp
  | resolve => exact ⟨denies_proceed ports w _ _, rfl⟩
  | @serve r user now =>
    have hhandles := handle_handles ports w r user now
    generalize handle ports w r user now = x at hhandles
    cases hhandles <;> exact ⟨rfl, rfl⟩
  | fail hp =>
    refine ⟨rfl, ?_⟩
    cases p <;> first | rfl | cases hp
  | _ => exact ⟨rfl, rfl⟩

/-- The records are those from before and those of the refused requests. -/
def Balanced (denied : List AuditRecordInput) (st : System) : Prop :=
  List.Perm st.world.denied (denied ++ st.procs.flatMap Proc.denials)

theorem Balanced.step {ports : Ports} {denied : List AuditRecordInput} {st st' : System} {l : Label}
    (h : Balanced denied st) (hs : step ports st l = some st') : Balanced denied st' := by
  unfold Balanced at h ⊢
  cases l with
  | http l =>
    cases l with
    | start r =>
      obtain ⟨w, p, hw, rfl⟩ := step_start.mp hs
      have hdenies : w.denied = p.denials ++ st.world.denied := (start_starts hw).denies
      rw [hdenies, List.flatMap_append, List.flatMap_singleton, ← List.append_assoc]
      exact List.perm_append_comm.trans (h.append_right _)
    | act i a =>
      obtain ⟨p, w, p', hp, hw, rfl⟩ := step_act.mp hs
      obtain ⟨hdenies, hnone⟩ := (act_acts hw).denies
      have hset : List.Perm ((st.procs.set i p').flatMap Proc.denials ++ p.denials)
          (st.procs.flatMap Proc.denials ++ p'.denials) := Pool.flatMap_set_perm hp Proc.denials
      rw [hnone, List.append_nil] at hset
      have hdenied : w.denied = p'.denials ++ st.world.denied := hdenies
      rw [hdenied]
      calc List.Perm (p'.denials ++ st.world.denied) (st.world.denied ++ p'.denials) := List.perm_append_comm
        List.Perm _ (denied ++ st.procs.flatMap Proc.denials ++ p'.denials) := h.append_right _
        List.Perm _ (denied ++ (st.procs.set i p').flatMap Proc.denials) := by
          rw [List.append_assoc]
          exact hset.symm.append_left _
  | background l =>
    obtain ⟨w, hw, rfl⟩ := step_background.mp hs
    have hdenied : w.denied = st.world.denied := by
      cases l with
      | identity | write | sessionAct =>
        obtain ⟨_, -, rfl⟩ := Option.map_eq_some_iff.mp hw
        rfl
      | session =>
        simp only [background] at hw
        split_ifs at hw
        obtain ⟨_, -, rfl⟩ := Option.map_eq_some_iff.mp hw
        rfl
      | addAccount | saveAccount =>
        simp only [background] at hw
        split_ifs at hw
        cases hw
        rfl
      | removeAccount =>
        cases hw
        rfl
    rw [hdenied]
    exact h

/-- What the handlers ask to be recorded is in the catalogs. -/
theorem audit_of_mem {route : Route} (h : route ∈ routes) {m : Shared.AuditMetadata} (hm : auditOf route.handler = some m) :
    m.action ∈ Audit.auditActions ∧ m.resource ∈ Audit.auditResources := by
  have hall : ∀ route ∈ routes, ((auditOf route.handler).all fun m =>
      Audit.auditActions.contains m.action && Audit.auditResources.contains m.resource) = true := by decide +kernel
  have h := hall route h
  rw [hm] at h
  simpa using h

/-- The record gets through to the stored event. -/
theorem denial_stored {r : Request} {refusal : Refusal} {input : AuditRecordInput}
    (h : auditDenied r.route refusal = some input) (id : String) (now : ℕ) :
    ∃ i event, AuditRecorder.record input = some i ∧ CreateAuditEvent.execute i id now = .ok event ∧
      event.status = .denied ∧ event.metadata = [("errorMessage", refusal.error.message), ("origin", refusal.origin)] := by
  obtain ⟨m, hm, rfl⟩ := Option.map_eq_some_iff.mp h
  obtain ⟨haction, hresource⟩ := audit_of_mem r.known hm
  have hrecord : AuditRecorder.record
      { m with
        resourceId := none, userId := none, userEmail := none, tenantId := none, status := "DENIED"
        metadata := [("errorMessage", refusal.error.message), ("origin", refusal.origin)] } =
      some
        { action := m.action, resource := m.resource, resourceId := none, userId := none, userEmail := none
          tenantId := none, status := AuditStatus.denied
          metadata := [("errorMessage", refusal.error.message), ("origin", refusal.origin)] } := by
    unfold AuditRecorder.record
    rw [if_neg (by simpa using haction), if_neg (by simpa using hresource)]
    rfl
  let i : Audit.CreateAuditEventInput :=
    ⟨none, none, none, m.action, m.resource, none, .denied,
      [("errorMessage", refusal.error.message), ("origin", refusal.origin)]⟩
  have hcatalogs : i.action ∈ Audit.auditActions ∧ i.resource ∈ Audit.auditResources := ⟨haction, hresource⟩
  obtain ⟨event, hevent, hprops⟩ := Audit.exists_execute_eq_ok hcatalogs.1 hcatalogs.2 id now
  exact ⟨_, event, hrecord, hevent, by rw [hprops], by rw [hprops]⟩

/-- **Each refused request leaves one record**, if its handler asks for one, and no other request leaves any; the
record is stored with the guard and its message. -/
theorem denials_audited {ports : Ports} {st st' : System} {ls : List Label} (hidle : st.procs = [])
    (hr : run (step ports) st ls = some st') :
    List.Perm st'.world.denied (st.world.denied ++ st'.procs.flatMap Proc.denials) ∧
    ∀ r refusal, .refused r refusal ∈ st'.procs → ∀ input, auditDenied r.route refusal = some input → ∀ id now,
      ∃ i event, AuditRecorder.record input = some i ∧ CreateAuditEvent.execute i id now = .ok event ∧
        event.status = .denied ∧
        event.metadata = [("errorMessage", refusal.error.message), ("origin", refusal.origin)] := by
  refine ⟨?_, fun r refusal _ input h id now => denial_stored h id now⟩
  have hinit : Balanced st.world.denied st := by
    unfold Balanced
    rw [hidle, List.flatMap_nil, List.append_nil]
  exact run_inv (I := Balanced st.world.denied) (fun _ _ _ h hs => h.step hs) hinit hr

theorem denials_audited_suspendRun : ∃ st', run (step officePorts) morning suspendRun = some st' ∧
    st'.world.denied.length = 1 ∧
    List.Perm st'.world.denied (morning.world.denied ++ st'.procs.flatMap Proc.denials) := by
  have hrun : (run (step officePorts) morning suspendRun).any (fun st => st.world.denied.length == 1) = true := by
    decide +kernel
  obtain ⟨st', hst', hlen⟩ := (Option.any_eq_true _ _).mp hrun
  exact ⟨st', hst', eq_of_beq hlen, (denials_audited rfl hst').1⟩

/-! ## Handlers for everybody and for nobody -/

/-- The handlers that need no login. -/
def publicHandlers : List (Method × String) :=
  [(.post, "auth/accounts"), (.post, "auth/login"), (.post, "auth/refresh"), (.get, "auth/email/verification"),
    (.post, "auth/password/forgot"), (.post, "auth/password/reset"), (.get, "invitations/validate")]

theorem isPublic_iff {route : Route} (h : route ∈ routes) :
    route.has .isPublic = true ↔ (route.method, route.path) ∈ publicHandlers := by
  have hall : ∀ route ∈ routes, route.has .isPublic = decide ((route.method, route.path) ∈ publicHandlers) := by
    decide +kernel
  rw [hall route h, decide_eq_true_iff]

/-- A public handler carries all the other marks as well. -/
theorem public_marks {route : Route} (h : route ∈ routes) (hpublic : route.has .isPublic = true) :
    route.has .skipEmailVerification = true ∧ route.has .skipUserState = true ∧ route.has .skipTenantState = true ∧
      route.has .publicPermission = true := by
  have hall : ∀ route ∈ routes, (!route.has .isPublic || (route.has .skipEmailVerification && route.has .skipUserState &&
      route.has .skipTenantState && route.has .publicPermission)) = true := by decide +kernel
  have hroute := hall route h
  simpa [hpublic, and_assoc] using hroute

theorem start_of_public (ports : Ports) (w : World) {r : Request} (h : r.route.has .isPublic = true) :
    start ports w r = some (w, .admitted r none) := by
  obtain ⟨hemail, huser, htenant, hpermission⟩ := public_marks r.known h
  have hbegin : AuthenticationGuard.begin (verify ports w) r = .ok none := if_pos h
  have hcsrf : CsrfGuard.canActivate ports.hmac ports.frontendUrl r none = .ok () := by
    unfold CsrfGuard.canActivate
    rw [if_pos h, ite_self]
  have hafter : afterAuthentication ports.hmac ports.frontendUrl r none = .ok none := by
    simp [afterAuthentication, guarded, EmailVerifiedGuard.canActivate, UserStateGuard.canActivate,
      TenantStateGuard.canActivate, PermissionsGuard.required, hemail, huser, htenant, hpermission, hcsrf,
      Except.mapError, bind, Except.bind]
  unfold start proceed
  rw [hbegin]
  dsimp only
  rw [hafter]

theorem atsRoutes_marks {route : Route} (h : route ∈ atsRoutes) : route.has .isPublic = false ∧
    route.has .publicPermission = false ∧ getAllAndOverride permissionsOf route = none := by
  have hall : ∀ route ∈ atsRoutes, route.has .isPublic = false ∧ route.has .publicPermission = false ∧
      getAllAndOverride permissionsOf route = none := by decide
  exact hall route h

/-- **What can be reached**: in every run the handlers of the vacancies are never called, and those that are called
without an access token are the public ones; these every request gets to, whatever it carries. -/
theorem reachable_handlers {ports : Ports} {st st' : System} {ls : List Label} (h : Sound st.world)
    (hidle : st.procs = []) (hr : run (step ports) st ls = some st') :
    (∀ r user, Passed st'.procs r user → r.route ∉ atsRoutes ∧
      (r.accessToken = none → (r.route.method, r.route.path) ∈ publicHandlers)) ∧
    ∀ w r, (r.route.method, r.route.path) ∈ publicHandlers → start ports w r = some (w, .admitted r none) := by
  refine ⟨fun r user hpassed => ?_, fun w r hpublic => start_of_public ports w ((isPublic_iff r.known).mpr hpublic)⟩
  have hadmitted := served_requests_admitted h hidle hr r user hpassed
  cases user with
  | none =>
    refine ⟨fun hats => ?_, fun _ => (isPublic_iff r.known).mp hadmitted⟩
    have hpublic : r.route.has .isPublic = true := hadmitted
    rw [(atsRoutes_marks hats).1] at hpublic
    cases hpublic
  | some user =>
    obtain ⟨-, hadmission⟩ := hadmitted
    refine ⟨fun hats => ?_, fun hnone => ?_⟩
    · obtain ⟨-, hpermission, hcodes⟩ := atsRoutes_marks hats
      rcases hadmission.permitted with hskip | ⟨codes, hcodes', -⟩
      · rw [hpermission] at hskip; cases hskip
      · rw [hcodes] at hcodes'; cases hcodes'
    · obtain ⟨_, -, _, t, _, _, _, _, hresolved⟩ := hadmission.authenticated
      have haccess := hresolved.signed.2
      rw [hnone] at haccess
      cases haccess

theorem reachable_handlers_suspendRun : ∃ st', run (step officePorts) morning suspendRun = some st' ∧
    (st'.procs.any (isServed "u1") = true) ∧
    ∀ r user, Passed st'.procs r user → r.route ∉ atsRoutes := by
  have hrun : (run (step officePorts) morning suspendRun).any (fun st => st.procs.any (isServed "u1")) = true := by
    decide +kernel
  obtain ⟨st', hst', hserved⟩ := (Option.any_eq_true _ _).mp hrun
  exact ⟨st', hst', hserved, fun r user hr => ((reachable_handlers morning_sound rfl hst').1 r user hr).1⟩

end Neltrik.Http
