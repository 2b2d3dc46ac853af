import Neltrik.Http.Admission

/-! # Who has asked for a suspension

A suspension is committed by a run of `SuspendUser` long after the request that has started it. `Linked` keeps
the request of each such run, so what the request has passed (`Admission`) and what the run has compared
(`Lawful`) come together in `suspensions_by_requests`. -/

namespace Neltrik.Identity

open Neltrik.Authorization

/-- The scope, the actor and the target of a suspension that is under way. -/
def Proc.suspender : Proc → Option (Option String × String × String)
  | .suspending scope actor targetUserId => some (scope, actor.id, targetUserId)
  | .comparing scope actor target | .comparingWith scope actor target _ | .permitted scope actor target =>
    some (scope, actor.id, target.id)
  | _ => none

theorem Acts.suspender {w w' : World} {p p' : Proc} {a : Action} (h : Acts w p a w' p') :
    ∀ x ∈ p'.suspender, x ∈ p.suspender := by
  cases h with
  | findTarget h =>
    obtain ⟨-, rfl, -⟩ := mem_of_get h
    exact fun x hx => hx
  | findActorRole | permit => exact fun x hx => hx
  | record => split_ifs <;> exact nofun
  | _ => exact nofun

theorem Starts.suspender {w w' : World} {s : Start} {p : Proc} (h : Starts w s w' p) :
    ∀ x ∈ p.suspender, s = .suspendUser x.1 x.2.1 x.2.2 := by
  cases h with
  | suspendUser h =>
    obtain ⟨-, rfl, -⟩ := mem_of_get h
    intro x hx
    cases hx
    rfl
  | _ => exact nofun

end Neltrik.Identity

namespace Neltrik.Http

open Neltrik.Lib Neltrik.Lib.Machine Neltrik.Authorization

/-! ## Runs and requests -/

/-- A request that has been served has asked for it. -/
def Requested (procs : List Proc) (x : Option String × String × String) : Prop :=
  ∃ r user, .served r user ∈ procs ∧ r.call = .suspendUser x.2.2 ∧ x.1 = scopeOf (tenantContext user) ∧
    x.2.1 = (user.map (·.userId)).getD ""

/-- Every run of a suspension comes from a request. -/
def Linked (st : System) : Prop :=
  ∀ p ∈ st.world.identity.procs, ∀ x ∈ p.suspender, Requested st.procs x

theorem Requested.mono {procs procs' : List Proc} {x : Option String × String × String} (h : Requested procs x)
    (hserved : ∀ r user, .served r user ∈ procs → .served r user ∈ procs') : Requested procs' x := by
  obtain ⟨r, user, hr, h⟩ := h
  exact ⟨r, user, hserved r user hr, h⟩

theorem proceed_identity {ports : Ports} {w : World} {r : Request} {user : Option Principal} :
    (proceed ports w r user).1.identity = w.identity := by
  rcases proceed_cases ports w r user with ⟨_, -, hp⟩ | ⟨-, hp⟩ | ⟨_, _, -, hp⟩
  · rw [hp]; rfl
  · rw [hp]
  · rw [hp]

/-- The users, tenants and roles are left alone, or the handler of a request starts a run on them. -/
theorem Acts.identity {ports : Ports} {w : World} {p : Proc} {a : Action} {x : World × Proc}
    (h : Acts ports w p a x) : x.1.identity = w.identity ∨ ∃ r user s, x.2 = .served r user ∧
      r.call.start (scopeOf (tenantContext user)) ((user.map (·.userId)).getD "") = some s ∧
      Identity.step w.identity (.start s) = some x.1.identity := by
  cases h with
  | resolve => exact Or.inl proceed_identity
  | @serve r user now =>
    have hhandles := handle_handles ports w r user now
    generalize handle ports w r user now = x at hhandles
    cases hhandles with
    | start hcall hstep => exact Or.inr ⟨r, user, _, rfl, hcall, hstep⟩
    | login | refresh | quiet => exact Or.inl rfl
  | _ => exact Or.inl rfl

theorem Starts.identity {ports : Ports} {w : World} {r : Request} {x : World × Proc} (h : Starts ports w r x) :
    x.1.identity = w.identity := by
  cases h with
  | proceed => exact proceed_identity
  | refuse | resolving => rfl

/-- What has been served stays so. -/
theorem Acts.not_served {ports : Ports} {w : World} {p : Proc} {a : Action} {x : World × Proc}
    (h : Acts ports w p a x) (r : Request) (user : Option Principal) : p ≠ .served r user := by
  rintro rfl
  cases h with
  | refuse hp => cases hp
  | fail hp => cases hp

theorem start_of_call {call : Call} {scope : Option String} {userId : String} {x : Option String × String × String}
    (h : call.start scope userId = some (.suspendUser x.1 x.2.1 x.2.2)) :
    call = .suspendUser x.2.2 ∧ x.1 = scope ∧ x.2.1 = userId := by
  cases call with
  | suspendUser => cases h; exact ⟨rfl, rfl, rfl⟩
  | _ => cases h

theorem Linked.step {ports : Ports} {st st' : System} {l : Label} (h : Linked st) (hs : step ports st l = some st') :
    Linked st' := by
  cases l with
  | http l =>
    cases l with
    | start r =>
      obtain ⟨w, p, hw, rfl⟩ := step_start.mp hs
      intro q hq x hx
      rw [(start_starts hw).identity] at hq
      exact (h q hq x hx).mono fun _ _ hserved => List.mem_append_left _ hserved
    | act i a =>
      obtain ⟨p, w, p', hp, hw, rfl⟩ := step_act.mp hs
      have hacts := act_acts hw
      have hserved : ∀ r user, .served r user ∈ st.procs → .served r user ∈ st.procs.set i p' :=
        fun r user hr => Pool.mem_set_of_ne hp hr (hacts.not_served r user).symm
      intro q hq x hx
      rcases hacts.identity with he | ⟨r, user, s, rfl, hcall, hstep⟩
      · rw [he] at hq
        exact (h q hq x hx).mono hserved
      · obtain ⟨w', p, hstart, he⟩ := Interleaving.step_start.mp hstep
        rw [he] at hq
        rcases List.mem_append.mp hq with hq | hq
        · exact (h q hq x hx).mono hserved
        · -- the run has been started by this request
          obtain rfl := List.mem_singleton.mp hq
          obtain rfl := (Identity.start_starts hstart).suspender x hx
          obtain ⟨hlt, -⟩ := List.getElem?_eq_some_iff.mp hp
          exact ⟨r, user, List.mem_set hlt _, start_of_call hcall⟩
  | background l =>
    obtain ⟨w, hw, rfl⟩ := step_background.mp hs
    intro q hq x hx
    cases l with
    | identity i a =>
      obtain ⟨identity, hstep, rfl⟩ := Option.map_eq_some_iff.mp hw
      obtain ⟨p, w', p', hp, hact, rfl⟩ := Interleaving.step_act.mp hstep
      rcases List.mem_or_eq_of_mem_set hq with hq | rfl
      · exact h q hq x hx
      · exact h p (Pool.mem_of_getElem? hp) x ((Identity.act_acts hact).suspender x hx)
    | write write =>
      obtain ⟨identity, hstep, rfl⟩ := Option.map_eq_some_iff.mp hw
      obtain ⟨w', p, hstart, rfl⟩ := Interleaving.step_start.mp hstep
      rcases List.mem_append.mp hq with hq | hq
      · exact h q hq x hx
      · obtain rfl := List.mem_singleton.mp hq
        cases (Identity.start_starts hstart).suspender x hx
    | session s =>
      simp only [background] at hw
      split_ifs at hw
      obtain ⟨auth, -, rfl⟩ := Option.map_eq_some_iff.mp hw
      exact h q hq x hx
    | sessionAct i a =>
      obtain ⟨auth, -, rfl⟩ := Option.map_eq_some_iff.mp hw
      exact h q hq x hx
    | addAccount account =>
      simp only [background] at hw
      split_ifs at hw
      cases hw
      exact h q hq x hx
    | saveAccount account =>
      simp only [background] at hw
      split_ifs at hw
      cases hw
      exact h q hq x hx
    | removeAccount id =>
      cases hw
      exact h q hq x hx

/-! ## The theorem -/

theorem suspend_route {route : Route} (h : route ∈ routes) (hpath : route.path = "users/:id/suspend") :
    route.has .isPublic = false ∧ route.has .publicPermission = false ∧
      getAllAndOverride permissionsOf route = some ["USER_SUSPEND"] := by
  have hall : ∀ route ∈ routes, (route.path != "users/:id/suspend" || (!route.has .isPublic &&
      !route.has .publicPermission && getAllAndOverride permissionsOf route == some ["USER_SUSPEND"])) = true := by
    decide +kernel
  have hroute := hall route h
  simpa [hpath, and_assoc] using hroute

/-- Outside of a tenant a handler runs for platform admins only. -/
theorem scopeOf_eq_none {user : Principal} (h : scopeOf (tenantContext (some user)) = none)
    (htenant : user.tenantId ≠ "") : user.roleCode = "PLATFORM_ADMIN" := by
  by_contra hrole
  have hadmin : ((some user).any fun u => u.roleCode == "PLATFORM_ADMIN") = false := by simpa using hrole
  simp [scopeOf, tenantContext, hadmin, Prisma.resolveScope, Prisma.tenantModels, Prisma.truthy, htenant] at h

/-- **A suspension goes back to a request** that was admitted: of the actor, who held `USER_SUSPEND` when it was
looked up, whose claim was that of a platform admin, and whose role is above that of the user. -/
theorem suspensions_by_requests {ports : Ports} {st st' : System} {ls : List Label} (h : Sound st.world)
    (hidle : st.procs = []) (hruns : st.world.identity.procs = []) (hr : run (step ports) st ls = some st')
    {l : Identity.Label} {id : String} {now : ℕ}
    (hc : Identity.userCommit st'.world.identity l = some (.edit id (.suspend, now))) :
    ∃ r user actor target, .served r (some user) ∈ st'.procs ∧ r.call = .suspendUser id ∧
      Admission ports (Visited (step ports) st ls) r user ∧
      HadPermission (Visited (step ports) st ls) user.userId "USER_SUSPEND" ∧
      (user.tenantId ≠ "" → user.roleCode = "PLATFORM_ADMIN") ∧
      Identity.Lawful st'.world.identity l id actor target ∧ actor.id = user.userId := by
  have hkept := kept_run h hidle hr
  have hlinked : Linked st' := run_inv (fun _ _ _ h hs => h.step hs) (fun p hp => by rw [hruns] at hp; cases hp) hr
  obtain ⟨actor, target, hlawful⟩ := hkept.world.identity.lawful hc
  obtain ⟨i, t, rfl, hp⟩ := hlawful.run
  obtain ⟨r, user, hserved, hcall, hscope, hactor⟩ := hlinked _ (Pool.mem_of_getElem? hp) _ rfl
  have hadmitted := hkept.procs _ hserved
  have hpath : r.route.path = "users/:id/suspend" := by
    have hdispatched := r.dispatched (.patch, "users/:id/suspend") (by rw [hcall]; rfl)
    exact (congrArg Prod.snd hdispatched).symm
  obtain ⟨hpublic, hpermission, hcodes⟩ := suspend_route r.known hpath
  obtain ⟨-, htarget⟩ := hlawful.stored
  cases user with
  | none => exact absurd hadmitted (by simp [Proc.Held, Admitted, hpublic])
  | some user =>
    obtain ⟨-, hadmission⟩ := hadmitted
    refine ⟨r, user, actor, target, hserved, htarget ▸ hcall, hadmission, ?_, scopeOf_eq_none hscope.symm, hlawful, hactor⟩
    rcases hadmission.permitted with hskip | ⟨codes, hcodes', -, hall⟩
    · rw [hpermission] at hskip; cases hskip
    · rw [hcodes] at hcodes'
      cases hcodes'
      exact hall _ List.mem_cons_self

theorem suspensions_by_requests_suspendRun : ∃ st' r user, run (step officePorts) morning suspendRun = some st' ∧
    .served r (some user) ∈ st'.procs ∧ r.call = .suspendUser "u2" ∧
    HadPermission (Visited (step officePorts) morning suspendRun) user.userId "USER_SUSPEND" := by
  have hrun : (run (step officePorts) morning suspendRun).any (fun st =>
      (Identity.userCommit st.world.identity (.act 0 (.save 9))).any (Identity.isSuspension "u2")) = true := by
    decide +kernel
  obtain ⟨st', hst', hany⟩ := (Option.any_eq_true _ _).mp hrun
  obtain ⟨c, hc, hsuspension⟩ := (Option.any_eq_true _ _).mp hany
  obtain ⟨now, rfl⟩ := Identity.eq_of_isSuspension hsuspension
  obtain ⟨r, user, -, -, hserved, hcall, -, hpermission, -⟩ :=
    suspensions_by_requests morning_sound rfl rfl hst' hc
  exact ⟨st', r, user, hst', hserved, hcall, hpermission⟩

end Neltrik.Http
