import Neltrik.Authorization.RegistrationSteps

/-! # Registrations that run alone

The use cases of `UseCases` run from their first call to their last; in `Registration` other runs come
between. Here a run without others does the same in both: `register_alone`, `consume_alone` and
`revoke_alone` give the labels under which the system gets to the tables the use case leaves, with the
compensations of the saga where a call throws. -/

namespace Neltrik.Authorization.Registration.Sequential

open Neltrik.Lib Neltrik.Lib.Machine Neltrik.Lib.Effect Neltrik.Shared

variable {s s' : Store} {p p' : Proc} {procs : List Proc}

/-! ## Calls and compensations -/

theorem perform_of_ok {m : UseCase Unit} {db db' : Db} (h : m db = (.ok (), db')) :
    perform m db = some db' := by
  unfold perform
  rw [h]

theorem deleteAccount_of_mem {db : Db} {account : AuthenticationAccount} (h : account ∈ db.accounts) :
    AuthenticationAccountRepository.delete account.id db = (.ok (), withoutAccount db account) := by
  have hany : db.accounts.any (·.id == account.id) = true :=
    List.any_eq_true.mpr ⟨account, h, beq_self_eq_true _⟩
  unfold AuthenticationAccountRepository.delete
  exact change_of_ok (if_pos hany)

theorem deleteUser_of_mem {db : Db} {user : User} (h : user ∈ db.users) :
    UserApi.delete user.id db = (.ok (), withoutUser db user) := by
  have hany : db.users.any (·.id == user.id) = true :=
    List.any_eq_true.mpr ⟨user, h, beq_self_eq_true _⟩
  obtain ⟨u, hu, hid⟩ : ∃ u, UserRepository.get db none user.id = some u ∧ u.id = user.id := by
    have hsome : (UserRepository.get db none user.id).isSome = true :=
      List.find?_isSome.mpr ⟨user, h, by simp [UserRepository.inScope]⟩
    obtain ⟨u, hu⟩ := Option.isSome_iff_exists.mp hsome
    have hselects := List.find?_some hu
    rw [Bool.and_eq_true, beq_iff_eq] at hselects
    exact ⟨u, hu, hselects.1⟩
  have hget : orElse (UserRepository.get db none user.id) .userNotFound db = (.ok u, db) := by
    rw [hu]
    rfl
  have hdelete : UserApi.delete user.id db =
      (orElse (UserRepository.get db none user.id) .userNotFound >>= fun u =>
        UserRepository.delete u.id) db := rfl
  rw [hdelete, bind_of_ok hget, hid]
  unfold UserRepository.delete
  exact change_of_ok (if_pos hany)

/-- The compensation of the first step. -/
theorem compensate_user {db : Db} {user : User} (execute : Register.Step) (id : Option String)
    (h : user ∈ db.users) : SagaOrchestrator.compensateAll
      [⟨execute, some (Register.compensateWith (·.userId) UserApi.delete)⟩] (db, ⟨some user.id, id⟩) =
    (.ok (), withoutUser db user, ⟨some user.id, id⟩) := by
  have hcall : Register.compensateWith (·.userId) UserApi.delete (db, ⟨some user.id, id⟩) =
      (.ok (), withoutUser db user, ⟨some user.id, id⟩) := by
    show Register.call (UserApi.delete user.id) (db, ⟨some user.id, id⟩) = _
    unfold Register.call
    rw [deleteUser_of_mem h]
  exact (bind_of_ok hcall).trans rfl

/-- The compensations of the first two steps. -/
theorem compensate_account {db : Db} {user : User} {account : AuthenticationAccount}
    (execute execute' : Register.Step) (hu : user ∈ db.users) (ha : account ∈ db.accounts) :
    SagaOrchestrator.compensateAll
      [⟨execute', some (Register.compensateWith (·.id) AuthenticationAccountRepository.delete)⟩,
        ⟨execute, some (Register.compensateWith (·.userId) UserApi.delete)⟩]
      (db, ⟨some user.id, some account.id⟩) =
    (.ok (), withoutUser (withoutAccount db account) user, ⟨some user.id, some account.id⟩) := by
  have hcall : Register.compensateWith (·.id) AuthenticationAccountRepository.delete
      (db, ⟨some user.id, some account.id⟩) =
      (.ok (), withoutAccount db account, ⟨some user.id, some account.id⟩) := by
    show Register.call (AuthenticationAccountRepository.delete account.id) (db, _) = _
    unfold Register.call
    rw [deleteAccount_of_mem ha]
  have huser : user ∈ (withoutAccount db account).users := hu
  exact (bind_of_ok hcall).trans (compensate_user execute _ huser)

/-! ## The stages of a registration -/

/-- The run has come to its end. -/
def hasSucceeded : Proc → Bool
  | .registered _ _ _ | .done => true
  | _ => false

/-- Alone, the process gets to the tables `db'`: it has succeeded if `result` is no error, otherwise it
has failed. -/
def Outcome (procs : List Proc) (s : Store) (p : Proc) (result : Except AccessError Unit) (db' : Db) :
    Prop :=
  ∃ p', Interleaving.Leads start act procs s p { s with db := db' } p' ∧
    match result with
    | .ok _ => hasSucceeded p' = true
    | .error _ => p' = .failed

theorem Outcome.cons {a : Action} {result : Except AccessError Unit} {db' : Db}
    (h : act (procs ++ [p]) s p a = some (s', p')) (hc : s'.clock = s.clock)
    (ho : Outcome procs s' p' result db') : Outcome procs s p result db' := by
  obtain ⟨q, hleads, hq⟩ := ho
  rw [hc] at hleads
  exact ⟨q, .cons h hleads, hq⟩

/-- A registration whose user is inserted throws. -/
theorem outcome_throw_user {r : Run} {user : User} {db : Db} {clock : ℕ} (e : AccessError)
    (hu : user ∈ db.users) :
    Outcome procs ⟨db, clock⟩ (.createdUser r user) (.error e) (withoutUser db user) := by
  have hdelete : act (procs ++ [.deletingUser r user]) ⟨db, clock⟩ (.deletingUser r user) .compensate =
      some (⟨withoutUser db user, clock⟩, .failed) := by
    simp only [act, compensate, perform_of_ok (deleteUser_of_mem hu)]
    rfl
  exact ⟨.failed, .cons (a := .fail) rfl (.single hdelete), rfl⟩

/-- A registration whose account is inserted throws. -/
theorem outcome_throw_account {r : Run} {user : User} {account : AuthenticationAccount} {db : Db}
    {clock : ℕ} (e : AccessError) (hu : user ∈ db.users) (ha : account ∈ db.accounts)
    (h : p.thrown = some (.deletingAccount r user account)) :
    Outcome procs ⟨db, clock⟩ p (.error e) (withoutUser (withoutAccount db account) user) := by
  have hthrow : act (procs ++ [p]) ⟨db, clock⟩ p .fail =
      some (⟨db, clock⟩, .deletingAccount r user account) := by
    simp only [act, h, Option.map_some]
  have hdeleteAccount : act (procs ++ [.deletingAccount r user account]) ⟨db, clock⟩
      (.deletingAccount r user account) .compensate =
      some (⟨withoutAccount db account, clock⟩, .deletingUser r user) := by
    simp only [act, compensate, perform_of_ok (deleteAccount_of_mem ha)]
    rfl
  have hmem : user ∈ (withoutAccount db account).users := hu
  have hdeleteUser : act (procs ++ [.deletingUser r user]) ⟨withoutAccount db account, clock⟩
      (.deletingUser r user) .compensate =
      some (⟨withoutUser (withoutAccount db account) user, clock⟩, .failed) := by
    simp only [act, compensate, perform_of_ok (deleteUser_of_mem hmem)]
    rfl
  exact ⟨.failed, .cons hthrow (.cons hdeleteAccount (.single hdeleteUser)), rfl⟩

/-! ### The steps of the saga -/

theorem call_of_run {m : UseCase Unit} {db db' : Db} {context : RegisterSagaContext}
    {result : Except AccessError Unit} (h : m db = (result, db')) :
    Register.call m (db, context) = (result, db', context) := by
  unfold Register.call
  rw [h]

/-- A use case that reads and then writes: it throws before the write or in it, or it has written. -/
theorem readWrite_cases {α : Type} (x : Except AccessError α) {write : α → UseCase Unit} {db : Db}
    (hwrite : ∀ a, (∃ db', write a db = (.ok (), db')) ∨ ∃ e, write a db = (.error e, db)) :
    (∃ e, x = .error e ∧ (Effect.lift x >>= write) db = (.error e, db)) ∨
    (∃ a e, x = .ok a ∧ (Effect.lift x >>= write) db = (.error e, db)) ∨
    ∃ a db', x = .ok a ∧ write a db = (.ok (), db') ∧ (Effect.lift x >>= write) db = (.ok (), db') := by
  cases x with
  | error e => exact Or.inl ⟨e, rfl, rfl⟩
  | ok a =>
    have hrun : (Effect.lift (.ok a) >>= write) db = write a db := bind_of_ok rfl
    obtain ⟨db', hw⟩ | ⟨e, hw⟩ := hwrite a
    · exact Or.inr (Or.inr ⟨a, db', rfl, hw, hrun.trans hw⟩)
    · exact Or.inr (Or.inl ⟨a, e, rfl, hrun.trans hw⟩)

theorem createAccount_eq (registered : Except AccessError (Option String)) (input : RegisterInput)
    (userId accountId : String) (now : ℕ) (s : Db × RegisterSagaContext) :
    Register.createAccount registered input userId accountId now s =
      (Register.call (Effect.lift (registered >>= fun passwordHash =>
          Register.account input accountId userId passwordHash now) >>=
        AuthenticationAccountRepository.create) >>= fun _ =>
          Register.setContext fun context => { context with id := some accountId }) s := by
  cases registered with
  | error e => rfl
  | ok passwordHash =>
    show (Effect.lift (Register.account input accountId userId passwordHash now) >>= _) s =
      (Register.call (Effect.lift (Register.account input accountId userId passwordHash now) >>= _) >>= _) s
    cases Register.account input accountId userId passwordHash now <;> rfl

/-- The steps that are left once the user, and once the account too, is inserted. -/
def lastSteps (registered : Except AccessError (Option String)) (r : Run) (userId accountId : String)
    (execute : Register.Step) : Register.Step :=
  SagaOrchestrator.executeFrom [⟨execute, some (Register.compensateWith (·.userId) UserApi.delete)⟩]
    [⟨Register.createAccount registered r.input userId accountId r.now,
        some (Register.compensateWith (·.id) AuthenticationAccountRepository.delete)⟩,
      ⟨Register.call (InvitationApi.consume r.input.invitationToken r.now), none⟩]

/-- What is left of the saga after the account. -/
def lastStep (r : Run) (execute execute' : Register.Step) : Register.Step :=
  SagaOrchestrator.executeFrom
    [⟨execute', some (Register.compensateWith (·.id) AuthenticationAccountRepository.delete)⟩,
      ⟨execute, some (Register.compensateWith (·.userId) UserApi.delete)⟩]
    [⟨Register.call (InvitationApi.consume r.input.invitationToken r.now), none⟩]

theorem lastStep_of_error {r : Run} {user : User} {account : AuthenticationAccount} {db : Db} {e : AccessError}
    (execute execute' : Register.Step) (hu : user ∈ db.users) (ha : account ∈ db.accounts)
    (h : InvitationApi.consume r.input.invitationToken r.now db = (.error e, db)) :
    lastStep r execute execute' (db, ⟨some user.id, some account.id⟩) =
      (.error e, withoutUser (withoutAccount db account) user, ⟨some user.id, some account.id⟩) :=
  SagaOrchestrator.executeFrom_of_error (call_of_run h) (compensate_account execute execute' hu ha)

theorem lastStep_of_ok {r : Run} {db db' : Db} {context : RegisterSagaContext}
    (execute execute' : Register.Step)
    (h : InvitationApi.consume r.input.invitationToken r.now db = (.ok (), db')) :
    lastStep r execute execute' (db, context) = (.ok (), db', context) :=
  SagaOrchestrator.executeFrom_of_ok (call_of_run h)

/-- The account is made and inserted. -/
def insertAccount (registered : Except AccessError (Option String)) (r : Run) (userId accountId : String) :
    UseCase Unit :=
  Effect.lift (registered >>= fun passwordHash =>
    Register.account r.input accountId userId passwordHash r.now) >>= AuthenticationAccountRepository.create

theorem lastSteps_of_error {registered : Except AccessError (Option String)} {r : Run} {user : User}
    {db : Db} {accountId : String} {e : AccessError} (execute : Register.Step) (hu : user ∈ db.users)
    (h : insertAccount registered r user.id accountId db = (.error e, db)) :
    lastSteps registered r user.id accountId execute (db, ⟨some user.id, none⟩) =
      (.error e, withoutUser db user, ⟨some user.id, none⟩) := by
  have hstep := (createAccount_eq registered r.input user.id accountId r.now
    (db, ⟨some user.id, none⟩)).trans (bind_of_error (call_of_run h))
  exact SagaOrchestrator.executeFrom_of_error hstep (compensate_user execute none hu)

theorem lastSteps_of_ok {registered : Except AccessError (Option String)} {r : Run} {user : User}
    {db db' : Db} {accountId : String} (execute : Register.Step)
    (h : insertAccount registered r user.id accountId db = (.ok (), db')) :
    lastSteps registered r user.id accountId execute (db, ⟨some user.id, none⟩) =
      lastStep r execute (Register.createAccount registered r.input user.id accountId r.now)
        (db', ⟨some user.id, some accountId⟩) := by
  have hstep : Register.createAccount registered r.input user.id accountId r.now
      (db, ⟨some user.id, none⟩) = (.ok (), db', ⟨some user.id, some accountId⟩) :=
    (createAccount_eq registered r.input user.id accountId r.now _).trans (bind_of_ok (call_of_run h))
  exact SagaOrchestrator.executeFrom_of_ok hstep

/-- The user is made and inserted. -/
def insertUser (r : Run) (userId : String) : UseCase Unit :=
  Effect.read >>= fun db => Effect.lift (newUser db r userId r.now) >>= UserRepository.create

theorem steps_of_error {registered : Except AccessError (Option String)} {r : Run} {db : Db}
    {userId accountId : String} {e : AccessError} (h : insertUser r userId db = (.error e, db)) :
    SagaOrchestrator.execute (Register.steps registered r.input r.invitation userId accountId r.now)
      (db, ⟨none, none⟩) = (.error e, db, ⟨none, none⟩) := by
  have hstep : Register.createUser r.input r.invitation userId r.now (db, ⟨none, none⟩) =
      (.error e, db, ⟨none, none⟩) :=
    bind_of_error (call_of_run ((createUser_eq r userId r.now db).trans h))
  exact SagaOrchestrator.executeFrom_of_error hstep rfl

theorem steps_of_ok {registered : Except AccessError (Option String)} {r : Run} {db db' : Db}
    {userId accountId : String} (h : insertUser r userId db = (.ok (), db')) :
    SagaOrchestrator.execute (Register.steps registered r.input r.invitation userId accountId r.now)
      (db, ⟨none, none⟩) = lastSteps registered r userId accountId
        (Register.createUser r.input r.invitation userId r.now) (db', ⟨some userId, none⟩) := by
  have hstep : Register.createUser r.input r.invitation userId r.now (db, ⟨none, none⟩) =
      (.ok (), db', ⟨some userId, none⟩) :=
    bind_of_ok (call_of_run ((createUser_eq r userId r.now db).trans h))
  exact SagaOrchestrator.executeFrom_of_ok hstep

/-- What a step of the saga comes to. -/
abbrev StepOutcome (procs : List Proc) (s : Store) (p : Proc) (step : Register.Step)
    (context : RegisterSagaContext) : Prop :=
  Outcome procs s p (step (s.db, context)).1 (step (s.db, context)).2.1

theorem stepOutcome_lastStep {r : Run} {user : User} {account : AuthenticationAccount} {db : Db}
    (execute execute' : Register.Step) (hu : user ∈ db.users) (ha : account ∈ db.accounts) :
    StepOutcome procs ⟨db, r.now⟩ (.createdAccount r user account) (lastStep r execute execute')
      ⟨some user.id, some account.id⟩ := by
  have hread : ∀ used, consumed db r.input.invitationToken r.now = .ok used →
      act (procs ++ [.createdAccount r user account]) ⟨db, r.now⟩ (.createdAccount r user account)
        (.consume r.now) = some (⟨db, r.now⟩, .consuming r user account used) := by
    intro used hc
    simp only [act, timed, le_refl, if_true, consume, hc]
    rfl
  have hrun := consume_eq r.input.invitationToken r.now db
  unfold StepOutcome
  have hwrite : ∀ used, (∃ db', InvitationRepository.update used db = (.ok (), db')) ∨
      ∃ e, InvitationRepository.update used db = (.error e, db) := fun _ => change_cases _ db
  rcases readWrite_cases (consumed db r.input.invitationToken r.now) hwrite with
    ⟨e, -, he⟩ | ⟨used, e, hc, he⟩ | ⟨used, db', hc, hw, hok⟩
  · rw [lastStep_of_error execute execute' hu ha (hrun.trans he)]
    exact outcome_throw_account e hu ha rfl
  · rw [lastStep_of_error execute execute' hu ha (hrun.trans he)]
    exact Outcome.cons (hread used hc) rfl (outcome_throw_account e hu ha rfl)
  · have hsave : act (procs ++ [.consuming r user account used]) ⟨db, r.now⟩
        (.consuming r user account used) .save = some (⟨db', r.now⟩, .registered r user account) := by
      show (perform (InvitationRepository.update used) db).bind _ = _
      rw [perform_of_ok hw]
      rfl
    rw [lastStep_of_ok execute execute' (hrun.trans hok)]
    exact Outcome.cons (hread used hc) rfl ⟨_, .single hsave, rfl⟩

theorem stepOutcome_lastSteps (registered : Except AccessError (Option String)) {r : Run} {user : User}
    {db : Db} (accountId : String) (execute : Register.Step) (hu : user ∈ db.users) :
    StepOutcome procs ⟨db, r.now⟩ (.createdUser r user) (lastSteps registered r user.id accountId execute)
      ⟨some user.id, none⟩ := by
  have hthrow : ∀ e, insertAccount registered r user.id accountId db = (.error e, db) →
      StepOutcome procs ⟨db, r.now⟩ (.createdUser r user)
        (lastSteps registered r user.id accountId execute) ⟨some user.id, none⟩ := by
    intro e he
    unfold StepOutcome
    rw [lastSteps_of_error execute hu he]
    exact outcome_throw_user e hu
  have hwrite : ∀ account, (∃ db', AuthenticationAccountRepository.create account db = (.ok (), db')) ∨
      ∃ e, AuthenticationAccountRepository.create account db = (.error e, db) := fun _ => change_cases _ db
  rcases readWrite_cases (registered >>= fun passwordHash =>
      Register.account r.input accountId user.id passwordHash r.now) hwrite with
    ⟨e, -, he⟩ | ⟨account, e, -, he⟩ | ⟨account, db', hnew, hw, hok⟩
  · exact hthrow e he
  · exact hthrow e he
  obtain ⟨passwordHash, -, haccount⟩ := except_bind_eq_ok.mp hnew
  have hid := (account_eq_ok haccount).1
  have hdb' := (perform_createAccount_eq_some (perform_of_ok hw)).2
  have hact : act (procs ++ [.createdUser r user]) ⟨db, r.now⟩ (.createdUser r user)
      (.createAccount accountId passwordHash) =
      some (⟨db', r.now⟩, .createdAccount r user account) := by
    simp only [act, createAccount, haccount]
    show (perform (AuthenticationAccountRepository.create account) db).bind _ = _
    rw [perform_of_ok hw]
    rfl
  have huser : user ∈ db'.users := by rw [hdb']; exact hu
  have hmem : account ∈ db'.accounts := by rw [hdb']; exact List.mem_cons_self
  unfold StepOutcome
  rw [lastSteps_of_ok execute hok, ← hid]
  exact Outcome.cons hact rfl (stepOutcome_lastStep execute _ huser hmem)

/-- **The saga**, from the validated invitation on. -/
theorem stepOutcome_steps (registered : Except AccessError (Option String)) (r : Run)
    (userId accountId : String) (db : Db) :
    StepOutcome procs ⟨db, r.now⟩ (.validated r) (SagaOrchestrator.execute
      (Register.steps registered r.input r.invitation userId accountId r.now)) ⟨none, none⟩ := by
  have hthrow : ∀ (p : Proc) (e : AccessError), p.thrown = some .failed →
      insertUser r userId db = (.error e, db) → StepOutcome procs ⟨db, r.now⟩ p (SagaOrchestrator.execute
        (Register.steps registered r.input r.invitation userId accountId r.now)) ⟨none, none⟩ := by
    intro p e hp he
    have hact : act (procs ++ [p]) ⟨db, r.now⟩ p .fail = some (⟨db, r.now⟩, .failed) := by
      simp only [act, hp, Option.map_some]
    unfold StepOutcome
    rw [steps_of_error he]
    exact ⟨.failed, .single hact, rfl⟩
  have hfind : ∀ user, newUser db r userId r.now = .ok user →
      act (procs ++ [.validated r]) ⟨db, r.now⟩ (.validated r) (.findUser userId r.now) =
        some (⟨db, r.now⟩, .creatingUser r user) := by
    intro user hnew
    simp only [act, timed, le_refl, if_true, findUser, hnew]
    rfl
  have hwrite : ∀ user, (∃ db', UserRepository.create user db = (.ok (), db')) ∨
      ∃ e, UserRepository.create user db = (.error e, db) := fun _ => change_cases _ db
  rcases readWrite_cases (newUser db r userId r.now) hwrite with
    ⟨e, -, he⟩ | ⟨user, e, -, he⟩ | ⟨user, db', hnew, hw, hok⟩
  · exact hthrow _ e rfl he
  · exact hthrow _ e rfl he
  have hid := (newUser_eq_ok hnew).1
  have hdb' := (perform_createUser_eq_some (perform_of_ok hw)).2
  have hcreate : act (procs ++ [.creatingUser r user]) ⟨db, r.now⟩ (.creatingUser r user) .createUser =
      some (⟨db', r.now⟩, .createdUser r user) := by
    show (perform (UserRepository.create user) db).bind _ = _
    rw [perform_of_ok hw]
    rfl
  have huser : user ∈ db'.users := by rw [hdb']; exact List.mem_cons_self
  unfold StepOutcome
  rw [steps_of_ok hok, ← hid]
  exact Outcome.cons (hfind user hnew) rfl
    (Outcome.cons hcreate rfl (stepOutcome_lastSteps registered accountId _ huser))

/-! ## Runs -/

/-- Alone, the system does what the use case does: it gets to the same tables, with a process that has
succeeded, or with one that has failed or none. -/
def Alone (procs : List Proc) (s : Store) (x : Except AccessError Unit × Db) : Prop :=
  ∃ ls st, run step ⟨s, procs⟩ ls = some st ∧ st.world.db = x.2 ∧
    match x.1 with
    | .ok _ => ∃ p, hasSucceeded p = true ∧ st.procs = procs ++ [p]
    | .error _ => st.procs = procs ∨ st.procs = procs ++ [.failed]

theorem Alone.of_error (procs : List Proc) (s : Store) (e : AccessError) :
    Alone procs s (.error e, s.db) := ⟨[], _, rfl, rfl, Or.inl rfl⟩

theorem Alone.of_start {l : Start} {x : Except AccessError Unit × Db} (h : start s l = some (s', p))
    (ho : Outcome procs s' p x.1 x.2) : Alone procs s x := by
  obtain ⟨p', hleads, hp⟩ := ho
  obtain ⟨ls, hrun⟩ := hleads.of_start h
  refine ⟨ls, _, hrun, rfl, ?_⟩
  cases hx : x.1 with
  | ok u =>
    rw [hx] at hp
    exact ⟨p', hp, rfl⟩
  | error e =>
    rw [hx] at hp
    exact Or.inr (by rw [hp])

/-- **A registration that runs alone** does what `Register.execute` does. -/
theorem register_alone (registered : Except AccessError (Option String)) (input : RegisterInput)
    (userId accountId : String) (procs : List Proc) {now : ℕ} (hc : s.clock ≤ now) :
    Alone procs s (Register.execute registered input userId accountId now s.db) := by
  have hstate : (InvitationApi.validate input.invitationToken now s.db).2 = s.db :=
    (reads_validate s.db input.invitationToken now).snd
  unfold Register.execute
  rcases hv : InvitationApi.validate input.invitationToken now s.db with ⟨e | invitation, db⟩
  · obtain rfl : db = s.db := by rw [hv] at hstate; exact hstate
    rw [bind_of_error hv]
    exact .of_error procs s e
  · obtain rfl : db = s.db := by rw [hv] at hstate; exact hstate
    rw [bind_of_ok hv]
    by_cases hemail : input.email = invitation.recipient
    · by_cases hprovider : input.provider = "email-password"
      · rw [if_neg (not_not.mpr hemail), if_neg (not_not.mpr hprovider)]
        have hstart : start s (.register input now) =
            some (⟨s.db, now⟩, .validated ⟨input, invitation, now⟩) := by
          simp only [start, timed, if_pos hc, hv]
          exact if_pos ⟨hemail, hprovider⟩
        exact .of_start hstart (stepOutcome_steps registered ⟨input, invitation, now⟩ userId
          accountId s.db)
      · rw [if_neg (not_not.mpr hemail), if_pos hprovider]
        exact .of_error procs s _
    · rw [if_pos hemail]
      exact .of_error procs s _

/-- A run that reads an invitation and writes it. -/
theorem readWrite_alone {l : Start} {now : ℕ} {copy : Except AccessError Invitation}
    (procs : List Proc) (proc : Invitation → Proc)
    (hstart : start s l = copy.toOption.map fun i => (⟨s.db, now⟩, proc i))
    (hcopy : ∀ i, (proc i).copy = some i) (hsaved : ∀ i, (proc i).saved = .done) :
    Alone procs s ((Effect.lift copy >>= InvitationRepository.update) s.db) := by
  have hwrite : ∀ i, (∃ db', InvitationRepository.update i s.db = (.ok (), db')) ∨
      ∃ e, InvitationRepository.update i s.db = (.error e, s.db) := fun _ => change_cases _ s.db
  rcases readWrite_cases copy hwrite with ⟨e, -, he⟩ | ⟨i, e, -, he⟩ | ⟨i, db', rfl, hw, hok⟩
  · rw [he]
    exact .of_error procs s e
  · rw [he]
    exact .of_error procs s e
  · have hsave : act (procs ++ [proc i]) ⟨s.db, now⟩ (proc i) .save = some (⟨db', now⟩, .done) := by
      simp only [act, save, hcopy, hsaved]
      show (perform (InvitationRepository.update i) s.db).bind _ = _
      rw [perform_of_ok hw]
      rfl
    rw [hok]
    exact .of_start hstart ⟨.done, .single hsave, rfl⟩

/-- **A consumption that runs alone** does what `ConsumeInvitation` does. -/
theorem consume_alone (token : String) (procs : List Proc) {now : ℕ} (hc : s.clock ≤ now) :
    Alone procs s (InvitationApi.consume token now s.db) := by
  rw [consume_eq]
  have hstart : start s (.consume token now) =
      (consumed s.db token now).toOption.map fun i => (⟨s.db, now⟩, .consumingInvitation i) := by
    simp only [start, timed, if_pos hc]
    cases (consumed s.db token now).toOption <;> rfl
  exact readWrite_alone procs _ hstart (fun _ => rfl) fun _ => rfl

/-- **A revocation that runs alone** does what `RevokeInvitation` does. -/
theorem revoke_alone (scope : Option String) (token : String) (procs : List Proc) {now : ℕ} (hc : s.clock ≤ now) :
    Alone procs s (RevokeInvitation.execute scope token now s.db) := by
  rw [revokeInvitation_eq]
  have hstart : start s (.revoke scope token now) =
      (revoked s.db scope token now).toOption.map fun i => (⟨s.db, now⟩, .revokingInvitation i) := by
    simp only [start, timed, if_pos hc]
    cases (revoked s.db scope token now).toOption <;> rfl
  exact readWrite_alone procs _ hstart (fun _ => rfl) fun _ => rfl

end Neltrik.Authorization.Registration.Sequential
