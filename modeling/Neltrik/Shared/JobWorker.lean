import Mathlib.Data.List.AList
import Neltrik.Lib.Machine
import Neltrik.Lib.Table

/-! # The job worker

The worker process has one BullMQ worker per queue, and one map, shared by all of them, from the id of
a job to the controller of its signal. A job is entered in the map before its handler is called and
taken out by its id when the handler settles; `stop` aborts the controllers of the map and then closes
the workers one after the other, while those not yet closed go on taking jobs. BullMQ runs no job of
a queue twice at a time, but jobs of two queues may have one id.

* `Registered`: each entry of the map is that of a running handler with this id, so the map is empty
  when none runs, and only `stop` aborts;
* `stopsWell_iff`: at any time of a run, `stop` would leave no running handler without an aborted
  signal, exactly when no job starts with an empty id or the id of a handler that runs with its signal
  not aborted, and no handler settles beside such a handler of its id. -/

namespace Neltrik.Shared.JobWorker

open Neltrik.Lib Neltrik.Lib.Machine Neltrik.Lib.Table

/-- A handler, without its `handle`. -/
structure JobHandler where
  queue : String
  name : String
deriving DecidableEq

/-- What BullMQ hands over, without the payload. -/
structure Job where
  id : Option String
  name : String
  attemptsMade : ℕ
deriving DecidableEq

/-- A signal is the number of its controller. -/
structure JobContext where
  jobId : String
  attempt : ℕ
  signal : ℕ
deriving DecidableEq

/-- A worker of BullMQ on a queue. -/
structure Worker where
  queue : String
  handlers : List JobHandler
deriving DecidableEq

/-- A handler that has been called and has not settled. -/
structure Running where
  queue : String
  job : Job
  ctx : JobContext
deriving DecidableEq

/-- `closing` is the worker whose `close` is awaited, with those that `stop` has yet to close. -/
structure BullJobWorker where
  workers : List Worker
  activeControllers : AList fun _ : String => ℕ
  controllers : ℕ
  aborted : List ℕ
  running : List Running
  closing : Option (Worker × List Worker)

/-- What happens to the adapter. -/
inductive Event where
  | opened (worker : Worker)
  | taken (worker : Worker) (job : Job)
  | settled (signal : ℕ)
  | stop
  | closed
deriving DecidableEq

/-- The id, or the empty text. -/
def Job.jobId (job : Job) : String := job.id.getD ""

namespace BullJobWorker

/-- No workers and no jobs. -/
def init : BullJobWorker := ⟨[], ∅, 0, [], [], none⟩

/-- One turn of the loop of `groupByQueue`. -/
def pushHandler (map : List Worker) (handler : JobHandler) : List Worker :=
  if map.any (·.queue == handler.queue) then
    updateWhere (·.queue == handler.queue) (fun w => { w with handlers := w.handlers ++ [handler] }) map
  else map ++ [⟨handler.queue, [handler]⟩]

/-- The handlers of each queue, in the order in which `start` opens the queues. -/
def groupByQueue (handlers : List JobHandler) : List Worker := handlers.foldl pushHandler []

/-- The workers that take jobs. -/
def taking (w : BullJobWorker) : List Worker :=
  match w.closing with
  | none => w.workers
  | some (_, rest) => rest

/-- `new Worker`; a `stop` that goes through the map comes to it as well. -/
def addWorker (w : BullJobWorker) (worker : Worker) : BullJobWorker :=
  { w with
    workers := w.workers ++ [worker]
    closing := w.closing.map fun (now, rest) => (now, rest ++ [worker]) }

/-- `processJob` until the handler is called. -/
def processJob (w : BullJobWorker) (worker : Worker) (job : Job) : BullJobWorker :=
  match worker.handlers.find? (·.name == job.name) with
  | none => w
  | some _ =>
    { w with
      activeControllers :=
        if job.jobId = "" then w.activeControllers else w.activeControllers.insert job.jobId w.controllers
      controllers := w.controllers + 1
      running := ⟨worker.queue, job, job.jobId, job.attemptsMade + 1, w.controllers⟩ :: w.running }

/-- The `finally` of `processJob`. -/
def settle (w : BullJobWorker) (r : Running) : BullJobWorker :=
  { w with
    activeControllers :=
      if r.ctx.jobId = "" then w.activeControllers else w.activeControllers.erase r.ctx.jobId
    running := w.running.filter (·.ctx.signal ≠ r.ctx.signal) }

/-- The first loop of `stop`. -/
def abortAll (w : BullJobWorker) : BullJobWorker :=
  { w with aborted := w.activeControllers.entries.map (·.2) ++ w.aborted }

/-- The second loop of `stop`, from the workers it has yet to close, and its `finally`. -/
def close (w : BullJobWorker) : List Worker → BullJobWorker
  | [] => { w with workers := [], activeControllers := ∅, closing := none }
  | worker :: rest => { w with closing := some (worker, rest) }

/-- The job, if it has an id, runs already. -/
def Runs (w : BullJobWorker) (queue : String) (job : Job) : Prop :=
  ∃ r ∈ w.running, r.queue = queue ∧ job.id.isSome ∧ r.job.id = job.id

instance (w : BullJobWorker) (queue : String) (job : Job) : Decidable (w.Runs queue job) :=
  inferInstanceAs (Decidable (∃ r ∈ w.running, _))

/-- A `stop` while another one waits aborts what is active and waits for the same workers. -/
def step (w : BullJobWorker) : Event → Option BullJobWorker
  | .opened worker => if ∃ x ∈ w.workers, x.queue = worker.queue then none else some (w.addWorker worker)
  | .taken worker job =>
    if worker ∈ w.taking ∧ ¬ w.Runs worker.queue job then some (w.processJob worker job) else none
  | .settled signal => (w.running.find? (·.ctx.signal == signal)).map w.settle
  | .stop => if w.closing.isSome then some w.abortAll else some (w.abortAll.close w.workers)
  | .closed =>
    match w.closing with
    | none => none
    | some (worker, rest) =>
      if ∃ r ∈ w.running, r.queue = worker.queue then none else some (w.close rest)

/-- `start`, as the workers it opens; while the first of them takes jobs, the others are yet to come. -/
def start (w : BullJobWorker) (handlers : List JobHandler) : Except String (List Event) :=
  if w.workers ≠ [] then .ok []
  else if handlers = [] then .error "BullJobWorkerAdapter: no handlers provided"
  else .ok ((groupByQueue handlers).map .opened)

/-! ## The workers that are opened -/

section
variable {map : List Worker} {handler : JobHandler} {handlers : List JobHandler}

theorem keyed_pushHandler (h : Keyed Worker.queue map) : Keyed Worker.queue (pushHandler map handler) := by
  unfold pushHandler
  split_ifs with hany
  · exact h.updateWhere fun _ _ _ => rfl
  · have hnew : handler.queue ∉ map.map Worker.queue := by
      intro hmem
      obtain ⟨x, hx, he⟩ := List.mem_map.mp hmem
      exact hany (List.any_eq_true.mpr ⟨x, hx, beq_iff_eq.mpr he⟩)
    rw [Keyed, List.map_append, List.nodup_append_comm]
    exact List.nodup_cons.mpr ⟨hnew, h⟩

/-- The workers hold each of the handlers under its queue. -/
def Holds (map : List Worker) (handlers : List JobHandler) : Prop :=
  ∀ h ∈ handlers, ∃ x ∈ map, x.queue = h.queue ∧ h ∈ x.handlers

theorem Holds.pushHandler (h : Holds map handlers) :
    Holds (pushHandler map handler) (handlers ++ [handler]) := by
  intro h' hh'
  unfold BullJobWorker.pushHandler
  split_ifs with hany
  · have hold : ∀ x ∈ map, h' ∈ x.handlers ++ (if x.queue = handler.queue then [handler] else []) →
        ∃ y ∈ updateWhere (·.queue == handler.queue) (fun w => { w with handlers := w.handlers ++ [handler] })
          map, y.queue = x.queue ∧ h' ∈ y.handlers := by
      intro x hx hmem
      by_cases hq : x.queue = handler.queue
      · rw [if_pos hq] at hmem
        exact ⟨_, mem_updateWhere.mpr (Or.inl ⟨x, hx, beq_iff_eq.mpr hq, rfl⟩), rfl, hmem⟩
      · rw [if_neg hq, List.append_nil] at hmem
        exact ⟨x, mem_updateWhere.mpr (Or.inr ⟨hx, beq_eq_false_iff_ne.mpr hq⟩), rfl, hmem⟩
    rcases List.mem_append.mp hh' with hh' | hh'
    · obtain ⟨x, hx, hq, hmem⟩ := h h' hh'
      obtain ⟨y, hy, hq', hmem'⟩ := hold x hx (List.mem_append_left _ hmem)
      exact ⟨y, hy, hq'.trans hq, hmem'⟩
    · obtain ⟨x, hx, hq⟩ := List.any_eq_true.mp hany
      obtain rfl := List.mem_singleton.mp hh'
      obtain ⟨y, hy, hq', hmem'⟩ := hold x hx (by simp [beq_iff_eq.mp hq])
      exact ⟨y, hy, hq'.trans (eq_of_beq hq), hmem'⟩
  · rcases List.mem_append.mp hh' with hh' | hh'
    · obtain ⟨x, hx, he⟩ := h h' hh'
      exact ⟨x, List.mem_append_left _ hx, he⟩
    · obtain rfl := List.mem_singleton.mp hh'
      exact ⟨_, List.mem_append_right _ (List.mem_singleton_self _), rfl, List.mem_singleton_self _⟩

theorem groupByQueue_spec (handlers : List JobHandler) :
    Keyed Worker.queue (groupByQueue handlers) ∧ Holds (groupByQueue handlers) handlers := by
  have hloop : ∀ (rest done : List JobHandler) (map : List Worker), Keyed Worker.queue map →
      Holds map done → Keyed Worker.queue (rest.foldl pushHandler map) ∧
        Holds (rest.foldl pushHandler map) (done ++ rest) := by
    intro rest
    induction rest with
    | nil =>
      intro done map hk hh
      rw [List.append_nil]
      exact ⟨hk, hh⟩
    | cons handler rest ih =>
      intro done map hk hh
      have hrest := ih (done ++ [handler]) (pushHandler map handler) (keyed_pushHandler hk) hh.pushHandler
      rw [List.append_assoc] at hrest
      exact hrest
  exact hloop handlers [] [] List.nodup_nil nofun

theorem run_opened {w : BullJobWorker} {ws : List Worker} (h : Keyed Worker.queue (w.workers ++ ws)) :
    ∃ w', run step w (ws.map .opened) = some w' ∧ w'.workers = w.workers ++ ws := by
  induction ws generalizing w with
  | nil => exact ⟨w, rfl, (List.append_nil _).symm⟩
  | cons worker ws ih =>
    have hassoc : w.workers ++ worker :: ws = (w.addWorker worker).workers ++ ws := by
      rw [addWorker, List.append_assoc]
      rfl
    have hnew : ¬ ∃ x ∈ w.workers, x.queue = worker.queue := by
      rintro ⟨x, hx, hq⟩
      rw [Keyed, List.map_append, List.nodup_append] at h
      exact h.2.2 _ (List.mem_map_of_mem hx) _ (List.mem_map_of_mem List.mem_cons_self) hq
    have hstep : step w (.opened worker) = some (w.addWorker worker) := if_neg hnew
    rw [hassoc] at h ⊢
    obtain ⟨w', hr, hw'⟩ := ih h
    exact ⟨w', (run_cons_of_step hstep _).trans hr, hw'⟩

/-- **`start` opens a worker for each of its handlers**, one for each queue. -/
theorem start_opens {w : BullJobWorker} {events : List Event} (hw : w.workers = [])
    (h : w.start handlers = .ok events) : ∃ w', run step w events = some w' ∧
      Keyed Worker.queue w'.workers ∧ Holds w'.workers handlers := by
  obtain ⟨hk, hh⟩ := groupByQueue_spec handlers
  rw [start, if_neg (not_not_intro hw)] at h
  split_ifs at h with hnil
  cases h
  have hkeyed : Keyed Worker.queue (w.workers ++ groupByQueue handlers) := by
    rw [hw]
    exact hk
  obtain ⟨w', hr, hw'⟩ := run_opened hkeyed
  rw [hw, List.nil_append] at hw'
  rw [← hw'] at hk hh
  exact ⟨w', hr, hk, hh⟩

end

/-! ## What a step does -/

section
variable {w w' : BullJobWorker} {worker : Worker} {job : Job} {r : Running}

/-- The worker has a handler for the job. -/
def Handles (worker : Worker) (job : Job) : Prop := ∃ h ∈ worker.handlers, h.name = job.name

theorem processJob_of_not_handles (h : ¬ Handles worker job) : w.processJob worker job = w := by
  have hnone : worker.handlers.find? (·.name == job.name) = none := by
    rw [List.find?_eq_none]
    intro x hx hname
    exact h ⟨x, hx, eq_of_beq hname⟩
  rw [processJob, hnone]

/-- The handler that a job starts. -/
def called (w : BullJobWorker) (worker : Worker) (job : Job) : Running :=
  ⟨worker.queue, job, job.jobId, job.attemptsMade + 1, w.controllers⟩

theorem processJob_of_handles (h : Handles worker job) :
    w.processJob worker job = { w with
      activeControllers :=
        if job.jobId = "" then w.activeControllers else w.activeControllers.insert job.jobId w.controllers
      controllers := w.controllers + 1
      running := w.called worker job :: w.running } := by
  obtain ⟨x, hx, hname⟩ := h
  have hsome : (worker.handlers.find? (·.name == job.name)).isSome = true := by
    rw [List.find?_isSome]
    exact ⟨x, hx, beq_iff_eq.mpr hname⟩
  obtain ⟨y, hy⟩ := Option.isSome_iff_exists.mp hsome
  rw [processJob, hy]
  rfl

theorem step_opened : step w (.opened worker) = some w' ↔
    (¬ ∃ x ∈ w.workers, x.queue = worker.queue) ∧ w' = w.addWorker worker := by
  rw [step]
  split_ifs with h
  · exact ⟨nofun, fun h' => absurd h h'.1⟩
  · rw [Option.some.injEq, eq_comm]
    exact ⟨fun h' => ⟨h, h'⟩, And.right⟩

theorem step_taken : step w (.taken worker job) = some w' ↔
    (worker ∈ w.taking ∧ ¬ w.Runs worker.queue job) ∧ w' = w.processJob worker job := by
  rw [step]
  split_ifs with h
  · rw [Option.some.injEq, eq_comm]
    exact ⟨fun h' => ⟨h, h'⟩, And.right⟩
  · exact ⟨nofun, fun h' => absurd h'.1 h⟩

theorem step_settled {signal : ℕ} (h : step w (.settled signal) = some w') :
    ∃ r ∈ w.running, r.ctx.signal = signal ∧ w' = w.settle r := by
  rw [step, Option.map_eq_some_iff] at h
  obtain ⟨r, hr, rfl⟩ := h
  have hfound := List.find?_some hr
  exact ⟨r, List.mem_of_find?_eq_some hr, eq_of_beq hfound, rfl⟩

theorem step_stop (h : step w .stop = some w') :
    (w.closing ≠ none ∧ w' = w.abortAll) ∨ (w.closing = none ∧ w' = w.abortAll.close w.workers) := by
  rw [step] at h
  split_ifs at h with hc
  · cases h
    exact Or.inl ⟨Option.isSome_iff_ne_none.mp hc, rfl⟩
  · cases h
    exact Or.inr ⟨Option.not_isSome_iff_eq_none.mp hc, rfl⟩

theorem step_closed (h : step w .closed = some w') : ∃ worker rest, w.closing = some (worker, rest) ∧
    (∀ r ∈ w.running, r.queue ≠ worker.queue) ∧ w' = w.close rest := by
  rw [step] at h
  split at h
  · cases h
  next worker rest hc =>
    split_ifs at h with hq
    cases h
    refine ⟨worker, rest, hc, fun r hr he => hq ⟨r, hr, he⟩, rfl⟩

theorem mem_settle_running {r' : Running} :
    r' ∈ (w.settle r).running ↔ r' ∈ w.running ∧ r'.ctx.signal ≠ r.ctx.signal := by
  rw [settle, List.mem_filter, decide_eq_true_iff]

@[simp] theorem close_running (rest : List Worker) : (w.close rest).running = w.running := by
  cases rest <;> rfl

@[simp] theorem close_aborted (rest : List Worker) : (w.close rest).aborted = w.aborted := by
  cases rest <;> rfl

@[simp] theorem close_controllers (rest : List Worker) : (w.close rest).controllers = w.controllers := by
  cases rest <;> rfl

theorem mem_abortAll_aborted {c : ℕ} : c ∈ w.abortAll.aborted ↔
    (∃ jobId, w.activeControllers.lookup jobId = some c) ∨ c ∈ w.aborted := by
  rw [abortAll, List.mem_append, List.mem_map]
  refine or_congr_left ?_
  constructor
  · rintro ⟨⟨jobId, c'⟩, he, rfl⟩
    exact ⟨jobId, AList.mem_lookup_iff.mpr he⟩
  · rintro ⟨jobId, hl⟩
    exact ⟨⟨jobId, c⟩, AList.mem_lookup_iff.mp hl, rfl⟩

/-! ## The handlers that run and the map -/

/-- The invariant of the shared map. An entry may be missing, but there is none without its handler. -/
structure Registered (w : BullJobWorker) : Prop where
  keyed : Keyed (·.ctx.signal) w.running
  made : ∀ r ∈ w.running, r.ctx.signal < w.controllers
  madeAborted : ∀ c ∈ w.aborted, c < w.controllers
  entries : ∀ jobId c, w.activeControllers.lookup jobId = some c →
    jobId ≠ "" ∧ ∃ r ∈ w.running, r.ctx.jobId = jobId ∧ r.ctx.signal = c
  held : ∀ r ∈ w.running, (∃ x ∈ w.taking, x.queue = r.queue) ∨
    ∃ x rest, w.closing = some (x, rest) ∧ x.queue = r.queue

theorem registered_init : Registered init where
  keyed := List.nodup_nil
  made := nofun
  madeAborted := nofun
  entries := by
    intro jobId c h
    exact absurd (h.symm.trans (AList.lookup_empty jobId)) nofun
  held := nofun

theorem Registered.drained (h : Registered w) (hr : w.running = []) : w.activeControllers = ∅ := by
  refine AList.ext (List.eq_nil_iff_forall_not_mem.mpr fun ⟨jobId, c⟩ he => ?_)
  obtain ⟨-, r, hmem, -⟩ := h.entries jobId c (AList.mem_lookup_iff.mpr he)
  rw [hr] at hmem
  exact List.not_mem_nil hmem

/-- A `stop` aborts the handlers it finds in the map. -/
theorem Registered.aborts_iff (h : Registered w) (hr : r ∈ w.running) :
    r.ctx.signal ∈ w.abortAll.aborted ↔
      w.activeControllers.lookup r.ctx.jobId = some r.ctx.signal ∨ r.ctx.signal ∈ w.aborted := by
  rw [mem_abortAll_aborted]
  refine or_congr_left ⟨fun ⟨jobId, hl⟩ => ?_, fun hl => ⟨_, hl⟩⟩
  obtain ⟨-, r', hr', rfl, hs⟩ := h.entries jobId _ hl
  have he : r' = r := h.keyed.eq_of_key_eq hr' hr hs
  rw [← he]
  rw [← he] at hl
  exact hl

theorem Registered.addWorker (h : Registered w) (worker : Worker) : Registered (w.addWorker worker) where
  keyed := h.keyed
  made := h.made
  madeAborted := h.madeAborted
  entries := h.entries
  held := by
    intro r hr
    rcases h.held r hr with ⟨x, hx, hq⟩ | ⟨x, rest, hc, hq⟩
    · refine Or.inl ⟨x, ?_, hq⟩
      unfold taking at hx ⊢
      cases hc : w.closing with
      | none =>
        rw [hc] at hx
        simpa [BullJobWorker.addWorker, hc] using Or.inl hx
      | some p =>
        rw [hc] at hx
        simpa [BullJobWorker.addWorker, hc] using Or.inl hx
    · exact Or.inr ⟨x, rest ++ [worker], by simp [BullJobWorker.addWorker, hc], hq⟩

/-- The map after a job has been entered. -/
theorem lookup_entered {jobId jobId' : String} {c c' : ℕ} :
    (if jobId = "" then w.activeControllers else w.activeControllers.insert jobId c).lookup jobId' = some c' ↔
      (jobId' = jobId ∧ jobId ≠ "" ∧ c' = c) ∨
      ((jobId' ≠ jobId ∨ jobId = "") ∧ w.activeControllers.lookup jobId' = some c') := by
  split_ifs with he
  · simp [he]
  · by_cases hk : jobId' = jobId
    · subst hk
      rw [AList.lookup_insert, Option.some.injEq]
      simp [he, eq_comm]
    · rw [AList.lookup_insert_ne hk]
      simp [hk]

/-- The map after a job has been taken out. -/
theorem lookup_settle {jobId : String} {c : ℕ} : (w.settle r).activeControllers.lookup jobId = some c ↔
    (jobId ≠ r.ctx.jobId ∨ jobId = "") ∧ w.activeControllers.lookup jobId = some c := by
  rw [settle]
  split_ifs with he
  · rw [he]
    by_cases hk : jobId = "" <;> simp [hk]
  · by_cases hk : jobId = r.ctx.jobId
    · subst hk
      simp [he, AList.lookup_erase]
    · rw [AList.lookup_erase_ne hk]
      simp [hk]

theorem Registered.processJob (h : Registered w) (hw : worker ∈ w.taking) :
    Registered (w.processJob worker job) := by
  by_cases hh : Handles worker job
  · rw [processJob_of_handles hh]
    constructor
    · refine h.keyed.cons fun r hr => ?_
      have hlt := h.made r hr
      simp only [called]
      omega
    · intro r hr
      show r.ctx.signal < w.controllers + 1
      rcases List.mem_cons.mp hr with rfl | hr
      · exact Nat.lt_succ_self _
      · exact Nat.lt_succ_of_lt (h.made r hr)
    · intro c hc
      exact Nat.lt_succ_of_lt (h.madeAborted c hc)
    · intro jobId c hl
      rcases lookup_entered.mp hl with ⟨rfl, hne, rfl⟩ | ⟨-, hl⟩
      · exact ⟨hne, w.called worker job, List.mem_cons_self, rfl, rfl⟩
      · obtain ⟨hne, r, hr, he⟩ := h.entries jobId c hl
        exact ⟨hne, r, List.mem_cons_of_mem _ hr, he⟩
    · intro r hr
      rcases List.mem_cons.mp hr with rfl | hr
      · exact Or.inl ⟨worker, hw, rfl⟩
      · exact h.held r hr
  · rw [processJob_of_not_handles hh]
    exact h

theorem Registered.settle (h : Registered w) (hr : r ∈ w.running) : Registered (w.settle r) where
  keyed := h.keyed.sublist List.filter_sublist
  made := fun r' hr' => h.made r' (mem_settle_running.mp hr').1
  madeAborted := h.madeAborted
  entries := by
    intro jobId c hl
    obtain ⟨hk, hl⟩ := lookup_settle.mp hl
    obtain ⟨hne, r', hr', rfl, rfl⟩ := h.entries jobId c hl
    have hjob : r'.ctx.jobId ≠ r.ctx.jobId := hk.resolve_right hne
    refine ⟨hne, r', mem_settle_running.mpr ⟨hr', fun hs => hjob ?_⟩, rfl, rfl⟩
    have he : r' = r := h.keyed.eq_of_key_eq hr' hr hs
    rw [he]
  held := fun r' hr' => h.held r' (mem_settle_running.mp hr').1

theorem Registered.abortAll (h : Registered w) : Registered w.abortAll where
  keyed := h.keyed
  made := h.made
  madeAborted := by
    intro c hc
    rcases mem_abortAll_aborted.mp hc with ⟨jobId, hl⟩ | hc
    · obtain ⟨-, r, hr, -, rfl⟩ := h.entries jobId c hl
      exact h.made r hr
    · exact h.madeAborted c hc
  entries := h.entries
  held := h.held

/-- When the last worker is closed nothing runs any more. -/
theorem Registered.close {rest : List Worker} (h : Registered w)
    (hq : ∀ r ∈ w.running, ∃ x ∈ rest, x.queue = r.queue) : Registered (w.close rest) := by
  cases rest with
  | nil =>
    have hnone : w.running = [] := by
      refine List.eq_nil_iff_forall_not_mem.mpr fun r hr => ?_
      obtain ⟨x, hx, -⟩ := hq r hr
      exact List.not_mem_nil hx
    constructor
    · exact h.keyed
    · exact h.made
    · exact h.madeAborted
    · intro jobId c hl
      exact absurd (hl.symm.trans (AList.lookup_empty jobId)) nofun
    · intro r hr
      have hr' : r ∈ w.running := hr
      rw [hnone] at hr'
      exact absurd hr' List.not_mem_nil
  | cons x rest =>
    refine ⟨h.keyed, h.made, h.madeAborted, h.entries, fun r hr => ?_⟩
    obtain ⟨y, hy, he⟩ := hq r hr
    rcases List.mem_cons.mp hy with rfl | hy
    · exact Or.inr ⟨y, rest, rfl, he⟩
    · exact Or.inl ⟨y, hy, he⟩

/-- Once a worker is closed, what runs has been taken by those that are not. -/
theorem Registered.held_rest {rest : List Worker} (h : Registered w) (hc : w.closing = some (worker, rest))
    (hnone : ∀ r ∈ w.running, r.queue ≠ worker.queue) :
    ∀ r ∈ w.running, ∃ x ∈ rest, x.queue = r.queue := by
  intro r hr
  rcases h.held r hr with ⟨x, hx, hq⟩ | ⟨x, rest', hc', hq⟩
  · rw [taking, hc] at hx
    exact ⟨x, hx, hq⟩
  · rw [hc] at hc'
    cases hc'
    exact absurd hq.symm (hnone r hr)

theorem Registered.step {e : Event} (h : Registered w) (hs : step w e = some w') : Registered w' := by
  cases e with
  | opened worker =>
    obtain ⟨-, rfl⟩ := step_opened.mp hs
    exact h.addWorker worker
  | taken worker job =>
    obtain ⟨⟨hw, -⟩, rfl⟩ := step_taken.mp hs
    exact h.processJob hw
  | settled signal =>
    obtain ⟨r, hr, -, rfl⟩ := step_settled hs
    exact h.settle hr
  | stop =>
    rcases step_stop hs with ⟨-, rfl⟩ | ⟨hc, rfl⟩
    · exact h.abortAll
    · refine h.abortAll.close fun r hr => ?_
      rcases h.held r hr with ⟨x, hx, hq⟩ | ⟨x, rest, hc', -⟩
      · rw [taking, hc] at hx
        exact ⟨x, hx, hq⟩
      · rw [hc] at hc'
        cases hc'
  | closed =>
    obtain ⟨worker, rest, hc, hnone, rfl⟩ := step_closed hs
    exact h.close (h.held_rest hc hnone)

/-! ## Who is aborted -/

/-- A `stop` at this time leaves no running handler without an aborted signal. -/
def StopAbortsAll (w : BullJobWorker) : Prop := ∀ r ∈ w.running, r.ctx.signal ∈ w.abortAll.aborted

/-- No handler with this id, other than that of the signal, runs with its signal not aborted. -/
def IdFree (w : BullJobWorker) (jobId : String) (signal : Option ℕ) : Prop :=
  ∀ r ∈ w.running, r.ctx.jobId = jobId → r.ctx.signal ∈ w.aborted ∨ some r.ctx.signal = signal

/-- What the ids of the jobs would have to be. -/
def IdsApart (w : BullJobWorker) : Event → Prop
  | .taken worker job => Handles worker job → job.jobId ≠ "" ∧ IdFree w job.jobId none
  | .settled signal => ∀ r ∈ w.running, r.ctx.signal = signal → IdFree w r.ctx.jobId (some signal)
  | _ => True

instance (w : BullJobWorker) (jobId : String) (signal : Option ℕ) : Decidable (IdFree w jobId signal) :=
  inferInstanceAs (Decidable (∀ r ∈ w.running, _))

instance (worker : Worker) (job : Job) : Decidable (Handles worker job) :=
  inferInstanceAs (Decidable (∃ h ∈ worker.handlers, _))

instance (w : BullJobWorker) : (e : Event) → Decidable (IdsApart w e)
  | .taken worker job => inferInstanceAs (Decidable (Handles worker job → _ ∧ _))
  | .settled _ => inferInstanceAs (Decidable (∀ r ∈ w.running, _))
  | .opened _ | .stop | .closed => isTrue trivial

instance (w : BullJobWorker) : Decidable (StopAbortsAll w) :=
  inferInstanceAs (Decidable (∀ r ∈ w.running, _))

/-- The map knows the handler, or its signal is aborted. -/
def Covered (w : BullJobWorker) (r : Running) : Prop :=
  w.activeControllers.lookup r.ctx.jobId = some r.ctx.signal ∨ r.ctx.signal ∈ w.aborted

theorem Registered.stopAbortsAll_iff (h : Registered w) :
    StopAbortsAll w ↔ ∀ r ∈ w.running, Covered w r :=
  forall₂_congr fun _ hr => h.aborts_iff hr

theorem stopAbortsAll_processJob (h : Registered w) (hw : worker ∈ w.taking) (ha : StopAbortsAll w)
    (hh : Handles worker job) : StopAbortsAll (w.processJob worker job) ↔
      job.jobId ≠ "" ∧ IdFree w job.jobId none := by
  have h' : Registered (w.processJob worker job) := h.processJob hw
  rw [h.stopAbortsAll_iff] at ha
  rw [h'.stopAbortsAll_iff, processJob_of_handles hh]
  constructor
  · intro ha'
    constructor
    · rcases ha' _ List.mem_cons_self with hl | hc
      · rcases lookup_entered.mp hl with ⟨-, hne, -⟩ | ⟨-, hl⟩
        · exact hne
        · -- the number of the new controller is in no entry
          obtain ⟨-, r, hr, -, hs⟩ := h.entries _ _ hl
          have hlt := h.made r hr
          simp only [called] at hs
          omega
      · have hlt := h.madeAborted _ hc
        simp only [called] at hlt
        omega
    · intro r hr hid
      have hlt := h.made r hr
      rcases ha' r (List.mem_cons_of_mem _ hr) with hl | hc
      · rcases lookup_entered.mp hl with ⟨-, -, hs⟩ | ⟨hne | he, hl⟩
        · omega
        · exact absurd hid hne
        · exact absurd (hid.trans he) (h.entries _ _ hl).1
      · exact Or.inl hc
  · rintro ⟨hne, hfree⟩ r hr
    rcases List.mem_cons.mp hr with rfl | hr
    · exact Or.inl (lookup_entered.mpr (Or.inl ⟨rfl, hne, rfl⟩))
    · rcases ha r hr with hl | hc
      · by_cases hid : r.ctx.jobId = job.jobId
        · exact Or.inr ((hfree r hr hid).resolve_right nofun)
        · exact Or.inl (lookup_entered.mpr (Or.inr ⟨Or.inl hid, hl⟩))
      · exact Or.inr hc

theorem stopAbortsAll_settle (h : Registered w) (ha : StopAbortsAll w) (hr : r ∈ w.running) :
    StopAbortsAll (w.settle r) ↔ IdFree w r.ctx.jobId (some r.ctx.signal) := by
  have h' := h.settle hr
  rw [h.stopAbortsAll_iff] at ha
  rw [h'.stopAbortsAll_iff]
  constructor
  · intro ha' r' hr' hid
    by_cases hs : r'.ctx.signal = r.ctx.signal
    · exact Or.inr (congrArg some hs)
    · refine Or.inl ?_
      rcases ha' r' (mem_settle_running.mpr ⟨hr', hs⟩) with hl | hc
      · obtain ⟨hk, hl⟩ := lookup_settle.mp hl
        exact absurd (hk.resolve_left (absurd hid)) (h.entries _ _ hl).1
      · exact hc
  · intro hfree r' hr'
    obtain ⟨hr', hs⟩ := mem_settle_running.mp hr'
    rcases ha r' hr' with hl | hc
    · by_cases hid : r'.ctx.jobId = r.ctx.jobId
      · have hc := (hfree r' hr' hid).resolve_right fun he => hs (Option.some.inj he)
        exact Or.inr hc
      · exact Or.inl (lookup_settle.mpr ⟨Or.inl hid, hl⟩)
    · exact Or.inr hc

theorem stopAbortsAll_step {e : Event} (h : Registered w) (ha : StopAbortsAll w)
    (hs : step w e = some w') : StopAbortsAll w' ↔ IdsApart w e := by
  cases e with
  | opened worker =>
    obtain ⟨-, rfl⟩ := step_opened.mp hs
    exact iff_of_true ha trivial
  | taken worker job =>
    obtain ⟨⟨hw, -⟩, rfl⟩ := step_taken.mp hs
    by_cases hh : Handles worker job
    · rw [stopAbortsAll_processJob h hw ha hh]
      exact ⟨fun hid _ => hid, fun hid => hid hh⟩
    · rw [processJob_of_not_handles hh]
      exact iff_of_true ha fun hh' => absurd hh' hh
  | settled signal =>
    obtain ⟨r, hr, rfl, rfl⟩ := step_settled hs
    rw [stopAbortsAll_settle h ha hr]
    constructor
    · intro hfree r' hr' he
      have he' : r' = r := h.keyed.eq_of_key_eq hr' hr he
      rw [he']
      exact hfree
    · intro hid
      exact hid r hr rfl
  | stop =>
    refine iff_of_true (fun r hr => ?_) trivial
    -- all that run are aborted now, whatever the map becomes
    rcases step_stop hs with ⟨-, rfl⟩ | ⟨-, rfl⟩
    · exact mem_abortAll_aborted.mpr (Or.inr (ha r hr))
    · rw [close_running] at hr
      rw [mem_abortAll_aborted, close_aborted]
      exact Or.inr (ha r hr)
  | closed =>
    refine iff_of_true ?_ trivial
    have h' := h.step hs
    rw [h'.stopAbortsAll_iff]
    rw [h.stopAbortsAll_iff] at ha
    obtain ⟨worker, rest, hc, hnone, rfl⟩ := step_closed hs
    intro r hr
    rw [close_running] at hr
    cases rest with
    | nil =>
      obtain ⟨x, hx, -⟩ := h.held_rest hc hnone r hr
      exact absurd hx List.not_mem_nil
    | cons x rest => exact ha r hr

/-- What is aborted after a step other than `stop` was so before. -/
theorem aborted_step {e : Event} (h : Registered w) (he : e ≠ .stop) (hs : step w e = some w') :
    ∀ r ∈ w'.running, r.ctx.signal ∈ w'.aborted → r ∈ w.running ∧ r.ctx.signal ∈ w.aborted := by
  intro r hr hc
  cases e with
  | opened worker =>
    obtain ⟨-, rfl⟩ := step_opened.mp hs
    exact ⟨hr, hc⟩
  | taken worker job =>
    obtain ⟨-, rfl⟩ := step_taken.mp hs
    by_cases hh : Handles worker job
    · rw [processJob_of_handles hh] at hr hc
      rcases List.mem_cons.mp hr with rfl | hr
      · exact absurd (h.madeAborted _ hc) (Nat.lt_irrefl _)
      · exact ⟨hr, hc⟩
    · rw [processJob_of_not_handles hh] at hr hc
      exact ⟨hr, hc⟩
  | settled signal =>
    obtain ⟨r₀, -, -, rfl⟩ := step_settled hs
    exact ⟨(mem_settle_running.mp hr).1, hc⟩
  | stop => exact absurd rfl he
  | closed =>
    obtain ⟨worker, rest, -, -, rfl⟩ := step_closed hs
    rw [close_running] at hr
    rw [close_aborted] at hc
    exact ⟨hr, hc⟩

end

/-! ## Runs -/

/-- What `stop` and the map are for, over a run. -/
structure StopsWell (events : List Event) : Prop where
  /-- at any time, a `stop` aborts the signal of every handler that runs -/
  aborts : AllStates step StopAbortsAll init events
  /-- what other events leave aborted was aborted before them -/
  notBefore : ∀ l₁ l₂, l₁ ++ l₂ <+: events → .stop ∉ l₂ → ∀ w₁ w₂, run step init l₁ = some w₁ →
    run step w₁ l₂ = some w₂ → ∀ r ∈ w₂.running, r.ctx.signal ∈ w₂.aborted →
      r ∈ w₁.running ∧ r.ctx.signal ∈ w₁.aborted
  /-- the map is empty when no handler runs -/
  drained : AllStates step (fun w => w.running = [] → w.activeControllers = ∅) init events

theorem registered_run {events : List Event} {w : BullJobWorker} (hr : run step init events = some w) :
    Registered w :=
  run_inv (fun _ _ _ h hs => h.step hs) registered_init hr

theorem aborted_run {w w' : BullJobWorker} {events : List Event} (h : Registered w)
    (hno : Event.stop ∉ events) (hr : run step w events = some w') :
    ∀ r ∈ w'.running, r.ctx.signal ∈ w'.aborted → r ∈ w.running ∧ r.ctx.signal ∈ w.aborted := by
  have hG : AllSteps step (fun _ e => e ≠ .stop) w events :=
    allSteps_of_forall (fun e he _ heq => by rw [heq] at he; exact hno he) w
  refine (run_inv_of_allSteps (I := fun w' => Registered w' ∧ ∀ r ∈ w'.running,
    r.ctx.signal ∈ w'.aborted → r ∈ w.running ∧ r.ctx.signal ∈ w.aborted) ?_ ⟨h, ?_⟩ hG hr).2
  · rintro w₁ e w₂ ⟨h₁, hw₁⟩ he hs
    refine ⟨h₁.step hs, fun r hr hc => ?_⟩
    obtain ⟨hr', hc'⟩ := aborted_step h₁ he hs r hr hc
    exact hw₁ r hr' hc'
  · intro r hr hc
    exact ⟨hr, hc⟩

/-- **A run stops well exactly when the ids of its jobs are apart.** -/
theorem stopsWell_iff {events : List Event} {w : BullJobWorker} (hr : run step init events = some w) :
    StopsWell events ↔ AllSteps step IdsApart init events := by
  have hsteps : AllStates step StopAbortsAll init events ↔ AllSteps step IdsApart init events := by
    refine allStates_iff_allSteps (I := Registered) (C := fun _ _ => True) ?_ ?_ registered_init nofun
      (allSteps_of_forall (fun _ _ _ => trivial) init) hr
    · intro w e w' h _ _ _ hs
      exact h.step hs
    · intro w e w' h ha _ hs
      exact stopAbortsAll_step h ha hs
  rw [← hsteps]
  refine ⟨StopsWell.aborts, fun ha => ⟨ha, ?_, ?_⟩⟩
  · intro l₁ l₂ _ hno w₁ w₂ h₁ h₂
    exact aborted_run (registered_run h₁) hno h₂
  · intro pre _ w' hpre
    exact (registered_run hpre).drained

/-- One job of the queue, numbered as BullMQ numbers the jobs of a queue. -/
def firstOf (queue name : String) : List Event :=
  [.opened ⟨queue, [⟨queue, name⟩]⟩, .taken ⟨queue, [⟨queue, name⟩]⟩ ⟨some "1", name, 0⟩]

/-- A worker of two queues whose jobs have different ids is stopped while one handler runs. -/
theorem stopsWell_scan_and_rescan : StopsWell (firstOf "file-rescan" "rescan-files" ++
    [.opened ⟨"file-scan", [⟨"file-scan", "scan"⟩]⟩,
      .taken ⟨"file-scan", [⟨"file-scan", "scan"⟩]⟩ ⟨some "scan-t-f-1", "scan", 0⟩,
      .settled 0, .stop, .settled 1, .closed, .closed]) :=
  (stopsWell_iff rfl).mpr
    (allSteps_of_checkSteps (g := fun w e => decide (IdsApart w e)) (fun _ _ => of_decide_eq_true) (by decide))

/-- The first jobs of two queues have the same id. -/
theorem not_stopsWell_two_queues : ¬ ∀ events w, run step init events = some w → StopsWell events := by
  intro h
  have hwell := h (firstOf "file-rescan" "rescan-files" ++ firstOf "file-purge-deleted" "purge-deleted-files")
    _ rfl
  have hlast := hwell.aborts.last rfl
  revert hlast
  decide

end BullJobWorker

end Neltrik.Shared.JobWorker
