import LuPlatform.Library.TransitionSystem
import LuPlatform.Thread.JobManager

/-! A job manager with its workers and any number of threads that use it. Each step is one critical
section, or what a worker does between two of them. -/

namespace LuPlatform.Thread

open Transition

/-- Where a worker stands. It holds a job that `getNextJob` gave it; it has copied the item, and the
callback comes next; the callback is done; the item is erased, and the job is to be freed. -/
inductive JobWorker where
  | ready | waiting | notified
  | holding (job : Nat)
  | completing (item : WorkItem)
  | called (item : WorkItem)
  | erased (item : WorkItem)
  | leaving | gone
  deriving DecidableEq, Repr

/-- What the users of a manager can tell. -/
inductive JobEvent where
  | accepted (job : Nat) (id : BitVec 32)
  | handed (job worker : Nat)
  | doWork (job : Nat)
  | onJobComplete (job : Nat) (id : BitVec 32)
  | onJobAbort (job : Nat) (id : BitVec 32)
  | freed (job : Nat)
  | cancelled (id : BitVec 32)
  deriving DecidableEq, Repr

structure JobSystem where
  manager : JobManager := {}
  threads : List JobWorker := []
  /-- How many jobs were allocated. -/
  jobs : Nat := 0
  /-- How many threads are in the loop at the end of `cancelJobs`. -/
  cancelling : Nat := 0
  events : List JobEvent := []

def WorkItem.abortEvents (item : WorkItem) : List JobEvent :=
  if item.callback.isSome then [.onJobAbort item.job item.id] else []

def WorkItem.completeEvents (item : WorkItem) : List JobEvent :=
  if item.callback.isSome then [.onJobComplete item.job item.id] else []

/-- `notify_all` reaches the workers that wait. -/
def JobWorker.notify : JobWorker → JobWorker
  | .waiting => .notified
  | t => t

inductive JobAction where
  | addJob (callback : Option Callback) (priority : Priority)
  | cancelJob (jobID : BitVec 32)
  | cancelJobs | notifyAll | cancelJobsReturn | restart
  | pauseJobs | unPauseJobs
  /-- A wait may end for no reason. -/
  | wake (worker : Nat)
  | worker (worker : Nat)
  deriving DecidableEq, Repr

namespace JobSystem

section Steps

variable (hardwareConcurrency : BitVec 32)

def notifyAll (s : JobSystem) : JobSystem := { s with threads := s.threads.map (·.notify) }

def setThread (s : JobSystem) (worker : Nat) (t : JobWorker) : JobSystem :=
  { s with threads := s.threads.set worker t }

def raise (s : JobSystem) (events : List JobEvent) : JobSystem :=
  { s with events := s.events ++ events }

/-- A new worker comes last. -/
def newWorker (s : JobSystem) : JobSystem :=
  { s with
    manager := { s.manager with workers := s.manager.workers ++ [s.threads.length] }
    threads := s.threads ++ [.ready] }

def startWorkers (s : JobSystem) (priority : Priority) : JobSystem :=
  match s.manager.startWorkers hardwareConcurrency priority with
  | .nothing => s
  | .notifyAll => s.notifyAll
  | .newWorker => s.newWorker

/-- The caller allocates the job. -/
def addJob (s : JobSystem) (callback : Option Callback) (priority : Priority) : JobSystem :=
  if s.manager.running then
    ({ s with
      manager := s.manager.enqueue s.jobs callback priority
      jobs := s.jobs + 1
      events := s.events ++ [.accepted s.jobs s.manager.nextId] } : JobSystem).startWorkers
        hardwareConcurrency priority
  else
    { s with jobs := s.jobs + 1, events := s.events ++ [.freed s.jobs] }

def cancelJob (s : JobSystem) (jobID : BitVec 32) : JobSystem :=
  match s.manager.cancelQueued jobID with
  | some (item, m) => { s with manager := m, events := s.events ++ [.freed item.job, .cancelled jobID] }
  | none =>
    { s with manager := s.manager.cancelProcessing jobID, events := s.events ++ [.cancelled jobID] }

def cancelJobs (s : JobSystem) : JobSystem :=
  { s with
    manager := s.manager.cancelAll
    cancelling := s.cancelling + if s.manager.workers.isEmpty then 0 else 1
    events := s.events ++
      ((s.manager.queued.flatMap fun item => item.abortEvents ++ [.freed item.job]) ++
        s.manager.processing.flatMap (·.abortEvents)) }

/-- The loop of `getNextJob` from one wait to the next. -/
def getNextJob (s : JobSystem) (worker : Nat) : JobSystem :=
  if s.manager.running then
    match s.manager.popJob hardwareConcurrency with
    | some (item, m) =>
      { s with
        manager := m
        threads := s.threads.set worker (.holding item.job)
        events := s.events ++ [.handed item.job worker] }
    | none => s.setThread worker .waiting
  else
    s.setThread worker .leaving

def beginComplete (s : JobSystem) (worker job : Nat) : JobSystem :=
  match s.manager.processing.find? (·.job = job) with
  | some item => s.setThread worker (.completing item)
  | none => s.setThread worker .ready

def endComplete (s : JobSystem) (worker : Nat) (item : WorkItem) : JobSystem :=
  { s with
    manager := s.manager.complete item.job
    threads := s.threads.set worker (.erased item) }

/-- A worker's next step. One that waits or has gone takes none. -/
def workerStep (s : JobSystem) (worker : Nat) : Option JobSystem :=
  match s.threads[worker]? with
  | some .ready | some .notified => some (s.getNextJob hardwareConcurrency worker)
  | some (.holding job) => some (s.beginComplete worker job)
  | some (.completing item) => some ((s.setThread worker (.called item)).raise item.completeEvents)
  | some (.called item) => some (s.endComplete worker item)
  | some (.erased item) => some ((s.setThread worker .ready).raise [.freed item.job])
  | some .leaving =>
    some ({ s with manager := s.manager.removeWorker worker }.setThread worker .gone)
  | _ => none

def step (s : JobSystem) : JobAction → Option JobSystem
  | .addJob callback priority => some (s.addJob hardwareConcurrency callback priority)
  | .cancelJob jobID => some (s.cancelJob jobID)
  | .cancelJobs => some s.cancelJobs
  | .notifyAll => if s.cancelling > 0 then some s.notifyAll else none
  | .cancelJobsReturn =>
    if s.cancelling > 0 && s.manager.workers.isEmpty then
      some { s with cancelling := s.cancelling - 1 }
    else
      none
  | .restart =>
    if s.manager.running then none else some { s with manager := { s.manager with running := true } }
  | .pauseJobs => some { s with manager := { s.manager with pauseJobs := true } }
  | .unPauseJobs => some { s with manager := { s.manager with pauseJobs := false } }
  | .wake worker =>
    if s.threads[worker]? = some .waiting then some (s.setThread worker .notified) else none
  | .worker worker => s.workerStep hardwareConcurrency worker

/-- The runs of a manager in which each action meets a condition on the state that it finds. -/
def system (G : JobAction → JobSystem → Prop) : TransitionSystem JobSystem where
  Initial s := s = {}
  Step s s' := ∃ a, G a s ∧ s.step hardwareConcurrency a = some s'

/-- What a step of a worker can be. -/
inductive WorkerStep (s : JobSystem) (worker : Nat) : JobSystem → Prop
  | pop {t : JobWorker} {item : WorkItem} {m : JobManager} (ht : s.threads[worker]? = some t)
      (hidle : t = .ready ∨ t = .notified) (hrunning : s.manager.running = true)
      (hpop : s.manager.popJob hardwareConcurrency = some (item, m)) :
      WorkerStep s worker
        { s with
          manager := m
          threads := s.threads.set worker (.holding item.job)
          events := s.events ++ [.handed item.job worker] }
  | wait {t : JobWorker} (ht : s.threads[worker]? = some t) (hidle : t = .ready ∨ t = .notified)
      (hrunning : s.manager.running = true)
      (hpop : s.manager.popJob hardwareConcurrency = none) :
      WorkerStep s worker (s.setThread worker .waiting)
  | leave {t : JobWorker} (ht : s.threads[worker]? = some t) (hidle : t = .ready ∨ t = .notified)
      (hrunning : s.manager.running = false) : WorkerStep s worker (s.setThread worker .leaving)
  | copy {job : Nat} {item : WorkItem} (ht : s.threads[worker]? = some (.holding job))
      (hfind : s.manager.processing.find? (·.job = job) = some item) :
      WorkerStep s worker (s.setThread worker (.completing item))
  | lost {job : Nat} (ht : s.threads[worker]? = some (.holding job))
      (hfind : s.manager.processing.find? (·.job = job) = none) :
      WorkerStep s worker (s.setThread worker .ready)
  | call {item : WorkItem} (ht : s.threads[worker]? = some (.completing item)) :
      WorkerStep s worker ((s.setThread worker (.called item)).raise item.completeEvents)
  | complete {item : WorkItem} (ht : s.threads[worker]? = some (.called item)) :
      WorkerStep s worker (s.endComplete worker item)
  | free {item : WorkItem} (ht : s.threads[worker]? = some (.erased item)) :
      WorkerStep s worker ((s.setThread worker .ready).raise [.freed item.job])
  | remove (ht : s.threads[worker]? = some .leaving) :
      WorkerStep s worker
        ({ s with manager := s.manager.removeWorker worker }.setThread worker .gone)

theorem getNextJob_step {s : JobSystem} {worker : Nat} {t : JobWorker}
    (ht : s.threads[worker]? = some t) (hidle : t = .ready ∨ t = .notified) :
    WorkerStep hardwareConcurrency s worker (s.getNextJob hardwareConcurrency worker) := by
  unfold getNextJob
  cases hrunning : s.manager.running with
  | false => exact .leave ht hidle hrunning
  | true =>
    cases hpop : s.manager.popJob hardwareConcurrency with
    | none => exact .wait ht hidle hrunning hpop
    | some popped => exact .pop ht hidle hrunning hpop

theorem workerStep_cases {s s' : JobSystem} {worker : Nat}
    (h : s.workerStep hardwareConcurrency worker = some s') :
    WorkerStep hardwareConcurrency s worker s' := by
  unfold workerStep at h
  cases ht : s.threads[worker]? with
  | none => simp [ht] at h
  | some t =>
    cases t with
    | waiting => simp [ht] at h
    | gone => simp [ht] at h
    | ready =>
      simp only [ht, Option.some.injEq] at h
      exact h ▸ getNextJob_step hardwareConcurrency ht (.inl rfl)
    | notified =>
      simp only [ht, Option.some.injEq] at h
      exact h ▸ getNextJob_step hardwareConcurrency ht (.inr rfl)
    | holding job =>
      simp only [ht, Option.some.injEq, beginComplete] at h
      cases hfind : s.manager.processing.find? (·.job = job) with
      | none =>
        rw [hfind] at h
        exact h ▸ .lost ht hfind
      | some item =>
        rw [hfind] at h
        exact h ▸ .copy ht hfind
    | completing item =>
      simp only [ht, Option.some.injEq] at h
      exact h ▸ .call ht
    | called item =>
      simp only [ht, Option.some.injEq] at h
      exact h ▸ .complete ht
    | erased item =>
      simp only [ht, Option.some.injEq] at h
      exact h ▸ .free ht
    | leaving =>
      simp only [ht, Option.some.injEq] at h
      exact h ▸ .remove ht

/-- What a step can be, by its action. -/
inductive ActionStep (s : JobSystem) : JobAction → JobSystem → Prop
  | addJob (callback : Option Callback) (priority : Priority) :
      ActionStep s (.addJob callback priority) (s.addJob hardwareConcurrency callback priority)
  | cancelJob (jobID : BitVec 32) : ActionStep s (.cancelJob jobID) (s.cancelJob jobID)
  | cancelJobs : ActionStep s .cancelJobs s.cancelJobs
  | notifyAll (hcancelling : 0 < s.cancelling) : ActionStep s .notifyAll s.notifyAll
  | cancelJobsReturn (hcancelling : 0 < s.cancelling) (hworkers : s.manager.workers = []) :
      ActionStep s .cancelJobsReturn { s with cancelling := s.cancelling - 1 }
  | restart (hrunning : s.manager.running = false) :
      ActionStep s .restart { s with manager := { s.manager with running := true } }
  | pauseJobs : ActionStep s .pauseJobs { s with manager := { s.manager with pauseJobs := true } }
  | unPauseJobs :
      ActionStep s .unPauseJobs { s with manager := { s.manager with pauseJobs := false } }
  | wake {worker : Nat} (hwaiting : s.threads[worker]? = some .waiting) :
      ActionStep s (.wake worker) (s.setThread worker .notified)
  | worker {worker : Nat} {s' : JobSystem} (h : WorkerStep hardwareConcurrency s worker s') :
      ActionStep s (.worker worker) s'

theorem step_cases {s s' : JobSystem} {a : JobAction}
    (h : s.step hardwareConcurrency a = some s') : ActionStep hardwareConcurrency s a s' := by
  cases a with
  | addJob callback priority => exact Option.some.inj h ▸ .addJob callback priority
  | cancelJob jobID => exact Option.some.inj h ▸ .cancelJob jobID
  | cancelJobs => exact Option.some.inj h ▸ .cancelJobs
  | notifyAll =>
    simp only [step, Option.ite_none_right_eq_some, Option.some.injEq] at h
    obtain ⟨hcancelling, rfl⟩ := h
    exact .notifyAll hcancelling
  | cancelJobsReturn =>
    simp only [step, Option.ite_none_right_eq_some, Option.some.injEq, Bool.and_eq_true,
      decide_eq_true_eq, List.isEmpty_iff] at h
    obtain ⟨⟨hcancelling, hworkers⟩, rfl⟩ := h
    exact .cancelJobsReturn hcancelling hworkers
  | restart =>
    simp only [step, Option.ite_none_left_eq_some, Option.some.injEq, Bool.not_eq_true] at h
    obtain ⟨hrunning, rfl⟩ := h
    exact .restart hrunning
  | pauseJobs => exact Option.some.inj h ▸ .pauseJobs
  | unPauseJobs => exact Option.some.inj h ▸ .unPauseJobs
  | wake worker =>
    simp only [step, Option.ite_none_right_eq_some, Option.some.injEq] at h
    obtain ⟨hwaiting, rfl⟩ := h
    exact .wake hwaiting
  | worker worker => exact .worker (workerStep_cases hardwareConcurrency h)

/-- Actions one after the other. -/
def run (s : JobSystem) : List JobAction → Option JobSystem
  | [] => some s
  | a :: actions => (s.step hardwareConcurrency a).bind (run · actions)

variable {hardwareConcurrency} in
theorem exists_reachable {G : JobAction → JobSystem → Prop} {P : JobSystem → Prop}
    [DecidablePred P] {actions : List JobAction} (hG : ∀ a ∈ actions, ∀ s, G a s)
    (h : ((run hardwareConcurrency {} actions).any fun s => decide (P s)) = true) :
    ∃ s, (system hardwareConcurrency G).Reachable s ∧ P s := by
  obtain ⟨s, hrun, hP⟩ := (Option.any_eq_true _ _).1 h
  have hreaches : ∀ (actions : List JobAction) (s₀ : JobSystem), (∀ a ∈ actions, ∀ s, G a s) →
      run hardwareConcurrency s₀ actions = some s → (system hardwareConcurrency G).Reachable s₀ →
        (system hardwareConcurrency G).Reachable s := by
    intro actions
    induction actions with
    | nil =>
      intro s₀ _ hrun hs₀
      exact Option.some.inj hrun ▸ hs₀
    | cons a actions ih =>
      intro s₀ hG hrun hs₀
      obtain ⟨s₁, hstep, hrest⟩ := Option.bind_eq_some_iff.1 hrun
      exact ih s₁ (fun b hb => hG b (List.mem_cons_of_mem a hb)) hrest
        (hs₀.reaches (.step (.refl _) ⟨a, hG a List.mem_cons_self s₀, hstep⟩))
  exact ⟨s, hreaches actions {} hG hrun (.initial rfl), of_decide_eq_true hP⟩

theorem WorkerStep.alive {s s' : JobSystem} {worker : Nat}
    (h : WorkerStep hardwareConcurrency s worker s') : worker < s.threads.length := by
  cases h <;> exact (List.getElem?_eq_some_iff.1 ‹_›).1

end Steps

end JobSystem

end LuPlatform.Thread
