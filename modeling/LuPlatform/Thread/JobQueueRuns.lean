import LuPlatform.Library.ActionRuns
import LuPlatform.Thread.JobQueue
import LuPlatform.Thread.JobRuns

/-! A job queue on a job manager that others use as well. An operation of the queue, with what it asks
of the manager, is one step, and so is a notification with what the queue does about it. Jobs are
compared by their own `operator==`. -/

namespace LuPlatform.Thread

namespace JobQueue

variable (same : Nat → Nat → Bool) (q : JobQueue) (job : Nat)

/-- The job is in the queue already, as the jobs there see it. -/
def has : Bool := q.jobQueue.any (fun p => same p.job job) || q.processing.any fun p => same p.job job

def push : JobQueue :=
  if q.lifo then { q with jobQueue := q.jobQueue ++ [{ job }] }
  else { q with jobQueue := { job } :: q.jobQueue }

/-- What `std::find` meets in `m_processing`. -/
def findProcessing : Option JobPointer := q.processing.find? fun p => same p.job job

def eraseProcessing : JobQueue := { q with processing := q.processing.eraseP fun p => same p.job job }

def findQueued : Option JobPointer := q.jobQueue.find? fun p => same p.job job

def eraseQueued : JobQueue := { q with jobQueue := q.jobQueue.eraseP fun p => same p.job job }

variable {same q job} in
/-- The entry that is met is the one that goes. -/
theorem findProcessing_cases {p : JobPointer} (h : q.findProcessing same job = some p) :
    ∃ before after, q.processing = before ++ p :: after ∧ same p.job job = true ∧
      (q.eraseProcessing same job).processing = before ++ after := by
  obtain ⟨hsame, before, after, hprocessing, hothers⟩ := List.find?_eq_some_iff_append.1 h
  refine ⟨before, after, hprocessing, hsame, ?_⟩
  have hskip : ∀ b ∈ before, ¬ same b.job job = true := by simpa using hothers
  rw [eraseProcessing, hprocessing, List.eraseP_append_right _ hskip,
    List.eraseP_cons_of_pos (by exact hsame)]

variable {same q job} in
theorem mem_eraseProcessing {p : JobPointer} (hp : p ∈ q.processing) :
    p ∈ (q.eraseProcessing same job).processing ∨ q.findProcessing same job = some p := by
  cases hfind : q.findProcessing same job with
  | none =>
    rw [findProcessing, List.find?_eq_none] at hfind
    rw [eraseProcessing, List.eraseP_of_forall_not hfind]
    exact .inl hp
  | some found =>
    obtain ⟨before, after, hprocessing, -, herase⟩ := findProcessing_cases hfind
    rw [hprocessing, List.mem_append, List.mem_cons] at hp
    rw [herase, List.mem_append]
    rcases hp with hbefore | rfl | hafter
    · exact .inl (.inl hbefore)
    · exact .inr rfl
    · exact .inl (.inr hafter)

/-- Jobs that compare by their address, as those of `submit` do. -/
theorem addJob_eq : q.addJob job = if q.has (fun a b => a = b) job then none else some (q.push job) := by
  unfold addJob has push
  split
  · rfl
  · split <;> rfl

end JobQueue

/-- A manager that runs gives an id. -/
theorem JobManager.nextId_pos (m : JobManager) : 0 < m.nextId := by
  apply (BitVec.pos_iff_ne_zero _).2
  unfold nextId
  split
  · rename_i hzero
    rw [hzero]
    decide
  · assumption

namespace JobSystem

/-- `JobManager::addJob` for a job that was allocated before, with the id that it returns. -/
def submit (hardwareConcurrency : BitVec 32) (s : JobSystem) (job : Nat)
    (callback : Option Callback) (priority : Priority) : JobSystem × BitVec 32 :=
  if s.manager.running then
    (({ s with
      manager := s.manager.enqueue job callback priority
      events := s.events ++ [.accepted job s.manager.nextId] } : JobSystem).startWorkers
        hardwareConcurrency priority, s.manager.nextId)
  else
    (s.raise [.freed job], 0)

theorem addJob_eq_submit (hardwareConcurrency : BitVec 32) (s : JobSystem)
    (callback : Option Callback) (priority : Priority) :
    s.addJob hardwareConcurrency callback priority =
      (({ s with jobs := s.jobs + 1 } : JobSystem).submit hardwareConcurrency s.jobs callback
        priority).1 := by
  unfold addJob submit
  split <;> rfl

end JobSystem

structure JobQueueSystem where
  system : JobSystem := {}
  queue : JobQueue
  /-- The jobs handed to `JobManager::addJob`, in this order. -/
  submitted : List Nat := []
  /-- The jobs that left `m_processing` by something else than their own completion. -/
  released : List Nat := []

inductive JobQueueAction where
  | addJob
  | cancelJob (job : Nat)
  | cancelJobs
  /-- A step of a worker or of another user of the manager. -/
  | manager (a : JobAction)
  deriving DecidableEq, Repr

namespace JobQueueSystem

/-- The queue, as the manager knows it. -/
def self : Callback := .jobQueue 0

def initial (lifo : Bool) (jobsAtOnce : Nat) (priority : Priority) : JobQueueSystem :=
  { queue := { lifo, jobsAtOnce, priority } }

section Steps

variable (same : Nat → Nat → Bool) (hardwareConcurrency : BitVec 32)

def setSystem (s : JobQueueSystem) (system : JobSystem) : JobQueueSystem := { s with system }

/-- What the manager makes of the next job. -/
def submission (s : JobQueueSystem) (p : JobPointer) : JobSystem × BitVec 32 :=
  s.system.submit hardwareConcurrency p.job (some self) s.queue.priority

/-- One round of the loop of `queueNextJob`. -/
def submitNext (s : JobQueueSystem) (p : JobPointer) : JobQueueSystem :=
  { s with
    system := (s.submission hardwareConcurrency p).1
    queue := s.queue.queued (s.submission hardwareConcurrency p).2
    submitted := s.submitted ++ [p.job] }

def queueNextJobs : Nat → JobQueueSystem → JobQueueSystem
  | 0, s => s
  | rounds + 1, s =>
    match s.queue.next with
    | none => s
    | some p =>
      if (s.submission hardwareConcurrency p).2 > 0 then s.submitNext hardwareConcurrency p
      else queueNextJobs rounds (s.submitNext hardwareConcurrency p)

/-- Each round takes one job from the queue. -/
def queueNextJob (s : JobQueueSystem) : JobQueueSystem :=
  queueNextJobs hardwareConcurrency s.queue.jobQueue.length s

/-- The caller allocates the job. One that the queue has already is deleted. -/
def addJob (s : JobQueueSystem) : JobQueueSystem :=
  if s.queue.has same s.system.jobs then
    { s with
      system :=
        ({ s.system with jobs := s.system.jobs + 1 } : JobSystem).raise [.freed s.system.jobs] }
  else
    ({ s with
      system := { s.system with jobs := s.system.jobs + 1 }
      queue := s.queue.push s.system.jobs } : JobQueueSystem).queueNextJob hardwareConcurrency

def cancelJob (s : JobQueueSystem) (job : Nat) : JobQueueSystem :=
  match s.queue.findProcessing same job with
  | some p =>
    { s with
      system := s.system.cancelJob p.id
      queue := s.queue.eraseProcessing same job
      released := s.released ++ [p.job] }
  | none =>
    { s with
      system := s.system.raise ((s.queue.findQueued same job).toList.map (.freed ·.job))
      queue := s.queue.eraseQueued same job }

def cancelJobs (s : JobQueueSystem) : JobQueueSystem :=
  { s with
    system := (s.queue.processing.foldl (fun system p => system.cancelJob p.id) s.system).raise
      (s.queue.jobQueue.map (.freed ·.job))
    queue := { s.queue with jobQueue := [], processing := [] }
    released := s.released ++ s.queue.processing.map (·.job) }

def onJobNotify (s : JobQueueSystem) (job : Nat) : JobQueueSystem :=
  ({ s with queue := s.queue.eraseProcessing same job } : JobQueueSystem).queueNextJob
    hardwareConcurrency

def release (s : JobQueueSystem) (jobs : List Nat) : JobQueueSystem :=
  { s with released := s.released ++ jobs }

def onJobComplete (s : JobQueueSystem) (job : Nat) : JobQueueSystem :=
  (s.release (((s.queue.findProcessing same job).toList.map (·.job)).filter (· ≠ job))).onJobNotify
    same hardwareConcurrency job

def onJobAbort (s : JobQueueSystem) (job : Nat) : JobQueueSystem :=
  (s.release ((s.queue.findProcessing same job).toList.map (·.job))).onJobNotify same
    hardwareConcurrency job

/-- The completion that the next step of a worker tells the queue. -/
def completion (s : JobQueueSystem) (worker : Nat) : Option Nat :=
  match s.system.threads[worker]? with
  | some (.completing item) => if item.callback = some self then some item.job else none
  | _ => none

/-- The jobs of the queue whose abort `JobManager::cancelJobs` tells it. -/
def aborted (s : JobQueueSystem) : List Nat :=
  ((s.system.manager.queued ++ s.system.manager.processing).filter
    (·.callback = some self)).map (·.job)

/-- What the queue does when the manager calls it back. A manager that aborts runs no more, so that
nothing which the queue submits then is taken. -/
def calledBack (s : JobQueueSystem) (a : JobAction) (system : JobSystem) : JobQueueSystem :=
  match a with
  | .worker worker =>
    match s.completion worker with
    | some job => (s.setSystem system).onJobComplete same hardwareConcurrency job
    | none => s.setSystem system
  | .cancelJobs =>
    s.aborted.foldl (onJobAbort same hardwareConcurrency) (s.setSystem system)
  | _ => s.setSystem system

def step (s : JobQueueSystem) : JobQueueAction → Option JobQueueSystem
  | .addJob => some (s.addJob same hardwareConcurrency)
  | .cancelJob job => some (s.cancelJob same job)
  | .cancelJobs => some s.cancelJobs
  | .manager a =>
    (s.system.step hardwareConcurrency a).map (s.calledBack same hardwareConcurrency a)

/-! ### What a step is made of -/

/-- The entry that `std::find` meets is gone, and it was let go of if it is not the job itself. -/
def takeCompleted (s : JobQueueSystem) (job : Nat) : JobQueueSystem :=
  { s.release (((s.queue.findProcessing same job).toList.map (·.job)).filter (· ≠ job)) with
    queue := s.queue.eraseProcessing same job }

def takeAborted (s : JobQueueSystem) (job : Nat) : JobQueueSystem :=
  { s.release ((s.queue.findProcessing same job).toList.map (·.job)) with
    queue := s.queue.eraseProcessing same job }

/-- The changes that the steps consist of. -/
inductive Change (s : JobQueueSystem) : JobQueueSystem → Prop
  | manager {a : JobAction} {system : JobSystem} (h : s.system.step hardwareConcurrency a = some system) :
      Change s (s.setSystem system)
  | complete {worker job : Nat} {system : JobSystem}
      (h : s.system.step hardwareConcurrency (.worker worker) = some system)
      (hjob : s.completion worker = some job) : Change s ((s.setSystem system).takeCompleted same job)
  | abort (job : Nat) : Change s (s.takeAborted same job)
  | submit {p : JobPointer} (hnext : s.queue.next = some p) :
      Change s (s.submitNext hardwareConcurrency p)
  | push (hnew : s.queue.has same s.system.jobs = false) :
      Change s { s with
        system := { s.system with jobs := s.system.jobs + 1 }
        queue := s.queue.push s.system.jobs }
  | reject :
      Change s { s with
        system :=
          ({ s.system with jobs := s.system.jobs + 1 } : JobSystem).raise [.freed s.system.jobs] }
  | cancel {job : Nat} {p : JobPointer} (hfind : s.queue.findProcessing same job = some p) :
      Change s
        { s with
          system := s.system.cancelJob p.id
          queue := s.queue.eraseProcessing same job
          released := s.released ++ [p.job] }
  | free (job : Nat) :
      Change s
        { s with
          system := s.system.raise ((s.queue.findQueued same job).toList.map (.freed ·.job))
          queue := s.queue.eraseQueued same job }
  | cancelJobs : Change s s.cancelJobs

variable {same hardwareConcurrency} {s s' : JobQueueSystem}

theorem completion_cases {worker job : Nat} (h : s.completion worker = some job) :
    ∃ item, s.system.threads[worker]? = some (.completing item) ∧ item.job = job := by
  unfold completion at h
  split at h
  · rename_i item ht
    rw [Option.ite_none_right_eq_some] at h
    exact ⟨item, ht, Option.some.inj h.2⟩
  · cases h

/-- What every round of the loop keeps is kept by `queueNextJob`. -/
theorem queueNextJob_rule {P : JobQueueSystem → Prop} (h : P s)
    (round : ∀ s p, P s → s.queue.next = some p → P (s.submitNext hardwareConcurrency p)) :
    P (s.queueNextJob hardwareConcurrency) := by
  unfold queueNextJob
  generalize s.queue.jobQueue.length = rounds
  induction rounds generalizing s with
  | zero => exact h
  | succ rounds ih =>
    rw [queueNextJobs]
    cases hnext : s.queue.next with
    | none => exact h
    | some p =>
      have hround := round s p h hnext
      dsimp only
      split
      · exact hround
      · exact ih hround

section Rule

variable {P : JobQueueSystem → Prop} (keep : ∀ s s', Change same hardwareConcurrency s s' → P s → P s')

include keep

theorem queueNextJob_keeps (h : P s) : P (s.queueNextJob hardwareConcurrency) := by
  apply queueNextJob_rule h
  intro s p hs hnext
  exact keep s _ (.submit hnext) hs

theorem onJobAbort_keeps (h : P s) (job : Nat) :
    P (s.onJobAbort same hardwareConcurrency job) := by
  apply queueNextJob_keeps keep
  exact keep s _ (.abort job) h

theorem calledBack_keeps {a : JobAction} {system : JobSystem}
    (hstep : s.system.step hardwareConcurrency a = some system) (h : P s) :
    P (s.calledBack same hardwareConcurrency a system) := by
  have hsystem : P (s.setSystem system) := keep s _ (.manager hstep) h
  unfold calledBack
  split
  · rename_i worker
    cases hjob : s.completion worker with
    | none => exact hsystem
    | some job =>
      apply queueNextJob_keeps keep
      exact keep s _ (.complete hstep hjob) h
  · generalize s.aborted = jobs
    generalize s.setSystem system = s at hsystem
    induction jobs generalizing s with
    | nil => exact hsystem
    | cons job jobs ih => exact ih _ (onJobAbort_keeps keep hsystem job)
  · exact hsystem

/-- What every change keeps is kept by every step. -/
theorem step_keeps {a : JobQueueAction} (hstep : s.step same hardwareConcurrency a = some s')
    (h : P s) : P s' := by
  cases a with
  | addJob =>
    obtain rfl := Option.some.inj hstep
    unfold addJob
    split
    · exact keep s _ .reject h
    · rename_i hnew
      apply queueNextJob_keeps keep
      exact keep s _ (.push (by simpa using hnew)) h
  | cancelJob job =>
    obtain rfl := Option.some.inj hstep
    unfold cancelJob
    cases hfind : s.queue.findProcessing same job with
    | none => exact keep s _ (.free job) h
    | some p => exact keep s _ (.cancel hfind) h
  | cancelJobs => exact Option.some.inj hstep ▸ keep s _ .cancelJobs h
  | manager a =>
    obtain ⟨system, hsystem, rfl⟩ := Option.map_eq_some_iff.1 hstep
    exact calledBack_keeps keep hsystem h

theorem run_keeps {s₀ : JobQueueSystem} {actions : List JobQueueAction} (h : P s₀)
    (hrun : Actions.run (step same hardwareConcurrency) s₀ actions = some s) : P s := by
  apply Actions.run_invariant (P := fun _ s => P s) h _ hrun
  intro _ s a s' _ hs hstep
  exact step_keeps keep hstep hs

end Rule

theorem next_cases {q : JobQueue} {p : JobPointer} (h : q.next = some p) :
    q.processing.length < q.jobsAtOnce ∧ q.jobQueue = q.jobQueue.dropLast ++ [p] := by
  unfold JobQueue.next at h
  split at h
  · rename_i hroom
    refine ⟨hroom, ?_⟩
    exact (List.dropLast_append_getLast? p h).symm
  · cases h

/-- The options that a queue is made with. -/
theorem Change.settings (h : Change same hardwareConcurrency s s') :
    s'.queue.lifo = s.queue.lifo ∧ s'.queue.jobsAtOnce = s.queue.jobsAtOnce := by
  cases h with
  | push hnew =>
    dsimp only [JobQueue.push]
    split <;> exact ⟨rfl, rfl⟩
  | _ => exact ⟨rfl, rfl⟩

theorem settings_of_run {s₀ : JobQueueSystem} {actions : List JobQueueAction}
    (hrun : Actions.run (step same hardwareConcurrency) s₀ actions = some s) :
    s.queue.lifo = s₀.queue.lifo ∧ s.queue.jobsAtOnce = s₀.queue.jobsAtOnce := by
  apply run_keeps (P := fun s => s.queue.lifo = s₀.queue.lifo ∧
    s.queue.jobsAtOnce = s₀.queue.jobsAtOnce) _ ⟨rfl, rfl⟩ hrun
  intro s s' hchange h
  exact ⟨hchange.settings.1.trans h.1, hchange.settings.2.trans h.2⟩

end Steps

end JobQueueSystem

end LuPlatform.Thread
